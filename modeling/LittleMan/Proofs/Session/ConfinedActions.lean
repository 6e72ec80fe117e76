import LittleMan.Proofs.Protocol.ClientEdit
import LittleMan.Proofs.Session.Rewording

/-! What a client can and cannot bring about by the diagnostics that it returns. Their wording has no part
in the edits, all edits are of the one document, and only mnemonics take the place of what is none. -/

namespace LittleMan

open Handler Json

theorem forall_mem_iff {α β : Type} {R : α → β → Prop} {P : α → Prop} {Q : β → Prop} {as : List α}
    {bs : List β} (h : List.Forall₂ R as bs) (hR : ∀ a b, R a b → (P a ↔ Q b)) :
    (∀ a ∈ as, P a) ↔ ∀ b ∈ bs, Q b := by
  induction h with
  | nil => simp
  | cons hab _ ih => rw [List.forall_mem_cons, List.forall_mem_cons, hR _ _ hab, ih]

/-- An action of the right document, which puts mnemonics in the place of what is none. -/
structure Action.IsConfined (x : Action) (s : Source) : Prop where
  uri : x.uri = s.name
  mnemonic : ∀ d ∈ x.diagnostics, d.kind = .invalidInstruction →
    ∀ e ∈ x.edits, ∃ m : Mnemonic, e.text = m.text

section

variable {s : Source} {records : List Record} {labels : LabelTable} {d : Diagnostic} {x : Action}

theorem QuickFix.exists_mnemonic_of_fixes {fs : List (Text × Edit)}
    (hk : d.kind = .invalidInstruction) (h : fixes s records labels d = .ok fs) :
    ∀ f ∈ fs, ∃ m : Mnemonic, f.2.text = m.text := by
  simp only [fixes, hk] at h
  obtain ⟨chosen, rfl⟩ : ∃ chosen : List Mnemonic,
      chosen.map (fun m => (("Change to " ++ m.name : Text), replacement d m.text)) = fs := by
    split at h
    · obtain ⟨chosen, -, h⟩ := bind_eq_ok_iff.1 h
      exact ⟨chosen, Except.ok.inj h⟩
    · exact ⟨_, Except.ok.inj h⟩
  intro f hf
  obtain ⟨m, -, rfl⟩ := List.mem_map.1 hf
  exact ⟨m, rfl⟩

theorem QuickFix.isConfined_of_mem_actions {as : List Action}
    (h : actions s records labels d = .ok as) (hx : x ∈ as) : x.IsConfined s := by
  obtain ⟨fs, hfixes, f, hf, rfl⟩ := exists_of_mem_actions h hx
  refine ⟨rfl, fun d' hd hk e he => ?_⟩
  obtain rfl := List.mem_singleton.1 hd
  obtain rfl := List.mem_singleton.1 he
  exact exists_mnemonic_of_fixes hk hfixes f hf

theorem isConfined_of_mem_proposeActions {ds : List Diagnostic} {wanted : Span → Bool}
    {actions : List Action} (h : proposeActions s none ds wanted = .ok actions) (hx : x ∈ actions) :
    x.IsConfined s := by
  rcases exists_of_mem_proposeActions h hx with ⟨d, -, here, hhere, hx⟩ | hx
  · exact QuickFix.isConfined_of_mem_actions hhere hx
  · rw [QuickFix.templateOffers] at hx
    split at hx
    · obtain ⟨t, -, rfl⟩ := List.mem_map.1 hx
      exact ⟨rfl, by simp⟩
    · simp at hx

end

namespace Session

/-- The titles, the kinds and the edits of two actions are the same. -/
def SameProposal (v v' : Json) : Prop :=
  ∀ key ∈ ["title", "kind", "edit"], Client.field? key v' = Client.field? key v

/-- All edits of an action are of the named document. If it is for an unknown instruction, they put in
nothing but mnemonics. -/
def ConfinedTo (name : Text) (v : Json) : Prop :=
  ∃ edits, Client.field? "edit" v = some (.obj [("changes", .obj [(name, .arr edits)])]) ∧
    ∀ ds d, Client.field? "diagnostics" v = some (.arr ds) → d ∈ ds →
      Client.field? "code" d = some (.str Kind.invalidInstruction.code) →
        ∀ e ∈ edits, ∃ m : Mnemonic, Client.field? "newText" e = some (.str m.name)

variable {server : Server} {fields fields' : List (Text × Json)} {uri : Json} {doc : Document}
variable {s : Source}

theorem sameProposal_written {x x' : Action} (h : x.SameEdits x') :
    SameProposal (x.written s) (x'.written s) := by
  simp [SameProposal, Client.field?, Action.written, Action.object, lookup, h.title, h.uri, h.edits]

theorem isWritable_iff_of_fixesAlike {d d' : Diagnostic} (h : d.FixesAlike d') :
    d.IsWritable s ↔ d'.IsWritable s := by
  rw [Diagnostic.IsWritable, Diagnostic.IsWritable, h.span]

theorem isWritable_iff_of_sameEdits {x x' : Action} (h : x.SameEdits x') :
    x.IsWritable s ↔ x'.IsWritable s := by
  have hdiagnostics := forall_mem_iff h.diagnostics fun _ _ hd => isWritable_iff_of_fixesAlike (s := s) hd
  rw [Action.IsWritable, Action.IsWritable, hdiagnostics, h.edits]

theorem confinedTo_written {x : Action} (h : x.IsConfined s) : ConfinedTo s.name (x.written s) := by
  refine ⟨x.edits.map (·.written s), ?_, fun ds v hds hv hcode e he => ?_⟩
  · simp [Client.field?, Action.written, Action.object, lookup, h.uri]
  · obtain rfl : x.diagnostics.map (·.written s) = ds := by
      simpa [Client.field?, Action.written, Action.object, lookup] using hds
    obtain ⟨d, hd, rfl⟩ := List.mem_map.1 hv
    have hkind : d.kind.code = Kind.invalidInstruction.code := by
      simpa [Client.field?, Diagnostic.written, Diagnostic.object, lookup] using hcode
    have hinv : d.kind = .invalidInstruction := by
      have hback := Kind.ofCode?_code d.kind
      rw [hkind, Kind.ofCode?_code] at hback
      exact (Option.some.inj hback).symm
    obtain ⟨edit, hedit, rfl⟩ := List.mem_map.1 he
    obtain ⟨m, hm⟩ := h.mnemonic d hd hinv edit hedit
    exact ⟨m, by simp [Client.field?, Edit.written, Edit.object, lookup, hm, Mnemonic.name]⟩

theorem confinedTo_of_mem {params : Json} {actions : List Action} {v : Json}
    (h : codeActions s params = .ok actions) (hv : v ∈ actions.map (·.written s)) :
    ConfinedTo s.name v := by
  obtain ⟨items, -, h⟩ := bind_eq_ok_iff.1 h
  obtain ⟨ds, -, h⟩ := bind_eq_ok_iff.1 h
  obtain ⟨range, -, h⟩ := bind_eq_ok_iff.1 h
  obtain ⟨x, hx, rfl⟩ := List.mem_map.1 hv
  exact confinedTo_written (isConfined_of_mem_proposeActions h hx)

theorem fails_of_source? (files : FileReader) {e : Fault} (hask : AsksActions fields uri)
    (hfind : server.find? uri = .ok (some doc))
    (hs : ({ doc with uri } : Document).source? = .error e) :
    Fails (handle files "textDocument/codeAction" (messageId fields) (messageParams fields))
      { server } e := by
  rw [Fails, handle_codeAction files hask hfind]
  exact lift_bind_fails_iff.2 (Or.inl hs)

theorem fails_of_actionItems (files : FileReader) {e : Fault} (hask : AsksActions fields uri)
    (hfind : server.find? uri = .ok (some doc))
    (hs : ({ doc with uri } : Document).source? = .ok s)
    (h : actionItems s (messageParams fields) = .error e) :
    Fails (handle files "textDocument/codeAction" (messageId fields) (messageParams fields))
      { server } e := by
  rw [Fails, handle_codeAction files hask hfind]
  exact lift_bind_fails_iff.2 (Or.inr ⟨s, hs, lift_bind_fails_iff.2 (Or.inl h)⟩)

theorem actionItems_of_error {params : Json} {e : Fault} (h : codeActions s params = .error e) :
    actionItems s params = .error e := by
  rw [actionItems, h]
  rfl

theorem name_of_source? (h : ({ doc with uri } : Document).source? = .ok s) :
    s.name = Document.name uri := by
  unfold Document.source? at h
  split at h
  · obtain rfl := Except.ok.inj h
    rfl
  · cases h

/-- Requests that differ in the wording of the returned diagnostics are answered with the same proposals,
or fail alike. Whatever they bring, the edits are of the document that is asked about. -/
theorem turns_of_reworded_requests (files : FileReader) (hi : server.initialized = true)
    (hask : AsksActions fields uri)
    (hmethod : lookup "method" fields' = some (.str "textDocument/codeAction"))
    (hfind : server.find? uri = .ok (some doc))
    (hreworded : RewordedParams (messageParams fields) (messageParams fields')) :
    (∃ e, Fails (handle files "textDocument/codeAction" (messageId fields) (messageParams fields))
        { server } e ∧
      Fails (handle files "textDocument/codeAction" (messageId fields') (messageParams fields'))
        { server } e) ∨
    ∃ vs vs' : List Json,
      turn files server (.message fields) =
        { server, out := [resultReply (messageId fields) (.arr vs)] } ∧
      turn files server (.message fields') =
        { server, out := [resultReply (messageId fields') (.arr vs')] } ∧
      List.Forall₂ SameProposal vs vs' ∧ ∀ v ∈ vs ++ vs', ConfinedTo (Document.name uri) v := by
  have hask' : AsksActions fields' uri := by
    refine ⟨hmethod, ?_⟩
    rw [uriOf, hreworded.field_eq (by decide)]
    exact hask.uri
  cases hs : ({ doc with uri } : Document).source? with
  | error e =>
    exact Or.inl ⟨e, fails_of_source? files hask hfind hs, fails_of_source? files hask' hfind hs⟩
  | ok s =>
    have hname := name_of_source? hs
    have halike := codeActions_alike s hreworded
    generalize hx : codeActions s (messageParams fields) = x at halike
    generalize hx' : codeActions s (messageParams fields') = x' at halike
    cases halike with
    | error e =>
      exact Or.inl ⟨e, fails_of_actionItems files hask hfind hs (actionItems_of_error hx),
        fails_of_actionItems files hask' hfind hs (actionItems_of_error hx')⟩
    | @ok actions actions' hsame =>
      have hitems := actionItems_of_codeActions hx
      have hitems' := actionItems_of_codeActions hx'
      have hsent := forall_mem_iff hsame fun _ _ hx => isWritable_iff_of_sameEdits (s := s) hx
      have hturn := turn_of_codeActions files hi hask hfind hs hx
      have hturn' := turn_of_codeActions files hi hask' hfind hs hx'
      by_cases hw : ∀ x ∈ actions, x.IsWritable s
      · have hw' := hsent.1 hw
        rw [actionTurn, if_pos hw] at hturn
        rw [actionTurn, if_pos hw'] at hturn'
        refine Or.inr ⟨_, _, hturn, hturn', ?_, fun v hv => ?_⟩
        · rw [List.forall₂_map_left_iff, List.forall₂_map_right_iff]
          exact hsame.imp fun _ _ h => sameProposal_written h
        · rw [← hname]
          exact (List.mem_append.1 hv).elim (confinedTo_of_mem hx) (confinedTo_of_mem hx')
      · have hw' := fun h => hw (hsent.2 h)
        rw [if_neg hw] at hitems
        rw [if_neg hw'] at hitems'
        exact Or.inl ⟨_, fails_of_actionItems files hask hfind hs hitems,
          fails_of_actionItems files hask' hfind hs hitems'⟩

def unknownDocument : Document := { uri := .str "file:///a", text := .str "ADX 5" }

/-- A diagnostic of an unknown instruction as two clients return it, with a mnemonic among what they
propose for it. -/
def unknownInstruction (message severity token other : Json) : Json :=
  .obj [("range", .obj [("start", .obj [("line", .int 0), ("character", .int 0)]),
      ("end", .obj [("line", .int 0), ("character", .int 3)])]),
    ("severity", severity), ("message", message), ("source", .str "LMC"),
    ("code", .str "InvalidInstruction"),
    ("data", .obj [("token", token), ("candidates", .arr [.str "ADD", other])])]

def politeRequest : List (Text × Json) :=
  actionRequest (.str "file:///a")
    [unknownInstruction (.str "Invalid instruction: ADX") (.int 1) (.str "ADX") (.str "HCF")] []

def oddRequest : List (Text × Json) :=
  actionRequest (.str "file:///a") [unknownInstruction .null (.str "odd") (.arr []) (.obj [])] []

theorem reworded_unknownInstruction (message message' severity severity' token token' : Json)
    {other other' : Json} (ho : other.isMnemonicName = false)
    (ho' : other'.isMnemonicName = false) :
    Reworded (unknownInstruction message severity token other)
      (unknownInstruction message' severity' token' other') := by
  refine .wording (fun key hm hs hd => ?_) rfl rfl rfl rfl ?_
  · simp only [lookup, if_neg (Ne.symm hm), if_neg (Ne.symm hs), if_neg (Ne.symm hd)]
  · simp only [List.filter_cons, ho, ho', Bool.false_eq_true, if_false]

theorem turns_of_politeRequest_and_oddRequest :
    ∃ vs vs' : List Json, vs ≠ [] ∧
      turn noFiles (serverWith unknownDocument) (.message politeRequest) =
        { server := serverWith unknownDocument, out := [resultReply (.int 1) (.arr vs)] } ∧
      turn noFiles (serverWith unknownDocument) (.message oddRequest) =
        { server := serverWith unknownDocument, out := [resultReply (.int 1) (.arr vs')] } ∧
      List.Forall₂ SameProposal vs vs' ∧ ∀ v ∈ vs ++ vs', ConfinedTo "file:///a" v := by
  have hreworded : RewordedParams (messageParams politeRequest) (messageParams oddRequest) := by
    refine .wording (fun key hkey => ?_) rfl rfl rfl rfl (.cons ?_ .nil)
    · simp only [lookup, if_neg (Ne.symm hkey)]
    · exact reworded_unknownInstruction _ _ _ _ _ _ rfl rfl
  have hask : AsksActions politeRequest (.str "file:///a") := asksActions_actionRequest _ _ _
  have hfind : (serverWith unknownDocument).find? (.str "file:///a") =
      .ok (some unknownDocument) := rfl
  have hturns := turns_of_reworded_requests noFiles rfl hask rfl hfind hreworded
  have hok : (handle noFiles "textDocument/codeAction" (messageId politeRequest)
      (messageParams politeRequest) { server := serverWith unknownDocument }).1 = .ok () := by
    decide +kernel
  rcases hturns with ⟨e, hfails, -⟩ | ⟨vs, vs', hturn, hturn', hsame, hconfined⟩
  · rw [Fails, hok] at hfails
    cases hfails
  · have hsome : (turn noFiles (serverWith unknownDocument) (.message politeRequest)).out ≠
        [resultReply (.int 1) (.arr [])] := by decide +kernel
    refine ⟨vs, vs', ?_, hturn, hturn', hsame, hconfined⟩
    rintro rfl
    exact hsome (congrArg Turn.out hturn)

/-- A client opens a document and gives it an empty name. -/
def openNameless : List (Text × Json) :=
  [("jsonrpc", .str "2.0"), ("method", .str "textDocument/didOpen"),
    ("params", .obj [("textDocument", .obj [("uri", .str ""), ("text", .str "ADD 5")])])]

def nameless : Document := { uri := .str "", text := .str "ADD 5" }

def namelessRequest : List (Text × Json) :=
  actionRequest (.str "")
    [(Analysis.numericNeedsHash 0 ⟨4, ['5']⟩).written (Source.named none (Text.toList "ADD 5"))] []

theorem reachable_nameless : Reachable (serverWith nameless) := by
  refine ⟨fun _ => noFiles, startSession ++ Frame.encode (.obj openNameless), _,
    List.prefix_refl _, ?_⟩
  decide +kernel

/-- The edits of a document with an empty name are of another one. -/
theorem not_edits_of_requested_name :
    ¬ ∀ (files : FileReader) (server : Server) (fields : List (Text × Json)) (name : Text)
        (doc : Document) (vs : List Json), Reachable server → server.initialized = true →
      AsksActions fields (.str name) → server.find? (.str name) = .ok (some doc) →
      (turn files server (.message fields)).out = [resultReply (messageId fields) (.arr vs)] →
        ∀ v ∈ vs, ∃ edits,
          Client.field? "edit" v = some (.obj [("changes", .obj [(name, .arr edits)])]) := by
  intro h
  obtain ⟨v, vs, edits, hout, hv⟩ : ∃ v vs edits,
      (turn noFiles (serverWith nameless) (.message namelessRequest)).out =
        [resultReply (.int 1) (.arr (v :: vs))] ∧
      Client.field? "edit" v = some (.obj [("changes", .obj [(anonymous, .arr edits)])]) :=
    ⟨_, _, _, rfl, rfl⟩
  obtain ⟨edits', hedit⟩ := h noFiles (serverWith nameless) _ "" nameless _ reachable_nameless rfl
    (asksActions_actionRequest _ _ _) rfl hout v List.mem_cons_self
  have hname : (anonymous : Text) ≠ "" := by decide
  rw [hv] at hedit
  simp only [Option.some.injEq, Json.obj.injEq, List.cons.injEq, Prod.mk.injEq] at hedit
  exact hname hedit.1.2.1.1

end Session

end LittleMan
