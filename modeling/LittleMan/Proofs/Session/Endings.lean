import LittleMan.Proofs.Session.Failures
import LittleMan.Proofs.Session.Refusals

/-! Which messages end a session with a failure. -/

namespace LittleMan

open Handler Json

namespace Json

mutual

def depth : Json → Nat
  | .arr items => depthItems items + 1
  | .obj fields => depthFields fields + 1
  | _ => 0

def depthItems : List Json → Nat
  | [] => 0
  | v :: items => max v.depth (depthItems items)

def depthFields : List (Text × Json) → Nat
  | [] => 0
  | (_, v) :: fields => max v.depth (depthFields fields)

end

end Json

namespace Session

variable {files : FileReader} {server : Server} {fields : List (Text × Json)}
variable {method : String} {params : Json} {t : Turn} {e : Fault}

/-- The parameters of a message end the session of a started server. -/
inductive Breaks (files : FileReader) (server : Server) (method : String) (params : Json) :
    Fault → Prop
  | opening {doc : Document} {e : Fault} (hm : method = "textDocument/didOpen")
      (h : openingOf params = .ok doc) (hu : doc.Unsendable server.settings e) :
      Breaks files server method params e
  | change {uri : Json} {doc : Document} {e : Fault} (hm : method = "textDocument/didChange")
      (h : revisionOf server params = .ok (.changed uri doc))
      (hu : doc.Unsendable server.settings e) : Breaks files server method params e
  | configuration (hm : method = "workspace/didChangeConfiguration")
      (ha : server.asksSettings = false) (ho : params.isObject = false) :
      Breaks files server method params .notAnObject
  | settings {u : Turn} {doc : Document} {e : Fault} (hm : method = "workspace/didChangeConfiguration")
      (h : configured params { server } = .ok u) (hd : doc ∈ u.server.documents)
      (hu : doc.Unsendable u.server.settings e) : Breaks files server method params e
  | name {uri : Json} (hm : method = "textDocument/diagnostic") (h : uriOf params = .ok uri)
      (hf : server.find? uri = .ok none) (hn : ∀ name, uri ≠ .str name) :
      Breaks files server method params .notAnObject
  | shown {uri : Json} {doc : Document} {e : Fault} (hm : method = "textDocument/diagnostic")
      (h : uriOf params = .ok uri) (hf : server.find? uri = .ok (some doc))
      (hu : doc.Unsendable server.settings e) : Breaks files server method params e
  | file {name path : Text} {text : List CodePoint} {e : Fault}
      (hm : method = "textDocument/diagnostic") (h : uriOf params = .ok (.str name))
      (hf : server.find? (.str name) = .ok none) (hp : pathOfUri? name = some path) (hne : path ≠ "")
      (ht : files path = .ok text)
      (hu : ({ uri := .str name, text := .str (Text.ofList text) } : Document).Unsendable
        server.settings e) :
      Breaks files server method params e
  | item (hm : method = "completionItem/resolve") (ho : params.isObject = false) :
      Breaks files server method params .notAnObject
  | actions {uri : Json} {doc : Document} {s : Source} {e : Fault}
      (hm : method = "textDocument/codeAction") (h : uriOf params = .ok uri)
      (hf : server.find? uri = .ok (some doc)) (hs : ({ doc with uri } : Document).source? = .ok s)
      (hb : BreaksItems s params e) : Breaks files server method params e
  | position {uri position : Json} {doc : Document} {s : Source} {n : Int}
      (hm : method = "textDocument/hover") (h : uriOf params = .ok uri)
      (hp : params.field "position" = .ok position) (hf : server.find? uri = .ok (some doc))
      (hs : doc.source? = .ok s) (hl : position.field "line" = .ok (.int n))
      (hn : n < -(s.lines.length : Int)) : Breaks files server method params .outOfRange

theorem fails_of_breaks {id : Json} (he : Grave e)
    (hf : ∀ path e, files path = .error e → e = .fileNotFound)
    (hd : ∀ d ∈ server.documents, d.isAnalysable) (h : Breaks files server method params e) :
    Fails (handle files method id params) { server } e := by
  cases h with
  | opening hm h hu =>
    subst hm
    exact (didOpen_fails_iff he).2 ⟨_, h, hu⟩
  | change hm h hu =>
    subst hm
    exact (didChange_fails_iff he).2 ⟨_, _, h, hu⟩
  | configuration hm ha ho =>
    subst hm
    exact (didChangeConfiguration_fails_iff hd).2 (Or.inl ⟨ha, ho, rfl⟩)
  | settings hm h hdoc hu =>
    subst hm
    exact (didChangeConfiguration_fails_iff hd).2 (Or.inr ⟨_, h, _, hdoc, hu⟩)
  | name hm h hfind hn =>
    subst hm
    rw [Fails, handle_diagnostic]
    exact lift_bind_fails_iff.2 (Or.inr ⟨_, h, (diagnostic_fails_iff_of_nameless he hfind hn).2 rfl⟩)
  | shown hm h hfind hu =>
    subst hm
    rw [Fails, handle_diagnostic]
    exact lift_bind_fails_iff.2 (Or.inr ⟨_, h, (diagnostic_fails_iff_of_open he hfind).2 hu⟩)
  | file hm h hfind hp hne ht hu =>
    subst hm
    rw [Fails, handle_diagnostic]
    exact lift_bind_fails_iff.2 (Or.inr ⟨_, h, (diagnostic_fails_iff_of_file he rfl hfind hf).2
      ⟨_, _, hp, hne, ht, hu⟩⟩)
  | item hm ho =>
    subst hm
    exact completionResolve_fails_iff.2 ⟨ho, rfl⟩
  | actions hm h hfind hs hb =>
    subst hm
    exact (codeAction_fails_iff he).2 ⟨_, _, _, h, hfind, hs, hb⟩
  | position hm h hp hfind hs hl hn =>
    subst hm
    rw [Fails, handle_hover]
    exact lift_bind_fails_iff.2 (Or.inr ⟨_, h, lift_bind_fails_iff.2 (Or.inr ⟨_, hp,
      (hover_fails_iff he).2 ⟨_, _, _, hfind, hs, hl, hn, rfl⟩⟩)⟩)

theorem breaks_of_fails {id : Json} (he : Grave e)
    (hf : ∀ path e, files path = .error e → e = .fileNotFound)
    (hd : ∀ d ∈ server.documents, d.isAnalysable)
    (h : Fails (handle files method id params) { server } e) :
    Breaks files server method params e := by
  unfold handle at h
  split at h
  · cases h
  · exfalso
    rw [Fails, register] at h
    simp only [bind_apply, Handler.server] at h
    split at h <;> cases h
  · cases h
  · cases h
  · obtain ⟨doc, hdoc, hu⟩ := (didOpen_fails_iff he).1 h
    exact .opening rfl hdoc hu
  · obtain ⟨uri, doc, hdoc, hu⟩ := (didChange_fails_iff he).1 h
    exact .change rfl hdoc hu
  · exact absurd h (didClose_not_fails he)
  · cases h
  · rcases (didChangeConfiguration_fails_iff hd).1 h with ⟨ha, ho, rfl⟩ | ⟨u, hu, doc, hdoc, h⟩
    · exact .configuration rfl ha ho
    · exact .settings rfl hu hdoc h
  · cases h
  · have hrun : Fails (handle files "textDocument/diagnostic" id params) { server } e := h
    rw [Fails, handle_diagnostic] at hrun
    obtain ⟨uri, huri, h⟩ := (lift_bind_fails_iff_of_mild (mild_uriOf params) he).1 hrun
    obtain ⟨found, hfind, -⟩ := (lift_bind_fails_iff_of_mild (mild_find? server uri) he).1 h
    cases found with
    | some doc => exact .shown rfl huri hfind ((diagnostic_fails_iff_of_open he hfind).1 h)
    | none =>
      by_cases hu : ∃ name, uri = .str name
      · obtain ⟨name, rfl⟩ := hu
        obtain ⟨path, text, hp, hne, ht, hu⟩ := (diagnostic_fails_iff_of_file he rfl hfind hf).1 h
        exact .file rfl huri hfind hp hne ht hu
      · have hn : ∀ name, uri ≠ .str name := fun name h => hu ⟨name, h⟩
        obtain rfl := (diagnostic_fails_iff_of_nameless he hfind hn).1 h
        exact .name rfl huri hfind hn
  · cases h
  · obtain ⟨ho, rfl⟩ := completionResolve_fails_iff.1 h
    exact .item rfl ho
  · obtain ⟨uri, doc, s, huri, hfind, hs, hb⟩ := (codeAction_fails_iff he).1 h
    exact .actions rfl huri hfind hs hb
  · have hrun : Fails (handle files "textDocument/hover" id params) { server } e := h
    rw [Fails, handle_hover] at hrun
    obtain ⟨uri, huri, h⟩ := (lift_bind_fails_iff_of_mild (mild_uriOf params) he).1 hrun
    obtain ⟨position, hp, h⟩ := (lift_bind_fails_iff_of_mild (mild_field _ _) he).1 h
    obtain ⟨doc, s, n, hfind, hs, hl, hn, rfl⟩ := (hover_fails_iff he).1 h
    exact .position rfl huri hp hfind hs hl hn
  · exact absurd h (unknown_not_fails _ _)

theorem didAnswer_fault (id result : Json) (t : Turn) :
    (didAnswer id result t).2.fault = t.fault := by
  rw [didAnswer_apply]
  split
  · exact takeAnswer_fault _ _ _ _
  · rfl

theorem unknown_fault (id name : Json) (t : Turn) : (handle.unknown id name t).2.fault = t.fault := by
  obtain ⟨replies, lines, -, hrun⟩ := replies_unknown id name t
  rw [hrun]

theorem fault_of_method (hs : server.Consistent) (hi : server.initialized = true)
    (hm : Json.lookup "method" fields = some (.str method)) :
    (turn files server (.message fields)).fault = some e ↔
      Grave e ∧ Fails (handle files method (messageId fields) (messageParams fields)) { server } e := by
  have hfault := handle_fault_eq files method (messageId fields) (messageParams fields) hs hi
  rw [turn_of_method files hi hm, Fails]
  generalize handle files method (messageId fields) (messageParams fields) { server } = r at hfault
  obtain ⟨e' | a, t⟩ := r
  · simp only [Except.error.injEq]
    by_cases hinv : isInvalidParams e' = true
    · simp only [if_pos hinv]
      constructor
      · intro h
        cases hfault.symm.trans h
      · rintro ⟨hgrave, rfl⟩
        rw [Grave, hinv] at hgrave
        cases hgrave
    · simp only [if_neg hinv, Option.some.injEq]
      refine ⟨fun h => ⟨h ▸ eq_false_of_ne_true hinv, h⟩, fun h => h.2⟩
  · simp only [reduceCtorEq, and_false, iff_false]
    intro h
    cases hfault.symm.trans h

theorem fault_of_answer (hm : (Json.lookup "method" fields).getD .null = .null) :
    (turn files server (.message fields)).fault = some e ↔
      Fails (didAnswer (messageId fields) ((Json.lookup "result" fields).getD .null)) { server } e := by
  have hreceive : receive files fields { server } =
      didAnswer (messageId fields) ((Json.lookup "result" fields).getD .null) { server } := by
    simp only [receive, hm, if_true, messageId]
  have hfault := didAnswer_fault (messageId fields) ((Json.lookup "result" fields).getD .null)
    { server }
  rw [turn, hreceive, Fails]
  generalize didAnswer _ _ { server } = r at hfault
  obtain ⟨e' | a, t⟩ := r
  · simp
  · simp only [reduceCtorEq, iff_false]
    intro h
    cases hfault.symm.trans h

theorem fault_of_nameless (files : FileReader) {name : Json} (hi : server.initialized = true)
    (hm : Json.lookup "method" fields = some name) (hne : name ≠ .null)
    (hstr : ∀ method : String, name ≠ .str method) :
    (turn files server (.message fields)).fault = none := by
  rw [turn_of_nameless files hi hm hne hstr, unknown_fault]

theorem grave_of_breaksActions {s : Source} (h : BreaksActions s params e) : Grave e := by
  cases h with
  | context => rfl
  | diagnostic hc hd hb hv => cases hv <;> rfl

theorem grave_of_breaksItems {s : Source} (h : BreaksItems s params e) : Grave e := by
  cases h with
  | reading h => exact grave_of_breaksActions h
  | writing => rfl

theorem grave_of_breaks (h : Breaks files server method params e) : Grave e := by
  cases h with
  | opening _ _ hu | change _ _ hu | settings _ _ _ hu | shown _ _ _ hu | file _ _ _ _ _ _ hu =>
    exact grave_of_unsendable hu
  | actions _ _ _ _ hb => exact grave_of_breaksItems hb
  | _ => rfl

/-- The message ends the session of a started server. -/
inductive Ends (files : FileReader) (server : Server) (fields : List (Text × Json)) : Fault → Prop
  | answer (hm : (Json.lookup "method" fields).getD .null = .null) (hp : server.pending ≠ [])
      (hid : (messageId fields).isScalar = false) : Ends files server fields .wrongShape
  | grant {e : Fault} (hm : (Json.lookup "method" fields).getD .null = .null)
      (h : BreaksGrant server (messageId fields) ((Json.lookup "result" fields).getD .null) e) :
      Ends files server fields e
  | request {method : String} {e : Fault} (hm : Json.lookup "method" fields = some (.str method))
      (h : Breaks files server method (messageParams fields) e) : Ends files server fields e

/-- Values are nested no deeper than this where it is told how sessions end: a server that has read a value
has room to write it back. -/
def depthBound : Nat := 900

/-- What a started server takes for granted: its documents can be analysed, files can be read or are not
there, there is room for what is nested in the message and in the versions of the documents, and the log
takes what is logged. Only a log that is filed refuses a line, one that has no encoding. -/
structure Meets (files : FileReader) (server : Server) (fields : List (Text × Json)) (filed : Bool) :
    Prop where
  reachable : Reachable server
  initialized : server.initialized = true
  analysable : ∀ d ∈ server.documents, d.isAnalysable
  readable : ∀ path e, files path = .error e → e = .fileNotFound
  shallow : Json.depthFields fields ≤ depthBound ∧ ∀ d ∈ server.documents, d.version.depth ≤ depthBound
  logged : filed = true → ∀ line ∈ (turn files server (.message fields)).log, IsEncodable line.toList

/-- A started server whose documents can be analysed takes every message but those that are told here,
which end its session. -/
theorem fault_eq_some_iff {filed : Bool} (h : Meets files server fields filed) :
    (turn files server (.message fields)).fault = some e ↔ Ends files server fields e := by
  have hs := h.reachable.consistent
  by_cases hm : (Json.lookup "method" fields).getD .null = .null
  · rw [fault_of_answer hm, didAnswer_fails_iff hs h.analysable]
    constructor
    · rintro (⟨hp, hid, rfl⟩ | hgrant)
      · exact .answer hm hp hid
      · exact .grant hm hgrant
    · intro hends
      cases hends with
      | answer _ hp hid => exact Or.inl ⟨hp, hid, rfl⟩
      | grant _ hgrant => exact Or.inr hgrant
      | request hm' =>
        rw [hm'] at hm
        cases hm
  · obtain ⟨name, hname⟩ : ∃ name, Json.lookup "method" fields = some name := by
      cases h : Json.lookup "method" fields with
      | none => exact absurd (by rw [h]; rfl) hm
      | some name => exact ⟨name, rfl⟩
    have hne : name ≠ .null := by simpa [hname] using hm
    by_cases hstr : ∃ method : String, name = .str method
    · obtain ⟨method, rfl⟩ := hstr
      rw [fault_of_method hs h.initialized hname]
      constructor
      · rintro ⟨he, hfails⟩
        exact .request hname (breaks_of_fails he h.readable h.analysable hfails)
      · intro hends
        cases hends with
        | answer hm' => exact absurd hm' hm
        | grant hm' => exact absurd hm' hm
        | request hm' hb =>
          obtain rfl := Text.ofString_inj.1 (Json.str.inj (Option.some.inj (hname.symm.trans hm')))
          have he := grave_of_breaks hb
          exact ⟨he, fails_of_breaks he h.readable h.analysable hb⟩
    · have hnone := fault_of_nameless files h.initialized hname hne fun method h => hstr ⟨method, h⟩
      rw [hnone]
      refine ⟨by simp, fun hends => ?_⟩
      cases hends with
      | answer hm' => exact absurd hm' hm
      | grant hm' => exact absurd hm' hm
      | request hm' => exact absurd ⟨_, Option.some.inj (hname.symm.trans hm')⟩ hstr

/-- A client asks for more about an item of a completion, and gives a list for the item. -/
def resolveList : List (Text × Json) :=
  [("jsonrpc", .str "2.0"), ("id", .int 2), ("method", .str "completionItem/resolve"),
    ("params", .arr [.int 1])]

theorem eq_fileNotFound_of_noFiles (path : Text) (e : Fault) (h : noFiles path = .error e) :
    e = .fileNotFound := (Except.error.inj h).symm

theorem not_fault_eq_none :
    ¬ ∀ (files : FileReader) (server : Server) (fields : List (Text × Json)) (filed : Bool),
      Meets files server fields filed → (turn files server (.message fields)).fault = none := by
  intro h
  have hmeets : Meets noFiles started resolveList true :=
    ⟨reachable_started, rfl, by simp [started], eq_fileNotFound_of_noFiles, by decide, by decide +kernel⟩
  have hnone := h _ _ _ _ hmeets
  have hsome : (turn noFiles started (.message resolveList)).fault = some .notAnObject := by
    decide +kernel
  rw [hsome] at hnone
  cases hnone

/-- A client opens a document of one empty line. -/
def openBlank : List (Text × Json) :=
  [("jsonrpc", .str "2.0"), ("method", .str "textDocument/didOpen"),
    ("params", .obj [("textDocument", .obj [("uri", .str "a"), ("text", .str "")])])]

/-- A client asks for what is two lines above its document. -/
def hoverAbove : List (Text × Json) :=
  [("jsonrpc", .str "2.0"), ("id", .int 2), ("method", .str "textDocument/hover"),
    ("params", .obj [("textDocument", .obj [("uri", .str "a")]),
      ("position", .obj [("line", .int (-2)), ("character", .int 0)])])]

def blank : Document := { uri := .str "a", text := .str "" }

def startedOnBlank : Server := { initialized := true, documents := [blank] }

theorem reachable_startedOnBlank : Reachable startedOnBlank := by
  refine ⟨fun _ => noFiles, startSession ++ Frame.encode (.obj openBlank), _, List.prefix_refl _, ?_⟩
  decide +kernel

theorem isAnalysable_blank : blank.isAnalysable := ⟨_, _, rfl, rfl⟩

theorem meets_hoverAbove : Meets noFiles startedOnBlank hoverAbove true where
  reachable := reachable_startedOnBlank
  initialized := rfl
  analysable := fun _ hd => List.mem_singleton.1 hd ▸ isAnalysable_blank
  readable := eq_fileNotFound_of_noFiles
  shallow := ⟨by decide, fun _ hd => List.mem_singleton.1 hd ▸ by decide⟩
  logged := by decide +kernel

theorem fault_of_hoverAbove :
    Meets noFiles startedOnBlank hoverAbove true ∧
      (turn noFiles startedOnBlank (.message hoverAbove)).fault = some .outOfRange := by
  refine ⟨meets_hoverAbove, (fault_eq_some_iff meets_hoverAbove).2 ?_⟩
  exact .request rfl (.position rfl rfl rfl rfl rfl rfl (by decide +kernel))

end Session

end LittleMan
