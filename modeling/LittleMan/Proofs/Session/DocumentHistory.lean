import LittleMan.Proofs.Session.Framing
import LittleMan.Proofs.Session.Notices

/-! The open documents, told from the messages alone. A document is open if it was opened after the session
had started and has not been closed since, and its text and version are those it was given last. -/

namespace LittleMan

open Handler

namespace Notice

/-- The document that a notice is about. -/
def uri? : Notice → Option Json
  | .started => none
  | .opened uri _ _ | .changed uri _ _ | .closed uri => some uri

/-- A document that is opened has a text for its name. -/
def isNamed : Notice → Bool
  | .opened (.str _) _ _ => true
  | .opened .. => false
  | _ => true

theorem exists_name {uri text version : Json} (h : (opened uri text version).isNamed = true) :
    ∃ name, uri = .str name := by
  cases uri with
  | str name => exact ⟨name, rfl⟩
  | _ => cases h

/-- The text and the version that a change gives a document. -/
def changeOf? (uri : Json) : Notice → Option (Json × Json)
  | .changed u text version => if u = uri then some (text, version) else none
  | _ => none

/-- The texts and versions that an open document was given, in order: those of its last opening, which came
after the start and was followed by no closing, and those of the changes after it. -/
def Given (notices : List Notice) (uri : Json) (given : List (Json × Json)) : Prop :=
  ∃ before text version later, notices = before ++ .opened uri text version :: later ∧
    .started ∈ before ∧ (∀ n ∈ later, n ≠ .closed uri ∧ ∀ text version, n ≠ .opened uri text version) ∧
    given = (text, version) :: later.filterMap (changeOf? uri)

/-- The notices tell that a document is open with that text and version. -/
def Told (notices : List Notice) (uri text version : Json) : Prop :=
  ∃ given, Given notices uri given ∧ given.getLast? = some (text, version)

variable {notices : List Notice} {notice : Notice} {uri text version : Json}

theorem given_concat {given : List (Json × Json)} :
    Given (notices ++ [notice]) uri given ↔
      (∃ text version, notice = .opened uri text version ∧ .started ∈ notices ∧
        given = [(text, version)]) ∨
      (notice ≠ .closed uri ∧ ∀ text version, notice ≠ .opened uri text version) ∧
        ∃ earlier, Given notices uri earlier ∧ given = earlier ++ (changeOf? uri notice).toList := by
  constructor
  · rintro ⟨before, text, version, later, heq, hstarted, hlater, rfl⟩
    rcases List.eq_nil_or_concat' later with rfl | ⟨later, x, rfl⟩
    · obtain ⟨rfl, hx⟩ := List.append_inj' heq rfl
      exact Or.inl ⟨text, version, List.singleton_inj.1 hx, hstarted, rfl⟩
    · rw [← List.cons_append, ← List.append_assoc] at heq
      obtain ⟨rfl, hx⟩ := List.append_inj' heq rfl
      obtain rfl := List.singleton_inj.1 hx
      refine Or.inr ⟨hlater _ (List.mem_append_right _ List.mem_cons_self), _,
        ⟨before, text, version, later, rfl, hstarted,
          fun n hn => hlater n (List.mem_append_left _ hn), rfl⟩, ?_⟩
      rw [List.filterMap_append, List.cons_append]
      cases hc : changeOf? uri notice <;> simp [hc]
  · rintro (⟨text, version, rfl, hstarted, rfl⟩ |
      ⟨hnotice, _, ⟨before, text, version, later, rfl, hstarted, hlater, rfl⟩, rfl⟩)
    · exact ⟨notices, text, version, [], rfl, hstarted, by simp, rfl⟩
    · refine ⟨before, text, version, later ++ [notice], by simp, hstarted, fun n hn => ?_, ?_⟩
      · rcases List.mem_append.1 hn with hn | hn
        · exact hlater n hn
        · obtain rfl := List.mem_singleton.1 hn
          exact hnotice
      · rw [List.filterMap_append, List.cons_append]
        cases hc : changeOf? uri notice <;> simp [hc]

theorem started_mem_of_told (h : Told notices uri text version) : .started ∈ notices := by
  obtain ⟨_, ⟨before, _, _, later, rfl, hstarted, -⟩, -⟩ := h
  exact List.mem_append_left _ hstarted

theorem not_told_concat (h : .started ∉ notices) : ¬ Told (notices ++ [notice]) uri text version := by
  rintro ⟨given, hgiven, -⟩
  rcases given_concat.1 hgiven with ⟨-, -, -, hstarted, -⟩ | ⟨-, earlier, hearlier, -⟩
  · exact h hstarted
  · obtain ⟨before, _, _, later, rfl, hstarted, -⟩ := hearlier
    exact h (List.mem_append_left _ hstarted)

theorem told_concat_of_other (h : notice.uri? ≠ some uri) :
    Told (notices ++ [notice]) uri text version ↔ Told notices uri text version := by
  have hc : notice ≠ .closed uri := by
    rintro rfl
    exact h rfl
  have ho : ∀ t v, notice ≠ .opened uri t v := by
    rintro t v rfl
    exact h rfl
  have hchange : changeOf? uri notice = none := by
    cases notice with
    | changed u t v => exact if_neg fun heq => h (congrArg some heq)
    | _ => rfl
  refine exists_congr fun given => and_congr_left fun _ => given_concat.trans ?_
  simp only [hchange, Option.toList_none, List.append_nil]
  constructor
  · rintro (⟨t, v, heq, -⟩ | ⟨-, earlier, hearlier, rfl⟩)
    · exact absurd heq (ho t v)
    · exact hearlier
  · exact fun hgiven => Or.inr ⟨⟨hc, ho⟩, given, hgiven, rfl⟩

theorem told_concat_opened {t v : Json} :
    Told (notices ++ [.opened uri t v]) uri text version ↔
      .started ∈ notices ∧ t = text ∧ v = version := by
  simp only [Told, given_concat]
  constructor
  · rintro ⟨given, ⟨t', v', heq, hstarted, rfl⟩ | ⟨⟨-, hno⟩, -⟩, hlast⟩
    · obtain ⟨-, rfl, rfl⟩ := Notice.opened.inj heq
      exact ⟨hstarted, Prod.mk.inj (Option.some.inj hlast)⟩
    · exact absurd rfl (hno t v)
  · rintro ⟨hstarted, rfl, rfl⟩
    exact ⟨_, Or.inl ⟨t, v, rfl, hstarted, rfl⟩, rfl⟩

theorem told_concat_changed {t v : Json} :
    Told (notices ++ [.changed uri t v]) uri text version ↔
      (∃ text version, Told notices uri text version) ∧ t = text ∧ v = version := by
  have hchange : changeOf? uri (.changed uri t v) = some (t, v) := if_pos rfl
  simp only [Told, given_concat, hchange, Option.toList_some]
  constructor
  · rintro ⟨given, ⟨t', v', heq, -⟩ | ⟨-, earlier, hearlier, rfl⟩, hlast⟩
    · cases heq
    · obtain ⟨before, text₀, version₀, later, -, -, -, rfl⟩ := id hearlier
      rw [List.getLast?_concat] at hlast
      exact ⟨⟨_, _, _, hearlier, List.getLast?_eq_some_getLast (List.cons_ne_nil _ _)⟩,
        Prod.mk.inj (Option.some.inj hlast)⟩
  · rintro ⟨⟨_, _, earlier, hearlier, -⟩, rfl, rfl⟩
    exact ⟨earlier ++ [(t, v)], Or.inr ⟨⟨nofun, nofun⟩, earlier, hearlier, rfl⟩,
      List.getLast?_concat⟩

theorem not_told_concat_closed : ¬ Told (notices ++ [.closed uri]) uri text version := by
  rintro ⟨given, hgiven, -⟩
  rcases given_concat.1 hgiven with ⟨_, _, h, _⟩ | ⟨⟨hno, -⟩, -⟩
  · cases h
  · exact hno rfl

end Notice

namespace Session

open Notice

variable {notices : List Notice} {notice : Option Notice} {docs docs' : List Document}

theorem mem_contents_iff {uri text version : Json} :
    (uri, text, version) ∈ contents docs ↔
      ∃ d ∈ docs, d.uri = uri ∧ d.text = text ∧ d.version = version := by
  simp only [contents, content, List.mem_map, Prod.mk.injEq]

theorem pairwise_of_nodup_keys (h : (Server.keys docs).Nodup) :
    docs.Pairwise fun a b => a.uri ≠ b.uri :=
  (List.pairwise_map.1 h).imp fun hne heq => hne (congrArg Json.key heq)

/-- The notices tell of the documents. -/
def Tells (notices : List Notice) (docs : List Document) : Prop :=
  ∀ uri text version, (uri, text, version) ∈ contents docs ↔ Told notices uri text version

theorem Tells.opened (h : Tells notices docs) (hn : Named docs) (hk : (Server.keys docs).Nodup)
    (hs : .started ∈ notices) (name : Text) (text version : Json) :
    Tells (notices ++ [.opened (.str name) text version])
      (Server.putDocument { uri := .str name, text, version } docs) := by
  have hputs : Puts { uri := .str name, text, version } docs
      (Server.putDocument { uri := .str name, text, version } docs) :=
    puts_putDocument rfl hn (pairwise_of_nodup_keys hk)
  intro u t v
  simp only [mem_contents_iff, hputs.mem_iff]
  by_cases hu : Json.str name = u
  · subst hu
    rw [told_concat_opened]
    constructor
    · rintro ⟨d, rfl | ⟨-, hne⟩, hu, ht, hv⟩
      · exact ⟨hs, ht, hv⟩
      · exact absurd hu hne
    · rintro ⟨-, rfl, rfl⟩
      exact ⟨_, Or.inl rfl, rfl, rfl, rfl⟩
  · have hother : (Notice.opened (.str name) text version).uri? ≠ some u :=
      fun heq => hu (Option.some.inj heq)
    rw [told_concat_of_other hother, ← h, mem_contents_iff]
    constructor
    · rintro ⟨d, rfl | ⟨hd, -⟩, hdu, ht, hv⟩
      · exact absurd hdu hu
      · exact ⟨d, hd, hdu, ht, hv⟩
    · rintro ⟨d, hd, hdu, ht, hv⟩
      exact ⟨d, Or.inr ⟨hd, fun heq => hu (heq.symm.trans hdu)⟩, hdu, ht, hv⟩

theorem Tells.changed (h : Tells notices docs) (hn : Named docs) (uri text version : Json) :
    Tells (notices ++ [.changed uri text version])
      (docs.map fun d => if d.uri.same uri then { d with text, version } else d) := by
  intro u t v
  simp only [mem_contents_iff, List.mem_map]
  by_cases hu : uri = u
  · subst hu
    rw [told_concat_changed]
    constructor
    · rintro ⟨_, ⟨d, hd, rfl⟩, hdu, ht, hv⟩
      by_cases hs : d.uri.same uri = true
      · rw [if_pos hs] at ht hv
        have hold := mem_contents_iff.2 ⟨d, hd, (hn.same_iff hd uri).1 hs, rfl, rfl⟩
        exact ⟨⟨_, _, (h _ _ _).1 hold⟩, ht, hv⟩
      · rw [if_neg hs] at hdu
        exact absurd ((hn.same_iff hd uri).2 hdu) hs
    · rintro ⟨⟨t', v', htold⟩, rfl, rfl⟩
      obtain ⟨d, hd, hdu, -, -⟩ := mem_contents_iff.1 ((h _ _ _).2 htold)
      refine ⟨_, ⟨d, hd, rfl⟩, ?_⟩
      rw [if_pos ((hn.same_iff hd uri).2 hdu)]
      exact ⟨hdu, rfl, rfl⟩
  · have hother : (Notice.changed uri text version).uri? ≠ some u := fun heq => hu (Option.some.inj heq)
    rw [told_concat_of_other hother, ← h, mem_contents_iff]
    constructor
    · rintro ⟨_, ⟨d, hd, rfl⟩, hdu, ht, hv⟩
      by_cases hs : d.uri.same uri = true
      · rw [if_pos hs] at hdu
        exact absurd (((hn.same_iff hd uri).1 hs).symm.trans hdu) hu
      · rw [if_neg hs] at hdu ht hv
        exact ⟨d, hd, hdu, ht, hv⟩
    · rintro ⟨d, hd, hdu, ht, hv⟩
      have hs : ¬ d.uri.same uri = true :=
        fun hs => hu (((hn.same_iff hd uri).1 hs).symm.trans hdu)
      exact ⟨d, ⟨d, hd, if_neg hs⟩, hdu, ht, hv⟩

theorem Tells.closed (h : Tells notices docs) (hn : Named docs) (uri : Json) :
    Tells (notices ++ [.closed uri]) (docs.filter fun d => !d.uri.same uri) := by
  have hmem : ∀ d, d ∈ docs.filter (fun d => !d.uri.same uri) ↔ d ∈ docs ∧ d.uri ≠ uri := by
    intro d
    simp only [List.mem_filter, Bool.not_eq_true']
    refine and_congr_right fun hd => ?_
    rw [← Bool.not_eq_true, hn.same_iff hd uri]
  intro u t v
  simp only [mem_contents_iff, hmem]
  by_cases hu : uri = u
  · subst hu
    refine iff_of_false ?_ not_told_concat_closed
    rintro ⟨d, ⟨-, hne⟩, hdu, -⟩
    exact hne hdu
  · have hother : (Notice.closed uri).uri? ≠ some u := fun heq => hu (Option.some.inj heq)
    rw [told_concat_of_other hother, ← h, mem_contents_iff]
    constructor
    · rintro ⟨d, ⟨hd, -⟩, hdu, ht, hv⟩
      exact ⟨d, hd, hdu, ht, hv⟩
    · rintro ⟨d, hd, hdu, ht, hv⟩
      exact ⟨d, ⟨hd, fun heq => hu (heq.symm.trans hdu)⟩, hdu, ht, hv⟩

theorem Tells.started (h : Tells notices docs) : Tells (notices ++ [.started]) docs := by
  intro u t v
  have hother : Notice.started.uri? ≠ some u := nofun
  rw [told_concat_of_other hother]
  exact h u t v

theorem Tells.congr (h : Tells notices docs) (hc : contents docs' = contents docs) :
    Tells notices docs' := by
  intro u t v
  rw [hc]
  exact h u t v

theorem Heeds.tells (hh : Heeds docs notice docs') (h : Tells notices docs) (hn : Named docs)
    (hk : (Server.keys docs).Nodup) (hs : .started ∈ notices)
    (hname : ∀ uri text version, notice = some (.opened uri text version) →
      ∃ name, uri = .str name) :
    Tells (notices ++ notice.toList) docs' := by
  cases hh with
  | opened uri text version =>
    obtain ⟨name, rfl⟩ := hname _ _ _ rfl
    exact h.opened hn hk hs name text version
  | changed uri text version => exact h.changed hn uri text version
  | closed uri => exact h.closed hn uri
  | other hno hc =>
    rcases hno with rfl | rfl
    · rw [Option.toList_none, List.append_nil]
      exact h.congr hc
    · exact h.started.congr hc

theorem named_of_contents (hc : contents docs' = contents docs) (hn : Named docs) : Named docs' := by
  intro d hd
  have hmem : (d.uri, d.text, d.version) ∈ contents docs :=
    hc ▸ mem_contents_iff.2 ⟨d, hd, rfl, rfl, rfl⟩
  obtain ⟨x, hx, hu, -, -⟩ := mem_contents_iff.1 hmem
  exact hu ▸ hn x hx

theorem Heeds.named (hh : Heeds docs notice docs') (hn : Named docs)
    (hname : ∀ uri text version, notice = some (.opened uri text version) →
      ∃ name, uri = .str name) :
    Named docs' := by
  cases hh with
  | opened uri text version =>
    intro d hd
    rcases Server.mem_putDocument hd with rfl | hd
    · exact hname _ _ _ rfl
    · exact hn d hd
  | changed uri text version =>
    intro d hd
    obtain ⟨x, hx, rfl⟩ := List.mem_map.1 hd
    split
    · exact hn x hx
    · exact hn x hx
  | closed uri => exact fun d hd => hn d (List.mem_filter.1 hd).1
  | other _ hc => exact named_of_contents hc hn

variable {server : Server} {frame : Frame}

/-- What was told so far is what the server keeps of documents. -/
structure Keeping (notices : List Notice) (server : Server) : Prop where
  consistent : server.Consistent
  started : server.initialized = true ↔ .started ∈ notices
  named : Named server.documents
  told : Tells notices server.documents

theorem keeping_nil : Keeping [] {} where
  consistent := Server.consistent_empty
  started := by simp
  named := by simp [Named]
  told := by
    intro uri text version
    refine iff_of_false (by simp [contents]) fun h => ?_
    cases started_mem_of_told h

theorem keeping_turn (files : FileReader) (h : Keeping notices server)
    (hf : (turn files server frame).fault = none)
    (hname : ∀ uri text version, frame.notice? = some (.opened uri text version) →
      ∃ name, uri = .str name) :
    Keeping (notices ++ frame.notice?.toList) (turn files server frame).server := by
  have hs := h.consistent
  have hs' := (outcome_turn files hs frame).consistent hs
  cases hi : server.initialized with
  | true =>
    have hheeds := heeds_turn files hs hi h.named hname
    have hstarted := h.started.1 hi
    exact ⟨hs', iff_of_true (initialized_turn files frame hs hi) (List.mem_append_left _ hstarted),
      hheeds.named h.named hname, hheeds.tells h.told h.named hs.distinct hstarted hname⟩
  | false =>
    obtain ⟨hdocs, hinit⟩ := early_turn files hs hi hf
    have hno : Notice.started ∉ notices := fun hm => by simp [h.started.2 hm] at hi
    refine ⟨hs', ?_, ?_, ?_⟩
    · rw [hinit, List.mem_append, or_iff_right hno, Option.mem_toList]
    · rw [hdocs]
      exact fun d hd => by cases hd
    · rw [hdocs]
      intro uri text version
      refine iff_of_false (by simp [contents]) fun htold => ?_
      cases hn : frame.notice? with
      | none =>
        rw [hn, Option.toList_none, List.append_nil] at htold
        exact hno (started_mem_of_told htold)
      | some notice =>
        rw [hn] at htold
        exact not_told_concat hno htold

/-- What a session has been told of documents so far. -/
def noticesOf (h : List (Frame × Turn)) : List Notice := h.filterMap fun p => p.1.notice?

theorem keeping_transcript (files : List Text → FileReader) {bytes : List UInt8} {ts : List Turn}
    (hts : ts <+: transcript files bytes) (hf : ∀ t ∈ ts, t.fault = none)
    (hname : ∀ frame ∈ (Frame.all bytes).take ts.length, ∀ uri text version,
      frame.notice? = some (.opened uri text version) → ∃ name, uri = .str name) :
    Keeping (noticesOf (history bytes ts)) (merge ts).server := by
  have hkept : Kept fun h server _ =>
      (∀ p ∈ h, p.2.fault = none ∧ ∀ uri text version,
        p.1.notice? = some (.opened uri text version) → ∃ name, uri = .str name) →
      Keeping (noticesOf h) server := by
    refine ⟨fun _ => keeping_nil, fun files h server _ frame t halike hk hp => ?_⟩
    have hbefore := hk fun p hmem => hp p (List.mem_append_left _ hmem)
    obtain ⟨hfault, hnamed⟩ := hp (frame, t) (List.mem_append_right _ List.mem_cons_self)
    rw [halike.fault] at hfault
    have hstep := keeping_turn files hbefore hfault hnamed
    have hnotices : noticesOf (h ++ [(frame, t)]) = noticesOf h ++ frame.notice?.toList := by
      cases hn : frame.notice? <;> simp [noticesOf, hn]
    rw [hnotices, halike.server]
    exact hstep
  refine hkept.of_transcript files hts fun p hp => ?_
  obtain ⟨hframe, hturn⟩ := mem_take_of_mem_history hp
  exact ⟨hf p.2 hturn, hname p.1 hframe⟩

theorem server_of_idle_change (files : FileReader) {params : Json}
    (hcall : frame.call? = some ("textDocument/didChange", params)) (hn : Named server.documents)
    (hidle : ∀ uri text version, frame.notice? = some (.changed uri text version) →
      ∀ d ∈ server.documents, d.uri ≠ uri) :
    (turn files server frame).server = server := by
  obtain ⟨fields, rfl, hm, rfl⟩ := exists_of_call? hcall
  cases hi : server.initialized with
  | true =>
    rw [server_turn_of_method files hi hm]
    show (didChange (messageParams fields) { server }).2.server = server
    rw [didChange_apply]
    cases hrev : revisionOf server (messageParams fields) with
    | error e => rfl
    | ok r =>
      cases r with
      | unopened uri => rfl
      | unchanged => rfl
      | changed uri doc =>
        obtain ⟨d, hfind, -, hnotice⟩ := revisionOf_eq_changed_iff.1 hrev
        have hsome : (Frame.message fields).notice? = some (.changed uri doc.text doc.version) := by
          rw [Frame.notice?, hcall, Option.bind_some, hnotice]
        have hd := mem_of_find? hfind
        exact absurd ((hn.same_iff hd uri).1 (same_of_find? hfind)) (hidle _ _ _ hsome d hd)
  | false =>
    rcases server_of_early files hi hm (by simp) (by simp) with h | ⟨h, -⟩
    · exact h
    · simp at h

/-- After each turn of a session that does not fail, the open documents are those that were opened and not
closed since, with the texts and the versions that they were given last. A change of a document that is not
open, or one that gives no text, alters nothing. -/
theorem documents_of_transcript (files : List Text → FileReader) {bytes : List UInt8}
    {ts : List Turn} (hts : ts <+: transcript files bytes) (hf : ∀ t ∈ ts, t.fault = none)
    (hname : ∀ frame ∈ (Frame.all bytes).take ts.length, frame.notice?.all Notice.isNamed = true) :
    ((merge ts).server.documents.Pairwise fun a b => a.uri ≠ b.uri) ∧
      (∀ uri text version, (∃ d ∈ (merge ts).server.documents,
          d.uri = uri ∧ d.text = text ∧ d.version = version) ↔
        Told (noticesOf (history bytes ts)) uri text version) ∧
      ∀ (files : FileReader) (frame : Frame) (params : Json),
        frame.call? = some ("textDocument/didChange", params) →
        (∀ uri text version, frame.notice? = some (.changed uri text version) →
          ∀ d ∈ (merge ts).server.documents, d.uri ≠ uri) →
        (turn files (merge ts).server frame).server = (merge ts).server := by
  have hkeep : Keeping (noticesOf (history bytes ts)) (merge ts).server := by
    refine keeping_transcript files hts hf fun frame hmem uri text version hnotice => ?_
    have hnamed := hname frame hmem
    rw [hnotice, Option.all_some] at hnamed
    exact exists_name hnamed
  refine ⟨pairwise_of_nodup_keys hkeep.consistent.distinct, fun uri text version => ?_,
    fun files frame params hcall hidle => ?_⟩
  · rw [← mem_contents_iff]
    exact hkeep.told uri text version
  · exact server_of_idle_change files hcall hkeep.named hidle

/-- A message that asks for no answer. -/
def tell (method : Text) (params : List (Text × Json)) : List (Text × Json) :=
  [("jsonrpc", .str "2.0"), ("method", .str method), ("params", .obj params)]

/-- A client opens two documents, changes one of them twice, the second time to no effect, and closes the
other. -/
def editingMessages : List (List (Text × Json)) :=
  [tell "initialize" [],
    tell "textDocument/didOpen" [("textDocument",
      .obj [("uri", .str "a"), ("text", .str "LDA X"), ("version", .int 1)])],
    tell "textDocument/didOpen" [("textDocument", .obj [("uri", .str "b"), ("text", .str "")])],
    tell "textDocument/didChange" [("textDocument", .obj [("uri", .str "a")]),
      ("contentChanges", .arr [.obj [("text", .str "SUB X")], .obj [("text", .str "")]])],
    tell "textDocument/didChange" [("textDocument", .obj [("uri", .str "a"), ("version", .int 3)]),
      ("contentChanges", .arr [.obj [("text", .str "HLT")], .null])],
    tell "textDocument/didClose" [("textDocument", .obj [("uri", .str "b")])]]

def editingSession : List UInt8 := (editingMessages.map .obj).flatMap Frame.encode

def editingTurns : List Turn := transcript (fun _ => noFiles) editingSession

theorem frames_editing : Frame.all editingSession = editingMessages.map .message :=
  Frame.all_flatMap_encode (by decide +kernel)

theorem editingTurns_eq :
    editingTurns = greet (run (fun _ => noFiles) {} [greeting] (editingMessages.map .message)) := by
  rw [editingTurns, transcript_eq, frames_editing]

theorem documents_of_editingTurns :
    (merge editingTurns).server.documents = [{ uri := .str "a", text := .str "" }] ∧
      Told (noticesOf (history editingSession editingTurns)) (.str "a") (.str "") .null := by
  have hrun : (∀ t ∈ editingTurns, t.fault = none) ∧
      (merge editingTurns).server.documents = [{ uri := .str "a", text := .str "" }] := by
    rw [editingTurns_eq]
    decide +kernel
  have hname : ∀ frame ∈ (Frame.all editingSession).take editingTurns.length,
      frame.notice?.all Notice.isNamed = true := by
    intro frame hframe
    have hall : ∀ frame ∈ editingMessages.map Frame.message,
        frame.notice?.all Notice.isNamed = true := by
      decide +kernel
    rw [frames_editing] at hframe
    exact hall frame (List.mem_of_mem_take hframe)
  have hopen : ∃ d ∈ (merge editingTurns).server.documents,
      d.uri = .str "a" ∧ d.text = .str "" ∧ d.version = .null := by
    rw [hrun.2]
    exact ⟨_, List.mem_cons_self, rfl, rfl, rfl⟩
  have hwhole := documents_of_transcript _ (List.prefix_refl editingTurns) hrun.1 hname
  exact ⟨hrun.2, (hwhole.2.1 (.str "a") (.str "") .null).1 hopen⟩

end Session

end LittleMan
