import LittleMan.Proofs.Session.Bookkeeping

/-! Which answer a document has its settings from. Once no request for them waits, they are those of the
answer that came last; that is the answer to the newest request unless an older answer came later. -/

namespace LittleMan

open Handler Turn

namespace Session

variable {h : List (Frame × Turn)} {p : Frame × Turn} {server : Server} {out : List Json}
variable {uri : Json}

/-- The client was asked for the settings of a document in a request of that number. -/
def Requested (h : List (Frame × Turn)) (n : Nat) (uri : Json) : Prop :=
  ∃ p ∈ h, settingsRequest n uri ∈ p.2.out

theorem requested_concat {n : Nat} :
    Requested (h ++ [p]) n uri ↔ Requested h n uri ∨ settingsRequest n uri ∈ p.2.out := by
  simp [Requested, or_and_right, exists_or]

/-- The answer that came last of those to requests for the settings of a document: none was sent after it,
and the others were answered before. -/
def LastAnswer (h : List (Frame × Turn)) (uri : Json) (n : Nat) (result : Json) : Prop :=
  ∃ before p after id, h = before ++ p :: after ∧ Awaits before n uri ∧
    p.1.answer? = some (id, result) ∧ Json.same (.int n) id = true ∧
    ∀ m, Requested h m uri → Requested before m uri ∧ (m = n ∨ ¬ Awaits before m uri)

/-- No request for the settings of a document is answered while an older one waits. -/
def InOrder (h : List (Frame × Turn)) (uri : Json) : Prop :=
  ∀ before p after n, h = before ++ p :: after → Awaits before n uri → p.1.Answers n →
    ∀ m, Awaits before m uri → n ≤ m

theorem InOrder.of_append {after : List (Frame × Turn)} (ho : InOrder (h ++ after) uri) :
    InOrder h uri := by
  intro before p rest n heq
  refine ho before p (rest ++ after) n ?_
  rw [heq, List.append_assoc, List.cons_append]

theorem LastAnswer.concat {n : Nat} {result : Json} (hl : LastAnswer h uri n result)
    (hno : ∀ m, settingsRequest m uri ∉ p.2.out) : LastAnswer (h ++ [p]) uri n result := by
  obtain ⟨before, q, after, id, rfl, hn, hf, hid, hall⟩ := hl
  refine ⟨before, q, after ++ [p], id, by simp, hn, hf, hid, fun m hm => hall m ?_⟩
  exact (requested_concat.1 hm).resolve_right (hno m)

theorem lt_of_numbered {out' : List Json} {last m n : Nat} {u v : Json}
    (hnum : Numbered (out ++ out') last) (hm : settingsRequest m u ∈ out)
    (hn : settingsRequest n v ∈ out') : m < n := by
  have hsorted : (requestNumbers (out ++ out')).Pairwise
      fun a b => ∀ i j : Nat, a = .int i → b = .int j → i < j := by
    have hrange : (List.range' 1 last).Pairwise (· < ·) := List.pairwise_lt_range'
    rw [hnum]
    refine List.pairwise_map.2 (hrange.imp fun {a b} hab i j hi hj => ?_)
    simp only [Json.int.injEq, Int.natCast_inj] at hi hj
    omega
  rw [requestNumbers_append] at hsorted
  exact (List.pairwise_append.1 hsorted).2.2 _ (mem_requestNumbers hm) _ (mem_requestNumbers hn)
    m n rfl rfl

theorem Booked.le_of_requested (hb : Booked h server out) {n : Nat} (hn : Requested h n uri) :
    n ≤ server.lastRequest := by
  obtain ⟨p, hp, hsent⟩ := hn
  have hmem : settingsRequest n uri ∈ out := hb.written ▸ List.mem_flatMap.2 ⟨p, hp, hsent⟩
  have hnumber := mem_requestNumbers hmem
  rw [hb.numbered] at hnumber
  obtain ⟨k, hk, heq⟩ := List.mem_map.1 hnumber
  simp only [Json.int.injEq, Int.natCast_inj] at heq
  rw [List.mem_range'_1] at hk
  omega

/-- Answered requests are older than those that wait, if the client answers in order. -/
def AnsweredFirst (h : List (Frame × Turn)) : Prop :=
  ∀ uri, InOrder h uri → ∀ m n, Requested h m uri → ¬ Awaits h m uri → Awaits h n uri → m < n

theorem AnsweredFirst.step {last : Nat} (ha : AnsweredFirst h)
    (hnum : Numbered (h.flatMap (·.2.out) ++ p.2.out) last) : AnsweredFirst (h ++ [p]) := by
  intro uri horder m n hm hdone hn
  rw [awaits_concat, not_or] at hdone
  have hm' : Requested h m uri := (requested_concat.1 hm).resolve_right hdone.1
  rcases awaits_concat.1 hn with hsent | ⟨hwait, hnot⟩
  · obtain ⟨q, hq, hmq⟩ := hm'
    exact lt_of_numbered hnum (List.mem_flatMap.2 ⟨q, hq, hmq⟩) hsent
  · by_cases hmwait : Awaits h m uri
    · have hanswers : p.1.Answers m := by
        by_contra hno
        exact hdone.2 ⟨hmwait, hno⟩
      have hle := horder h p [] m rfl hmwait hanswers n hwait
      have hne : m ≠ n := fun heq => hnot (heq ▸ hanswers)
      omega
    · exact ha uri horder.of_append m n hm' hmwait hwait

theorem eq_of_key_eq_str {name : Text} {v : Json} (h : v.key = (Json.str name).key) :
    v = .str name := by
  have hname : (Json.str name).key = .inr (.str name) := rfl
  rw [hname, Json.key] at h
  split at h
  · split at h
    · exact Sum.inr.inj h
    · cases h
  · exact Sum.inr.inj h

/-- A document waits for settings, or has those of the last answer. -/
def Follows (h : List (Frame × Turn)) (server : Server) (d : Document) : Prop :=
  (∃ n, (n, d.uri) ∈ server.pending) ∨
    ∃ n result, LastAnswer h d.uri n result ∧ d.settings = some (answeredSettings result)

/-- What is followed stays so while requests are added only and none is sent for the document. -/
theorem Follows.concat {server' : Server} {x d : Document} (hx : Follows h server x)
    (huri : x.uri = d.uri) (hsettings : x.settings = d.settings)
    (hpending : ∀ n, (n, d.uri) ∈ server.pending → (n, d.uri) ∈ server'.pending)
    (hno : ∀ n, settingsRequest n d.uri ∉ p.2.out) : Follows (h ++ [p]) server' d := by
  rcases hx with ⟨n, hn⟩ | ⟨n, result, hlast, hgot⟩
  · exact Or.inl ⟨n, hpending n (huri ▸ hn)⟩
  · rw [huri] at hlast
    exact Or.inr ⟨n, result, hlast.concat hno, hsettings ▸ hgot⟩

theorem mem_settled_documents {left : List (Nat × Json)} {v result : Json} {d : Document}
    (hd : d ∈ (settled server left v result).documents) :
    ∃ x ∈ server.documents, x.uri = d.uri ∧
      d.settings = if !v.isEmpty && d.uri.same v then some (answeredSettings result)
        else x.settings := by
  unfold settled at hd
  cases hv : v.isEmpty with
  | true =>
    rw [hv] at hd
    exact ⟨d, hd, rfl, by simp⟩
  | false =>
    rw [hv] at hd
    obtain ⟨x, hx, rfl⟩ := List.mem_map.1 hd
    refine ⟨x, hx, ?_, ?_⟩
    · split <;> rfl
    · cases hsame : x.uri.same v <;> simp [hsame]

theorem lastAnswer_of_settled {frame : Frame} {t : Turn} {id result : Json} {n : Nat}
    (hf : frame.answer? = some (id, result)) (hn : Json.same (.int n) id = true)
    (hwait : Awaits h n uri) (hno : ∀ m, settingsRequest m uri ∉ t.out)
    (honly : ∀ m, Awaits h m uri → m = n) : LastAnswer (h ++ [(frame, t)]) uri n result := by
  refine ⟨h, (frame, t), [], id, rfl, hwait, hf, hn, fun m hm => ?_⟩
  refine ⟨(requested_concat.1 hm).resolve_right (hno m), ?_⟩
  by_cases hmwait : Awaits h m uri
  · exact Or.inl (honly m hmwait)
  · exact Or.inr hmwait

/-- Documents with a name wait for settings or have those of the last answer. -/
def AllFollow (h : List (Frame × Turn)) (server : Server) : Prop :=
  server.asksSettings = true → ∀ d ∈ server.documents, ∀ name, d.uri = .str name → name ≠ "" →
    Follows h server d

theorem AllFollow.acts {frame : Frame} {t u : Turn} (hf : AllFollow h server)
    (hc : server.Consistent) (hacts : Acts { server } u) (hout : t.out = u.out) :
    AllFollow (h ++ [(frame, t)]) u.server := by
  intro hasks d hd name huri hname
  have hwaits : Waits server.pending u := Acts.waits hacts fun n uri => by simp
  obtain ⟨messages, hmessages, htraced⟩ := Acts.traces hacts hc
  have hsent : t.out = messages := by rw [hout, hmessages, List.nil_append]
  cases htraced d hd with
  | kept x hx hxuri hsettings hno =>
    rw [(Acts.asksSettings_eq hacts (hc.initialized_of_mem hx)).2] at hasks
    refine (hf hasks x hx name (hxuri.trans huri) hname).concat hxuri hsettings
      (fun n hn => (hwaits n d.uri).2 (Or.inl hn)) fun n hn => hno ⟨n, d.uri, ?_, rfl⟩
    rwa [← hsent]
  | asked _ hask =>
    obtain ⟨n, v, hn, hv⟩ := hask hasks
    rw [huri] at hv
    obtain rfl := eq_of_key_eq_str hv
    refine Or.inl ⟨n, (hwaits n d.uri).2 (Or.inr ?_)⟩
    rw [huri, ← hout, hsent]
    exact hn

theorem AllFollow.settled {frame : Frame} {t : Turn} {id result v : Json}
    {before after : List (Nat × Json)} {n : Nat} (hf : AllFollow h server)
    (hb : Booked h server out) (hanswer : frame.answer? = some (id, result))
    (hp : server.pending = before ++ (n, v) :: after) (hn : Json.same (.int n) id = true)
    (hno : ∀ m ∈ t.out, requestNumber? m = none) :
    AllFollow (h ++ [(frame, t)]) (Session.settled server (before ++ after) v result) := by
  intro hasks d hd name huri hname
  obtain ⟨x, hx, hxuri, hsettings⟩ := mem_settled_documents hd
  have hnone : ∀ m, settingsRequest m d.uri ∉ t.out := fun m => settingsRequest_not_mem hno m d.uri
  have hrest : ∀ m, (m, d.uri) ∈ server.pending → (m, d.uri) = (n, v) ∨
      (m, d.uri) ∈ before ++ after := by
    intro m hm
    rw [hp, List.mem_append, List.mem_cons] at hm
    rw [List.mem_append]
    tauto
  by_cases hv : v = d.uri
  · subst hv
    by_cases hmore : ∃ m, (m, d.uri) ∈ before ++ after
    · exact Or.inl hmore
    · have hwait : Awaits h n d.uri := (hb.due n d.uri).1 (by simp [hp])
      refine Or.inr ⟨n, result, lastAnswer_of_settled hanswer hn hwait hnone fun m hm => ?_, ?_⟩
      · rcases hrest m ((hb.due m d.uri).2 hm) with heq | hmem
        · exact (Prod.mk.inj heq).1
        · exact absurd ⟨m, hmem⟩ hmore
      · rw [hsettings, huri]
        simp [Json.isEmpty, hname, Json.same_str_iff]
  · have hother : d.uri.same v = false := by
      rw [Bool.eq_false_iff, huri, ne_eq, Json.same_str_iff, ← huri]
      exact fun heq => hv heq.symm
    have hasks' : server.asksSettings = true := by
      unfold Session.settled at hasks
      split at hasks <;> exact hasks
    rw [hother, Bool.and_false, if_neg Bool.false_ne_true] at hsettings
    refine (hf hasks' x hx name (hxuri.trans huri) hname).concat hxuri hsettings.symm
      (fun m hm => ?_) hnone
    rcases hrest m hm with heq | hmem
    · exact absurd (Prod.mk.inj heq).2.symm hv
    · exact hmem

theorem AllFollow.step {frame : Frame} {t : Turn} (hf : AllFollow h server)
    (hb : Booked h server out) (ho : Outcome server frame t) :
    AllFollow (h ++ [(frame, t)]) t.server := by
  cases ho with
  | acts _ u hacts hserver hout =>
    rw [hserver]
    exact hf.acts hb.consistent hacts hout
  | ignored _ _ _ _ hserver hout =>
    intro hasks d hd name huri hname
    rw [hserver] at hasks hd ⊢
    refine (hf hasks d hd name huri hname).concat rfl rfl (fun n hn => hn) fun n hn => ?_
    rw [hout] at hn
    cases hn
  | settled _ _ _ _ _ _ hanswer hp hn hserver hno =>
    rw [hserver]
    exact hf.settled hb hanswer hp hn hno

structure Tracked (h : List (Frame × Turn)) (server : Server) (out : List Json) : Prop where
  booked : Booked h server out
  answeredFirst : ∀ before, before <+: h → AnsweredFirst before
  allFollow : AllFollow h server

theorem kept_tracked : Kept Tracked where
  start := by
    refine ⟨kept_booked.start, fun before hpre uri _ m n hm => ?_, fun hasks => by cases hasks⟩
    obtain rfl := List.prefix_nil.1 hpre
    simp [Requested] at hm
  step files h server out frame t halike htracked := by
    have hb := htracked.booked
    have ho := (outcome_turn files hb.consistent frame).alike halike
    have hb' := hb.step ho
    refine ⟨hb', fun before hpre => ?_, htracked.allFollow.step hb ho⟩
    rcases List.prefix_concat_iff.1 hpre with rfl | hpre
    · have hnum := hb'.numbered
      rw [hb.written] at hnum
      exact (htracked.answeredFirst h (List.prefix_refl h)).step hnum
    · exact htracked.answeredFirst before hpre

/-- A document that waits for nothing has the settings of the last answer, which is the answer to the newest
request if the client answers in order. -/
theorem settings_of_lastAnswer (files : List Text → FileReader) {bytes : List UInt8}
    {ts : List Turn} (hts : ts <+: transcript files bytes)
    (hasks : (merge ts).server.asksSettings = true) {doc : Document}
    (hdoc : doc ∈ (merge ts).server.documents) {name : Text} (huri : doc.uri = .str name)
    (hname : name ≠ "") (hnone : ∀ n, (n, doc.uri) ∉ (merge ts).server.pending) :
    ∃ n result, LastAnswer (history bytes ts) doc.uri n result ∧
      doc.settings = some (answeredSettings result) ∧
      (InOrder (history bytes ts) doc.uri →
        ∀ m, Requested (history bytes ts) m doc.uri → m ≤ n) := by
  have htracked := kept_tracked.of_transcript files hts
  rcases htracked.allFollow hasks doc hdoc name huri hname with ⟨n, hn⟩ | ⟨n, result, hlast, hgot⟩
  · exact absurd hn (hnone n)
  · refine ⟨n, result, hlast, hgot, fun horder m hm => ?_⟩
    obtain ⟨before, p, after, id, heq, hwait, -, -, hall⟩ := hlast
    have hfirst := htracked.answeredFirst before ⟨p :: after, heq.symm⟩
    rw [heq] at horder hm
    rw [heq] at hall
    obtain ⟨hsent, rfl | hdone⟩ := hall m hm
    · exact Nat.le_refl m
    · exact Nat.le_of_lt (hfirst doc.uri horder.of_append m n hsent hdone hwait)

theorem settings_of_lastAnswer_overtaken : ∃ n result,
    LastAnswer (history overtaken overtakenTurns) (.str "a") n result ∧
      some ({ maxNumberOfProblems := 5 } : Settings) = some (answeredSettings result) ∧
      (InOrder (history overtaken overtakenTurns) (.str "a") →
        ∀ m, Requested (history overtaken overtakenTurns) m (.str "a") → m ≤ n) := by
  have hrun : (merge overtakenTurns).server.asksSettings = true ∧
      { uri := .str "a", text := .str "", settings := some { maxNumberOfProblems := 5 } } ∈
        (merge overtakenTurns).server.documents ∧ (merge overtakenTurns).server.pending = [] := by
    rw [overtakenTurns_eq]
    decide +kernel
  obtain ⟨hasks, hdoc, hpending⟩ := hrun
  exact settings_of_lastAnswer _ (List.prefix_refl overtakenTurns) hasks hdoc rfl (by decide)
    (by simp [hpending])

/-- Documents that wait for nothing have the settings of the answer to the newest request. -/
def NewestWins (h : List (Frame × Turn)) (server : Server) : Prop :=
  ∀ doc ∈ server.documents, ∀ name, doc.uri = .str name → name ≠ "" →
    (∀ n, (n, doc.uri) ∉ server.pending) →
    ∀ n, Requested h n doc.uri → (∀ m, Requested h m doc.uri → m ≤ n) →
      ∃ p ∈ h, ∃ id result, p.1.answer? = some (id, result) ∧ Json.same (.int n) id = true ∧
        doc.settings = some (answeredSettings result)

/-- Of two requests for a document, the answer to the second may come first. The settings are then those of
the answer to the first. -/
theorem not_newestWins_overtaken : (∀ t ∈ overtakenTurns, t.fault = none) ∧
    (merge overtakenTurns).server.asksSettings = true ∧
    (merge overtakenTurns).server.pending = [] ∧
    (overtakenTurns.map fun t => requestNumbers t.out) = [[], [.int 1], [.int 2], [], [], []] ∧
    (Frame.all overtaken).map Frame.answer? = [none, none, none,
      some (.int 2, .arr [.obj [("maxNumberOfProblems", .int 7)]]),
      some (.int 1, .arr [.obj [("maxNumberOfProblems", .int 5)]])] ∧
    ¬ NewestWins (history overtaken overtakenTurns) (merge overtakenTurns).server := by
  have hhistory : history overtaken overtakenTurns =
      (overtakenMessages.map .message).zip overtakenTurns := by
    rw [history, frames_overtaken]
  have hrun : (∀ t ∈ overtakenTurns, t.fault = none) ∧
      (merge overtakenTurns).server.asksSettings = true ∧
      (merge overtakenTurns).server.pending = [] ∧
      (overtakenTurns.map fun t => requestNumbers t.out) = [[], [.int 1], [.int 2], [], [], []] ∧
      (merge overtakenTurns).server.lastRequest = 2 ∧
      { uri := .str "a", text := .str "", settings := some { maxNumberOfProblems := 5 } } ∈
        (merge overtakenTurns).server.documents := by
    rw [overtakenTurns_eq]
    decide +kernel
  have hasked : Requested (history overtaken overtakenTurns) 2 (.str "a") := by
    rw [hhistory, overtakenTurns_eq]
    unfold Requested
    decide +kernel
  have hsecond : ∀ p ∈ history overtaken overtakenTurns, ∀ a ∈ p.1.answer?,
      Json.same (.int 2) a.1 = true → answeredSettings a.2 = { maxNumberOfProblems := 7 } := by
    rw [hhistory, overtakenTurns_eq]
    decide +kernel
  obtain ⟨hfault, hasks, hpending, hwritten, hlast, hdoc⟩ := hrun
  refine ⟨hfault, hasks, hpending, hwritten, ?_, fun hwins => ?_⟩
  · rw [frames_overtaken]
    decide +kernel
  · have hbooked := kept_booked.of_transcript _ (List.prefix_refl overtakenTurns)
    have hnewest : ∀ m, Requested (history overtaken overtakenTurns) m (.str "a") → m ≤ 2 :=
      fun m hm => hlast ▸ hbooked.le_of_requested hm
    obtain ⟨p, hp, id, result, hf, hid, hgot⟩ :=
      hwins _ hdoc "a" rfl (by decide) (by simp [hpending]) 2 hasked hnewest
    rw [hsecond p hp (id, result) hf hid] at hgot
    simp at hgot

end Session

end LittleMan
