import LittleMan.Proofs.Session.Consistent
import LittleMan.Proofs.Session.History

/-! What the server does about a frame. An answer concerns the one request of its number that waits, and
nothing happens if there is none; about any other frame the server does nothing but acts. -/

namespace LittleMan

open Handler Turn

/-- The number and the result of a frame that is an answer, as the server reads it: it has no method. -/
def Frame.answer? : Frame → Option (Json × Json)
  | .message fields =>
    if (Json.lookup "method" fields).getD .null = .null then
      some ((Json.lookup "id" fields).getD .null, (Json.lookup "result" fields).getD .null)
    else none
  | _ => none

namespace Session

variable {server : Server} {frame : Frame} {id result : Json}

theorem takePending_of_forall {pending : List (Nat × Json)}
    (h : ∀ p ∈ pending, Json.same (.int p.1) id = false) :
    takePending id pending = (none, pending) := by
  induction pending with
  | nil => rfl
  | cons p pending ih =>
    have hp := h p List.mem_cons_self
    simp only [takePending, hp, Bool.false_eq_true, if_false,
      ih fun q hq => h q (List.mem_cons_of_mem _ hq)]

theorem takePending_append {before after : List (Nat × Json)} {n : Nat} {uri : Json}
    (h : ∀ p ∈ before, Json.same (.int p.1) id = false) (hn : Json.same (.int n) id = true) :
    takePending id (before ++ (n, uri) :: after) = (some uri, before ++ after) := by
  induction before with
  | nil => simp only [List.nil_append, takePending, hn, if_true]
  | cons p before ih =>
    have hp := h p List.mem_cons_self
    simp only [List.cons_append, takePending, hp, Bool.false_eq_true, if_false,
      ih fun q hq => h q (List.mem_cons_of_mem _ hq)]

theorem turn_of_answer (files : FileReader) (server : Server)
    (hf : frame.answer? = some (id, result)) :
    (turn files server frame).server = (didAnswer id result { server }).2.server ∧
      (turn files server frame).out = (didAnswer id result { server }).2.out ∧
      ((didAnswer id result { server }).1 = .ok () →
        turn files server frame = (didAnswer id result { server }).2) := by
  cases frame with
  | message fields =>
    rw [Frame.answer?] at hf
    split at hf
    · next hm =>
      obtain ⟨rfl, rfl⟩ := Prod.mk.inj (Option.some.inj hf)
      have hreceive : receive files fields { server } =
          didAnswer ((Json.lookup "id" fields).getD .null)
            ((Json.lookup "result" fields).getD .null) { server } := by
        simp only [receive, hm, if_true]
      rw [turn, hreceive]
      generalize didAnswer _ _ { server } = r
      obtain ⟨_ | _, t⟩ := r
      · exact ⟨rfl, rfl, fun h => by cases h⟩
      · exact ⟨rfl, rfl, fun _ => rfl⟩
    · cases hf
  | _ => cases hf

theorem didAnswer_apply (id result : Json) (t : Turn) :
    didAnswer id result t =
      if t.server.pending = [] ∨ id.isScalar = true then
        takeAnswer result (takePending id t.server.pending).2
          ((takePending id t.server.pending).1.getD .null) t
      else (.error .wrongShape, t) := by
  simp only [didAnswer, bind_apply, Handler.server]
  cases hp : t.server.pending with
  | nil => rfl
  | cons p pending =>
    cases hid : id.isScalar with
    | true =>
      simp only [Json.requireScalar, hid]
      rfl
    | false =>
      simp only [Json.requireScalar, hid]
      rfl

theorem turn_of_unawaited (files : FileReader) (hf : frame.answer? = some (id, result))
    (hno : ∀ p ∈ server.pending, Json.same (.int p.1) id = false) :
    (turn files server frame).server = server ∧ (turn files server frame).out = [] ∧
      (id.isScalar = true → turn files server frame = { server }) := by
  obtain ⟨hserver, hout, hwhole⟩ := turn_of_answer files server hf
  have hnothing : takeAnswer result server.pending .null { server } = (.ok (), { server }) := rfl
  rw [didAnswer_apply, takePending_of_forall hno, Option.getD_none, hnothing] at hserver hout hwhole
  by_cases hid : server.pending = [] ∨ id.isScalar = true
  · rw [if_pos hid] at hserver hout hwhole
    exact ⟨hserver, hout, fun _ => hwhole rfl⟩
  · rw [if_neg hid] at hserver hout
    exact ⟨hserver, hout, fun h => absurd (Or.inr h) hid⟩

/-- The server once the answer to a request is taken in. -/
def settled (server : Server) (left : List (Nat × Json)) (uri result : Json) : Server :=
  { (if uri.isEmpty then server
      else server.update uri fun d => { d with settings := some (answeredSettings result) }) with
    pending := left }

theorem update_of_find?_none {uri : Json} (f : Document → Document)
    (h : server.documents.find? (fun d => d.uri.same uri) = none) : server.update uri f = server := by
  have hmap : server.documents.map (fun d => if d.uri.same uri then f d else d) =
      server.documents.map id := by
    refine List.map_congr_left fun d hd => ?_
    exact if_neg (List.find?_eq_none.1 h d hd)
  rw [Server.update, hmap, List.map_id]

theorem takeAnswer_settles (server : Server) (result : Json) (left : List (Nat × Json)) {uri : Json}
    (huri : uri.isScalar = true) :
    (takeAnswer result left uri { server }).2.server = settled server left uri result ∧
      ∀ m ∈ (takeAnswer result left uri { server }).2.out, requestNumber? m = none := by
  have hscalar : uri.requireScalar = .ok () := if_pos huri
  cases he : uri.isEmpty with
  | true => simp [takeAnswer, settled, he, bind_apply, Handler.change, pure_apply]
  | false =>
    cases hfind : server.documents.find? (fun d => d.uri.same uri) with
    | none =>
      have hrun : takeAnswer result left uri { server } =
          (.ok (), { server := { server with pending := left } }) := by
        simp only [takeAnswer, he, Bool.not_false, if_true, bind_apply, Handler.change, Handler.server,
          liftM_apply, Server.find?, hscalar, Except.map, hfind]
        rfl
      rw [hrun, settled, he, if_neg Bool.false_ne_true, update_of_find?_none _ hfind]
      exact ⟨rfl, by simp⟩
    | some doc =>
      have hrun : takeAnswer result left uri { server } =
          publish { doc with settings := some (answeredSettings result) }
            { server := settled server left uri result } := by
        simp only [takeAnswer, he, Bool.not_false, if_true, bind_apply, Handler.change, Handler.server,
          liftM_apply, Server.find?, hscalar, Except.map, hfind, settled]
        rfl
      obtain ⟨messages, lines, hm, hpublish⟩ := publish_tells
        { doc with settings := some (answeredSettings result) }
        { server := settled server left uri result }
      rw [hrun, hpublish]
      exact ⟨rfl, hm⟩

theorem takePending_of_consistent (hs : server.Consistent) {before after : List (Nat × Json)} {n : Nat}
    {uri : Json} (hp : server.pending = before ++ (n, uri) :: after) (hn : Json.same (.int n) id = true) :
    takePending id server.pending = (some uri, before ++ after) := by
  have hincreasing := hs.increasing
  rw [hp] at hincreasing
  have hbefore : ∀ p ∈ before, Json.same (.int p.1) id = false := by
    intro p hmem
    have hlt : p.1 < n := (List.pairwise_append.1 hincreasing).2.2 p hmem _ List.mem_cons_self
    cases hsame : Json.same (.int p.1) id with
    | false => rfl
    | true => exact absurd (Json.same_number_inj hsame hn) (Nat.ne_of_lt hlt)
  rw [hp, takePending_append hbefore hn]

theorem turn_of_awaited (files : FileReader) (hs : server.Consistent)
    (hf : frame.answer? = some (id, result)) {before after : List (Nat × Json)} {n : Nat} {uri : Json}
    (hp : server.pending = before ++ (n, uri) :: after) (hn : Json.same (.int n) id = true) :
    (turn files server frame).server = settled server (before ++ after) uri result ∧
      ∀ m ∈ (turn files server frame).out, requestNumber? m = none := by
  have huri : uri.isScalar = true := (hs.due (n, uri) (by simp [hp])).1
  have hrun := takeAnswer_settles server result (before ++ after) huri
  obtain ⟨hserver, hout, -⟩ := turn_of_answer files server hf
  rw [didAnswer_apply, if_pos (Or.inr (Json.isScalar_of_same_number hn)),
    takePending_of_consistent hs hp hn, Option.getD_some] at hserver hout
  rw [hserver, hout]
  exact hrun

theorem acts_turn (files : FileReader) (hs : server.Consistent) (hf : frame.answer? = none) :
    ∃ t, Acts { server } t ∧ (turn files server frame).server = t.server ∧
      (turn files server frame).out = t.out := by
  cases frame with
  | message fields =>
    have hmethod : (Json.lookup "method" fields).getD .null ≠ .null := by
      intro hm
      simp [Frame.answer?, hm] at hf
    have hreceive : Performs (receive files fields) { server } := by
      unfold receive
      simp only [if_neg hmethod]
      refine Performs.server ?_
      split
      · next hi =>
        refine Performs.recover ?_ fun e u => Performs.of_replies (replies_refuseParams _ _ e)
        split
        · exact performs_handle files _ _ _ hi hs.named
        · exact Performs.of_replies (replies_unknown _ _)
      · next hi => exact performs_await _ _ _ (by simpa using hi)
    refine ⟨(receive files fields { server }).2, hreceive, ?_⟩
    rw [turn]
    generalize receive files fields { server } = r
    obtain ⟨_ | _, t⟩ := r
    · exact ⟨rfl, rfl⟩
    · exact ⟨rfl, rfl⟩
  | _ => exact ⟨{ server }, .refl, rfl, rfl⟩

/-- What a turn comes to for its server. -/
inductive Outcome (server : Server) (frame : Frame) (u : Turn) : Prop
  | acts (hf : frame.answer? = none) (t : Turn) (hacts : Acts { server } t)
      (hserver : u.server = t.server) (hout : u.out = t.out)
  | ignored (id result : Json) (hf : frame.answer? = some (id, result))
      (hno : ∀ p ∈ server.pending, Json.same (.int p.1) id = false)
      (hserver : u.server = server) (hout : u.out = [])
  | settled (id result : Json) (before after : List (Nat × Json)) (n : Nat) (uri : Json)
      (hf : frame.answer? = some (id, result)) (hp : server.pending = before ++ (n, uri) :: after)
      (hn : Json.same (.int n) id = true)
      (hserver : u.server = Session.settled server (before ++ after) uri result)
      (hno : ∀ m ∈ u.out, requestNumber? m = none)

theorem outcome_turn (files : FileReader) (hs : server.Consistent) (frame : Frame) :
    Outcome server frame (turn files server frame) := by
  cases hf : frame.answer? with
  | none =>
    obtain ⟨t, hacts, hserver, hout⟩ := acts_turn files hs hf
    exact .acts hf t hacts hserver hout
  | some answer =>
    obtain ⟨id, result⟩ := answer
    by_cases hex : ∃ p ∈ server.pending, Json.same (.int p.1) id = true
    · obtain ⟨⟨n, uri⟩, hmem, hn⟩ := hex
      obtain ⟨before, after, hp⟩ := List.append_of_mem hmem
      obtain ⟨hserver, hno⟩ := turn_of_awaited files hs hf hp hn
      exact .settled id result before after n uri hf hp hn hserver hno
    · have hno : ∀ p ∈ server.pending, Json.same (.int p.1) id = false :=
        fun p hp => Bool.eq_false_iff.2 fun h => hex ⟨p, hp, h⟩
      obtain ⟨hserver, hout, -⟩ := turn_of_unawaited files hf hno
      exact .ignored id result hf hno hserver hout

theorem Outcome.alike {t u : Turn} (h : Outcome server frame u) (ha : t.Alike u) :
    Outcome server frame t := by
  cases h with
  | acts hf u hacts hserver hout =>
    exact .acts hf u hacts (ha.server.trans hserver) (ha.out.trans hout)
  | ignored id result hf hno hserver hout =>
    exact .ignored id result hf hno (ha.server.trans hserver) (ha.out.trans hout)
  | settled id result before after n uri hf hp hn hserver hno =>
    exact .settled id result before after n uri hf hp hn (ha.server.trans hserver) (ha.out ▸ hno)

theorem consistent_settled (hs : server.Consistent) {left : List (Nat × Json)}
    (hl : left.Sublist server.pending) (uri result : Json) :
    (settled server left uri result).Consistent := by
  unfold settled
  split
  · exact hs.sublist hl
  · have hupdate := hs.update (f := fun d => { d with settings := some (answeredSettings result) })
      uri fun _ => rfl
    exact hupdate.sublist hl

theorem Outcome.consistent {u : Turn} (h : Outcome server frame u) (hs : server.Consistent) :
    u.server.Consistent := by
  cases h with
  | acts _ t hacts hserver =>
    rw [hserver]
    exact hacts.consistent hs
  | ignored _ _ _ _ hserver =>
    rw [hserver]
    exact hs
  | settled _ result before after n uri _ hp _ hserver =>
    rw [hserver]
    refine consistent_settled hs ?_ uri result
    rw [hp]
    exact (List.sublist_cons_self _ _).append_left before

end Session

end LittleMan
