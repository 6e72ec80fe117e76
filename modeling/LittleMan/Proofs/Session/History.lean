import Mathlib.Data.List.Forall2
import LittleMan.Session.Transcript

/-! The frames of a stream with the turns they were handled in, and induction over them. What is kept from
turn to turn holds at every point of a session. -/

namespace LittleMan

/-- The frames of a stream, up to its end. -/
def Frame.all (bytes : List UInt8) : List Frame :=
  match bytes with
  | [] => []
  | b :: rest =>
    match (Frame.read {} (b :: rest)).1 with
    | .ended => []
    | frame => frame :: Frame.all (Frame.read {} (b :: rest)).2
termination_by bytes.length
decreasing_by exact Frame.length_read_lt {} (List.cons_ne_nil b rest)

theorem Frame.all_of_read {bytes rest : List UInt8} {frame : Frame}
    (h : Frame.read {} bytes = (frame, rest)) (hne : frame ≠ .ended) :
    Frame.all bytes = frame :: Frame.all rest := by
  cases bytes with
  | nil =>
    rw [Frame.read] at h
    exact absurd (Prod.mk.inj h).1.symm hne
  | cons b bytes =>
    rw [Frame.all, h]
    cases frame with
    | ended => exact absurd rfl hne
    | _ => rfl

theorem Frame.all_of_ended {bytes rest : List UInt8} (h : Frame.read {} bytes = (.ended, rest)) :
    Frame.all bytes = [] := by
  cases bytes with
  | nil => rw [Frame.all]
  | cons b bytes => rw [Frame.all, h]

/-- The turns are the same but for their logs. -/
structure Turn.Alike (t u : Turn) : Prop where
  server : t.server = u.server
  out : t.out = u.out
  fault : t.fault = u.fault

theorem Turn.Alike.refl (t : Turn) : t.Alike t := ⟨rfl, rfl, rfl⟩

theorem Turn.Alike.symm {t u : Turn} (h : t.Alike u) : u.Alike t :=
  ⟨h.server.symm, h.out.symm, h.fault.symm⟩

theorem Turn.Alike.trans {t u v : Turn} (h : t.Alike u) (h' : u.Alike v) : t.Alike v :=
  ⟨h.server.trans h'.server, h.out.trans h'.out, h.fault.trans h'.fault⟩

namespace Session

/-- What was received and how it was handled, in order. The end of the stream is left out. -/
def history (bytes : List UInt8) (ts : List Turn) : List (Frame × Turn) := (Frame.all bytes).zip ts

theorem mem_take_of_mem_history {bytes : List UInt8} {ts : List Turn} {p : Frame × Turn}
    (h : p ∈ history bytes ts) : p.1 ∈ (Frame.all bytes).take ts.length ∧ p.2 ∈ ts := by
  rw [history, List.zip_eq_zip_take_min] at h
  obtain ⟨hframe, hturn⟩ := List.of_mem_zip h
  exact ⟨(List.take_subset_take_left _ (Nat.min_le_right _ _)) hframe, List.mem_of_mem_take hturn⟩

/-- The turns of a session on frames that are known. -/
def run (files : List Text → FileReader) (server : Server) (log : List Text) :
    List Frame → List Turn
  | [] => [{ server, log := [farewell] }]
  | frame :: frames =>
    let t := turn (files log) server frame
    if t.fault.isSome then [t]
    else if t.server.exited then [{ t with log := t.log ++ [farewell] }]
    else t :: run files t.server (log ++ t.log) frames

theorem turns_eq_run (files : List Text → FileReader) {fuel : Nat} {bytes : List UInt8}
    (h : bytes.length < fuel) (server : Server) (log : List Text) :
    turns files fuel server log bytes = run files server log (Frame.all bytes) := by
  induction fuel generalizing bytes server log with
  | zero => omega
  | succ fuel ih =>
    cases hr : Frame.read {} bytes with
    | mk frame rest =>
      by_cases hend : frame = .ended
      · subst hend
        simp only [turns, hr, Frame.all_of_ended hr, run]
        rfl
      · have hne : bytes ≠ [] := by
          rintro rfl
          rw [Frame.read] at hr
          exact hend (Prod.mk.inj hr).1.symm
        have hlt := Frame.length_read_lt {} hne
        rw [hr] at hlt
        have hrest : ∀ server log, turns files fuel server log rest =
            run files server log (Frame.all rest) := ih (by simp only at hlt; omega)
        rw [Frame.all_of_read hr hend, run]
        cases hf : (turn (files log) server frame).fault.isSome with
        | true => simp only [turns, hr, step, hf, if_true]
        | false =>
          cases hx : (turn (files log) server frame).server.exited with
          | true => simp [turns, hr, step, hf, hx]
          | false => simp [turns, hr, step, hf, hx, hend, hrest]

theorem merge_cons {t : Turn} {ts : List Turn} (hne : ts ≠ []) :
    (merge (t :: ts)).server = (merge ts).server ∧ (merge (t :: ts)).out = t.out ++ (merge ts).out ∧
      (merge (t :: ts)).fault = (merge ts).fault := by
  cases ts with
  | nil => exact absurd rfl hne
  | cons u us =>
    have hlast : (t :: u :: us).getLast? = (u :: us).getLast? := List.getLast?_cons_cons
    refine ⟨?_, List.flatMap_cons, ?_⟩
    · rw [merge, merge, hlast]
    · rw [merge, merge, hlast]

theorem run_ne_nil (files : List Text → FileReader) (server : Server) (log : List Text)
    (frames : List Frame) : run files server log frames ≠ [] := by
  cases frames with
  | nil => simp [run]
  | cons frame frames =>
    rw [run]
    split
    · simp
    · split <;> simp

theorem run_cons_of_going {files : List Text → FileReader} {server : Server} {log : List Text}
    {frame : Frame} {frames : List Frame} (hf : (turn (files log) server frame).fault = none)
    (hg : (turn (files log) server frame).server.exited = false) :
    run files server log (frame :: frames) = turn (files log) server frame ::
      run files (turn (files log) server frame).server
        (log ++ (turn (files log) server frame).log) frames := by
  rw [run, hf, hg]
  rfl

theorem exists_mem_run (files : List Text → FileReader) (server : Server) (log : List Text)
    (frame : Frame) (frames : List Frame) :
    ∃ t ∈ run files server log (frame :: frames), t.Alike (turn (files log) server frame) := by
  rw [run]
  split
  · exact ⟨_, List.mem_cons_self, .refl _⟩
  · split
    · exact ⟨_, List.mem_cons_self, rfl, rfl, rfl⟩
    · exact ⟨_, List.mem_cons_self, .refl _⟩

theorem alike_cons {t u : Turn} {ts us : List Turn} (hts : ts ≠ []) (hus : us ≠ [])
    (hout : t.out = u.out) (h : (merge ts).Alike (merge us)) :
    (merge (t :: ts)).Alike (merge (u :: us)) := by
  obtain ⟨hserver, hwritten, hfault⟩ := merge_cons (t := t) hts
  obtain ⟨hserver', hwritten', hfault'⟩ := merge_cons (t := u) hus
  exact ⟨hserver.trans (h.server.trans hserver'.symm),
    by rw [hwritten, hwritten', hout, h.out], hfault.trans (h.fault.trans hfault'.symm)⟩

theorem prefix_run_cons {files : List Text → FileReader} {server : Server} {log : List Text}
    {frame : Frame} {frames : List Frame} {t : Turn} {ts : List Turn}
    (h : t :: ts <+: run files server log (frame :: frames)) :
    t.Alike (turn (files log) server frame) ∧
      ts <+: run files (turn (files log) server frame).server
        (log ++ (turn (files log) server frame).log) frames := by
  simp only [run] at h
  split at h
  · obtain ⟨rfl, hts⟩ := List.cons_prefix_cons.1 h
    obtain rfl := List.prefix_nil.1 hts
    exact ⟨.refl _, List.nil_prefix⟩
  · split at h
    · obtain ⟨rfl, hts⟩ := List.cons_prefix_cons.1 h
      obtain rfl := List.prefix_nil.1 hts
      exact ⟨⟨rfl, rfl, rfl⟩, List.nil_prefix⟩
    · obtain ⟨rfl, hts⟩ := List.cons_prefix_cons.1 h
      exact ⟨.refl _, hts⟩

/-- A property of the history, the server and the messages written, which each turn keeps. -/
structure Kept (P : List (Frame × Turn) → Server → List Json → Prop) : Prop where
  start : P [] {} []
  step : ∀ (files : FileReader) {h : List (Frame × Turn)} {server : Server} {out : List Json}
    (frame : Frame) {t : Turn}, t.Alike (turn files server frame) → P h server out →
      P (h ++ [(frame, t)]) t.server (out ++ t.out)

variable {P : List (Frame × Turn) → Server → List Json → Prop}

theorem Kept.of_run (hP : Kept P) (files : List Text → FileReader) {server : Server}
    {log : List Text} {frames : List Frame} {ts us : List Turn} {h : List (Frame × Turn)}
    {out : List Json} (hp : P h server out) (hts : List.Forall₂ Turn.Alike ts us)
    (hus : us <+: run files server log frames) :
    P (h ++ frames.zip ts) ((ts.getLast?.map (·.server)).getD server)
      (out ++ ts.flatMap (·.out)) := by
  induction frames generalizing server log ts us h out with
  | nil =>
    cases hts with
    | nil => simpa using hp
    | @cons t u ts us hhead htail =>
      obtain ⟨rfl, hrest⟩ := List.cons_prefix_cons.1 hus
      obtain rfl := List.prefix_nil.1 hrest
      obtain rfl := List.forall₂_nil_right_iff.1 htail
      simpa [hhead.server, hhead.out] using hp
  | cons frame frames ih =>
    cases hts with
    | nil => simpa using hp
    | @cons t u ts us hhead htail =>
      obtain ⟨hu, hrest⟩ := prefix_run_cons hus
      have halike := hhead.trans hu
      have hp' := hP.step (files log) frame halike hp
      rw [← halike.server] at hrest
      have hlater := ih hp' htail hrest
      rw [List.zip_cons_cons, List.append_cons, List.flatMap_cons, ← List.append_assoc,
        List.getLast?_cons]
      cases hl : ts.getLast? with
      | none => simpa [hl] using hlater
      | some last => simpa [hl] using hlater

def greet : List Turn → List Turn
  | [] => []
  | t :: rest => { t with log := greeting :: t.log } :: rest

theorem transcript_eq (files : List Text → FileReader) (bytes : List UInt8) :
    transcript files bytes = greet (run files {} [greeting] (Frame.all bytes)) := by
  rw [transcript, turns_eq_run files (Nat.lt_succ_self bytes.length)]
  cases run files {} [greeting] (Frame.all bytes) <;> rfl

theorem alike_greet (ts : List Turn) : (merge (greet ts)).Alike (merge ts) := by
  cases ts with
  | nil => exact .refl _
  | cons t ts =>
    cases ts with
    | nil => exact ⟨rfl, rfl, rfl⟩
    | cons u us =>
      exact alike_cons (List.cons_ne_nil _ _) (List.cons_ne_nil _ _) rfl (.refl _)

theorem exists_mem_greet {ts : List Turn} {t : Turn} (h : t ∈ ts) : ∃ u ∈ greet ts, u.Alike t := by
  cases ts with
  | nil => cases h
  | cons u us =>
    rcases List.mem_cons.1 h with rfl | h
    · exact ⟨_, List.mem_cons_self, rfl, rfl, rfl⟩
    · exact ⟨t, List.mem_cons_of_mem _ h, .refl t⟩

theorem length_greet (ts : List Turn) : (greet ts).length = ts.length := by
  cases ts <;> rfl

theorem alike_transcript (files : List Text → FileReader) (bytes : List UInt8) :
    (merge (transcript files bytes)).Alike (merge (run files {} [greeting] (Frame.all bytes))) := by
  rw [transcript_eq]
  exact alike_greet _

theorem Kept.of_transcript (hP : Kept P) (files : List Text → FileReader) {bytes : List UInt8}
    {ts : List Turn} (hts : ts <+: transcript files bytes) :
    P (history bytes ts) (merge ts).server (merge ts).out := by
  obtain ⟨us, halike, hus⟩ : ∃ us, List.Forall₂ Turn.Alike ts us ∧
      us <+: run files {} [greeting] (Frame.all bytes) := by
    rw [transcript_eq] at hts
    cases ts with
    | nil => exact ⟨[], .nil, List.nil_prefix⟩
    | cons t ts =>
      generalize run files {} [greeting] (Frame.all bytes) = us at hts
      cases us with
      | nil => cases List.prefix_nil.1 hts
      | cons u us =>
        obtain ⟨rfl, hrest⟩ := List.cons_prefix_cons.1 hts
        exact ⟨u :: ts, .cons ⟨rfl, rfl, rfl⟩ (List.forall₂_same.2 fun t _ => .refl t),
          List.cons_prefix_cons.2 ⟨rfl, hrest⟩⟩
  have hrun := hP.of_run files hP.start halike hus
  simpa only [List.nil_append, merge, history] using hrun

end Session

end LittleMan
