import LittleMan.Proofs.Session.History
import Mathlib.Order.OrderIsoNat

/-! The two loops of a session without a bound on their passes. One takes the lines of a header off the
stream, the other its messages. Each line is a byte at least but the one that tells of the end, so both
loops end, and in a session no more lines are taken than the stream has bytes and one. -/

namespace LittleMan

namespace Frame

/-- A frame is read off a stream in so many lines, when some header lines have been read. -/
inductive Takes : Header → List UInt8 → Nat → Frame → List UInt8 → Prop
  | ended {h : Header} : Takes h [] 1 .ended []
  | malformed {h : Header} {bytes : List UInt8} {why : Malformation} (hne : bytes ≠ [])
      (hline : HeaderLine.read (takeLine bytes).1 = .malformed why) :
      Takes h bytes 1 (.malformed why) (takeLine bytes).2
  | body {h : Header} {bytes : List UInt8} (hne : bytes ≠ [])
      (hline : HeaderLine.read (takeLine bytes).1 = .blank) (hs : h.started = true) :
      Takes h bytes 1 (readBody h.bodySize (takeLine bytes).2).1
        (readBody h.bodySize (takeLine bytes).2).2
  | skip {h : Header} {bytes rest : List UInt8} {n : Nat} {frame : Frame} (hne : bytes ≠ [])
      (hline : HeaderLine.read (takeLine bytes).1 = .blank) (hs : h.started = false)
      (later : Takes h (takeLine bytes).2 n frame rest) : Takes h bytes (n + 1) frame rest
  | field {h : Header} {bytes rest : List UInt8} {n : Nat} {frame : Frame} {name value : List CodePoint}
      (hne : bytes ≠ []) (hline : HeaderLine.read (takeLine bytes).1 = .field name value)
      (later : Takes (h.add name value) (takeLine bytes).2 n frame rest) :
      Takes h bytes (n + 1) frame rest

/-- What is left of a stream after a read of so many lines: nothing if the stream has ended, else what
stands behind some bytes, one at least for each line. -/
inductive UsesUp (bytes : List UInt8) (n : Nat) : Frame → List UInt8 → Prop
  | ended (hn : n ≤ bytes.length + 1) : UsesUp bytes n .ended []
  | behind {frame : Frame} {used rest : List UInt8} (hframe : frame ≠ .ended) (hused : used ≠ [])
      (hbytes : bytes = used ++ rest) (hn : n ≤ used.length) : UsesUp bytes n frame rest

variable {h : Header} {bytes rest rest' : List UInt8} {n n' : Nat} {frame frame' : Frame}

theorem takeLine_ne_nil (hne : bytes ≠ []) : (takeLine bytes).1 ≠ [] := by
  cases bytes with
  | nil => exact absurd rfl hne
  | cons b rest => by_cases hb : b = 10 <;> simp [takeLine, hb]

theorem ofBody_ne_ended (body : List UInt8) : ofBody body ≠ .ended := by
  fun_cases ofBody body <;> simp

theorem readBody_leaves (size : BodySize) (bytes : List UInt8) :
    (readBody size bytes).1 ≠ .ended ∧ (readBody size bytes).2 <:+ bytes := by
  unfold readBody
  split
  · exact ⟨by simp, List.suffix_rfl⟩
  · exact ⟨by simp, List.suffix_rfl⟩
  · exact ⟨ofBody_ne_ended _, List.nil_suffix⟩
  · exact ⟨ofBody_ne_ended _, List.drop_suffix _ _⟩

theorem UsesUp.line (hne : bytes ≠ []) (hu : UsesUp (takeLine bytes).2 n frame rest) :
    UsesUp bytes (n + 1) frame rest := by
  have hline := takeLine_append bytes
  have hpos := List.length_pos_iff.2 (takeLine_ne_nil hne)
  cases hu with
  | ended hn =>
    have hlength := congrArg List.length hline
    rw [List.length_append] at hlength
    exact .ended (by omega)
  | @behind _ used _ hframe hused hrest hn =>
    have hbytes : bytes = ((takeLine bytes).1 ++ used) ++ rest := by
      rw [List.append_assoc, ← hrest, hline]
    refine .behind hframe (by simp [hused]) hbytes ?_
    rw [List.length_append]
    omega

theorem usesUp_of_suffix (hne : bytes ≠ []) (hframe : frame ≠ .ended)
    (hrest : rest <:+ (takeLine bytes).2) : UsesUp bytes 1 frame rest := by
  obtain ⟨body, hbody⟩ := hrest
  have hpos := List.length_pos_iff.2 (takeLine_ne_nil hne)
  have hbytes : bytes = ((takeLine bytes).1 ++ body) ++ rest := by
    rw [List.append_assoc, hbody, takeLine_append]
  refine .behind hframe (by simp [takeLine_ne_nil hne]) hbytes ?_
  rw [List.length_append]
  omega

theorem Takes.usesUp (ht : Takes h bytes n frame rest) : 0 < n ∧ UsesUp bytes n frame rest := by
  induction ht with
  | ended => exact ⟨Nat.one_pos, .ended (Nat.le_refl _)⟩
  | malformed hne hline =>
    exact ⟨Nat.one_pos, usesUp_of_suffix hne (by simp) List.suffix_rfl⟩
  | @body h bytes hne hline hs =>
    obtain ⟨hframe, hrest⟩ := readBody_leaves h.bodySize (takeLine bytes).2
    exact ⟨Nat.one_pos, usesUp_of_suffix hne hframe hrest⟩
  | skip hne hline hs later ih => exact ⟨Nat.succ_pos _, ih.2.line hne⟩
  | field hne hline later ih => exact ⟨Nat.succ_pos _, ih.2.line hne⟩

theorem next_eq_malformed_iff {line : List UInt8} {why : Malformation} :
    h.next line = .malformed why ↔ HeaderLine.read line = .malformed why := by
  rw [Header.next]
  cases HeaderLine.read line with
  | blank => cases h.started <;> simp
  | _ => simp

theorem next_eq_body_iff {line : List UInt8} {size : BodySize} :
    h.next line = .body size ↔
      HeaderLine.read line = .blank ∧ h.started = true ∧ h.bodySize = size := by
  rw [Header.next]
  cases HeaderLine.read line with
  | blank => cases h.started <;> simp
  | _ => simp

theorem next_eq_line_iff {line : List UInt8} {h' : Header} :
    h.next line = .line h' ↔ HeaderLine.read line = .blank ∧ h.started = false ∧ h = h' ∨
      ∃ name value, HeaderLine.read line = .field name value ∧ h.add name value = h' := by
  rw [Header.next]
  cases HeaderLine.read line with
  | blank => cases h.started <;> simp
  | _ => simp

theorem exists_takes (h : Header) (bytes : List UInt8) :
    ∃ n, Takes h bytes n (read h bytes).1 (read h bytes).2 := by
  fun_induction read h bytes with
  | case1 => exact ⟨1, .ended⟩
  | case2 h b rest why hnext => exact ⟨1, .malformed (by simp) (next_eq_malformed_iff.1 hnext)⟩
  | case3 h b rest size hnext =>
    obtain ⟨hline, hs, rfl⟩ := next_eq_body_iff.1 hnext
    exact ⟨1, .body (by simp) hline hs⟩
  | case4 h b rest h' hnext ih =>
    obtain ⟨n, hn⟩ := ih
    rcases next_eq_line_iff.1 hnext with ⟨hline, hs, rfl⟩ | ⟨name, value, hline, rfl⟩
    · exact ⟨n + 1, .skip (by simp) hline hs hn⟩
    · exact ⟨n + 1, .field (by simp) hline hn⟩

theorem Takes.unique (ht : Takes h bytes n frame rest) (ht' : Takes h bytes n' frame' rest') :
    n = n' ∧ frame = frame' ∧ rest = rest' := by
  induction ht generalizing n' with
  | ended => cases ht' <;> simp_all
  | malformed hne hline => cases ht' <;> simp_all
  | body hne hline hs => cases ht' <;> simp_all
  | skip hne hline hs later ih =>
    cases ht' with
    | skip _ _ _ later' =>
      obtain ⟨rfl, hrest⟩ := ih later'
      exact ⟨rfl, hrest⟩
    | _ => simp_all
  | field hne hline later ih =>
    cases ht' with
    | field _ hline' later' =>
      obtain ⟨rfl, rfl⟩ := HeaderLine.field.inj (hline.symm.trans hline')
      obtain ⟨rfl, hrest⟩ := ih later'
      exact ⟨rfl, hrest⟩
    | _ => simp_all

theorem Takes.read_eq (ht : Takes h bytes n frame rest) : read h bytes = (frame, rest) := by
  obtain ⟨n', hn'⟩ := exists_takes h bytes
  obtain ⟨-, rfl, rfl⟩ := hn'.unique ht
  rfl

end Frame

namespace Session

/-- A session between two messages: the server, the lines logged so far and what is left of the stream. -/
structure Waiting where
  server : Server
  log : List Text
  bytes : List UInt8

/-- A message is read in so many lines and handled. After it the session waits again, unless the stream
has ended, the message failed, or it asked for the end. -/
inductive Pass (files : List Text → FileReader) (w : Waiting) (n : Nat) :
    Turn → Option Waiting → Prop
  | ended {rest : List UInt8} (hread : Frame.Takes {} w.bytes n .ended rest) :
      Pass files w n { server := w.server, log := [farewell] } none
  | failed {frame : Frame} {rest : List UInt8} {t : Turn}
      (hread : Frame.Takes {} w.bytes n frame rest) (hframe : frame ≠ .ended)
      (ht : turn (files w.log) w.server frame = t) (hf : t.fault ≠ none) : Pass files w n t none
  | exited {frame : Frame} {rest : List UInt8} {t : Turn}
      (hread : Frame.Takes {} w.bytes n frame rest) (hframe : frame ≠ .ended)
      (ht : turn (files w.log) w.server frame = t) (hf : t.fault = none)
      (hx : t.server.exited = true) : Pass files w n { t with log := t.log ++ [farewell] } none
  | going {frame : Frame} {rest : List UInt8} {t : Turn}
      (hread : Frame.Takes {} w.bytes n frame rest) (hframe : frame ≠ .ended)
      (ht : turn (files w.log) w.server frame = t) (hf : t.fault = none)
      (hx : t.server.exited = false) :
      Pass files w n t (some { server := t.server, log := w.log ++ t.log, bytes := rest })

/-- The passes of a session up to its end, and the lines that are read in all of them. -/
inductive Passes (files : List Text → FileReader) : Waiting → Nat → List Turn → Prop
  | last {w : Waiting} {n : Nat} {t : Turn} (h : Pass files w n t none) : Passes files w n [t]
  | next {w w' : Waiting} {n m : Nat} {t : Turn} {ts : List Turn} (h : Pass files w n t (some w'))
      (later : Passes files w' m ts) : Passes files w (n + m) (t :: ts)

variable {files : List Text → FileReader} {w w' : Waiting} {n n' : Nat} {t t' : Turn}
  {after after' : Option Waiting} {ts ts' : List Turn}

theorem Pass.unique (h : Pass files w n t after) (h' : Pass files w n' t' after') :
    n = n' ∧ t = t' ∧ after = after' := by
  cases h with
  | ended hread =>
    cases h' with
    | ended hread' => exact ⟨(hread.unique hread').1, rfl, rfl⟩
    | failed hread' hframe' | exited hread' hframe' | going hread' hframe' =>
      exact absurd (hread.unique hread').2.1.symm hframe'
  | failed hread hframe ht | exited hread hframe ht | going hread hframe ht =>
    subst ht
    cases h' with
    | ended hread' => exact absurd (hread.unique hread').2.1 hframe
    | failed hread' _ ht' | exited hread' _ ht' | going hread' _ ht' =>
      obtain ⟨rfl, rfl, rfl⟩ := hread.unique hread'
      simp_all

theorem Passes.unique (h : Passes files w n ts) (h' : Passes files w n' ts') : n = n' ∧ ts = ts' := by
  induction h generalizing n' ts' with
  | last h =>
    cases h' with
    | last h' =>
      obtain ⟨rfl, rfl, -⟩ := h.unique h'
      exact ⟨rfl, rfl⟩
    | next h' later' => cases (h.unique h').2.2
  | next h later ih =>
    cases h' with
    | last h' => cases (h.unique h').2.2
    | next h' later' =>
      obtain ⟨rfl, rfl, hafter⟩ := h.unique h'
      obtain rfl := Option.some.inj hafter
      obtain ⟨rfl, rfl⟩ := ih later'
      exact ⟨rfl, rfl⟩

/-- A pass that is not the last leaves less of the stream, by a byte for each line that it reads. -/
theorem Pass.length_le (h : Pass files w n t (some w')) :
    0 < n ∧ n + w'.bytes.length ≤ w.bytes.length := by
  cases h with
  | going hread hframe =>
    obtain ⟨hpos, huse⟩ := hread.usesUp
    cases huse with
    | ended => exact absurd rfl hframe
    | behind _ _ hbytes hn =>
      rw [hbytes, List.length_append]
      exact ⟨hpos, Nat.add_le_add_right hn _⟩

theorem Pass.lines_le (h : Pass files w n t none) : 0 < n ∧ n ≤ w.bytes.length + 1 := by
  cases h with
  | ended hread | failed hread | exited hread =>
    obtain ⟨hpos, huse⟩ := hread.usesUp
    refine ⟨hpos, ?_⟩
    cases huse with
    | ended hn => exact hn
    | behind _ _ hbytes hn =>
      rw [hbytes, List.length_append]
      omega

/-- In a whole session no more lines are read than the stream has bytes and one, and no more messages than
lines. -/
theorem Passes.length_le (h : Passes files w n ts) : ts.length ≤ n ∧ n ≤ w.bytes.length + 1 := by
  induction h with
  | last h => exact h.lines_le
  | next h later ih =>
    have hstep := h.length_le
    rw [List.length_cons]
    omega

theorem exists_passes (files : List Text → FileReader) (server : Server) (log : List Text)
    (bytes : List UInt8) :
    ∃ n, Passes files ⟨server, log, bytes⟩ n (run files server log (Frame.all bytes)) := by
  induction hk : bytes.length using Nat.strong_induction_on generalizing server log bytes with
  | _ k ih =>
    obtain ⟨n, hread⟩ := Frame.exists_takes {} bytes
    cases hr : Frame.read {} bytes with
    | mk frame rest =>
      rw [hr] at hread
      by_cases hend : frame = .ended
      · subst hend
        rw [Frame.all_of_ended hr, run]
        exact ⟨n, .last (.ended hread)⟩
      · rw [Frame.all_of_read hr hend, run]
        by_cases hf : (turn (files log) server frame).fault.isSome = true
        · rw [if_pos hf]
          exact ⟨n, .last (.failed hread hend rfl (Option.isSome_iff_ne_none.1 hf))⟩
        · rw [if_neg hf]
          have hnone : (turn (files log) server frame).fault = none := by simpa using hf
          by_cases hx : (turn (files log) server frame).server.exited = true
          · rw [if_pos hx]
            exact ⟨n, .last (.exited hread hend rfl hnone hx)⟩
          · rw [if_neg hx]
            have hpass : Pass files ⟨server, log, bytes⟩ n _ (some _) :=
              .going hread hend rfl hnone (Bool.eq_false_iff.2 hx)
            have hless : 0 < n ∧ n + rest.length ≤ bytes.length := hpass.length_le
            obtain ⟨m, hlater⟩ := ih rest.length (by omega) _ _ rest rfl
            exact ⟨n + m, .next hpass hlater⟩

theorem not_endless (waiting : Nat → Waiting) :
    ¬ ∀ i, ∃ n t, Pass files (waiting i) n t (some (waiting (i + 1))) := by
  intro h
  refine not_strictAnti_of_wellFoundedLT (fun i => (waiting i).bytes.length)
    (strictAnti_nat_of_succ_lt fun i => ?_)
  obtain ⟨n, t, hpass⟩ := h i
  have hstep := hpass.length_le
  omega

/-- A session comes to its end on any stream. -/
structure Terminates (files : List Text → FileReader) (bytes : List UInt8) : Prop where
  /-- Wherever a message is read, the lines of its header come to an end, in one way, and bytes are used
  up if the stream has not ended. -/
  reading : ∀ stream : List UInt8, ∃ n, 0 < n ∧
    (∀ m frame rest, Frame.Takes {} stream m frame rest ↔
      m = n ∧ (frame, rest) = Frame.read {} stream) ∧
    Frame.UsesUp stream n (Frame.read {} stream).1 (Frame.read {} stream).2
  /-- The passes come to an end, in one way, and are the turns of the session under any bound that the
  stream does not exceed. -/
  ending : ∃ n ts, (∀ m us, Passes files ⟨{}, [greeting], bytes⟩ m us ↔ m = n ∧ us = ts) ∧
    n ≤ bytes.length + 1 ∧ ts.length ≤ n ∧ transcript files bytes = greet ts ∧
    ∀ fuel, bytes.length < fuel → turns files fuel {} [greeting] bytes = ts
  endless : ∀ waiting : Nat → Waiting,
    ¬ ∀ i, ∃ n t, Pass files (waiting i) n t (some (waiting (i + 1)))
  length_le : (transcript files bytes).length ≤ bytes.length + 1

theorem terminates (files : List Text → FileReader) (bytes : List UInt8) :
    Terminates files bytes := by
  obtain ⟨n, hpasses⟩ := exists_passes files {} [greeting] bytes
  obtain ⟨hturns, hlines⟩ := hpasses.length_le
  refine ⟨fun stream => ?_, ⟨n, _, fun m us => ?_, hlines, hturns, transcript_eq files bytes, ?_⟩,
    not_endless, ?_⟩
  · obtain ⟨n, hread⟩ := Frame.exists_takes {} stream
    obtain ⟨hpos, huse⟩ := hread.usesUp
    refine ⟨n, hpos, fun m frame rest => ⟨fun h => ?_, ?_⟩, huse⟩
    · exact ⟨(h.unique hread).1, h.read_eq.symm⟩
    · rintro ⟨rfl, h⟩
      rwa [← h] at hread
  · constructor
    · exact fun h => h.unique hpasses
    · rintro ⟨rfl, rfl⟩
      exact hpasses
  · exact fun fuel hfuel => turns_eq_run files hfuel {} [greeting]
  · rw [transcript_eq, length_greet]
    exact hturns.trans hlines

end Session

end LittleMan
