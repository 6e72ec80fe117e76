import LittleMan.Proofs.Session.Effects
import LittleMan.Proofs.Session.SingleReply
import LittleMan.Proofs.Session.Steady

/-! The life of a session. It starts once, with the first message that asks for it, and is refused all else
before and a second start after. A shutdown counts once the session has started and is not taken back, and
the first message that ends the session is the last one that is read. -/

namespace LittleMan

open Handler

/-- A state and one that the server is in later. -/
structure Server.Onward (s u : Server) : Prop where
  initialized : s.initialized = true → u.initialized = true
  asksSettings : s.initialized = true → u.asksSettings = s.asksSettings
  hasFolders : s.initialized = true → u.hasFolders = s.hasFolders
  shutdown : s.shutdown = true → u.shutdown = true

theorem Server.Onward.refl (s : Server) : s.Onward s := ⟨id, fun _ => rfl, fun _ => rfl, id⟩

theorem Server.Onward.trans {s u v : Server} (h : s.Onward u) (h' : u.Onward v) : s.Onward v where
  initialized hi := h'.initialized (h.initialized hi)
  asksSettings hi := (h'.asksSettings (h.initialized hi)).trans (h.asksSettings hi)
  hasFolders hi := (h'.hasFolders (h.initialized hi)).trans (h.hasFolders hi)
  shutdown hs := h'.shutdown (h.shutdown hs)

/-- A shutdown comes somewhere after a start. -/
def Frame.ShutDown (frames : List Frame) : Prop :=
  ∃ start stop, [start, stop].Sublist frames ∧ start.calls "initialize" = true ∧
    stop.calls "shutdown" = true

/-- The last frame asks for the end, and no shutdown that counts comes before. -/
def Frame.Abandoned (frames : List Frame) : Prop :=
  ∃ before frame, frames = before ++ [frame] ∧ frame.calls "exit" = true ∧ ¬ ShutDown before

namespace Session

/-- The refusal of a second start. -/
def startRefusal (id : Json) : Json :=
  .obj [("jsonrpc", .str "2.0"), ("id", id),
    ("error", .obj [("code", .int (-32600)), ("message", .str "LSP was already initialized")])]

variable {files : FileReader} {server s : Server} {frame : Frame} {frames seen : List Frame}
  {t : Turn} {ts later : List Turn} {method : String}

theorem calls_of_call?_eq_none (h : frame.call? = none) (method : String) :
    frame.calls method = false := by
  rw [Frame.calls, h, Option.any_none]

theorem calls_message {fields : List (Text × Json)}
    (hm : Json.lookup "method" fields = some (.str method)) (name : String) :
    (Frame.message fields).calls name = decide (method = name) := by
  rw [Frame.calls, call?_message hm, Option.any_some]

theorem phase_turn (files : FileReader) (frame : Frame) (hi : server.initialized = true) :
    (turn files server frame).server.phase =
      { server.phase with
        shutdown := server.shutdown || frame.calls "shutdown"
        exited := server.exited || frame.calls "exit" } := by
  have hsame : frame.calls "shutdown" = false → frame.calls "exit" = false →
      { server.phase with
        shutdown := server.shutdown || frame.calls "shutdown"
        exited := server.exited || frame.calls "exit" } = server.phase := by
    intro hs hx
    rw [hs, hx, Bool.or_false, Bool.or_false]
    rfl
  cases frame with
  | message fields =>
    rcases message_cases fields with ⟨answer, hf, hcall⟩ | ⟨method, hm⟩ |
      ⟨name, hm, hne, hstr, hcall⟩
    · rw [hsame (calls_of_call?_eq_none hcall _) (calls_of_call?_eq_none hcall _)]
      obtain ⟨hserver, -, -⟩ := turn_of_answer files server hf
      rw [hserver]
      exact steady_didAnswer answer.1 answer.2 { server }
    · by_cases hshutdown : method = "shutdown"
      · subst hshutdown
        rw [turn_of_shutdown files hi hm, calls_message hm, calls_message hm]
        simp [Server.phase]
      by_cases hexit : method = "exit"
      · subst hexit
        rw [server_turn_of_method files hi hm, calls_message hm, calls_message hm]
        simp [Server.phase, handle, Handler.change]
      · rw [hsame (by simp [calls_message hm, hshutdown]) (by simp [calls_message hm, hexit]),
          server_turn_of_method files hi hm]
        exact steady_handle files _ _ hshutdown hexit { server }
    · rw [hsame (calls_of_call?_eq_none hcall _) (calls_of_call?_eq_none hcall _),
        turn_of_nameless files hi hm hne hstr, Replies.server_eq (replies_unknown _ _)]
  | ended | malformed | tooLarge | tooDeep => rw [hsame rfl rfl]; rfl

/-- What becomes of a message to a server that has not started: it starts, or it waits on. -/
inductive BeforeStart (server : Server) (frame : Frame) (t : Turn) : Prop
  | starts (abilities : Bool × Bool) (hcall : frame.calls "initialize" = true)
      (hfault : t.fault = none) (hserver : t.server = begun server abilities)
  | waits (hcall : frame.calls "initialize" = true → t.fault ≠ none)
      (hserver : t.server = { server with exited := server.exited || frame.calls "exit" })
      (hout : t.out = [] ∨ ∃ id, t.out = [earlyRefusal id])

theorem beforeStart_of_same (hcall : frame.call? = none) (hserver : t.server = server)
    (hout : t.out = [] ∨ ∃ id, t.out = [earlyRefusal id]) : BeforeStart server frame t := by
  apply BeforeStart.waits
  · intro h
    rw [calls_of_call?_eq_none hcall] at h
    cases h
  · rw [calls_of_call?_eq_none hcall, Bool.or_false]
    exact hserver
  · exact hout

theorem out_of_early (files : FileReader) {fields : List (Text × Json)} {name : Json}
    (hi : server.initialized = false) (hm : Json.lookup "method" fields = some name)
    (hne : name ≠ .null) (hstart : name ≠ .str "initialize") :
    (turn files server (.message fields)).out = [] ∨
      ∃ id, (turn files server (.message fields)).out = [earlyRefusal id] := by
  by_cases hexit : name = .str "exit"
  · rw [turn_of_early files hi hm hne, await, if_neg hstart, if_pos hexit]
    exact Or.inl rfl
  by_cases hid : messageId fields = .null
  · rw [turn_of_early files hi hm hne, await, if_neg hstart, if_neg hexit, if_neg (not_not.2 hid)]
    exact Or.inl rfl
  · rw [turn_of_early_request files hi hm hne hstart hexit hid]
    exact Or.inr ⟨_, rfl⟩

theorem beforeStart_turn (files : FileReader) (frame : Frame) (hi : server.initialized = false)
    (hp : server.pending = []) : BeforeStart server frame (turn files server frame) := by
  cases frame with
  | message fields =>
    rcases message_cases fields with ⟨answer, hf, hcall⟩ | ⟨method, hm⟩ |
      ⟨name, hm, hne, hstr, hcall⟩
    · have hno : ∀ p ∈ server.pending, Json.same (.int p.1) answer.1 = false := by simp [hp]
      obtain ⟨hserver, hout, -⟩ := turn_of_unawaited files hf hno
      exact beforeStart_of_same hcall hserver (Or.inl hout)
    · have hcall := calls_message hm
      by_cases hstart : method = "initialize"
      · subst hstart
        cases ha : abilitiesOf (messageParams fields) with
        | ok abilities =>
          obtain ⟨hserver, -, hfault⟩ := turn_of_start files hi hm ha
          exact .starts abilities (by simp [hcall]) hfault hserver
        | error e =>
          have hrun : turn files server (.message fields) = { server, fault := some e } := by
            rw [turn_of_early files hi hm (by simp), await, if_pos rfl]
            rcases start_cases (messageId fields) (messageParams fields) { server } with
              ⟨e', he, hstart⟩ | ⟨abilities, habilities, -⟩
            · obtain rfl := Except.error.inj (ha.symm.trans he)
              rw [hstart]
            · rw [ha] at habilities
              cases habilities
          rw [hrun]
          exact .waits (fun _ => by simp) (by simp [hcall]) (Or.inl rfl)
      · have hother : Json.str method ≠ .str "initialize" := fun h =>
          hstart (Text.ofString_inj.1 (Json.str.inj h))
        apply BeforeStart.waits
        · simp [hcall, hstart]
        · by_cases hexit : method = "exit"
          · subst hexit
            rw [turn_of_early files hi hm (by simp), await, if_neg hother, if_pos rfl, hcall]
            simp [Handler.change]
          · have hgoing : Json.str method ≠ .str "exit" := fun h =>
              hexit (Text.ofString_inj.1 (Json.str.inj h))
            rcases server_of_early files hi hm (by simp) hother with hserver | ⟨hname, -⟩
            · simp [hserver, hcall, hexit]
            · exact absurd hname hgoing
        · exact out_of_early files hi hm (by simp) hother
    · have hout := out_of_early files hi hm hne (hstr _)
      rcases server_of_early files hi hm hne (hstr _) with hserver | ⟨hname, -⟩
      · exact beforeStart_of_same hcall hserver hout
      · exact absurd hname (hstr _)
  | ended | malformed | tooLarge | tooDeep => exact beforeStart_of_same rfl rfl (Or.inl rfl)

theorem onward_turn (files : FileReader) (frame : Frame) (hp : server.initialized = false →
    server.pending = []) : server.Onward (turn files server frame).server := by
  cases hi : server.initialized with
  | true =>
    have hphase := phase_turn files frame hi
    simp only [Server.phase, Phase.mk.injEq] at hphase
    obtain ⟨hinit, hshutdown, -, hasks, hfolders⟩ := hphase
    exact ⟨fun h => hinit.trans h, fun _ => hasks, fun _ => hfolders,
      fun h => by rw [hshutdown, h, Bool.true_or]⟩
  | false =>
    have hno : server.initialized ≠ true := ne_true_of_eq_false hi
    cases beforeStart_turn files frame hi (hp hi) with
    | starts abilities _ _ hserver =>
      rw [hserver]
      exact ⟨fun _ => rfl, fun h => absurd h hno, fun h => absurd h hno, id⟩
    | waits _ hserver _ =>
      rw [hserver]
      exact ⟨id, fun _ => rfl, fun _ => rfl, id⟩

theorem refused_of_start {fields : List (Text × Json)} (files : FileReader)
    (hi : server.initialized = true) (hm : Json.lookup "method" fields = some (.str "initialize")) :
    turn files server (.message fields) =
      { server, out := [startRefusal (messageId fields)], log := ["LSP was already initialized"] } := by
  rw [turn_of_method files hi hm]
  rfl

/-- Where a session stands after frames that neither failed nor ended it. -/
structure Standing (seen : List Frame) (s : Server) : Prop where
  started : s.initialized = true ↔ ∃ f ∈ seen, f.calls "initialize" = true
  shutdown : s.shutdown = true ↔ Frame.ShutDown seen
  going : s.exited = false
  unended : ∀ f ∈ seen, f.calls "exit" = false
  early : s.initialized = false → s = {}

theorem shutDown_concat :
    Frame.ShutDown (seen ++ [frame]) ↔ Frame.ShutDown seen ∨
      (∃ f ∈ seen, f.calls "initialize" = true) ∧ frame.calls "shutdown" = true := by
  constructor
  · intro ⟨start, stop, hsub, hstart, hstop⟩
    have hback : [stop, start].Sublist (frame :: seen.reverse) := by
      simpa using List.reverse_sublist.2 hsub
    rcases List.sublist_cons_iff.1 hback with hback | ⟨rest, heq, hback⟩
    · have hsub : [start, stop].Sublist seen := by simpa using List.reverse_sublist.2 hback
      exact Or.inl ⟨start, stop, hsub, hstart, hstop⟩
    · obtain ⟨rfl, rfl⟩ := List.cons.inj heq
      have hmem : start ∈ seen := by simpa using hback
      exact Or.inr ⟨⟨start, hmem, hstart⟩, hstop⟩
  · intro h
    rcases h with ⟨start, stop, hsub, hstart, hstop⟩ | ⟨⟨start, hmem, hstart⟩, hstop⟩
    · exact ⟨start, stop, hsub.trans (List.sublist_append_left seen [frame]), hstart, hstop⟩
    · have hsub := (List.singleton_sublist.2 hmem).append (List.Sublist.refl [frame])
      exact ⟨start, frame, hsub, hstart, hstop⟩

/-- How a server that stands after some frames handles the next one. -/
structure Handled (seen : List Frame) (s : Server) (frame : Frame) (t : Turn) : Prop where
  started : s.initialized = true ↔ ∃ f ∈ seen, f.calls "initialize" = true
  starts : t.server.initialized = true ↔
    s.initialized = true ∨ frame.calls "initialize" = true ∧ t.fault = none
  refused : s.initialized = true → frame.calls "initialize" = true →
    ∃ fields, frame = .message fields ∧ t.out = [startRefusal (messageId fields)]
  shutdown : t.server.shutdown = true ↔
    s.shutdown = true ∨ s.initialized = true ∧ frame.calls "shutdown" = true
  exited : t.server.exited = frame.calls "exit"

theorem calls_of_calls {name : String} (h : frame.calls method = true) (hne : method ≠ name) :
    frame.calls name = false := by
  cases hcall : frame.call? with
  | none => exact calls_of_call?_eq_none hcall name
  | some call =>
    have hm : call.1 = method := by simpa [Frame.calls, hcall] using h
    simp [Frame.calls, hcall, hm, hne]

theorem handled_turn (h : Standing seen s) (ha : t.Alike (turn files s frame)) :
    Handled seen s frame t := by
  cases hi : s.initialized with
  | true =>
    have hphase := phase_turn files frame hi
    simp only [Server.phase, Phase.mk.injEq, ← ha.server] at hphase
    obtain ⟨hinit, hshutdown, hexited, -, -⟩ := hphase
    refine ⟨h.started, ?_, fun _ hcall => ?_, ?_, ?_⟩
    · simp [hinit, hi]
    · obtain ⟨⟨name, params⟩, hsome, hname⟩ := (Option.any_eq_true _ _).1 hcall
      obtain ⟨fields, rfl, hm, -⟩ := exists_of_call? hsome
      rw [show name = "initialize" from of_decide_eq_true hname] at hm
      refine ⟨fields, rfl, ?_⟩
      rw [ha.out, refused_of_start files hi hm]
    · simp [hshutdown, hi]
    · simp [hexited, h.going]
  | false =>
    obtain rfl := h.early hi
    have hno : ¬ ({} : Server).initialized = true := by simp
    have hcases : BeforeStart {} frame (turn files {} frame) := beforeStart_turn files frame rfl rfl
    cases hcases with
    | starts abilities hcall hfault hserver =>
      rw [← ha.server] at hserver
      rw [← ha.fault] at hfault
      refine ⟨h.started, ?_, fun hinit => absurd hinit hno, ?_, ?_⟩
      · simp [hserver, begun, hcall, hfault]
      · simp [hserver, begun]
      · rw [hserver, calls_of_calls hcall (by decide)]
        rfl
    | waits hcall hserver hout =>
      rw [← ha.server] at hserver
      rw [← ha.fault] at hcall
      refine ⟨h.started, ?_, fun hinit => absurd hinit hno, ?_, ?_⟩
      · simpa [hserver] using hcall
      · simp [hserver]
      · simp [hserver]

/-- A server that has not started after a turn knows nothing, and has refused the message at most. -/
theorem early_of_turn (h : Standing seen s) (ha : t.Alike (turn files s frame))
    (hi : t.server.initialized = false) :
    t.server = { exited := t.server.exited } ∧ (t.out = [] ∨ ∃ id, t.out = [earlyRefusal id]) := by
  cases hs : s.initialized with
  | true =>
    have hphase := congrArg Phase.initialized (phase_turn files frame hs)
    have hinit : t.server.initialized = s.initialized := by rwa [ha.server]
    rw [hi, hs] at hinit
    cases hinit
  | false =>
    obtain rfl := h.early hs
    rw [ha.server, ha.out]
    rw [ha.server] at hi
    have hcases : BeforeStart {} frame (turn files {} frame) := beforeStart_turn files frame rfl rfl
    cases hcases with
    | starts abilities _ _ hserver =>
      rw [hserver] at hi
      cases hi
    | waits _ hserver hout =>
      rw [hserver]
      exact ⟨rfl, hout⟩

theorem Handled.standing (hh : Handled seen s frame t) (h : Standing seen s) (hf : t.fault = none)
    (hx : t.server.exited = false)
    (hearly : t.server.initialized = false → t.server = { exited := t.server.exited }) :
    Standing (seen ++ [frame]) t.server where
  started := by
    rw [hh.starts, h.started]
    simp [hf, or_and_right, exists_or]
  shutdown := by rw [hh.shutdown, h.shutdown, h.started, shutDown_concat]
  going := hx
  unended f hf := by
    rcases List.mem_append.1 hf with hf | hf
    · exact h.unended f hf
    · rw [List.mem_singleton.1 hf, ← hh.exited, hx]
  early hi := by rw [hearly hi, hx]

/-- The turns of a session on some frames, whatever the files and the log. -/
inductive Runs : Server → List Frame → List Turn → Prop
  | done {s : Server} {t : Turn} (h : t.Alike { server := s }) : Runs s [] [t]
  | last {s : Server} {frame : Frame} {frames : List Frame} {t : Turn} (files : FileReader)
      (h : t.Alike (turn files s frame)) (hend : t.fault ≠ none ∨ t.server.exited = true) :
      Runs s (frame :: frames) [t]
  | next {s : Server} {frame : Frame} {frames : List Frame} {t : Turn} {ts : List Turn}
      (files : FileReader) (h : t.Alike (turn files s frame)) (hf : t.fault = none)
      (hx : t.server.exited = false) (rest : Runs t.server frames ts) :
      Runs s (frame :: frames) (t :: ts)

theorem runs_run (files : List Text → FileReader) (server : Server) (log : List Text)
    (frames : List Frame) : Runs server frames (run files server log frames) := by
  induction frames generalizing server log with
  | nil => exact .done ⟨rfl, rfl, rfl⟩
  | cons frame frames ih =>
    rw [run]
    by_cases hf : (turn (files log) server frame).fault.isSome = true
    · rw [if_pos hf]
      exact .last (files log) (.refl _) (Or.inl (Option.isSome_iff_ne_none.1 hf))
    · rw [if_neg hf]
      by_cases hx : (turn (files log) server frame).server.exited = true
      · rw [if_pos hx]
        exact .last (files log) ⟨rfl, rfl, rfl⟩ (Or.inr hx)
      · rw [if_neg hx]
        have hnone : (turn (files log) server frame).fault = none := by simpa using hf
        exact .next (files log) (.refl _) hnone (Bool.eq_false_iff.2 hx) (ih _ _)

theorem Runs.greet (h : Runs s frames ts) : Runs s frames (greet ts) := by
  cases h with
  | done h => exact .done ⟨h.server, h.out, h.fault⟩
  | last files h hend => exact .last files ⟨h.server, h.out, h.fault⟩ hend
  | next files h hf hx rest => exact .next files ⟨h.server, h.out, h.fault⟩ hf hx rest

theorem runs_transcript (files : List Text → FileReader) (bytes : List UInt8) :
    Runs {} (Frame.all bytes) (transcript files bytes) := by
  rw [transcript_eq]
  exact (runs_run files {} [greeting] (Frame.all bytes)).greet

theorem Runs.ne_nil (h : Runs s frames ts) : ts ≠ [] := by
  cases h <;> exact List.cons_ne_nil _ _

/-- The server after some turns. -/
def serverAfter (s : Server) (ts : List Turn) : Server := (ts.getLast?.map (·.server)).getD s

theorem serverAfter_cons (s : Server) (t : Turn) (ts : List Turn) :
    serverAfter s (t :: ts) = serverAfter t.server ts := by
  cases ts with
  | nil => rfl
  | cons u us =>
    rw [serverAfter, serverAfter, List.getLast?_cons_cons]
    cases hl : (u :: us).getLast? with
    | none => simp at hl
    | some last => rfl

/-- A session stands at each of its turns, with the frames of the turns before it behind it. -/
theorem Runs.reaches (h : Runs s frames (ts ++ t :: later)) (hs : Standing seen s) :
    Standing (seen ++ frames.take ts.length) (serverAfter s ts) ∧
      Runs (serverAfter s ts) (frames.drop ts.length) (t :: later) := by
  induction ts generalizing s frames seen with
  | nil => simpa [serverAfter] using ⟨hs, h⟩
  | cons u ts ih =>
    have hne : ts ++ t :: later ≠ [] := by simp
    rw [List.cons_append] at h
    generalize hrest : ts ++ t :: later = rest at h hne
    cases h with
    | done h => exact absurd rfl hne
    | last files h hend => exact absurd rfl hne
    | @next _ frame frames _ _ files h hf hx rest =>
      subst hrest
      have hh := handled_turn hs h
      have hnext := hh.standing hs hf hx fun hi => (early_of_turn hs h hi).1
      obtain ⟨hstanding, hruns⟩ := ih rest hnext
      rw [serverAfter_cons, List.length_cons, List.take_succ_cons, List.drop_succ_cons]
      rw [List.append_assoc] at hstanding
      exact ⟨hstanding, hruns⟩

theorem standing_nil : Standing [] {} where
  started := by simp
  shutdown := by simp [Frame.ShutDown]
  going := rfl
  unended := by simp
  early _ := rfl

theorem transcript_reaches {files : List Text → FileReader} {bytes : List UInt8}
    (h : transcript files bytes = ts ++ t :: later) :
    Standing ((Frame.all bytes).take ts.length) (merge ts).server ∧
      Runs (merge ts).server ((Frame.all bytes).drop ts.length) (t :: later) := by
  have hruns := runs_transcript files bytes
  rw [h] at hruns
  exact hruns.reaches standing_nil

theorem Runs.handled (h : Runs s (frame :: frames) (t :: later)) (hs : Standing seen s) :
    Handled seen s frame t := by
  cases h with
  | last files h => exact handled_turn hs h
  | next files h => exact handled_turn hs h

theorem Runs.early (h : Runs s frames (t :: later)) (hs : Standing seen s)
    (hi : t.server.initialized = false) :
    t.server = { exited := t.server.exited } ∧ (t.out = [] ∨ ∃ id, t.out = [earlyRefusal id]) := by
  cases h with
  | done h =>
    rw [h.server] at hi
    rw [h.server, h.out, hs.early hi]
    exact ⟨rfl, Or.inl rfl⟩
  | last files h => exact early_of_turn hs h hi
  | next files h => exact early_of_turn hs h hi

theorem Runs.eq_nil_of_exit (h : Runs s (frame :: frames) (t :: later)) (hs : Standing seen s)
    (hexit : frame.calls "exit" = true) : later = [] := by
  cases h with
  | last => rfl
  | next files h hf hx rest =>
    have hexited := (handled_turn hs h).exited
    rw [hx, hexit] at hexited
    cases hexited

theorem Standing.onward_turn (hs : Standing seen s) (ha : t.Alike (turn files s frame)) :
    s.Onward t.server := by
  have hp : s.initialized = false → s.pending = [] := by
    intro hi
    rw [hs.early hi]
  rw [ha.server]
  exact Session.onward_turn files frame hp

theorem Runs.onward (h : Runs s frames ts) (hs : Standing seen s) :
    (∀ t ∈ ts, s.Onward t.server) ∧ (ts.map (·.server)).Pairwise Server.Onward := by
  induction h generalizing seen with
  | done h => simp [h.server, Server.Onward.refl]
  | last files h hend => simpa using hs.onward_turn h
  | @next s frame frames t ts files h hf hx rest ih =>
    have hhere := hs.onward_turn h
    have hnext := (handled_turn hs h).standing hs hf hx fun hi => (early_of_turn hs h hi).1
    obtain ⟨hall, hpairs⟩ := ih hnext
    constructor
    · intro u hu
      rcases List.mem_cons.1 hu with rfl | hu
      · exact hhere
      · exact hhere.trans (hall u hu)
    · rw [List.map_cons, List.pairwise_cons]
      refine ⟨fun v hv => ?_, hpairs⟩
      obtain ⟨u, hu, rfl⟩ := List.mem_map.1 hv
      exact hall u hu

theorem status_eq_one_iff : status s = 1 ↔ s.exited = true ∧ ¬ s.shutdown = true := by
  rw [status]
  cases s.exited <;> cases s.shutdown <;> simp

theorem status_eq_zero_iff : status s = 0 ↔ ¬ status s = 1 := by
  rw [status]
  split <;> simp

theorem abandoned_concat :
    Frame.Abandoned (seen ++ [frame]) ↔ frame.calls "exit" = true ∧ ¬ Frame.ShutDown seen := by
  constructor
  · intro ⟨before, f, heq, hexit, hno⟩
    obtain ⟨rfl, hf⟩ := List.append_inj' heq rfl
    rw [(List.cons.inj hf).1]
    exact ⟨hexit, hno⟩
  · intro ⟨hexit, hno⟩
    exact ⟨seen, frame, rfl, hexit, hno⟩

theorem Standing.not_abandoned (hs : Standing seen s) : ¬ Frame.Abandoned seen := by
  intro ⟨before, frame, heq, hexit, _⟩
  have hno := hs.unended frame (by simp [heq])
  rw [hexit] at hno
  cases hno

theorem Runs.status_eq_one_iff (h : Runs s frames [t]) (hs : Standing seen s) :
    status t.server = 1 ↔ Frame.Abandoned (seen ++ frames.take 1) := by
  rw [Session.status_eq_one_iff]
  cases h with
  | done h =>
    rw [List.take_nil, List.append_nil]
    refine iff_of_false (fun hx => ?_) hs.not_abandoned
    rw [h.server, hs.going] at hx
    cases hx.1
  | @last _ frame frames _ files h hend =>
    have hh := handled_turn hs h
    rw [List.take_succ_cons, List.take_zero, abandoned_concat, hh.exited, ← hs.shutdown, hh.shutdown]
    refine and_congr_right fun hexit => not_congr ?_
    simp [calls_of_calls hexit (show "exit" ≠ "shutdown" by decide)]
  | next _ _ _ _ rest => cases rest

/-- The life of a session, for all files and all that is sent. Before the start nothing but refusals is
written and nothing is kept; the start comes with the first message that asks for it, and what was then told
stays so; the message that ends the session is the last, and without a shutdown the status tells. -/
structure Lifecycle (files : List Text → FileReader) (bytes : List UInt8) : Prop where
  early : ∀ t ∈ transcript files bytes, t.server.initialized = false →
    t.server = { exited := t.server.exited } ∧ (t.out = [] ∨ ∃ id, t.out = [earlyRefusal id])
  onward : ((transcript files bytes).map (·.server)).Pairwise Server.Onward
  handled : ∀ {ts t later frame}, transcript files bytes = ts ++ t :: later →
    (Frame.all bytes)[ts.length]? = some frame →
      Handled ((Frame.all bytes).take ts.length) (merge ts).server frame t
  ending : ∀ {ts t later frame}, transcript files bytes = ts ++ t :: later →
    (Frame.all bytes)[ts.length]? = some frame → frame.calls "exit" = true → later = []
  status : (status (merge (transcript files bytes)).server = 1 ↔
      Frame.Abandoned ((Frame.all bytes).take (transcript files bytes).length)) ∧
    (status (merge (transcript files bytes)).server = 0 ↔
      ¬ Frame.Abandoned ((Frame.all bytes).take (transcript files bytes).length))

theorem lifecycle (files : List Text → FileReader) (bytes : List UInt8) : Lifecycle files bytes := by
  have hruns := runs_transcript files bytes
  have hframes : ∀ {ts : List Turn} {frame : Frame}, (Frame.all bytes)[ts.length]? = some frame →
      ∃ rest, (Frame.all bytes).drop ts.length = frame :: rest := fun hframe =>
    List.head?_eq_some_iff.1 (List.head?_drop.trans hframe)
  refine ⟨?_, (hruns.onward standing_nil).2, ?_, ?_, ?_⟩
  · intro t ht hi
    obtain ⟨ts, later, heq⟩ := List.append_of_mem ht
    obtain ⟨hs, hr⟩ := transcript_reaches heq
    exact hr.early hs hi
  · intro ts t later frame heq hframe
    obtain ⟨hs, hr⟩ := transcript_reaches heq
    obtain ⟨rest, hdrop⟩ := hframes hframe
    rw [hdrop] at hr
    exact hr.handled hs
  · intro ts t later frame heq hframe hexit
    obtain ⟨hs, hr⟩ := transcript_reaches heq
    obtain ⟨rest, hdrop⟩ := hframes hframe
    rw [hdrop] at hr
    exact hr.eq_nil_of_exit hs hexit
  · obtain ⟨init, last, heq⟩ : ∃ init last, transcript files bytes = init ++ [last] :=
      ⟨_, _, (List.dropLast_concat_getLast hruns.ne_nil).symm⟩
    obtain ⟨hs, hr⟩ := transcript_reaches heq
    have hone := hr.status_eq_one_iff hs
    have hserver : (merge (init ++ [last])).server = last.server := by simp [merge]
    rw [← List.take_add] at hone
    rw [heq, hserver, List.length_append, List.length_singleton, ← hone]
    exact ⟨Iff.rfl, status_eq_zero_iff⟩

end Session

end LittleMan
