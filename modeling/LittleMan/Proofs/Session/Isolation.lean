import LittleMan.Proofs.Session.DocumentHistory
import LittleMan.Proofs.Session.Reflection

/-! Documents do not meddle with each other. What is published of one is what would be published if no
other document were ever told of: a session is run beside the one on the messages about that document, and
their servers agree on it. -/

namespace LittleMan

open Handler

namespace Session

variable {uri : Text} {s s' : Server} {t t' : Turn} {fields : List (Text × Json)}
  {files files' : FileReader}

/-- The turn of the second server, which takes part if the message is about the document. -/
def followed (uri : Text) (files : FileReader) (s' : Server) (fields : List (Text × Json)) : Turn :=
  if uriOf (messageParams fields) = .ok (.str uri) then turn files s' (.message fields)
  else { server := s' }

theorem mimics_didOpen (hr : Reflects uri s s') (hn : Named s.documents)
    (hi : s.initialized = true)
    (hm : Json.lookup "method" fields = some (.str "textDocument/didOpen"))
    (hd : ∀ d ∈ (turn files s (.message fields)).server.documents,
      d.IsSendable (turn files s (.message fields)).server.settings) :
    Mimics uri (turn files s (.message fields)) (followed uri files' s' fields) := by
  have hi' := hr.initialized.trans hi
  have hrun := fun server => didOpen_apply (messageParams fields) { server }
  rw [followed]
  cases hopen : openingOf (messageParams fields) with
  | error e =>
    rw [hopen] at hrun
    have hmild := mild_openingOf _ e hopen
    have hidle : Idle s (turn files s (.message fields)) := idle_of_refused hi hm (hrun s) hmild
    split
    · exact hidle.mimics_idle (idle_of_refused hi' hm (hrun s') hmild) hr
    · exact hidle.mimics hr
  | ok doc =>
    obtain ⟨hdocs, hsettings⟩ := documents_of_opening files hi hm hopen
    rw [hdocs, hsettings] at hd
    have hdoc := hd doc (Server.self_mem_putDocument doc _)
    have hshows := turn_of_opening files hi hr.asks.1 hm hopen hdoc
    split
    · next hu =>
      have hname : doc.uri = .str uri := Except.ok.inj ((uriOf_of_openingOf hopen).symm.trans hu)
      have hshows' := turn_of_opening files' hi' hr.asks.2 hm hopen (hr.settings ▸ hdoc)
      rw [hr.settings, hr.documents] at hshows'
      exact hshows.mimics_shows hshows' (ofName_putDocument hn hname).symm hr
    · next hu =>
      have hne : doc.uri ≠ .str uri := fun h => hu (h ▸ uriOf_of_openingOf hopen)
      exact hshows.mimics hne (ofName_putDocument_of_ne hn hne) hr

theorem mimics_didChange (hr : Reflects uri s s') (hn : Named s.documents)
    (hi : s.initialized = true)
    (hm : Json.lookup "method" fields = some (.str "textDocument/didChange"))
    (hd : ∀ d ∈ (turn files s (.message fields)).server.documents,
      d.IsSendable (turn files s (.message fields)).server.settings) :
    Mimics uri (turn files s (.message fields)) (followed uri files' s' fields) := by
  have hi' := hr.initialized.trans hi
  rw [followed]
  by_cases hchange : ∃ name doc, revisionOf s (messageParams fields) = .ok (.changed name doc)
  · obtain ⟨name, doc, hrev⟩ := hchange
    obtain ⟨d, hfind, hdoc, -⟩ := revisionOf_eq_changed_iff.1 hrev
    rw [server_of_revision files hi hm hrev] at hd
    have hshows := turn_of_revision files hi hm hrev (hd doc (mem_revised hfind hdoc))
    split
    · next hu =>
      have hrev' := (revisionOf_congr hu hr.find?_eq).trans hrev
      have hshows' := turn_of_revision files' hi' hm hrev'
        (hr.settings ▸ hd doc (mem_revised hfind hdoc))
      rw [hr.settings] at hshows'
      exact hshows.mimics_shows hshows' (ofName_revised s s' name doc hr.documents) hr
    · next hu =>
      have hne : name ≠ .str uri := fun h => hu (h ▸ uriOf_of_revisionOf hrev)
      have hname : doc.uri = name := by
        rw [hdoc]
        exact (hn.same_iff (mem_of_find? hfind) name).1 (same_of_find? hfind)
      refine hshows.mimics (hname ▸ hne) ?_ hr
      exact ofName_update_of_ne s hne fun _ => rfl
  · have hno : ∀ name doc, revisionOf s (messageParams fields) ≠ .ok (.changed name doc) :=
      fun name doc h => hchange ⟨name, doc, h⟩
    have hidle := idle_of_unrevised files hi hm hno
    split
    · next hu =>
      rw [← revisionOf_congr hu hr.find?_eq] at hno
      exact hidle.mimics_idle (idle_of_unrevised files' hi' hm hno) hr
    · exact hidle.mimics hr

theorem mimics_didClose (hr : Reflects uri s s') (hi : s.initialized = true)
    (hm : Json.lookup "method" fields = some (.str "textDocument/didClose")) :
    Mimics uri (turn files s (.message fields)) (followed uri files' s' fields) := by
  have hi' := hr.initialized.trans hi
  rw [followed]
  split
  · next hu =>
    have hclose : ∀ server, closingOf server (messageParams fields) = .ok (.str uri) :=
      fun _ => closingOf_of_isScalar hu rfl
    have hshows := turn_of_closing files hi hm (hclose s)
    have hshows' := turn_of_closing files' hi' hm (hclose s')
    refine hshows.mimics_shows hshows' ?_ hr
    rw [ofName_close, ← hr.documents]
    rfl
  · next hu =>
    cases hclose : closingOf s (messageParams fields) with
    | error e =>
      have hrun := didClose_apply (messageParams fields) { server := s }
      rw [hclose] at hrun
      exact (idle_of_refused hi hm hrun (mild_closingOf _ _ e hclose)).mimics hr
    | ok name =>
      have hne : name ≠ .str uri := fun h => hu (h ▸ uriOf_of_closingOf hclose)
      exact (turn_of_closing files hi hm hclose).mimics hne (ofName_close_of_ne s hne) hr

theorem mimics_didChangeConfiguration (hr : Reflects uri s s') (hi : s.initialized = true)
    (hm : Json.lookup "method" fields = some (.str "workspace/didChangeConfiguration"))
    (hf : (turn files s (.message fields)).fault = none)
    (hd : ∀ d ∈ (turn files s (.message fields)).server.documents,
      d.IsSendable (turn files s (.message fields)).server.settings) :
    Mimics uri (turn files s (.message fields)) (turn files' s' (.message fields)) := by
  have hi' := hr.initialized.trans hi
  obtain ⟨settings, hset⟩ := exists_commonSettings hi hr.asks.1 hm hf
  have hserver := server_of_configuration files hi hr.asks.1 hm hset
  have hserver' := server_of_configuration files' hi' hr.asks.2 hm hset
  rw [hserver] at hd
  have hd' : ∀ d ∈ s'.documents, d.IsSendable settings := by
    intro d hmem
    rw [hr.documents] at hmem
    exact hd d (mem_ofName hmem).1
  obtain ⟨hout, -⟩ := turn_of_configuration files hi hr.asks.1 hm hset hd
  obtain ⟨hout', hfault⟩ := turn_of_configuration files' hi' hr.asks.2 hm hset hd'
  refine ⟨?_, ?_, hfault⟩
  · rw [hserver, hserver']
    exact ⟨hr.initialized, rfl, hr.documents, hr.asks, hr.idle, hr.going⟩
  · rw [hout, hout', hr.documents]
    exact publishedFor_map_told _ _ _

theorem mimics_start (hr : Reflects uri s s') (hi : s.initialized = false)
    (hm : Json.lookup "method" fields = some (.str "initialize"))
    (hf : (turn files s (.message fields)).fault = none)
    (ha : (turn files s (.message fields)).server.asksSettings = false) :
    Mimics uri (turn files s (.message fields)) (turn files' s' (.message fields)) := by
  obtain ⟨abilities, habilities, -⟩ := server_of_start hi hm hf
  obtain ⟨hserver, hout, -⟩ := turn_of_start files hi hm habilities
  obtain ⟨hserver', hout', hfault⟩ :=
    turn_of_start files' (hr.initialized.trans hi) hm habilities
  rw [hserver] at ha
  refine ⟨?_, ?_, hfault⟩
  · rw [hserver, hserver']
    exact ⟨rfl, hr.settings, hr.documents, ⟨ha, ha⟩, hr.idle, hr.going⟩
  · rw [publishedFor_of_publications hout, publishedFor_of_publications hout']

theorem starts_iff {frame : Frame} : frame.starts = true ↔ frame.notice? = some .started := by
  rw [Frame.starts, Frame.notice?]
  cases frame.call? with
  | none => simp
  | some call => simp [ofCall?_eq_started_iff]

theorem initialized_of_turn (files : FileReader) {frame : Frame} (hs : s.Consistent)
    (hf : (turn files s frame).fault = none) :
    (turn files s frame).server.initialized = (s.initialized || frame.starts) := by
  cases hi : s.initialized with
  | true => rw [initialized_turn files frame hs hi, Bool.true_or]
  | false => rw [Bool.false_or, Bool.eq_iff_iff, (early_turn files hs hi hf).2, starts_iff]

section

variable {method : String} {params : Json}

theorem concerns_of_documentMethod {frame : Frame} (hcall : frame.call? = some (method, params))
    (hm : method ∈ documentMethods) : frame.concerns uri = true ↔ uriOf params = .ok (.str uri) := by
  have hno : method ≠ "workspace/didChangeConfiguration" := by
    rintro rfl
    exact absurd hm (by decide)
  have hto : (uriOf params).toOption = some (.str uri) ↔ uriOf params = .ok (.str uri) := by
    cases uriOf params <;> simp [Except.toOption]
  simp [Frame.concerns, hcall, hno, hm, hto]

theorem not_concerns_of_unheard {frame : Frame} (hcall : frame.call? = some (method, params))
    (hm : method ∉ heardMethods) : frame.concerns uri = false := by
  rw [heardMethods, List.mem_cons, not_or] at hm
  simp [Frame.concerns, hcall, hm.1, hm.2]

end

section

variable {method : String}

theorem mimics_early (hr : Reflects uri s s') (hi : s.initialized = false)
    (hm : Json.lookup "method" fields = some (.str method)) (hexit : method ≠ "exit")
    (hf : (turn files s (.message fields)).fault = none)
    (ha : (turn files s (.message fields)).server.asksSettings = false) :
    Mimics uri (turn files s (.message fields))
      (if (Frame.message fields).concerns uri || (Frame.message fields).starts then
        turn files' s' (.message fields) else { server := s' }) := by
  have hi' := hr.initialized.trans hi
  by_cases hstart : method = "initialize"
  · subst hstart
    have hstarts : (Frame.message fields).starts = true := by
      simp [Frame.starts, call?_message hm]
    rw [hstarts, Bool.or_true, if_pos rfl]
    exact mimics_start hr hi hm hf ha
  · have hother : Json.str method ≠ .str "initialize" := fun h =>
      hstart (Text.ofString_inj.1 (Json.str.inj h))
    have hgoing : Json.str method ≠ .str "exit" := fun h =>
      hexit (Text.ofString_inj.1 (Json.str.inj h))
    have hidle := idle_of_early files hi hm (by simp) hother hgoing
    split
    · exact hidle.mimics_idle (idle_of_early files' hi' hm (by simp) hother hgoing) hr
    · exact hidle.mimics hr

theorem mimics_started (hr : Reflects uri s s') (hs : s.Consistent) (hn : Named s.documents)
    (hi : s.initialized = true) (hm : Json.lookup "method" fields = some (.str method))
    (hexit : method ≠ "exit") (hf : (turn files s (.message fields)).fault = none)
    (hd : ∀ d ∈ (turn files s (.message fields)).server.documents,
      d.IsSendable (turn files s (.message fields)).server.settings) :
    Mimics uri (turn files s (.message fields))
      (if (Frame.message fields).concerns uri then turn files' s' (.message fields)
        else { server := s' }) := by
  have hcall := call?_message hm
  by_cases hdoc : method ∈ documentMethods
  · have hfollowed : (if (Frame.message fields).concerns uri = true then
        turn files' s' (.message fields) else { server := s' }) = followed uri files' s' fields :=
      if_congr (concerns_of_documentMethod hcall hdoc) rfl rfl
    rw [hfollowed]
    simp only [documentMethods, List.mem_cons, List.not_mem_nil, or_false] at hdoc
    rcases hdoc with rfl | rfl | rfl
    · exact mimics_didOpen hr hn hi hm hd
    · exact mimics_didChange hr hn hi hm hd
    · exact mimics_didClose hr hi hm
  by_cases hconf : method = "workspace/didChangeConfiguration"
  · subst hconf
    have hconcerns : (Frame.message fields).concerns uri = true := by
      simp [Frame.concerns, hcall]
    rw [if_pos hconcerns]
    exact mimics_didChangeConfiguration hr hi hm hf hd
  have hno : method ∉ heardMethods := by
    rw [heardMethods, List.mem_cons, not_or]
    exact ⟨hconf, hdoc⟩
  rw [not_concerns_of_unheard hcall hno]
  exact (idle_of_unheard files hs hi hr.asks.1 hm hno hexit hf).mimics hr

end

theorem isSendable_of_mirrors {server : Server} {shown : List (Json × Json)}
    (h : Mirrors server shown) : ∀ d ∈ server.documents, d.IsSendable server.settings := by
  intro d hd
  obtain ⟨items, hitems, -⟩ := h.current d hd
  exact ⟨items, hitems⟩

/-- A turn of the server that knows all documents, beside one of the server that knows the one and takes
part only if it is concerned. -/
theorem mimics_turn (files files' : FileReader) {frame : Frame} {shown : List (Json × Json)}
    (hr : Reflects uri s s') (hs : s.Consistent) (hm : Mirrors s shown)
    (htext : frame.tellsTexts = true) (hexit : ∀ params, frame.call? ≠ some ("exit", params))
    (hf : (turn files s frame).fault = none)
    (ha : (turn files s frame).server.asksSettings = false) :
    Mimics uri (turn files s frame)
      (if frame.concerns uri || (frame.starts && !s.initialized) then turn files' s' frame
        else { server := s' }) := by
  cases hcall : frame.call? with
  | none =>
    have hidle := idle_of_uncalled files hr.idle.1 hcall hf
    simpa [Frame.concerns, Frame.starts, hcall] using hidle.mimics hr
  | some call =>
    obtain ⟨method, params⟩ := call
    obtain ⟨fields, rfl, hlookup, rfl⟩ := exists_of_call? hcall
    have hne : method ≠ "exit" := fun h => hexit _ (h ▸ hcall)
    cases hi : s.initialized with
    | false =>
      rw [Bool.not_false, Bool.and_true]
      exact mimics_early hr hi hlookup hne hf ha
    | true =>
      have hd := isSendable_of_mirrors (mirrors_turn files hm htext hf)
      rw [Bool.not_true, Bool.and_false, Bool.or_false]
      exact mimics_started hr hs hm.named hi hlookup hne hf hd

theorem Mimics.cons {ts ts' : List Turn} (h : Mimics uri t t') (hne : ts ≠ []) (hne' : ts' ≠ [])
    (hrest : Mimics uri (merge ts) (merge ts')) :
    Mimics uri (merge (t :: ts)) (merge (t' :: ts')) := by
  obtain ⟨hserver, hout, -⟩ := merge_cons (t := t) hne
  obtain ⟨hserver', hout', hfault⟩ := merge_cons (t := t') hne'
  refine ⟨?_, ?_, hfault.trans hrest.fault⟩
  · rw [hserver, hserver']
    exact hrest.reflects
  · rw [hout, hout', publishedFor_append, publishedFor_append, h.published, hrest.published]

theorem Mimics.cons_left {ts ts' : List Turn} (h : Mimics uri t { server := s' }) (hne : ts ≠ [])
    (hrest : Mimics uri (merge ts) (merge ts')) : Mimics uri (merge (t :: ts)) (merge ts') := by
  obtain ⟨hserver, hout, -⟩ := merge_cons (t := t) hne
  refine ⟨?_, ?_, hrest.fault⟩
  · rw [hserver]
    exact hrest.reflects
  · have hnothing : publishedFor (.str uri) t.out = [] := h.published
    rw [hout, publishedFor_append, hnothing, List.nil_append, hrest.published]

theorem mimics_run (files files' : List Text → FileReader) {frames : List Frame}
    {log log' : List Text} {shown : List (Json × Json)}
    (hr : Reflects uri s s') (hs : s.Consistent) (hm : Mirrors s shown)
    (htext : ∀ frame ∈ frames, frame.tellsTexts = true)
    (hexit : ∀ frame ∈ frames, ∀ params, frame.call? ≠ some ("exit", params))
    (hrun : ∀ t ∈ run files s log frames, t.fault = none ∧ t.server.asksSettings = false) :
    Mimics uri (merge (run files s log frames))
      (merge (run files' s' log' (Frame.about uri s.initialized frames))) := by
  induction frames generalizing s s' log log' shown with
  | nil => exact ⟨hr, rfl, rfl⟩
  | cons frame frames ih =>
    obtain ⟨u, hu, halike⟩ := exists_mem_run files s log frame frames
    obtain ⟨hf, ha⟩ := hrun u hu
    rw [halike.fault] at hf
    rw [halike.server] at ha
    have htell := htext frame List.mem_cons_self
    have hstep := mimics_turn (files log) (files' log') hr hs hm htell
      (hexit frame List.mem_cons_self) hf ha
    rw [run_cons_of_going hf hstep.reflects.going.1] at hrun ⊢
    have hlater := mirrors_turn (files log) hm htell hf
    have hinit := initialized_of_turn (files log) hs hf
    have hs' := (outcome_turn (files log) hs frame).consistent hs
    generalize turn (files log) s frame = t at *
    have hrest : ∀ {s'' : Server} {log'' : List Text}, Reflects uri t.server s'' →
        Mimics uri (merge (run files t.server (log ++ t.log) frames))
          (merge (run files' s'' log'' (Frame.about uri (s.initialized || frame.starts) frames))) := by
      intro s'' log'' hr'
      rw [← hinit]
      exact ih hr' hs' hlater (fun f hmem => htext f (List.mem_cons_of_mem _ hmem))
        (fun f hmem => hexit f (List.mem_cons_of_mem _ hmem))
        fun t hmem => hrun t (List.mem_cons_of_mem _ hmem)
    rw [Frame.about]
    split
    · next hconcerned =>
      rw [if_pos hconcerned] at hstep
      rw [run_cons_of_going hstep.fault hstep.reflects.going.2]
      exact hstep.cons (run_ne_nil _ _ _ _) (run_ne_nil _ _ _ _) (hrest hstep.reflects)
    · next hconcerned =>
      rw [if_neg hconcerned] at hstep
      exact hstep.cons_left (run_ne_nil _ _ _ _) (hrest hstep.reflects)

/-- The second session does not fail, and it publishes of the document what the first one does. -/
structure Agrees (uri : Text) (ts us : List Turn) : Prop where
  fault : (merge us).fault = none
  published : publishedFor (.str uri) (merge ts).out = publishedFor (.str uri) (merge us).out

theorem Agrees.of_alike {ts ts' us us' : List Turn} (h : Agrees uri ts us)
    (ht : (merge ts').Alike (merge ts)) (hu : (merge us').Alike (merge us)) : Agrees uri ts' us' where
  fault := hu.fault.trans h.fault
  published := by rw [ht.out, hu.out, h.published]

/-- What is published of a document is what is published of it if only the start of the session, the
configurations and the messages about this document are received. The session must not fail or be ended
by a message, and its client must not be asked for settings. -/
theorem agrees_about (files files' : List Text → FileReader) {bytes : List UInt8} (uri : Text)
    (hrun : ∀ t ∈ transcript files bytes, t.fault = none ∧ t.server.asksSettings = false)
    (htext : ∀ frame ∈ Frame.all bytes, frame.tellsTexts = true)
    (hexit : ∀ frame ∈ Frame.all bytes, ∀ params, frame.call? ≠ some ("exit", params)) :
    Agrees uri (transcript files bytes)
        (run files' {} [greeting] (Frame.about uri false (Frame.all bytes))) ∧
      ∀ bytes', Frame.all bytes' = Frame.about uri false (Frame.all bytes) →
        Agrees uri (transcript files bytes) (transcript files' bytes') := by
  have hframes : ∀ t ∈ run files {} [greeting] (Frame.all bytes),
      t.fault = none ∧ t.server.asksSettings = false := by
    intro t ht
    obtain ⟨u, hu, halike⟩ := exists_mem_greet ht
    rw [← transcript_eq] at hu
    rw [← halike.fault, ← halike.server]
    exact hrun u hu
  have hmimics : Mimics uri (merge (run files {} [greeting] (Frame.all bytes)))
      (merge (run files' {} [greeting] (Frame.about uri false (Frame.all bytes)))) :=
    mimics_run files files' reflects_empty Server.consistent_empty mirrors_nil htext hexit hframes
  have hagrees : Agrees uri (run files {} [greeting] (Frame.all bytes))
      (run files' {} [greeting] (Frame.about uri false (Frame.all bytes))) :=
    ⟨hmimics.fault, hmimics.published⟩
  refine ⟨hagrees.of_alike (alike_transcript files bytes) (.refl _), fun bytes' habout => ?_⟩
  have halike := alike_transcript files' bytes'
  rw [habout] at halike
  exact hagrees.of_alike (alike_transcript files bytes) halike

/-- The messages about one document, among which a configuration is sent that shows no diagnostics. -/
def ownMessages : List (List (Text × Json)) :=
  [tell "initialize" [],
    tell "textDocument/didOpen" [("textDocument",
      .obj [("uri", .str "a"), ("text", .str "LDA X"), ("version", .int 1)])],
    tell "workspace/didChangeConfiguration" [("settings",
      .obj [("lmc", .obj [("maxNumberOfProblems", .int 0)])])],
    tell "textDocument/didClose" [("textDocument", .obj [("uri", .str "a")])]]

/-- The messages about two documents. -/
def mixedMessages : List (List (Text × Json)) :=
  [tell "initialize" [],
    tell "textDocument/didOpen" [("textDocument", .obj [("uri", .str "b"), ("text", .str "SUB")])],
    tell "textDocument/didOpen" [("textDocument",
      .obj [("uri", .str "a"), ("text", .str "LDA X"), ("version", .int 1)])],
    tell "textDocument/didChange" [("textDocument", .obj [("uri", .str "b")]),
      ("contentChanges", .arr [.obj [("text", .str "HLT")]])],
    tell "workspace/didChangeConfiguration" [("settings",
      .obj [("lmc", .obj [("maxNumberOfProblems", .int 0)])])],
    tell "textDocument/didClose" [("textDocument", .obj [("uri", .str "a")])],
    tell "textDocument/didClose" [("textDocument", .obj [("uri", .str "b")])]]

def ownSession : List UInt8 := (ownMessages.map .obj).flatMap Frame.encode

def mixedSession : List UInt8 := (mixedMessages.map .obj).flatMap Frame.encode

theorem readsBack_mixed : ∀ fields ∈ mixedMessages, Frame.ReadsBack fields := by decide +kernel

theorem frames_mixed : Frame.all mixedSession = mixedMessages.map .message :=
  Frame.all_flatMap_encode readsBack_mixed

theorem frames_own : Frame.all ownSession = ownMessages.map .message := by
  have hsub : ∀ fields ∈ ownMessages, fields ∈ mixedMessages := by decide +kernel
  exact Frame.all_flatMap_encode fun fields h => readsBack_mixed fields (hsub fields h)

theorem agrees_about_mixedSession :
    (publishedFor (.str "a") (merge (transcript (fun _ => noFiles) mixedSession)).out).length = 3 ∧
    Agrees "a" (transcript (fun _ => noFiles) mixedSession)
      (transcript (fun _ => noFiles) ownSession) := by
  have hrun : (∀ t ∈ transcript (fun _ => noFiles) mixedSession,
        t.fault = none ∧ t.server.asksSettings = false) ∧
      (publishedFor (.str "a")
        (merge (transcript (fun _ => noFiles) mixedSession)).out).length = 3 := by
    rw [transcript_eq, frames_mixed]
    decide +kernel
  have htext : ∀ frame ∈ Frame.all mixedSession, frame.tellsTexts = true := by
    rw [frames_mixed]
    decide +kernel
  have hexit : ∀ frame ∈ Frame.all mixedSession, ∀ params,
      frame.call? ≠ some ("exit", params) := by
    have hnames : ∀ frame ∈ mixedMessages.map Frame.message,
        frame.call?.all (·.1 ≠ "exit") = true := by
      decide +kernel
    intro frame hframe params hcall
    rw [frames_mixed] at hframe
    have hname := hnames frame hframe
    simp [hcall] at hname
  have habout : Frame.all ownSession =
      Frame.about "a" false (Frame.all mixedSession) := by
    rw [frames_own, frames_mixed]
    decide +kernel
  exact ⟨hrun.2, (agrees_about _ (fun _ => noFiles) "a" hrun.1 htext hexit).2 _ habout⟩

end Session

end LittleMan
