import LittleMan.Proofs.Session.Reachable
import LittleMan.Proofs.Session.RequestReadings

/-! How the handlers fail if all open documents can be analysed. What is refused is left out: only the
failures that end a session are told. -/

namespace LittleMan

open Handler Json

/-- The text can be analysed. -/
def Document.isAnalysable (doc : Document) : Prop :=
  ∃ s a, doc.source? = .ok s ∧ analyze s = .ok a

/-- The diagnostics of the document cannot be sent: there is a numeral that is too long for the analysis, or
a diagnostic among those that are wanted is about a word in which a surrogate stands on its own. -/
inductive Document.Unsendable (doc : Document) (common : Settings) : Fault → Prop
  | overlong {s : Source} (hs : doc.source? = .ok s) (h : analyze s = .error .tooManyDigits) :
      Unsendable doc common .tooManyDigits
  | surrogate {s : Source} {a : Analysis} {d : Diagnostic} (hs : doc.source? = .ok s)
      (h : analyze s = .ok a) (hd : d ∈ a.diagnostics.take (doc.settings.getD common).limit)
      (ht : ¬ IsEncodable d.token) : Unsendable doc common .loneSurrogate

namespace Session

variable {α β : Type} {files : FileReader} {server : Server} {params : Json} {t : Turn} {e : Fault}

/-- The handler fails in this turn. -/
def Fails (m : Handler α) (t : Turn) (e : Fault) : Prop := (m t).1 = .error e

theorem mild_source? (doc : Document) : Mild doc.source? := by
  unfold Document.source?
  split
  · exact mild_ok _
  · exact mild_error rfl

theorem items_eq_error_iff {doc : Document} {common : Settings} (he : Grave e) :
    doc.items common = .error e ↔ doc.Unsendable common e := by
  rw [Document.items, (mild_source? doc).bind_eq_error_iff he]
  constructor
  · rintro ⟨s, hs, h⟩
    rcases bind_eq_error_iff.1 h with h | ⟨a, ha, h⟩
    · obtain rfl := analyze_error h
      exact .overlong hs h
    · obtain ⟨d, hd, hfail⟩ := exists_error_of_mapM h
      rw [Diagnostic.toJson_of_mem ha (List.mem_of_mem_take hd)] at hfail
      split at hfail
      · cases hfail
      · next ht =>
        obtain rfl := Except.error.inj hfail
        exact .surrogate hs ha hd ht
  · intro h
    cases h with
    | overlong hs h => exact ⟨_, hs, bind_eq_error_iff.2 (Or.inl h)⟩
    | @surrogate s a d hs ha hd ht =>
      refine ⟨s, hs, bind_eq_error_iff.2 (Or.inr ⟨a, ha, ?_⟩)⟩
      have hall := mapM_eq_ite (f := Diagnostic.toJson s) fun x hx =>
        Diagnostic.toJson_of_mem ha (List.mem_of_mem_take (l := a.diagnostics)
          (i := (doc.settings.getD common).limit) hx)
      exact hall.trans (if_neg fun h => ht (h d hd))

theorem grave_of_unsendable {doc : Document} {common : Settings} (h : doc.Unsendable common e) :
    Grave e := by
  cases h <;> rfl

theorem eq_loneSurrogate_of_items {doc : Document} {common : Settings} (hd : doc.isAnalysable)
    (h : doc.items common = .error e) : e = .loneSurrogate := by
  obtain ⟨s, a, hs, ha⟩ := hd
  rw [Document.items, hs] at h
  rcases bind_eq_error_iff.1 h with h | ⟨s', hs', h⟩
  · cases h
  · obtain rfl := Except.ok.inj hs'
    rcases bind_eq_error_iff.1 h with h | ⟨a', -, h⟩
    · cases ha.symm.trans h
    · obtain ⟨d, -, hfail⟩ := exists_error_of_mapM h
      exact Diagnostic.toJson_error hfail

theorem lift_bind_fails_iff {x : Except Fault α} {f : α → Handler β} :
    Fails ((liftM x : Handler α) >>= f) t e ↔
      x = .error e ∨ ∃ a, x = .ok a ∧ Fails (f a) t e := by
  cases x with
  | error e' => simp [Fails, bind_apply, liftM_apply]
  | ok a => simp [Fails, bind_apply, liftM_apply]

/-- A handler fails gravely only in what it does after a reading that has no grave failure. -/
theorem lift_bind_fails_iff_of_mild {x : Except Fault α} {f : α → Handler β} (hx : Mild x)
    (he : Grave e) :
    Fails ((liftM x : Handler α) >>= f) t e ↔ ∃ a, x = .ok a ∧ Fails (f a) t e := by
  rw [lift_bind_fails_iff]
  exact or_iff_right (hx.ne_error he)

theorem settings_ask (t : Turn) (uri : Json) : (t.ask uri).server.settings = t.server.settings := by
  unfold Turn.ask
  split <;> rfl

theorem didOpen_fails_iff (he : Grave e) :
    Fails (didOpen params) t e ↔
      ∃ doc, openingOf params = .ok doc ∧ doc.Unsendable t.server.settings e := by
  rw [Fails, didOpen_apply]
  refine (lift_bind_fails_iff_of_mild (mild_openingOf params) he).trans ?_
  refine exists_congr fun doc => and_congr_right fun _ => ?_
  rw [Fails, takeIn, publish_error_iff, items_eq_error_iff he, settings_ask]
  rfl

theorem didChange_fails_iff (he : Grave e) :
    Fails (didChange params) t e ↔
      ∃ uri doc, revisionOf t.server params = .ok (.changed uri doc) ∧
        doc.Unsendable t.server.settings e := by
  rw [Fails, didChange_apply]
  refine (lift_bind_fails_iff_of_mild (mild_revisionOf _ params) he).trans ?_
  constructor
  · rintro ⟨r, hr, h⟩
    cases r with
    | unopened => cases h
    | unchanged => cases h
    | changed uri doc =>
      have hitems := publish_error_iff.1 (h : (publish doc { t with
        server := revised t.server uri doc }).1 = .error e)
      exact ⟨uri, doc, hr, (items_eq_error_iff he).1 hitems⟩
  · rintro ⟨uri, doc, hr, h⟩
    exact ⟨_, hr, publish_error_iff.2 ((items_eq_error_iff he).2 h)⟩

theorem didClose_not_fails (he : Grave e) : ¬ Fails (didClose params) t e := by
  intro h
  rw [Fails, didClose_apply] at h
  obtain ⟨uri, -, h⟩ := (lift_bind_fails_iff_of_mild (mild_closingOf _ params) he).1 h
  cases h

theorem isAnalysable_of_sameTexts {docs docs' : List Document} (hs : SameTexts docs docs')
    (hd : ∀ d ∈ docs, d.isAnalysable) : ∀ d ∈ docs', d.isAnalysable := by
  intro doc hdoc
  have hm := List.mem_map_of_mem (f := fun d : Document => (d.uri, d.text)) hdoc
  rw [hs] at hm
  obtain ⟨d, hd', heq⟩ := List.mem_map.1 hm
  obtain ⟨huri, htext⟩ := Prod.mk.inj heq
  obtain ⟨s, a, hsource, ha⟩ := hd d hd'
  refine ⟨s, a, ?_, ha⟩
  rwa [Document.source?, ← huri, ← htext]

theorem each_publish_fails_iff {docs : List Document} (hd : ∀ d ∈ docs, d.isAnalysable) :
    Fails (each publish docs) t e ↔ ∃ d ∈ docs, d.Unsendable t.server.settings e := by
  rw [Fails, each_publish_error_iff]
  constructor
  · rintro ⟨before, doc, after, rfl, -, h⟩
    have hdoc : doc ∈ before ++ doc :: after := by simp
    obtain rfl := eq_loneSurrogate_of_items (hd doc hdoc) h
    exact ⟨doc, hdoc, (items_eq_error_iff rfl).1 h⟩
  · rintro ⟨d, hmem, h⟩
    have hitems := (items_eq_error_iff (grave_of_unsendable h)).2 h
    obtain rfl := eq_loneSurrogate_of_items (hd d hmem) hitems
    obtain ⟨e', before, doc, after, rfl, hbefore, hdoc⟩ :=
      exists_firstFails (f := (·.items t.server.settings)) hmem hitems
    obtain rfl := eq_loneSurrogate_of_items (hd doc (by simp)) hdoc
    exact ⟨before, doc, after, rfl, hbefore, hdoc⟩

theorem didChangeConfiguration_fails_iff (hd : ∀ d ∈ t.server.documents, d.isAnalysable) :
    Fails (didChangeConfiguration params) t e ↔
      (t.server.asksSettings = false ∧ params.isObject = false ∧ e = .notAnObject) ∨
        ∃ u, configured params t = .ok u ∧
          ∃ d ∈ u.server.documents, d.Unsendable u.server.settings e := by
  rw [Fails, didChangeConfiguration_apply, ← configured_eq_error_iff]
  refine lift_bind_fails_iff.trans (or_congr_right ?_)
  refine exists_congr fun u => and_congr_right fun hu => ?_
  exact each_publish_fails_iff (isAnalysable_of_sameTexts (sameTexts_configured hu) hd)

/-- The name of the document that a request is about. -/
def uriOf (params : Json) : Except Fault Json := do
  (← params.field "textDocument").field "uri"

theorem mild_uriOf (params : Json) : Mild (uriOf params) :=
  .bind (mild_field _ _) fun _ _ => mild_field _ _

theorem isObject_of_uriOf {uri : Json} (h : uriOf params = .ok uri) : params.isObject = true := by
  cases hitem : params.field "textDocument" with
  | error e => simp [uriOf, hitem, bind, Except.bind] at h
  | ok item => exact isObject_of_field hitem

theorem search_of_find? {uri : Json} {doc : Document} (h : server.find? uri = .ok (some doc)) :
    server.documents.find? (fun d => d.uri.same uri) = some doc := by
  rw [Server.find?] at h
  cases hs : uri.requireScalar with
  | error e => simp [hs, Except.map] at h
  | ok _ => simpa [hs, Except.map] using h

theorem same_of_find? {uri : Json} {doc : Document} (h : server.find? uri = .ok (some doc)) :
    doc.uri.same uri = true := by
  simpa using List.find?_some (search_of_find? h)

theorem mem_of_find? {uri : Json} {doc : Document} (h : server.find? uri = .ok (some doc)) :
    doc ∈ server.documents :=
  List.mem_of_find?_eq_some (search_of_find? h)

section

variable {id uri : Json} {doc : Document}

theorem answer_fails_iff (he : Grave e) :
    Fails (do
      let items ← doc.items (← Handler.server).settings
      respond id (.obj [("kind", .str "full"), ("items", .arr items)])) t e ↔
        doc.Unsendable t.server.settings e := by
  rw [← items_eq_error_iff he]
  refine lift_bind_fails_iff.trans (or_iff_left ?_)
  rintro ⟨items, -, h⟩
  cases h

theorem diagnostic_fails_iff_of_open (he : Grave e) (hfind : t.server.find? uri = .ok (some doc)) :
    Fails (diagnostic files id uri) t e ↔ doc.Unsendable t.server.settings e := by
  show Fails ((liftM (t.server.find? uri) : Handler _) >>= _) t e ↔ _
  rw [lift_bind_fails_iff_of_mild (mild_find? _ _) he]
  simp only [hfind, Except.ok.injEq, exists_eq_left']
  exact answer_fails_iff he

theorem diagnostic_fails_iff_of_file {name : Text} (he : Grave e) (hu : uri = .str name)
    (hfind : t.server.find? uri = .ok none)
    (hf : ∀ path e, files path = .error e → e = .fileNotFound) :
    Fails (diagnostic files id uri) t e ↔
      ∃ path text, pathOfUri? name = some path ∧ path ≠ "" ∧ files path = .ok text ∧
        ({ uri := .str name, text := .str (Text.ofList text) } : Document).Unsendable
          t.server.settings e := by
  show Fails ((liftM (t.server.find? uri) : Handler _) >>= _) t e ↔ _
  rw [lift_bind_fails_iff_of_mild (mild_find? _ _) he]
  simp only [hfind, Except.ok.injEq, exists_eq_left']
  subst hu
  simp only
  split
  · next hp => simp [hp, Fails, refuse, write]
  · next hp =>
    refine ⟨by simp [Fails, refuse, write], ?_⟩
    rintro ⟨path, text, hpath, hne, -⟩
    exact absurd (Option.some.inj (hpath.symm.trans hp)) hne
  · next path hne hp =>
    have hne' : path ≠ "" := fun h => hne (h ▸ rfl)
    simp only [hp, Option.some.injEq, exists_and_left, exists_eq_left']
    cases hfile : files path with
    | error e' =>
      obtain rfl := hf path e' hfile
      simp [Fails, refuse, write]
    | ok text =>
      simp only [answer_fails_iff he]
      simp [hne']

theorem diagnostic_fails_iff_of_nameless (he : Grave e) (hfind : t.server.find? uri = .ok none)
    (hn : ∀ name, uri ≠ .str name) :
    Fails (diagnostic files id uri) t e ↔ e = .notAnObject := by
  show Fails ((liftM (t.server.find? uri) : Handler _) >>= _) t e ↔ _
  rw [lift_bind_fails_iff_of_mild (mild_find? _ _) he]
  simp only [hfind, Except.ok.injEq, exists_eq_left']
  cases uri with
  | str name => exact absurd rfl (hn name)
  | _ => exact ⟨fun h => (Except.error.inj h).symm, fun h => h ▸ rfl⟩

end

theorem completionResolve_fails_iff {id item : Json} :
    Fails (completionResolve id item) t e ↔ item.isObject = false ∧ e = .notAnObject := by
  cases item with
  | obj fields =>
    have hok : (completionResolve id (.obj fields) t).1 = .ok () := by
      simp only [completionResolve]
      cases entryOf? fields <;> rfl
    simp [Fails, hok, isObject]
  | _ => exact ⟨fun h => ⟨rfl, (Except.error.inj h).symm⟩, fun h => h.2 ▸ rfl⟩

/-- The answer with the actions for a document that is open, or not. -/
def answerActions (id params uri : Json) : Option Document → Handler Unit
  | none => respond id (.arr [])
  | some doc => (liftM ({ doc with uri } : Document).source? : Handler Source) >>= fun s =>
    (liftM (actionItems s params) : Handler (List Json)) >>= fun items => respond id (.arr items)

theorem codeAction_apply (id params : Json) (t : Turn) :
    codeAction id params t = ((liftM (uriOf params) : Handler Json) >>= fun uri =>
      Handler.server >>= fun server =>
        (liftM (server.find? uri) : Handler _) >>= answerActions id params uri) t := by
  rw [uriOf, lift_bind_assoc]
  refine lift_bind_congr fun item => lift_bind_congr fun uri => ?_
  exact lift_bind_congr fun found => by cases found <;> rfl

theorem codeAction_fails_iff {id : Json} (he : Grave e) :
    Fails (codeAction id params) t e ↔
      ∃ uri doc s, uriOf params = .ok uri ∧ t.server.find? uri = .ok (some doc) ∧
        ({ doc with uri } : Document).source? = .ok s ∧ BreaksItems s params e := by
  rw [Fails, codeAction_apply]
  refine (lift_bind_fails_iff_of_mild (mild_uriOf params) he).trans ?_
  constructor
  · rintro ⟨uri, huri, h⟩
    obtain ⟨found, hfind, h⟩ := (lift_bind_fails_iff_of_mild (mild_find? t.server uri) he).1 h
    cases found with
    | none => cases h
    | some doc =>
      obtain ⟨s, hs, h⟩ := (lift_bind_fails_iff_of_mild (mild_source? _) he).1 h
      rcases lift_bind_fails_iff.1 h with h | ⟨actions, -, h⟩
      · exact ⟨uri, doc, s, huri, hfind, hs, (actionItems_eq_error_iff (isObject_of_uriOf huri) he).1 h⟩
      · cases h
  · rintro ⟨uri, doc, s, huri, hfind, hs, h⟩
    refine ⟨uri, huri, (lift_bind_fails_iff_of_mild (mild_find? t.server uri) he).2 ⟨_, hfind, ?_⟩⟩
    refine (lift_bind_fails_iff_of_mild (mild_source? _) he).2 ⟨s, hs, ?_⟩
    exact lift_bind_fails_iff.2 (Or.inl ((actionItems_eq_error_iff (isObject_of_uriOf huri) he).2 h))

theorem hover_fails_iff {id uri position : Json} (he : Grave e) :
    Fails (hover id uri position) t e ↔
      ∃ doc s n, t.server.find? uri = .ok (some doc) ∧ doc.source? = .ok s ∧
        position.field "line" = .ok (.int n) ∧ n < -(s.lines.length : Int) ∧ e = .outOfRange := by
  refine (lift_bind_fails_iff_of_mild (mild_find? t.server uri) he).trans ?_
  constructor
  · rintro ⟨found, hfind, h⟩
    cases found with
    | none => cases h
    | some doc =>
      obtain ⟨s, hs, h⟩ := (lift_bind_fails_iff_of_mild (mild_source? doc) he).1 h
      rcases lift_bind_fails_iff.1 h with h | ⟨shown, hshown, h⟩
      · obtain ⟨rfl, n, hn, hneg⟩ := (hoverAt_eq_error_iff he).1 h
        exact ⟨doc, s, n, hfind, hs, hn, hneg, rfl⟩
      · cases shown with
        | none => cases h
        | some p =>
          obtain ⟨line, -, h⟩ := (lift_bind_fails_iff_of_mild (mild_field _ _) he).1 h
          have hrange := toJson_of_hoverAt hshown line.isBool
          rcases lift_bind_fails_iff.1 h with h | ⟨_, -, h⟩
          · cases hrange.symm.trans h
          · cases h
  · rintro ⟨doc, s, n, hfind, hs, hn, hneg, rfl⟩
    refine ⟨_, hfind, (lift_bind_fails_iff_of_mild (mild_source? doc) he).2 ⟨s, hs, ?_⟩⟩
    exact lift_bind_fails_iff.2 (Or.inl ((hoverAt_eq_error_iff he).2 ⟨rfl, n, hn, hneg⟩))

theorem handle_hover (files : FileReader) (id params : Json) (t : Turn) :
    handle files "textDocument/hover" id params t =
      ((liftM (uriOf params) : Handler Json) >>= fun uri =>
        (liftM (params.field "position") : Handler Json) >>= fun position =>
          hover id uri position) t := by
  rw [uriOf, lift_bind_assoc]
  rfl

theorem handle_diagnostic (files : FileReader) (id params : Json) (t : Turn) :
    handle files "textDocument/diagnostic" id params t =
      ((liftM (uriOf params) : Handler Json) >>= fun uri => diagnostic files id uri) t := by
  rw [uriOf, lift_bind_assoc]
  rfl

theorem unknown_not_fails (id name : Json) : ¬ Fails (handle.unknown id name) t e := by
  intro h
  rw [Fails, handle.unknown] at h
  simp only [bind_apply, Handler.log] at h
  split at h <;> cases h

theorem turn_of_nameless (files : FileReader) {fields : List (Text × Json)} {name : Json}
    (hi : server.initialized = true) (hm : lookup "method" fields = some name) (hne : name ≠ .null)
    (hstr : ∀ method : String, name ≠ .str method) :
    turn files server (.message fields) = (handle.unknown (messageId fields) name { server }).2 := by
  have hreceive : receive files fields { server } = Handler.recover
      (handle.unknown (messageId fields) name) isInvalidParams
        (refuseParams name (messageId fields)) { server } := by
    have hnone : name.string? = none :=
      Option.eq_none_iff_forall_ne_some.2 fun method h => hstr method (string?_eq_some_iff.1 h)
    simp only [receive, hm, Option.getD_some, if_neg hne, bind_apply, Handler.server, hi, if_true, hnone,
      messageId]
  have hok : ∀ e, ¬ Fails (handle.unknown (messageId fields) name) { server } e :=
    fun _ => unknown_not_fails _ _
  rw [turn, hreceive, Handler.recover]
  simp only [Fails] at hok
  generalize handle.unknown (messageId fields) name { server } = r at hok
  obtain ⟨e' | a, t⟩ := r
  · exact absurd rfl (hok e')
  · rfl

/-- Settings for a document that is open, or not. -/
def grant (uri : Json) (settings : Settings) : Option Document → Handler Unit
  | none => pure ()
  | some doc => fun t =>
    publish { doc with settings := some settings }
      { t with server := t.server.update uri fun d => { d with settings := some settings } }

theorem takeAnswer_apply (result uri : Json) (left : List (Nat × Json)) (t : Turn) :
    takeAnswer result left uri t =
      if uri.isEmpty then (.ok (), { t with server := { t.server with pending := left } })
      else ((liftM (t.server.find? uri) : Handler _) >>= grant uri (answeredSettings result))
        { t with server := { t.server with pending := left } } := by
  simp only [takeAnswer, bind_apply, Handler.change]
  cases uri.isEmpty with
  | true => rfl
  | false =>
    simp only [Bool.not_false, if_true, Bool.false_eq_true, if_false]
    show ((liftM (t.server.find? uri) : Handler _) >>= _) _ = _
    rw [← bind_apply]
    exact lift_bind_congr fun found => by cases found <;> rfl

theorem takeAnswer_fails_iff {result uri : Json} {left : List (Nat × Json)}
    (huri : uri.isScalar = true) (hd : ∀ d ∈ t.server.documents, d.isAnalysable) :
    Fails (takeAnswer result left uri) t e ↔
      uri.isEmpty = false ∧ ∃ doc, t.server.find? uri = .ok (some doc) ∧
        ({ doc with settings := some (answeredSettings result) } : Document).Unsendable
          t.server.settings e := by
  rw [Fails, takeAnswer_apply]
  cases uri.isEmpty with
  | true => simp
  | false =>
    have hfound : t.server.find? uri = .ok (t.server.documents.find? fun d => d.uri.same uri) := by
      simp [Server.find?, Json.requireScalar, huri, Except.map]
    rw [if_neg Bool.false_ne_true, and_iff_right rfl]
    refine lift_bind_fails_iff.trans ?_
    show t.server.find? uri = .error e ∨ (∃ found, t.server.find? uri = .ok found ∧ _) ↔ _
    rw [hfound]
    simp only [reduceCtorEq, false_or, Except.ok.injEq, exists_eq_left']
    cases hdoc : t.server.documents.find? fun d => d.uri.same uri with
    | none => simp [Fails, grant, pure_apply]
    | some doc =>
      have hanalysable : ({ doc with settings := some (answeredSettings result) } :
          Document).isAnalysable := hd doc (List.mem_of_find?_eq_some hdoc)
      simp only [Option.some.injEq, exists_eq_left']
      refine publish_error_iff.trans ⟨fun h => ?_, fun h => ?_⟩
      · obtain rfl := eq_loneSurrogate_of_items hanalysable h
        exact (items_eq_error_iff rfl).1 h
      · exact (items_eq_error_iff (grave_of_unsendable h)).2 h

theorem takeAnswer_fault (result uri : Json) (left : List (Nat × Json)) (t : Turn) :
    (takeAnswer result left uri t).2.fault = t.fault := by
  rw [takeAnswer_apply]
  split
  · rfl
  · cases hfind : t.server.find? uri with
    | error e => simp [bind_apply, liftM_apply]
    | ok found =>
      cases found with
      | none => rfl
      | some doc => exact publish_fault _ _

/-- An answer with which a document gets settings that it cannot be sent under. -/
def BreaksGrant (server : Server) (id result : Json) (e : Fault) : Prop :=
  ∃ p ∈ server.pending, Json.same (.int p.1) id = true ∧ p.2.isEmpty = false ∧
    ∃ doc, server.find? p.2 = .ok (some doc) ∧
      ({ doc with settings := some (answeredSettings result) } : Document).Unsendable server.settings e

theorem didAnswer_fails_iff {id result : Json} (hs : t.server.Consistent)
    (hd : ∀ d ∈ t.server.documents, d.isAnalysable) :
    Fails (didAnswer id result) t e ↔
      (t.server.pending ≠ [] ∧ id.isScalar = false ∧ e = .wrongShape) ∨
        BreaksGrant t.server id result e := by
  rw [Fails, didAnswer_apply]
  by_cases hex : ∃ p ∈ t.server.pending, Json.same (.int p.1) id = true
  · obtain ⟨⟨n, uri⟩, hmem, hn⟩ := hex
    obtain ⟨before, after, hp⟩ := List.append_of_mem hmem
    have hid := Json.isScalar_of_same_number hn
    have hone : ∀ p ∈ t.server.pending, Json.same (.int p.1) id = true → p.2 = uri := by
      intro p hmem' hsame
      obtain ⟨before', after', hp'⟩ := List.append_of_mem hmem'
      have htake := takePending_of_consistent hs hp' hsame
      rw [takePending_of_consistent hs hp hn] at htake
      exact (Option.some.inj (Prod.mk.inj htake).1).symm
    rw [if_pos (Or.inr hid), takePending_of_consistent hs hp hn, Option.getD_some]
    refine (takeAnswer_fails_iff (hs.due _ hmem).1 hd).trans ?_
    constructor
    · rintro ⟨hempty, doc, hfind, h⟩
      exact Or.inr ⟨_, hmem, hn, hempty, doc, hfind, h⟩
    · rintro (⟨-, hno, -⟩ | ⟨p, hmem', hsame, hempty, doc, hfind, h⟩)
      · simp [hid] at hno
      · rw [hone p hmem' hsame] at hempty hfind
        exact ⟨hempty, doc, hfind, h⟩
  · have hno : ∀ p ∈ t.server.pending, Json.same (.int p.1) id = false :=
      fun p hp => Bool.eq_false_iff.2 fun h => hex ⟨p, hp, h⟩
    have hgrant : ¬ BreaksGrant t.server id result e := fun ⟨p, hp, h, _⟩ => hex ⟨p, hp, h⟩
    rw [or_iff_left hgrant, takePending_of_forall hno]
    split
    · next h =>
      refine ⟨fun hfail => (by cases hfail), fun ⟨hp, hid, _⟩ => ?_⟩
      exact absurd h (not_or.2 ⟨hp, by simp [hid]⟩)
    · next h =>
      simp only [not_or, Bool.not_eq_true] at h
      exact ⟨fun he => ⟨h.1, h.2, (Except.error.inj he).symm⟩, fun he => he.2.2 ▸ rfl⟩

end Session

end LittleMan
