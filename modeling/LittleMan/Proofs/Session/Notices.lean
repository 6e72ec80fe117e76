import LittleMan.Proofs.Session.Failures
import LittleMan.Proofs.Session.Refusals
import LittleMan.Proofs.Session.Start

/-! What messages tell of documents, read off the messages alone. A started server whose documents have
texts for names does as it is told: it puts, rewrites or removes the one document that a message is about,
and all other messages leave the names, the texts and the versions of the documents as they are. -/

namespace LittleMan

open Handler Json

/-- The method and the parameters of a frame that asks or tells something. -/
def Frame.call? : Frame → Option (String × Json)
  | .message fields =>
    ((lookup "method" fields).bind Json.string?).map fun method => (method, Session.messageParams fields)
  | _ => none

/-- What a message tells of the session and of its documents. -/
inductive Notice where
  | started
  | opened (uri text version : Json)
  | changed (uri text version : Json)
  | closed (uri : Json)
  deriving DecidableEq, Repr

namespace Notice

def item? : Json → Option (List (Text × Json))
  | .obj params =>
    match lookup "textDocument" params with
    | some (.obj item) => some item
    | _ => none
  | _ => none

def lastChange? : Json → Option Json
  | .obj params =>
    match lookup "contentChanges" params with
    | some (.arr changes) =>
      match changes.getLast? with
      | some (.obj last) => lookup "text" last
      | _ => none
    | _ => none
  | _ => none

def versionOf (item : List (Text × Json)) : Json := (lookup "version" item).getD .null

def ofDocument? (method : String) (params : Json) (item : List (Text × Json)) (uri : Json) :
    Option Notice :=
  if method = "textDocument/didOpen" then
    (lookup "text" item).map fun text => .opened uri text (versionOf item)
  else if method = "textDocument/didChange" then
    (lastChange? params).map fun text => .changed uri text (versionOf item)
  else if method = "textDocument/didClose" then some (.closed uri)
  else none

def ofCall? (method : String) (params : Json) : Option Notice :=
  if method = "initialize" then some .started
  else
    (item? params).bind fun item =>
      (lookup "uri" item).bind fun uri => ofDocument? method params item uri

end Notice

def Frame.notice? (frame : Frame) : Option Notice :=
  frame.call?.bind fun call => Notice.ofCall? call.1 call.2

theorem Frame.notice?_of_call? {frame : Frame} (h : frame.call? = none) : frame.notice? = none := by
  rw [Frame.notice?, h, Option.bind_none]

namespace Session

variable {server : Server} {params : Json} {t : Turn}

theorem item?_eq_some_iff {item : List (Text × Json)} :
    Notice.item? params = some item ↔ params.field "textDocument" = .ok (.obj item) := by
  cases params with
  | obj fields =>
    rw [field_eq_ok_iff, Notice.item?]
    cases lookup "textDocument" fields with
    | none => simp
    | some v => cases v <;> simp
  | _ => simp [Notice.item?, Json.field]

theorem item_of_fields {v uri : Json} (hv : params.field "textDocument" = .ok v)
    (hu : v.field "uri" = .ok uri) :
    ∃ item, v = .obj item ∧ Notice.item? params = some item ∧ lookup "uri" item = some uri := by
  obtain ⟨item, rfl⟩ := exists_of_isObject (isObject_of_field hu)
  exact ⟨item, rfl, item?_eq_some_iff.2 hv, field_eq_ok_iff.1 hu⟩

theorem requireScalar_eq_ok_iff {v : Json} : v.requireScalar = .ok () ↔ v.isScalar = true := by
  cases h : v.isScalar <;> simp [Json.requireScalar, h]

theorem ofCall?_of_ne {method : String} (h : method ≠ "initialize") (params : Json) :
    Notice.ofCall? method params = (Notice.item? params).bind fun item =>
      (lookup "uri" item).bind fun uri => Notice.ofDocument? method params item uri :=
  if_neg h

section

variable {item : List (Text × Json)} {uri : Json}

theorem ofDocument?_didOpen : Notice.ofDocument? "textDocument/didOpen" params item uri =
    (lookup "text" item).map fun text => .opened uri text (Notice.versionOf item) :=
  if_pos rfl

theorem ofDocument?_didChange : Notice.ofDocument? "textDocument/didChange" params item uri =
    (Notice.lastChange? params).map fun text => .changed uri text (Notice.versionOf item) :=
  (if_neg (by decide)).trans (if_pos rfl)

theorem ofDocument?_didClose :
    Notice.ofDocument? "textDocument/didClose" params item uri = some (.closed uri) :=
  (if_neg (by decide)).trans ((if_neg (by decide)).trans (if_pos rfl))

end

theorem opened_iff {uri text version : Json} :
    Notice.ofCall? "textDocument/didOpen" params = some (.opened uri text version) ↔
      ∃ item, Notice.item? params = some item ∧ lookup "uri" item = some uri ∧
        lookup "text" item = some text ∧ Notice.versionOf item = version := by
  rw [ofCall?_of_ne (by decide)]
  simp only [ofDocument?_didOpen, Option.bind_eq_some_iff, Option.map_eq_some_iff,
    Notice.opened.injEq]
  constructor
  · rintro ⟨item, hi, u, hu, x, hx, rfl, rfl, hv⟩
    exact ⟨item, hi, hu, hx, hv⟩
  · rintro ⟨item, hi, hu, hx, hv⟩
    exact ⟨item, hi, uri, hu, text, hx, rfl, rfl, hv⟩

theorem exists_opened {notice : Notice}
    (h : Notice.ofCall? "textDocument/didOpen" params = some notice) :
    ∃ uri text version, notice = .opened uri text version := by
  rw [ofCall?_of_ne (by decide)] at h
  simp only [ofDocument?_didOpen, Option.bind_eq_some_iff, Option.map_eq_some_iff] at h
  obtain ⟨item, -, uri, -, text, -, rfl⟩ := h
  exact ⟨uri, text, _, rfl⟩

theorem openingOf_eq_ok_iff {doc : Document} : openingOf params = .ok doc ↔
    doc.uri.isScalar = true ∧ doc.settings = none ∧
      Notice.ofCall? "textDocument/didOpen" params = some (.opened doc.uri doc.text doc.version) := by
  rw [opened_iff]
  simp only [openingOf, bind_eq_ok_iff]
  constructor
  · rintro ⟨v, hv, uri, hu, text, ht, version, hversion, _, hs, hdoc⟩
    obtain ⟨item, rfl, hi, hu⟩ := item_of_fields hv hu
    obtain rfl := Except.ok.inj hdoc
    exact ⟨requireScalar_eq_ok_iff.1 hs, rfl, item, hi, hu, field_eq_ok_iff.1 ht,
      Except.ok.inj hversion⟩
  · rintro ⟨hs, hnone, item, hi, hu, ht, hversion⟩
    refine ⟨_, item?_eq_some_iff.1 hi, doc.uri, field_eq_ok_iff.2 hu, doc.text, field_eq_ok_iff.2 ht,
      doc.version, congrArg Except.ok hversion, (), requireScalar_eq_ok_iff.2 hs, ?_⟩
    rw [← hnone]
    rfl

theorem lastText_of_lastChange? {fields : List (Text × Json)} {text : Json}
    (h : Notice.lastChange? (.obj fields) = some text) :
    ∃ changes, lookup "contentChanges" fields = some changes ∧ changes.isEmpty = false ∧
      lastText changes = .ok text := by
  rw [Notice.lastChange?] at h
  split at h
  · next changes hc =>
    split at h
    · next last hl =>
      refine ⟨.arr changes, hc, ?_, ?_⟩
      · cases changes with
        | nil => cases hl
        | cons => rfl
      · rw [lastText, hl]
        exact field_eq_ok_iff.2 h
    · cases h
  · cases h

theorem lastChange?_of_lastText {fields : List (Text × Json)} {changes text : Json}
    (hc : lookup "contentChanges" fields = some changes) (h : lastText changes = .ok text) :
    Notice.lastChange? (.obj fields) = some text := by
  obtain ⟨items, last, rfl, -, -⟩ := lastText_ok h
  rw [lastText] at h
  cases hl : items.getLast? with
  | none =>
    rw [hl] at h
    cases h
  | some v =>
    rw [hl] at h
    obtain ⟨fs, rfl⟩ := exists_of_isObject (isObject_of_field h)
    simp only [Notice.lastChange?, hc, hl]
    exact field_eq_ok_iff.1 h

theorem changed_iff {uri text version : Json} :
    Notice.ofCall? "textDocument/didChange" params = some (.changed uri text version) ↔
      ∃ item, Notice.item? params = some item ∧ lookup "uri" item = some uri ∧
        Notice.lastChange? params = some text ∧ Notice.versionOf item = version := by
  rw [ofCall?_of_ne (by decide)]
  simp only [ofDocument?_didChange, Option.bind_eq_some_iff, Option.map_eq_some_iff,
    Notice.changed.injEq]
  constructor
  · rintro ⟨item, hi, u, hu, x, hx, rfl, rfl, hv⟩
    exact ⟨item, hi, hu, hx, hv⟩
  · rintro ⟨item, hi, hu, hx, hv⟩
    exact ⟨item, hi, uri, hu, text, hx, rfl, rfl, hv⟩

theorem exists_changed {notice : Notice}
    (h : Notice.ofCall? "textDocument/didChange" params = some notice) :
    ∃ uri text version, notice = .changed uri text version := by
  rw [ofCall?_of_ne (by decide)] at h
  simp only [ofDocument?_didChange, Option.bind_eq_some_iff, Option.map_eq_some_iff] at h
  obtain ⟨item, -, uri, -, text, -, rfl⟩ := h
  exact ⟨uri, text, _, rfl⟩

/-- A message changes a document if it is open and the last change it lists gives a text. -/
theorem revisionOf_eq_changed_iff {uri : Json} {doc : Document} :
    revisionOf server params = .ok (.changed uri doc) ↔
      ∃ d, server.find? uri = .ok (some d) ∧ doc = { d with text := doc.text, version := doc.version } ∧
        Notice.ofCall? "textDocument/didChange" params =
          some (.changed uri doc.text doc.version) := by
  rw [changed_iff]
  simp only [revisionOf, bind_eq_ok_iff]
  constructor
  · rintro ⟨v, hv, u, hu, found, hf, h⟩
    obtain ⟨item, rfl, hi, hu⟩ := item_of_fields hv hu
    obtain ⟨fields, rfl⟩ := exists_of_isObject (isObject_of_field hv)
    cases found with
    | none => cases h
    | some d =>
      obtain ⟨changes, hc, hrest⟩ := bind_eq_ok_iff.1 h
      split at hrest
      · cases hrest
      · obtain ⟨text, ht, hversion⟩ := bind_eq_ok_iff.1 hrest
        obtain ⟨version, hitem, hrevision⟩ := bind_eq_ok_iff.1 hversion
        obtain ⟨rfl, rfl⟩ := Revision.changed.inj (Except.ok.inj hrevision)
        exact ⟨d, hf, rfl, item, hi, hu, lastChange?_of_lastText (field_eq_ok_iff.1 hc) ht,
          Except.ok.inj hitem⟩
  · rintro ⟨d, hf, hdoc, item, hi, hu, ht, hversion⟩
    have hv := item?_eq_some_iff.1 hi
    obtain ⟨fields, rfl⟩ := exists_of_isObject (isObject_of_field hv)
    obtain ⟨changes, hc, hempty, htext⟩ := lastText_of_lastChange? ht
    refine ⟨_, hv, uri, field_eq_ok_iff.2 hu, some d, hf, ?_⟩
    refine bind_eq_ok_iff.2 ⟨changes, field_eq_ok_iff.2 hc, ?_⟩
    rw [hempty, if_neg Bool.false_ne_true]
    refine bind_eq_ok_iff.2 ⟨doc.text, htext, bind_eq_ok_iff.2 ⟨doc.version, ?_, ?_⟩⟩
    · exact congrArg Except.ok hversion
    · rw [hdoc]
      rfl

theorem exists_closed {notice : Notice}
    (h : Notice.ofCall? "textDocument/didClose" params = some notice) :
    ∃ uri, notice = .closed uri := by
  rw [ofCall?_of_ne (by decide)] at h
  simp only [ofDocument?_didClose, Option.bind_eq_some_iff, Option.some.injEq] at h
  obtain ⟨item, -, uri, -, rfl⟩ := h
  exact ⟨uri, rfl⟩

theorem closed_iff {uri : Json} :
    Notice.ofCall? "textDocument/didClose" params = some (.closed uri) ↔ uriOf params = .ok uri := by
  rw [ofCall?_of_ne (by decide)]
  simp only [ofDocument?_didClose, Option.bind_eq_some_iff, Option.some.injEq,
    Notice.closed.injEq, uriOf, bind_eq_ok_iff]
  constructor
  · rintro ⟨item, hi, u, hu, rfl⟩
    exact ⟨_, item?_eq_some_iff.1 hi, field_eq_ok_iff.2 hu⟩
  · rintro ⟨v, hv, hu⟩
    obtain ⟨item, rfl, hi, hu⟩ := item_of_fields hv hu
    exact ⟨item, hi, uri, hu, rfl⟩

theorem uriOf_of_closingOf {uri : Json} (h : closingOf server params = .ok uri) :
    uriOf params = .ok uri := by
  simp only [closingOf, bind_eq_ok_iff] at h
  obtain ⟨item, hi, u, hu, h⟩ := h
  refine bind_eq_ok_iff.2 ⟨item, hi, ?_⟩
  split at h
  · obtain ⟨-, -, h⟩ := bind_eq_ok_iff.1 h
    rwa [← Except.ok.inj h]
  · rwa [← Except.ok.inj h]

theorem closingOf_of_isScalar {uri : Json} (h : uriOf params = .ok uri) (hs : uri.isScalar = true) :
    closingOf server params = .ok uri := by
  obtain ⟨item, hi, hu⟩ := bind_eq_ok_iff.1 h
  refine bind_eq_ok_iff.2 ⟨item, hi, bind_eq_ok_iff.2 ⟨uri, hu, ?_⟩⟩
  rw [requireScalar_eq_ok_iff.2 hs]
  split <;> rfl

/-- What is kept of a document whatever happens to its settings. -/
def content (doc : Document) : Json × Json × Json := (doc.uri, doc.text, doc.version)

def contents (docs : List Document) : List (Json × Json × Json) := docs.map content

/-- The documents after a message that is heeded: it concerns the document of its name alone. -/
inductive Heeds (docs : List Document) : Option Notice → List Document → Prop
  | opened (uri text version : Json) :
      Heeds docs (some (.opened uri text version)) (Server.putDocument { uri, text, version } docs)
  | changed (uri text version : Json) :
      Heeds docs (some (.changed uri text version))
        (docs.map fun d => if d.uri.same uri then { d with text, version } else d)
  | closed (uri : Json) : Heeds docs (some (.closed uri)) (docs.filter fun d => !d.uri.same uri)
  | other {notice : Option Notice} {docs' : List Document} (hn : notice = none ∨ notice = some .started)
      (h : contents docs' = contents docs) : Heeds docs notice docs'

theorem documents_ask (t : Turn) (uri : Json) : (t.ask uri).server.documents = t.server.documents := by
  unfold Turn.ask
  split <;> rfl

theorem contents_map {docs : List Document} {f : Document → Document}
    (hf : ∀ d, content (f d) = content d) : contents (docs.map f) = contents docs := by
  rw [contents, contents, List.map_map]
  exact List.map_congr_left fun d _ => hf d

theorem contents_update_settings (server : Server) (uri : Json) (settings : Option Settings) :
    contents (server.update uri fun d => { d with settings }).documents = contents server.documents := by
  refine contents_map fun d => ?_
  split <;> rfl

theorem contents_foldl_ask (docs : List Document) (t : Turn) :
    contents (docs.foldl (fun t doc => (t.forget doc.uri).ask doc.uri) t).server.documents =
      contents t.server.documents := by
  induction docs generalizing t with
  | nil => rfl
  | cons doc docs ih =>
    rw [List.foldl_cons, ih, documents_ask]
    exact contents_update_settings t.server doc.uri none

theorem contents_configured {u : Turn} (h : configured params t = .ok u) :
    contents u.server.documents = contents t.server.documents := by
  rw [configured] at h
  split at h
  · rw [← Except.ok.inj h]
    exact contents_foldl_ask _ t
  · cases hc : commonSettings params with
    | error e => simp [hc, Except.map] at h
    | ok settings =>
      rw [hc] at h
      rw [← Except.ok.inj h]

theorem contents_didChangeConfiguration (params : Json) (t : Turn) :
    contents (didChangeConfiguration params t).2.server.documents = contents t.server.documents := by
  rw [didChangeConfiguration_apply]
  cases hc : configured params t with
  | error e => rfl
  | ok u =>
    have hserver : (republish u t).2.server = u.server := each_publish_server _ u
    show contents (republish u t).2.server.documents = _
    rw [hserver, contents_configured hc]

theorem contents_settled (server : Server) (left : List (Nat × Json)) (uri result : Json) :
    contents (settled server left uri result).documents = contents server.documents := by
  unfold settled
  split
  · rfl
  · exact contents_update_settings server uri _

theorem heeds_didOpen (hname : ∀ uri text version, Notice.ofCall? "textDocument/didOpen" params =
      some (.opened uri text version) → ∃ name, uri = .str name) :
    Heeds t.server.documents (Notice.ofCall? "textDocument/didOpen" params)
      (didOpen params t).2.server.documents := by
  rw [didOpen_apply]
  cases hopen : openingOf params with
  | ok doc =>
    obtain ⟨-, hnone, hnotice⟩ := openingOf_eq_ok_iff.1 hopen
    have hserver : (takeIn doc t).2.server = ((t.put doc).ask doc.uri).server := publish_server doc _
    have hdoc : doc = { uri := doc.uri, text := doc.text, version := doc.version } := by rw [← hnone]
    show Heeds _ _ (takeIn doc t).2.server.documents
    rw [hserver, documents_ask, hnotice]
    show Heeds _ _ (Server.putDocument doc t.server.documents)
    rw [hdoc]
    exact .opened doc.uri doc.text doc.version
  | error e =>
    refine .other ?_ rfl
    cases hnotice : Notice.ofCall? "textDocument/didOpen" params with
    | none => exact Or.inl rfl
    | some notice =>
      exfalso
      obtain ⟨uri, text, version, rfl⟩ := exists_opened hnotice
      obtain ⟨name, rfl⟩ := hname _ _ _ hnotice
      have hok : openingOf params = .ok { uri := .str name, text, version } :=
        openingOf_eq_ok_iff.2 ⟨rfl, rfl, hnotice⟩
      rw [hopen] at hok
      cases hok

/-- The documents have texts for names. -/
def Named (docs : List Document) : Prop := ∀ d ∈ docs, ∃ name, d.uri = .str name

theorem Named.same_iff {docs : List Document} (hn : Named docs) {d : Document} (hd : d ∈ docs)
    (uri : Json) : d.uri.same uri = true ↔ d.uri = uri := by
  obtain ⟨name, hname⟩ := hn d hd
  rw [hname, Json.same_str_iff]

theorem exists_find? (hn : Named server.documents) {d : Document} (hd : d ∈ server.documents)
    {uri : Json} (hs : d.uri.same uri = true) : ∃ x, server.find? uri = .ok (some x) := by
  obtain ⟨name, hname⟩ := hn d hd
  have huri : uri = .str name := ((hn.same_iff hd uri).1 hs).symm.trans hname
  cases hfind : server.documents.find? fun d => d.uri.same uri with
  | none => exact absurd hs (List.find?_eq_none.1 hfind d hd)
  | some x => exact ⟨x, by rw [Server.find?, hfind, huri]; rfl⟩

theorem heeds_didChange (hn : Named t.server.documents) :
    Heeds t.server.documents (Notice.ofCall? "textDocument/didChange" params)
      (didChange params t).2.server.documents := by
  rw [didChange_apply]
  by_cases hchange : ∃ uri doc, revisionOf t.server params = .ok (.changed uri doc)
  · obtain ⟨uri, doc, hrev⟩ := hchange
    obtain ⟨-, -, -, hnotice⟩ := revisionOf_eq_changed_iff.1 hrev
    have hserver : (Revision.handle (.changed uri doc) t).2.server = revised t.server uri doc :=
      publish_server doc _
    rw [hrev, hnotice]
    show Heeds _ _ (Revision.handle (.changed uri doc) t).2.server.documents
    rw [hserver]
    exact .changed uri doc.text doc.version
  · have hsame : ((liftM (revisionOf t.server params) : Handler Revision) >>=
        Revision.handle) t |>.2.server.documents = t.server.documents := by
      cases hrev : revisionOf t.server params with
      | error e => rfl
      | ok r =>
        cases r with
        | changed uri doc => exact absurd ⟨uri, doc, hrev⟩ hchange
        | _ => rfl
    rw [hsame]
    cases hnotice : Notice.ofCall? "textDocument/didChange" params with
    | none => exact .other (Or.inl rfl) rfl
    | some notice =>
      obtain ⟨uri, text, version, rfl⟩ := exists_changed hnotice
      have hnone : ∀ d ∈ t.server.documents, ¬ d.uri.same uri = true := by
        intro d hd hs
        obtain ⟨x, hx⟩ := exists_find? hn hd hs
        exact hchange ⟨uri, { x with text, version }, revisionOf_eq_changed_iff.2 ⟨x, hx, rfl, hnotice⟩⟩
      have hmap : (t.server.documents.map fun d =>
          if d.uri.same uri then { d with text, version } else d) = t.server.documents :=
        (List.map_congr_left fun d hd => if_neg (hnone d hd)).trans (List.map_id _)
      have hheeds : Heeds t.server.documents _ _ := .changed uri text version
      rwa [hmap] at hheeds

theorem heeds_didClose (hn : Named t.server.documents) :
    Heeds t.server.documents (Notice.ofCall? "textDocument/didClose" params)
      (didClose params t).2.server.documents := by
  rw [didClose_apply]
  cases hclose : closingOf t.server params with
  | ok uri =>
    rw [closed_iff.2 (uriOf_of_closingOf hclose)]
    exact .closed uri
  | error e =>
    cases hnotice : Notice.ofCall? "textDocument/didClose" params with
    | none => exact .other (Or.inl rfl) rfl
    | some notice =>
      obtain ⟨uri, rfl⟩ := exists_closed hnotice
      have hnone : ∀ d ∈ t.server.documents, (!d.uri.same uri) = true := by
        intro d hd
        rw [Bool.not_eq_true', Bool.eq_false_iff]
        intro hs
        obtain ⟨name, hname⟩ := hn d hd
        have hscalar : uri.isScalar = true := by rw [← (hn.same_iff hd uri).1 hs, hname]; rfl
        rw [closingOf_of_isScalar (closed_iff.1 hnotice) hscalar] at hclose
        cases hclose
      have hheeds : Heeds t.server.documents _ _ := .closed uri
      rwa [List.filter_eq_self.2 hnone] at hheeds

theorem heeds_handle (files : FileReader) {method : String} (id : Json)
    (hn : Named t.server.documents)
    (hname : ∀ uri text version, Notice.ofCall? method params = some (.opened uri text version) →
      ∃ name, uri = .str name) :
    Heeds t.server.documents (Notice.ofCall? method params)
      (handle files method id params t).2.server.documents := by
  by_cases ho : method = "textDocument/didOpen"
  · subst ho
    exact heeds_didOpen hname
  by_cases hc : method = "textDocument/didChange"
  · subst hc
    exact heeds_didChange hn
  by_cases hd : method = "textDocument/didClose"
  · subst hd
    exact heeds_didClose hn
  have hnotice : Notice.ofCall? method params = none ∨
      Notice.ofCall? method params = some .started := by
    simp only [Notice.ofCall?, Notice.ofDocument?, if_neg ho, if_neg hc, if_neg hd]
    split
    · exact Or.inr rfl
    · exact Or.inl (by simp)
  refine .other hnotice ?_
  by_cases hg : method = "workspace/didChangeConfiguration"
  · subst hg
    exact contents_didChangeConfiguration params t
  · exact congrArg contents (silent_handle files id params ho hc hd hg t).documents

theorem server_turn_of_method {fields : List (Text × Json)} {method : String} (files : FileReader)
    (hi : server.initialized = true) (hm : lookup "method" fields = some (.str method)) :
    (turn files server (.message fields)).server =
      (handle files method (messageId fields) (messageParams fields) { server }).2.server := by
  rw [turn_of_method files hi hm]
  generalize handle files method (messageId fields) (messageParams fields) { server } = r
  obtain ⟨e | a, u⟩ := r
  · by_cases he : isInvalidParams e = true <;> simp only [he, if_true, Bool.false_eq_true, if_false]
  · rfl

theorem contents_turn_of_answer (files : FileReader) {frame : Frame} {id result : Json}
    (hs : server.Consistent) (hf : frame.answer? = some (id, result)) :
    contents (turn files server frame).server.documents = contents server.documents := by
  cases outcome_turn files hs frame with
  | acts hnone =>
    rw [hf] at hnone
    cases hnone
  | ignored _ _ _ _ hserver => rw [hserver]
  | settled _ _ _ _ _ _ _ _ _ hserver => rw [hserver, contents_settled]

theorem call?_message {fields : List (Text × Json)} {method : String}
    (hm : lookup "method" fields = some (.str method)) :
    (Frame.message fields).call? = some (method, messageParams fields) := by
  have hname : (Json.str method).string? = some method := string?_eq_some_iff.2 rfl
  rw [Frame.call?, hm, Option.bind_some, hname, Option.map_some]

theorem message_cases (fields : List (Text × Json)) :
    (∃ answer, (Frame.message fields).answer? = some answer ∧ (Frame.message fields).call? = none) ∨
      (∃ method : String, lookup "method" fields = some (.str method)) ∨
      ∃ name, lookup "method" fields = some name ∧ name ≠ .null ∧
        (∀ method : String, name ≠ .str method) ∧ (Frame.message fields).call? = none := by
  cases hm : lookup "method" fields with
  | none => exact Or.inl ⟨_, by rw [Frame.answer?, hm]; rfl, by rw [Frame.call?, hm]; rfl⟩
  | some name =>
    by_cases hnull : name = .null
    · subst hnull
      exact Or.inl ⟨_, by rw [Frame.answer?, hm]; rfl, by rw [Frame.call?, hm]; rfl⟩
    · by_cases hstr : ∃ method : String, name = .str method
      · obtain ⟨method, rfl⟩ := hstr
        exact Or.inr (Or.inl ⟨method, rfl⟩)
      · have hno : ∀ method : String, name ≠ .str method := fun method h => hstr ⟨method, h⟩
        have hnone : name.string? = none :=
          Option.eq_none_iff_forall_ne_some.2 fun method h => hno method (string?_eq_some_iff.1 h)
        exact Or.inr (Or.inr ⟨name, rfl, hnull, hno, by rw [Frame.call?, hm, Option.bind_some, hnone]; rfl⟩)

theorem exists_of_call? {frame : Frame} {method : String} {params : Json}
    (h : frame.call? = some (method, params)) :
    ∃ fields, frame = .message fields ∧ Json.lookup "method" fields = some (.str method) ∧
      params = messageParams fields := by
  cases frame with
  | message fields =>
    rcases message_cases fields with ⟨_, _, hno⟩ | ⟨name, hm⟩ | ⟨_, _, _, _, hno⟩
    · rw [hno] at h
      cases h
    · obtain ⟨rfl, rfl⟩ := Prod.mk.inj (Option.some.inj ((call?_message hm).symm.trans h))
      exact ⟨fields, rfl, hm, rfl⟩
    · rw [hno] at h
      cases h
  | _ => cases h

theorem ofCall?_eq_started_iff {method : String} {params : Json} :
    Notice.ofCall? method params = some .started ↔ method = "initialize" := by
  constructor
  · intro h
    by_contra hm
    rw [Notice.ofCall?, if_neg hm] at h
    obtain ⟨item, -, h⟩ := Option.bind_eq_some_iff.1 h
    obtain ⟨uri, -, h⟩ := Option.bind_eq_some_iff.1 h
    unfold Notice.ofDocument? at h
    split at h
    · simp at h
    · split at h
      · simp at h
      · split at h <;> simp at h
  · rintro rfl
    exact if_pos rfl

/-- Before the start no document is opened, and only the message that starts the session starts it. -/
theorem early_turn (files : FileReader) (hs : server.Consistent) (hi : server.initialized = false)
    (hf : (turn files server frame).fault = none) :
    (turn files server frame).server.documents = [] ∧
      ((turn files server frame).server.initialized = true ↔ frame.notice? = some .started) := by
  have hdocs := hs.started hi
  cases frame with
  | message fields =>
    rcases message_cases fields with ⟨answer, hanswer, hcall⟩ | ⟨method, hm⟩ |
      ⟨name, hm, hne, hstr, hcall⟩
    · rw [Frame.notice?_of_call? hcall]
      cases outcome_turn files hs (.message fields) with
      | acts hno =>
        rw [hanswer] at hno
        cases hno
      | ignored _ _ _ _ hserver => simp [hserver, hdocs, hi]
      | settled _ result before after n uri _ _ _ hserver =>
        refine ⟨?_, ?_⟩
        · have hc := contents_settled server (before ++ after) uri result
          rw [hdocs] at hc
          rw [hserver]
          exact List.map_eq_nil_iff.1 hc
        · simp [hserver, initialized_settled, hi]
    · have hnotice : (Frame.message fields).notice? =
          Notice.ofCall? method (messageParams fields) := by
        rw [Frame.notice?, call?_message hm, Option.bind_some]
      rw [hnotice, ofCall?_eq_started_iff]
      by_cases hname : method = "initialize"
      · subst hname
        obtain ⟨abilities, -, hserver⟩ := server_of_start hi hm hf
        rw [hserver]
        exact ⟨hdocs, iff_of_true rfl rfl⟩
      · have hother : Json.str method ≠ .str "initialize" := fun h =>
          hname (Text.ofString_inj.1 (Json.str.inj h))
        rcases server_of_early files hi hm (by simp) hother with hserver | ⟨-, hserver⟩
        · simp [hserver, hdocs, hi, hname]
        · simp [hserver, hdocs, hi, hname]
    · rw [Frame.notice?_of_call? hcall]
      rcases server_of_early files hi hm hne (hstr _) with hserver | ⟨hname, -⟩
      · simp [hserver, hdocs, hi]
      · exact absurd hname (hstr _)
  | ended | malformed | tooLarge | tooDeep =>
    exact ⟨hdocs, iff_of_false (ne_true_of_eq_false hi) (Option.some_ne_none _).symm⟩

theorem heeds_turn (files : FileReader) {frame : Frame} (hs : server.Consistent)
    (hi : server.initialized = true) (hn : Named server.documents)
    (hname : ∀ uri text version, frame.notice? = some (.opened uri text version) →
      ∃ name, uri = .str name) :
    Heeds server.documents frame.notice? (turn files server frame).server.documents := by
  cases frame with
  | message fields =>
    rcases message_cases fields with ⟨answer, hf, hcall⟩ | ⟨method, hm⟩ | ⟨name, hm, hne, hstr, hcall⟩
    · exact .other (Or.inl (Frame.notice?_of_call? hcall)) (contents_turn_of_answer files hs hf)
    · have hnotice : (Frame.message fields).notice? =
          Notice.ofCall? method (messageParams fields) := by
        rw [Frame.notice?, call?_message hm, Option.bind_some]
      rw [hnotice] at hname ⊢
      rw [server_turn_of_method files hi hm]
      exact heeds_handle (t := { server }) files _ hn hname
    · refine .other (Or.inl (Frame.notice?_of_call? hcall)) ?_
      rw [turn_of_nameless files hi hm hne hstr, Replies.server_eq (replies_unknown _ _)]
  | _ => exact .other (Or.inl rfl) rfl

end Session

end LittleMan
