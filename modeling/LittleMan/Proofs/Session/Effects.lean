import LittleMan.Proofs.Session.Announcements
import LittleMan.Proofs.Session.Notices

/-! What a turn comes to, for each kind of message, if the client is not asked for settings. Either nothing
is published and the documents stay as they are, or one document is told of, or all of them are. -/

namespace LittleMan

open Handler

/-- The messages about one document. -/
def documentMethods : List String :=
  ["textDocument/didOpen", "textDocument/didChange", "textDocument/didClose"]

/-- The methods of messages that a started server reacts to by more than a reply. -/
def heardMethods : List String := "workspace/didChangeConfiguration" :: documentMethods

namespace Session

variable {server server' : Server} {t : Turn} {doc : Document} {docs : List Document}
  {fields : List (Text × Json)} {files : FileReader} {method : String} {e : Fault}

/-- The turn publishes nothing and leaves what is published as it is. -/
structure Idle (server : Server) (t : Turn) : Prop where
  server : ∃ shutdown, t.server = { server with shutdown }
  published : publications t.out = []
  fault : t.fault = none

/-- The turn puts other documents in the place of the open ones and publishes one message, which names a
document. -/
structure Shows (server : Server) (t : Turn) (name : Json) (docs : List Document) (message : Json) :
    Prop where
  server : t.server = { server with documents := docs }
  out : t.out = [message]
  fault : t.fault = none
  named : (publication? message).map (·.1) = some name

theorem turn_of_handled (hi : server.initialized = true)
    (hm : Json.lookup "method" fields = some (.str method))
    (h : handle files method (messageId fields) (messageParams fields) { server } = (.ok (), t)) :
    turn files server (.message fields) = t := by
  rw [turn_of_method files hi hm, h]

theorem idle_of_refused (hi : server.initialized = true)
    (hm : Json.lookup "method" fields = some (.str method))
    (h : handle files method (messageId fields) (messageParams fields) { server } =
      (.error e, { server })) (he : isInvalidParams e = true) :
    Idle server (turn files server (.message fields)) := by
  rw [turn_of_method files hi hm, h]
  simp only [he, if_true]
  refine ⟨⟨server.shutdown, rfl⟩, ?_, rfl⟩
  split
  · rfl
  · rfl

theorem turn_of_opening (files : FileReader) (hi : server.initialized = true)
    (ha : server.asksSettings = false)
    (hm : Json.lookup "method" fields = some (.str "textDocument/didOpen"))
    (hopen : openingOf (messageParams fields) = .ok doc) (hdoc : doc.IsSendable server.settings) :
    Shows server (turn files server (.message fields)) doc.uri
      (Server.putDocument doc server.documents) (told server.settings doc) := by
  have hask : (({ server } : Turn).put doc).ask doc.uri = ({ server } : Turn).put doc :=
    if_neg (by simp [Turn.put, ha])
  have hrun : handle files "textDocument/didOpen" (messageId fields) (messageParams fields)
      { server } = publish doc (({ server } : Turn).put doc) := by
    show didOpen _ _ = _
    rw [didOpen_apply, hopen]
    show takeIn doc _ = _
    rw [takeIn, hask]
  rw [publish_of_isSendable hdoc] at hrun
  rw [turn_of_handled hi hm hrun]
  exact ⟨rfl, rfl, rfl, rfl⟩

theorem documents_of_opening (files : FileReader) (hi : server.initialized = true)
    (hm : Json.lookup "method" fields = some (.str "textDocument/didOpen"))
    (hopen : openingOf (messageParams fields) = .ok doc) :
    (turn files server (.message fields)).server.documents =
        Server.putDocument doc server.documents ∧
      (turn files server (.message fields)).server.settings = server.settings := by
  have hserver : (turn files server (.message fields)).server =
      ((({ server } : Turn).put doc).ask doc.uri).server := by
    rw [server_turn_of_method files hi hm]
    show (didOpen (messageParams fields) { server }).2.server = _
    rw [didOpen_apply, hopen]
    exact publish_server doc _
  rw [hserver, documents_ask, settings_ask]
  exact ⟨rfl, rfl⟩

theorem turn_of_revision (files : FileReader) {name : Json} (hi : server.initialized = true)
    (hm : Json.lookup "method" fields = some (.str "textDocument/didChange"))
    (hrev : revisionOf server (messageParams fields) = .ok (.changed name doc))
    (hdoc : doc.IsSendable server.settings) :
    Shows server (turn files server (.message fields)) doc.uri
      (revised server name doc).documents (told server.settings doc) := by
  have hrun : handle files "textDocument/didChange" (messageId fields) (messageParams fields)
      { server } = publish doc { server := revised server name doc } := by
    show didChange _ _ = _
    rw [didChange_apply, hrev]
    rfl
  rw [publish_of_isSendable hdoc] at hrun
  rw [turn_of_handled hi hm hrun]
  exact ⟨rfl, rfl, rfl, rfl⟩

theorem server_of_revision (files : FileReader) {name : Json} (hi : server.initialized = true)
    (hm : Json.lookup "method" fields = some (.str "textDocument/didChange"))
    (hrev : revisionOf server (messageParams fields) = .ok (.changed name doc)) :
    (turn files server (.message fields)).server = revised server name doc := by
  rw [server_turn_of_method files hi hm]
  show (didChange (messageParams fields) { server }).2.server = _
  rw [didChange_apply, hrev]
  exact publish_server doc _

theorem mem_revised {name : Json} {d : Document} (hd : server.find? name = .ok (some d))
    (hdoc : doc = { d with text := doc.text, version := doc.version }) :
    doc ∈ (revised server name doc).documents :=
  List.mem_map.2 ⟨d, mem_of_find? hd, (if_pos (same_of_find? hd)).trans hdoc.symm⟩

theorem idle_of_unrevised (files : FileReader) (hi : server.initialized = true)
    (hm : Json.lookup "method" fields = some (.str "textDocument/didChange"))
    (hno : ∀ name doc, revisionOf server (messageParams fields) ≠ .ok (.changed name doc)) :
    Idle server (turn files server (.message fields)) := by
  have hrun := didChange_apply (messageParams fields) { server }
  cases hrev : revisionOf server (messageParams fields) with
  | error e =>
    rw [hrev] at hrun
    exact idle_of_refused hi hm hrun (mild_revisionOf _ _ e hrev)
  | ok r =>
    rw [hrev] at hrun
    cases r with
    | changed name doc => exact absurd hrev (hno name doc)
    | unopened name =>
      rw [turn_of_handled hi hm hrun]
      exact ⟨⟨server.shutdown, rfl⟩, rfl, rfl⟩
    | unchanged =>
      rw [turn_of_handled hi hm hrun]
      exact ⟨⟨server.shutdown, rfl⟩, rfl, rfl⟩

/-- The message that clears what is shown of a document. -/
def clearing (name : Json) : Json :=
  .obj [("jsonrpc", .str "2.0"), ("method", .str "textDocument/publishDiagnostics"),
    ("params", .obj [("uri", name), ("diagnostics", .arr [])])]

theorem turn_of_closing (files : FileReader) {name : Json} (hi : server.initialized = true)
    (hm : Json.lookup "method" fields = some (.str "textDocument/didClose"))
    (hclose : closingOf server (messageParams fields) = .ok name) :
    Shows server (turn files server (.message fields)) name (server.close name).documents
      (clearing name) := by
  have hrun := didClose_apply (messageParams fields) { server }
  rw [hclose] at hrun
  rw [turn_of_handled hi hm hrun]
  exact ⟨rfl, rfl, rfl, rfl⟩

theorem uriOf_of_openingOf {params : Json} (h : openingOf params = .ok doc) :
    uriOf params = .ok doc.uri := by
  obtain ⟨item, hi, h⟩ := bind_eq_ok_iff.1 h
  obtain ⟨name, hname, h⟩ := bind_eq_ok_iff.1 h
  obtain ⟨text, -, h⟩ := bind_eq_ok_iff.1 h
  obtain ⟨version, -, h⟩ := bind_eq_ok_iff.1 h
  obtain ⟨-, -, h⟩ := bind_eq_ok_iff.1 h
  refine bind_eq_ok_iff.2 ⟨item, hi, ?_⟩
  rw [← Except.ok.inj h]
  exact hname

theorem uriOf_of_revisionOf {params name : Json}
    (h : revisionOf server params = .ok (.changed name doc)) : uriOf params = .ok name := by
  obtain ⟨-, -, -, hnotice⟩ := revisionOf_eq_changed_iff.1 h
  obtain ⟨item, hi, hname, -, -⟩ := changed_iff.1 hnotice
  exact bind_eq_ok_iff.2 ⟨_, item?_eq_some_iff.1 hi, field_eq_ok_iff.2 hname⟩

theorem revisionOf_congr {params name : Json} (hu : uriOf params = .ok name)
    (hf : server'.find? name = server.find? name) :
    revisionOf server' params = revisionOf server params := by
  obtain ⟨item, hi, hname⟩ := bind_eq_ok_iff.1 hu
  simp only [revisionOf, hi, hname, bind, Except.bind, hf]

theorem configured_of_commonSettings {settings : Settings} {params : Json}
    (ha : server.asksSettings = false) (hset : commonSettings params = .ok settings) :
    configured params { server } = .ok { server := { server with settings } } := by
  rw [configured, if_neg (by simp [ha]), hset]
  rfl

theorem server_of_configuration (files : FileReader) {settings : Settings}
    (hi : server.initialized = true) (ha : server.asksSettings = false)
    (hm : Json.lookup "method" fields = some (.str "workspace/didChangeConfiguration"))
    (hset : commonSettings (messageParams fields) = .ok settings) :
    (turn files server (.message fields)).server = { server with settings } := by
  rw [server_turn_of_method files hi hm]
  show (didChangeConfiguration (messageParams fields) { server }).2.server = _
  rw [didChangeConfiguration_apply, configured_of_commonSettings ha hset]
  exact each_publish_server _ _

theorem turn_of_configuration (files : FileReader) {settings : Settings}
    (hi : server.initialized = true) (ha : server.asksSettings = false)
    (hm : Json.lookup "method" fields = some (.str "workspace/didChangeConfiguration"))
    (hset : commonSettings (messageParams fields) = .ok settings)
    (hd : ∀ d ∈ server.documents, d.IsSendable settings) :
    (turn files server (.message fields)).out = server.documents.map (told settings) ∧
      (turn files server (.message fields)).fault = none := by
  have hrun : handle files "workspace/didChangeConfiguration" (messageId fields)
      (messageParams fields) { server } =
        each publish server.documents { server := { server with settings } } := by
    show didChangeConfiguration _ _ = _
    rw [didChangeConfiguration_apply, configured_of_commonSettings ha hset]
    rfl
  rw [each_publish_of_isSendable hd] at hrun
  rw [turn_of_handled hi hm hrun]
  exact ⟨rfl, rfl⟩

theorem exists_commonSettings (hi : server.initialized = true) (ha : server.asksSettings = false)
    (hm : Json.lookup "method" fields = some (.str "workspace/didChangeConfiguration"))
    (hf : (turn files server (.message fields)).fault = none) :
    ∃ settings, commonSettings (messageParams fields) = .ok settings := by
  cases hset : commonSettings (messageParams fields) with
  | ok settings => exact ⟨settings, rfl⟩
  | error e =>
    have hconf : configured (messageParams fields) { server } = .error e := by
      rw [configured, if_neg (by simp [ha]), hset]
      rfl
    have hrun := didChangeConfiguration_apply (messageParams fields) { server }
    obtain ⟨-, rfl⟩ := commonSettings_eq_error_iff.1 hset
    rw [hconf] at hrun
    have hhandle : handle files "workspace/didChangeConfiguration" (messageId fields)
        (messageParams fields) { server } = (.error .notAnObject, { server }) := hrun
    rw [turn_of_method files hi hm, hhandle] at hf
    cases hf

theorem idle_of_early (files : FileReader) (hi : server.initialized = false)
    (hm : Json.lookup "method" fields = some name) (hne : name ≠ .null)
    (hstart : name ≠ .str "initialize") (hexit : name ≠ .str "exit") :
    Idle server (turn files server (.message fields)) := by
  rw [turn_of_early files hi hm hne, await, if_neg hstart, if_neg hexit]
  by_cases hid : messageId fields = .null
  · rw [if_neg (not_not.2 hid)]
    exact ⟨⟨server.shutdown, rfl⟩, rfl, rfl⟩
  · rw [if_pos hid]
    exact ⟨⟨server.shutdown, rfl⟩, rfl, rfl⟩

theorem server_of_unheard (files : FileReader) (id params : Json) (hno : method ∉ heardMethods)
    (hexit : method ≠ "exit") {t : Turn} (ha : t.server.asksSettings = false) :
    ∃ shutdown, (handle files method id params t).2.server = { t.server with shutdown } := by
  have hreplies : ∀ {m : Handler Unit}, Replies m →
      ∃ shutdown, (m t).2.server = { t.server with shutdown } :=
    fun h => ⟨t.server.shutdown, Replies.server_eq h t⟩
  simp only [heardMethods, documentMethods, List.mem_cons, List.not_mem_nil, or_false, not_or] at hno
  unfold handle
  split
  · exact hreplies (by simp)
  · have hrun : register t = (.ok (), t) := by
      simp only [register, bind_apply, Handler.server, ha]
      rfl
    exact ⟨t.server.shutdown, by rw [hrun]⟩
  · exact ⟨true, rfl⟩
  · exact absurd rfl hexit
  · exact absurd rfl hno.2.1
  · exact absurd rfl hno.2.2.1
  · exact absurd rfl hno.2.2.2
  · exact ⟨t.server.shutdown, rfl⟩
  · exact absurd rfl hno.1
  · exact ⟨t.server.shutdown, rfl⟩
  · exact hreplies (.bind (.lift _) fun _ => .bind (.lift _) fun uri => replies_diagnostic files id uri)
  · exact hreplies (.respond _ _)
  · exact hreplies (replies_completionResolve id params)
  · exact hreplies (replies_codeAction id params)
  · exact hreplies (.bind (.lift _) fun _ => .bind (.lift _) fun uri =>
      .bind (.lift _) fun position => replies_hover id uri position)
  · exact hreplies (replies_unknown id _)

theorem idle_of_unheard (files : FileReader) (hs : server.Consistent)
    (hi : server.initialized = true) (ha : server.asksSettings = false)
    (hm : Json.lookup "method" fields = some (.str method)) (hno : method ∉ heardMethods)
    (hexit : method ≠ "exit") (hf : (turn files server (.message fields)).fault = none) :
    Idle server (turn files server (.message fields)) := by
  have hserver := server_of_unheard files (messageId fields) (messageParams fields) hno hexit
    (t := { server }) ha
  have hfault := handle_fault_eq files method (messageId fields) (messageParams fields) hs hi
  simp only [heardMethods, documentMethods, List.mem_cons, List.not_mem_nil, or_false, not_or] at hno
  have hquiet := silent_handle files (messageId fields) (messageParams fields) hno.2.1 hno.2.2.1
    hno.2.2.2 hno.1 { server }
  have hpublished := hquiet.publications
  rw [turn_of_method files hi hm] at hf ⊢
  generalize handle files method (messageId fields) (messageParams fields) { server } = r at *
  obtain ⟨e | _, u⟩ := r
  · cases he : isInvalidParams e with
    | false => simp [he] at hf
    | true =>
      simp only [he, if_true]
      refine ⟨hserver, ?_, hfault⟩
      rw [publications_append, hpublished]
      split
      · rfl
      · rfl
  · exact ⟨hserver, hpublished, hfault⟩

theorem idle_of_uncalled (files : FileReader) {frame : Frame} (hp : server.pending = [])
    (hcall : frame.call? = none) (hf : (turn files server frame).fault = none) :
    Idle server (turn files server frame) := by
  cases frame with
  | tooLarge | tooDeep => cases hf
  | ended | malformed => exact ⟨⟨server.shutdown, rfl⟩, rfl, rfl⟩
  | message fields =>
    rcases message_cases fields with ⟨answer, hanswer, -⟩ | ⟨method, hm⟩ | ⟨name, hm, hne, hstr, -⟩
    · have hno : ∀ p ∈ server.pending, Json.same (.int p.1) answer.1 = false := by simp [hp]
      obtain ⟨hserver, hout, -⟩ := turn_of_unawaited files hanswer hno
      exact ⟨⟨server.shutdown, hserver⟩, by rw [hout]; rfl, hf⟩
    · rw [call?_message hm] at hcall
      cases hcall
    · cases hi : server.initialized with
      | true =>
        have hquiet := quiet_of_says (replies_unknown (messageId fields) name { server })
        have hserver := Replies.server_eq (replies_unknown (messageId fields) name) { server }
        have hturn := turn_of_nameless files hi hm hne hstr
        rw [← hturn] at hquiet hserver
        exact ⟨⟨server.shutdown, hserver⟩, hquiet.publications, hf⟩
      | false => exact idle_of_early files hi hm hne (hstr _) (hstr _)

theorem turn_of_start (files : FileReader) (hi : server.initialized = false)
    (hm : Json.lookup "method" fields = some (.str "initialize")) {abilities : Bool × Bool}
    (ha : abilitiesOf (messageParams fields) = .ok abilities) :
    (turn files server (.message fields)).server = begun server abilities ∧
      publications (turn files server (.message fields)).out = [] ∧
      (turn files server (.message fields)).fault = none := by
  have hquiet := silent_start (messageId fields) (messageParams fields) { server }
  have hfault := Acts.fault_eq (performs_start (t := { server }) (messageId fields)
    (messageParams fields) hi)
  rw [turn_of_early files hi hm (by simp), await, if_pos rfl]
  rcases start_cases (messageId fields) (messageParams fields) { server } with
    ⟨e, he, -⟩ | ⟨abilities', ha', hok, hserver⟩
  · rw [ha] at he
    cases he
  · obtain rfl := Except.ok.inj (ha.symm.trans ha')
    generalize start (messageId fields) (messageParams fields) { server } = r at *
    obtain ⟨_, u⟩ := r
    cases hok
    exact ⟨hserver, hquiet.publications, hfault⟩

end Session

end LittleMan
