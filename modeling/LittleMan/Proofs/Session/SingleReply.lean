import LittleMan.Proofs.Session.Failures
import LittleMan.Proofs.Session.Refusals
import LittleMan.Proofs.Session.Start

/-! Each request is answered once. Whatever a request asks for and however it is formed, one message is
written that carries its number, and what the server knows stays as it is. -/

namespace LittleMan

open Handler

/-- The message answers the request of that number, with a result or with an error but not with both. -/
def IsAnswer (id message : Json) : Prop :=
  ∃ fields, message = .obj fields ∧ Json.lookup "id" fields = some id ∧
    (Json.lookup "result" fields).isSome = !(Json.lookup "error" fields).isSome

/-- The handler answers the request once if it goes well, and writes nothing if it fails. -/
structure AnswersOnce (id : Json) (m : Handler Unit) : Prop where
  ok : ∀ t, (m t).1 = .ok () → ∃ reply lines, IsAnswer id reply ∧
    (m t).2 = { t with out := t.out ++ [reply], log := t.log ++ lines }
  error : ∀ t e, (m t).1 = .error e → ∃ lines, (m t).2 = { t with log := t.log ++ lines }

namespace AnswersOnce

variable {id : Json} {α : Type}

theorem respond (result : Json) : AnswersOnce id (Handler.respond id result) where
  ok t _ := ⟨_, [], ⟨_, rfl, rfl, rfl⟩, by rw [List.append_nil]; rfl⟩
  error t e h := by cases h

theorem refuse (code : Int) (message : Text) : AnswersOnce id (Handler.refuse id code message) where
  ok t _ := ⟨_, [], ⟨_, rfl, rfl, rfl⟩, by rw [List.append_nil]; rfl⟩
  error t e h := by cases h

theorem fail (e : Fault) : AnswersOnce id (Handler.fail e) where
  ok t h := by cases h
  error t e' _ := ⟨[], by rw [List.append_nil]; rfl⟩

theorem server {f : Server → Handler Unit} (h : ∀ s, AnswersOnce id (f s)) :
    AnswersOnce id (Handler.server >>= f) where
  ok t ht := (h t.server).ok t ht
  error t e ht := (h t.server).error t e ht

theorem lift {x : Except Fault α} {f : α → Handler Unit} (h : ∀ a, AnswersOnce id (f a)) :
    AnswersOnce id ((liftM x : Handler α) >>= f) := by
  cases x with
  | error e => exact fail e
  | ok a => exact h a

theorem log {line : Text} {m : Handler Unit} (h : AnswersOnce id m) :
    AnswersOnce id (Handler.log line >>= fun _ => m) where
  ok t ht := by
    obtain ⟨reply, lines, hreply, hrun⟩ := h.ok _ ht
    refine ⟨reply, line :: lines, hreply, hrun.trans ?_⟩
    simp only [List.append_assoc, List.singleton_append]
  error t e ht := by
    obtain ⟨lines, hrun⟩ := h.error _ e ht
    refine ⟨line :: lines, hrun.trans ?_⟩
    simp only [List.append_assoc, List.singleton_append]

end AnswersOnce

namespace Session

variable {files : FileReader} {id params : Json}

theorem answersOnce_diagnostic (uri : Json) : AnswersOnce id (diagnostic files id uri) := by
  have hanswer : ∀ doc : Document, AnswersOnce id (do
      let items ← doc.items (← Handler.server).settings
      respond id (.obj [("kind", .str "full"), ("items", .arr items)]) : Handler Unit) :=
    fun doc => .server fun s => .lift fun items => .respond _
  refine .server fun s => .lift fun found => ?_
  cases found with
  | some doc => exact hanswer doc
  | none =>
    cases uri with
    | str name =>
      simp only
      split
      · exact .refuse _ _
      · exact .refuse _ _
      · split
        · exact hanswer _
        · exact .refuse _ _
        · exact .fail _
    | _ => exact .fail _

theorem answersOnce_completionResolve (item : Json) : AnswersOnce id (completionResolve id item) := by
  unfold completionResolve
  split
  · split
    · exact .respond _
    · exact .respond _
  · exact .fail _

theorem answersOnce_codeAction : AnswersOnce id (codeAction id params) := by
  refine .lift fun item => .lift fun uri => .server fun s => .lift fun found => ?_
  cases found with
  | none => exact .respond _
  | some doc => exact .lift fun s => .lift fun actions => .respond _

theorem answersOnce_hover (uri position : Json) : AnswersOnce id (hover id uri position) := by
  refine .server fun s => .lift fun found => ?_
  cases found with
  | none => exact .respond _
  | some doc =>
    refine .lift fun s => .lift fun shown => ?_
    cases shown with
    | none => exact .respond _
    | some p => exact .lift fun line => .lift fun range => .respond _

theorem answersOnce_unknown (method : Json) (h : id ≠ .null) :
    AnswersOnce id (handle.unknown id method) := by
  have hrefuse : handle.unknown id method =
      (Handler.log ("Method " ++ method.display ++ " not supported") >>= fun _ =>
        Handler.refuse id (-32601) ("Method " ++ method.display ++ " not supported")) := by
    rw [handle.unknown, if_pos h]
  rw [hrefuse]
  exact .log (.refuse _ _)

/-- The methods of requests. -/
def requests : List String :=
  ["initialize", "shutdown", "textDocument/diagnostic", "textDocument/completion",
    "completionItem/resolve", "textDocument/codeAction", "textDocument/hover"]

/-- The methods of messages that ask for no answer. -/
def notifications : List String :=
  ["initialized", "exit", "textDocument/didOpen", "textDocument/didChange", "textDocument/didClose",
    "textDocument/didSave", "workspace/didChangeConfiguration", "workspace/didChangeWatchedFiles"]

/-- What a message asks for is answered: it is one of the requests, or nothing that the server knows. -/
def IsRequest (method : Json) : Prop :=
  (∃ name ∈ requests, method = .str name) ∨
    method ≠ .null ∧ ∀ name ∈ requests ++ notifications, method ≠ .str name

theorem answersOnce_handle {method : String} (hid : id ≠ .null) (hs : method ≠ "shutdown")
    (hn : method ∉ notifications) : AnswersOnce id (handle files method id params) := by
  unfold handle
  split
  · exact .log (.refuse _ _)
  · exact absurd (by decide) hn
  · exact absurd rfl hs
  · exact absurd (by decide) hn
  · exact absurd (by decide) hn
  · exact absurd (by decide) hn
  · exact absurd (by decide) hn
  · exact absurd (by decide) hn
  · exact absurd (by decide) hn
  · exact absurd (by decide) hn
  · exact .lift fun item => .lift fun uri => answersOnce_diagnostic uri
  · exact .respond _
  · exact answersOnce_completionResolve params
  · exact answersOnce_codeAction
  · exact .lift fun item => .lift fun uri => .lift fun position => answersOnce_hover uri position
  · exact answersOnce_unknown _ hid

variable {server : Server} {fields : List (Text × Json)} {method : Json}

theorem IsRequest.ne_null (h : IsRequest method) : method ≠ .null := by
  rcases h with ⟨name, -, rfl⟩ | ⟨hne, -⟩
  · simp
  · exact hne

theorem IsRequest.not_mem_notifications {name : String} (h : IsRequest (.str name)) :
    name ∉ notifications := by
  rcases h with ⟨name', hmem, heq⟩ | ⟨-, hno⟩
  · have hdisjoint : ∀ name ∈ requests, name ∉ notifications := by decide
    exact Text.ofString_inj.1 (Json.str.inj heq) ▸ hdisjoint name' hmem
  · exact fun hmem => hno name (List.mem_append_right _ hmem) rfl

/-- What a request comes to: one answer, and nothing else. -/
structure Replied (server : Server) (fields : List (Text × Json)) (t : Turn) : Prop where
  out : ∃ reply, IsAnswer (messageId fields) reply ∧ t.out = [reply]
  server : t.server = server

theorem isAnswer_paramsRefusal (id : Json) (method : String) :
    IsAnswer id (paramsRefusal id method) := ⟨_, rfl, rfl, rfl⟩

theorem replied_of_method {name : String} (hi : server.initialized = true)
    (hm : Json.lookup "method" fields = some (.str name)) (hid : messageId fields ≠ .null)
    (hf : (turn files server (.message fields)).fault = none)
    (h : AnswersOnce (messageId fields)
      (handle files name (messageId fields) (messageParams fields))) :
    Replied server fields (turn files server (.message fields)) := by
  rw [turn_of_method files hi hm] at hf ⊢
  have hok := h.ok { server }
  have herror := h.error { server }
  generalize handle files name (messageId fields) (messageParams fields) { server } = r at *
  obtain ⟨e | a, t⟩ := r
  · obtain ⟨lines, ht⟩ := herror e rfl
    simp only at ht hf ⊢
    by_cases he : isInvalidParams e = true
    · rw [if_pos he, if_neg hid, ht]
      exact ⟨⟨_, isAnswer_paramsRefusal _ _, rfl⟩, rfl⟩
    · rw [if_neg he] at hf
      cases hf
  · obtain ⟨reply, lines, hreply, ht⟩ := hok rfl
    simp only at ht ⊢
    rw [ht]
    exact ⟨⟨reply, hreply, rfl⟩, rfl⟩

theorem turn_of_shutdown (files : FileReader) (hi : server.initialized = true)
    (hm : Json.lookup "method" fields = some (.str "shutdown")) :
    turn files server (.message fields) =
      { server := { server with shutdown := true }
        out := [.obj [("jsonrpc", .str "2.0"), ("id", messageId fields), ("result", .null)]] } := by
  rw [turn_of_method files hi hm]
  rfl

theorem replied_of_nameless (hi : server.initialized = true)
    (hm : Json.lookup "method" fields = some method) (hne : method ≠ .null)
    (hstr : ∀ name : String, method ≠ .str name) (hid : messageId fields ≠ .null) :
    Replied server fields (turn files server (.message fields)) := by
  rw [turn_of_nameless files hi hm hne hstr]
  have hok : (handle.unknown (messageId fields) method { server }).1 = .ok () := by
    rw [handle.unknown, if_pos hid]
    rfl
  obtain ⟨reply, lines, hreply, ht⟩ := (answersOnce_unknown method hid).ok { server } hok
  rw [ht]
  exact ⟨⟨reply, hreply, rfl⟩, rfl⟩

/-- The refusal of what comes before the start. -/
def earlyRefusal (id : Json) : Json :=
  .obj [("jsonrpc", .str "2.0"), ("id", id),
    ("error", .obj [("code", .int (-32002)), ("message", .str "LSP not initialized")])]

theorem turn_of_early_request (files : FileReader) (hi : server.initialized = false)
    (hm : Json.lookup "method" fields = some method) (hne : method ≠ .null)
    (hstart : method ≠ .str "initialize") (hexit : method ≠ .str "exit")
    (hid : messageId fields ≠ .null) :
    turn files server (.message fields) =
      { server, out := [earlyRefusal (messageId fields)],
        log := ["Message before LSP was initialized"] } := by
  rw [turn_of_early files hi hm hne, await, if_neg hstart, if_neg hexit, if_pos hid]
  rfl

/-- A request to a started server is answered once, unless it ends the session, and leaves the server as it
is; only a shutdown is noted. Before the start it is refused, and nothing changes. -/
theorem replied_of_request (files : FileReader) (server : Server)
    (hm : Json.lookup "method" fields = some method) (hid : messageId fields ≠ .null) :
    (server.initialized = true → IsRequest method →
        (turn files server (.message fields)).fault = none →
      Replied (if method = .str "shutdown" then { server with shutdown := true } else server) fields
        (turn files server (.message fields))) ∧
      (server.initialized = false → method ≠ .null → method ≠ .str "initialize" →
          method ≠ .str "exit" →
        (turn files server (.message fields)).fault = none ∧
          (turn files server (.message fields)).out = [earlyRefusal (messageId fields)] ∧
          (turn files server (.message fields)).server = server) := by
  refine ⟨fun hi hrequest hf => ?_, fun hi hne hstart hexit => ?_⟩
  · by_cases hstr : ∃ name : String, method = .str name
    · obtain ⟨name, rfl⟩ := hstr
      by_cases hs : name = "shutdown"
      · subst hs
        rw [turn_of_shutdown files hi hm, if_pos rfl]
        exact ⟨⟨_, ⟨_, rfl, rfl, rfl⟩, rfl⟩, rfl⟩
      · rw [if_neg fun h => hs (Text.ofString_inj.1 (Json.str.inj h))]
        exact replied_of_method hi hm hid hf
          (answersOnce_handle hid hs hrequest.not_mem_notifications)
    · have hother : ∀ name : String, method ≠ .str name := fun name h => hstr ⟨name, h⟩
      rw [if_neg (hother _)]
      exact replied_of_nameless hi hm hrequest.ne_null hother hid
  · rw [turn_of_early_request files hi hm hne hstart hexit hid]
    exact ⟨rfl, rfl, rfl⟩

/-- A client asks what is under its pointer, in a document that it has not opened. -/
def hoverNowhere : List (Text × Json) :=
  [("jsonrpc", .str "2.0"), ("id", .int 2), ("method", .str "textDocument/hover"),
    ("params", .obj [("textDocument", .obj [("uri", .str "a")]),
      ("position", .obj [("line", .int 0), ("character", .int 0)])])]

theorem replied_of_hoverNowhere :
    Replied started hoverNowhere (turn noFiles started (.message hoverNowhere)) ∧
      (turn noFiles {} (.message hoverNowhere)).out = [earlyRefusal (.int 2)] := by
  have hrequest : IsRequest (.str "textDocument/hover") :=
    Or.inl ⟨_, by simp [requests], rfl⟩
  have hf : (turn noFiles started (.message hoverNowhere)).fault = none := by decide +kernel
  have hm : Json.lookup "method" hoverNowhere = some (.str "textDocument/hover") := rfl
  have hid : messageId hoverNowhere ≠ .null := by decide
  have hearly := (replied_of_request noFiles {} hm hid).2 rfl (by decide) (by decide) (by decide)
  exact ⟨(replied_of_request noFiles started hm hid).1 rfl hrequest hf, hearly.2.1⟩

end Session

end LittleMan
