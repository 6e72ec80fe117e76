import LittleMan.Proofs.Session.Reachable
import LittleMan.Proofs.Session.Stages

/-! What a refused message leaves behind. Its parameters are read before anything is changed, so most
refusals change nothing. A document whose text is no text is noticed only when it is published, and by then
the change is made. -/

namespace LittleMan

open Handler

namespace Session

/-- The message is refused for the form of its parameters. -/
structure Refuses (files : FileReader) (server : Server) (fields : List (Text × Json))
    (method : String) : Prop where
  started : server.initialized = true
  named : Json.lookup "method" fields = some (.str method)
  fault : ∃ e, isInvalidParams e = true ∧
    (handle files method (messageId fields) (messageParams fields) { server }).1 = .error e

/-- The server as a message leaves it that makes its change and then cannot publish a document. -/
inductive Remains (server : Server) (params : Json) (method : String) : Server → Prop
  | opened {doc : Document} (hm : method = "textDocument/didOpen") (h : openingOf params = .ok doc)
      (hr : ¬ doc.isReadable) :
      Remains server params method ((Turn.put { server } doc).ask doc.uri).server
  | changed {uri : Json} {doc : Document} (hm : method = "textDocument/didChange")
      (h : revisionOf server params = .ok (.changed uri doc)) (hr : ¬ doc.isReadable) :
      Remains server params method (revised server uri doc)
  | configured {t : Turn} {doc : Document} (hm : method = "workspace/didChangeConfiguration")
      (h : configured params { server } = .ok t) (hd : doc ∈ server.documents)
      (hr : ¬ doc.isReadable) :
      Remains server params method t.server

/-- A message leaves its change behind, or nothing. -/
def Leaves (server : Server) (params : Json) (method : String) (server' : Server) : Prop :=
  Remains server params method server' ∨
    (∀ s, ¬ Remains server params method s) ∧ server' = server

variable {server : Server} {params : Json} {method : String} {e : Fault}

theorem Replies.server_eq {α : Type} {m : Handler α} (h : Replies m) (t : Turn) :
    (m t).2.server = t.server := by
  obtain ⟨replies, lines, -, ht⟩ := h t
  rw [ht]

theorem not_remains (ho : method ≠ "textDocument/didOpen") (hc : method ≠ "textDocument/didChange")
    (hg : method ≠ "workspace/didChangeConfiguration") (s : Server) :
    ¬ Remains server params method s := by
  intro h
  cases h with
  | opened hm => exact ho hm
  | changed hm => exact hc hm
  | configured hm => exact hg hm

theorem leaves_didOpen (h : (didOpen params { server }).1 = .error e)
    (he : isInvalidParams e = true) :
    Leaves server params "textDocument/didOpen" (didOpen params { server }).2.server := by
  rw [didOpen_apply] at h ⊢
  cases hopen : openingOf params with
  | error e' =>
    refine Or.inr ⟨fun s hs => ?_, rfl⟩
    cases hs with
    | opened _ h => simp [hopen] at h
    | changed hm => exact absurd hm (by decide)
    | configured hm => exact absurd hm (by decide)
  | ok doc =>
    rw [hopen] at h
    have hitems := publish_error_iff.1 h
    refine Or.inl ?_
    have hserver : (takeIn doc { server }).2.server = ((Turn.put { server } doc).ask doc.uri).server :=
      publish_server doc _
    show Remains _ _ _ (takeIn doc { server }).2.server
    rw [hserver]
    exact .opened rfl hopen (Document.not_isReadable_of_items hitems he)

theorem leaves_didChange (h : (didChange params { server }).1 = .error e)
    (he : isInvalidParams e = true) :
    Leaves server params "textDocument/didChange" (didChange params { server }).2.server := by
  have hrun : didChange params { server } =
      ((liftM (revisionOf server params) : Handler Revision) >>= Revision.handle) { server } :=
    didChange_apply params _
  rw [hrun] at h ⊢
  cases hrev : revisionOf server params with
  | error e' =>
    refine Or.inr ⟨fun s hs => ?_, rfl⟩
    cases hs with
    | opened hm => exact absurd hm (by decide)
    | changed _ h => simp [hrev] at h
    | configured hm => exact absurd hm (by decide)
  | ok r =>
    rw [hrev] at h
    cases r with
    | unopened uri => cases h
    | unchanged => cases h
    | changed uri doc =>
      have hserver : (Revision.handle (.changed uri doc) { server }).2.server =
          revised server uri doc := publish_server doc _
      show Leaves _ _ _ (Revision.handle (.changed uri doc) { server }).2.server
      rw [hserver]
      exact Or.inl (.changed rfl hrev (Document.not_isReadable_of_items (publish_error_iff.1 h) he))

theorem didClose_server (h : (didClose params { server }).1 = .error e) :
    (didClose params { server }).2.server = server := by
  rw [didClose_apply] at h ⊢
  generalize closingOf _ params = x at h ⊢
  cases x with
  | error e' => rfl
  | ok uri => cases h

theorem exists_unreadable {docs docs' : List Document} (hs : SameTexts docs docs') {doc : Document}
    (hd : doc ∈ docs') (hr : ¬ doc.isReadable) : ∃ d ∈ docs, ¬ d.isReadable := by
  have hm := List.mem_map_of_mem (f := fun d : Document => (d.uri, d.text)) hd
  rw [hs] at hm
  obtain ⟨d, hd', he⟩ := List.mem_map.1 hm
  refine ⟨d, hd', ?_⟩
  rintro ⟨text, ht⟩
  refine hr ⟨text, ?_⟩
  rw [← ht, ← (Prod.mk.inj he).2]

theorem leaves_didChangeConfiguration (h : (didChangeConfiguration params { server }).1 = .error e)
    (he : isInvalidParams e = true) :
    Leaves server params "workspace/didChangeConfiguration"
      (didChangeConfiguration params { server }).2.server := by
  rw [didChangeConfiguration_apply] at h ⊢
  cases hc : configured params { server } with
  | error e' =>
    have hnone : e' = .notAnObject := (configured_eq_error_iff.1 hc).2.2
    obtain rfl : e' = e := by
      rw [hc] at h
      exact Except.error.inj h
    rw [hnone] at he
    cases he
  | ok u =>
    rw [hc] at h
    obtain ⟨before, doc, after, hdocs, -, hitems⟩ := each_publish_error_iff.1 h
    have hserver : (republish u { server }).2.server = u.server := each_publish_server _ u
    show Leaves _ _ _ (republish u { server }).2.server
    rw [hserver]
    have hdoc : doc ∈ u.server.documents := by simp [hdocs]
    obtain ⟨d, hd, hr⟩ := exists_unreadable (sameTexts_configured hc) hdoc
      (Document.not_isReadable_of_items hitems he)
    exact Or.inl (.configured rfl hc hd hr)

theorem leaves_handle (files : FileReader) {id : Json}
    (h : (handle files method id params { server }).1 = .error e) (he : isInvalidParams e = true) :
    Leaves server params method (handle files method id params { server }).2.server := by
  have hreplies : ∀ {name : String} {m : Handler Unit}, Replies m →
      name ≠ "textDocument/didOpen" → name ≠ "textDocument/didChange" →
      name ≠ "workspace/didChangeConfiguration" →
      Leaves server params name (m { server }).2.server :=
    fun hm ho hc hg => Or.inr ⟨not_remains ho hc hg, Replies.server_eq hm _⟩
  unfold handle at h ⊢
  split at h
  · exact hreplies (by simp) (by decide) (by decide) (by decide)
  · exfalso
    rw [register] at h
    simp only [bind_apply, Handler.server] at h
    split at h <;> cases h
  · cases h
  · cases h
  · exact leaves_didOpen h he
  · exact leaves_didChange h he
  · exact Or.inr ⟨not_remains (by decide) (by decide) (by decide), didClose_server h⟩
  · cases h
  · exact leaves_didChangeConfiguration h he
  · cases h
  · exact hreplies (.bind (.lift _) fun _ => .bind (.lift _) fun _ => replies_diagnostic _ _ _)
      (by decide) (by decide) (by decide)
  · cases h
  · exact hreplies (replies_completionResolve _ _) (by decide) (by decide) (by decide)
  · exact hreplies (replies_codeAction _ _) (by decide) (by decide) (by decide)
  · exact hreplies (.bind (.lift _) fun _ => .bind (.lift _) fun _ => .bind (.lift _) fun _ =>
      replies_hover _ _ _) (by decide) (by decide) (by decide)
  · exact hreplies (replies_unknown _ _) ‹_› ‹_› ‹_›

/-- A refused message is answered if it asks for an answer. The server is as before, unless the message
made its change and a document with no text was to be published: then the whole change stays. -/
theorem server_of_refused {files : FileReader} {fields : List (Text × Json)}
    (hs : Reachable server) (h : Refuses files server fields method) :
    (turn files server (.message fields)).fault = none ∧
      (∃ lines e, (handle files method (messageId fields) (messageParams fields) { server }).1 = .error e ∧
        (turn files server (.message fields)).log = lines ++ [paramsLine method e]) ∧
      (∃ messages, (turn files server (.message fields)).out = messages ++
        if messageId fields = .null then [] else [paramsRefusal (messageId fields) method]) ∧
      (Remains server (messageParams fields) method (turn files server (.message fields)).server ∨
        (∀ s, ¬ Remains server (messageParams fields) method s) ∧
          (turn files server (.message fields)).server = server) := by
  obtain ⟨hi, hm, e, he, hfault⟩ := h
  have hleaves := leaves_handle files hfault he
  have hnone : (handle files method (messageId fields) (messageParams fields) { server }).2.fault =
      none := handle_fault_eq files method _ _ hs.consistent hi
  have hturn := turn_of_method files hi hm
  generalize handle files method (messageId fields) (messageParams fields) { server } = r at *
  obtain ⟨r, t⟩ := r
  simp only at hfault
  subst hfault
  simp only [he, if_true] at hturn
  rw [hturn]
  exact ⟨hnone, ⟨_, e, rfl, rfl⟩, ⟨_, rfl⟩, hleaves⟩

def noFiles : FileReader := fun _ => .error .fileNotFound

/-- A server that has taken the first message of its client, which says nothing of the client. -/
def started : Server := { initialized := true }

def startSession : List UInt8 :=
  Frame.encode (.obj [("jsonrpc", .str "2.0"), ("id", .int 1), ("method", .str "initialize")])

theorem reachable_started : Reachable started := by
  refine ⟨fun _ => noFiles, startSession, _, List.prefix_refl _, ?_⟩
  decide +kernel

/-- A client opens a document and gives a number for its text. -/
def openNumber : List (Text × Json) :=
  [("jsonrpc", .str "2.0"), ("id", .int 2), ("method", .str "textDocument/didOpen"),
    ("params", .obj [("textDocument", .obj [("uri", .str "a"), ("text", .int 5)])])]

theorem refuses_openNumber : Refuses noFiles started openNumber "textDocument/didOpen" :=
  ⟨rfl, rfl, .wrongShape, rfl, by decide +kernel⟩

theorem not_server_eq_of_refused :
    ¬ ∀ (files : FileReader) (server : Server) (fields : List (Text × Json)) (method : String),
      Reachable server → Refuses files server fields method →
        (turn files server (.message fields)).server = server := by
  intro h
  have hsame := h noFiles started openNumber _ reachable_started refuses_openNumber
  have hother : (turn noFiles started (.message openNumber)).server ≠ started := by decide +kernel
  exact hother hsame

theorem server_of_refused_openNumber :
    (turn noFiles started (.message openNumber)).fault = none ∧
      (∃ lines e, (handle noFiles "textDocument/didOpen" (messageId openNumber) (messageParams openNumber)
          { server := started }).1 = .error e ∧
        (turn noFiles started (.message openNumber)).log =
          lines ++ [paramsLine "textDocument/didOpen" e]) ∧
      (∃ messages, (turn noFiles started (.message openNumber)).out =
        messages ++ if messageId openNumber = .null then []
          else [paramsRefusal (messageId openNumber) "textDocument/didOpen"]) ∧
      (Remains started (messageParams openNumber) "textDocument/didOpen"
          (turn noFiles started (.message openNumber)).server ∨
        (∀ s, ¬ Remains started (messageParams openNumber) "textDocument/didOpen" s) ∧
          (turn noFiles started (.message openNumber)).server = started) :=
  server_of_refused reachable_started refuses_openNumber

end Session

end LittleMan
