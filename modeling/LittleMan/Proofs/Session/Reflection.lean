import LittleMan.Proofs.Session.Effects

/-! Two servers side by side, where the second knows only those documents of the first that go by one
name. What the first does to documents of other names and publishes of them leaves the two alike. -/

namespace LittleMan

open Handler Session

namespace Frame

/-- The frame starts a session that has not started. -/
def starts (frame : Frame) : Bool := frame.call?.any (·.1 = "initialize")

/-- The frame tells of the document, or of the settings of all documents. -/
def concerns (uri : Text) (frame : Frame) : Bool :=
  frame.call?.any fun call => call.1 = "workspace/didChangeConfiguration" ||
    (call.1 ∈ documentMethods && (uriOf call.2).toOption = some (.str uri))

/-- The frames that concern a document, with the one that starts the session. -/
def about (uri : Text) (started : Bool) : List Frame → List Frame
  | [] => []
  | frame :: frames =>
    if frame.concerns uri || (frame.starts && !started) then
      frame :: about uri (started || frame.starts) frames
    else about uri (started || frame.starts) frames

end Frame

namespace Session

variable {uri : Text} {s s' server : Server} {t t' : Turn} {docs : List Document}

/-- The documents of one name. -/
def ofName (uri : Text) (docs : List Document) : List Document := docs.filter (·.uri = .str uri)

theorem ofName_putDocument (hn : Named docs) {doc : Document} (h : doc.uri = .str uri) :
    ofName uri (Server.putDocument doc docs) = Server.putDocument doc (ofName uri docs) := by
  induction docs with
  | nil => simp [ofName, Server.putDocument, h]
  | cons d docs ih =>
    have hsame := hn.same_iff List.mem_cons_self doc.uri
    have hrest := ih fun x hx => hn x (List.mem_cons_of_mem _ hx)
    by_cases hd : d.uri = doc.uri
    · rw [Server.putDocument, if_pos (hsame.2 hd), ofName, ofName,
        List.filter_cons_of_pos (by simp [h]), List.filter_cons_of_pos (by simp [hd, h]),
        Server.putDocument, if_pos (hsame.2 hd)]
    · have hno : ¬ d.uri = .str uri := fun heq => hd (heq.trans h.symm)
      rw [Server.putDocument, if_neg fun hs => hd (hsame.1 hs), ofName, ofName,
        List.filter_cons_of_neg (by simp [hno]), List.filter_cons_of_neg (by simp [hno])]
      exact hrest

theorem ofName_putDocument_of_ne (hn : Named docs) {doc : Document} (h : doc.uri ≠ .str uri) :
    ofName uri (Server.putDocument doc docs) = ofName uri docs := by
  induction docs with
  | nil => simp [ofName, Server.putDocument, h]
  | cons d docs ih =>
    have hsame := hn.same_iff List.mem_cons_self doc.uri
    have hrest := ih fun x hx => hn x (List.mem_cons_of_mem _ hx)
    by_cases hd : d.uri = doc.uri
    · rw [Server.putDocument, if_pos (hsame.2 hd), ofName, ofName,
        List.filter_cons_of_neg (by simp [h]), List.filter_cons_of_neg (by simp [hd, h])]
    · rw [Server.putDocument, if_neg fun hs => hd (hsame.1 hs), ofName, ofName, List.filter_cons,
        List.filter_cons]
      rw [ofName, ofName] at hrest
      rw [hrest]

theorem ofName_map {f : Document → Document} (hf : ∀ d, (f d).uri = d.uri) :
    ofName uri (docs.map f) = (ofName uri docs).map f := by
  have hname : ((fun d : Document => decide (d.uri = .str uri)) ∘ f) =
      fun d => decide (d.uri = .str uri) := by
    funext d
    rw [Function.comp_apply, hf]
  rw [ofName, List.filter_map, hname]
  rfl

theorem mem_ofName {d : Document} (h : d ∈ ofName uri docs) : d ∈ docs ∧ d.uri = .str uri := by
  rw [ofName, List.mem_filter, decide_eq_true_eq] at h
  exact h

theorem not_same_of_mem_ofName {d : Document} (h : d ∈ ofName uri docs) {v : Json}
    (hv : v ≠ .str uri) : ¬ d.uri.same v = true := by
  rw [(mem_ofName h).2, Json.same_str_iff]
  exact fun heq => hv heq.symm

theorem ofName_update (server : Server) (v : Json) {f : Document → Document}
    (hf : ∀ d, (f d).uri = d.uri) :
    ofName uri (server.update v f).documents =
      (ofName uri server.documents).map fun d => if d.uri.same v then f d else d := by
  refine ofName_map fun d => ?_
  split
  · exact hf d
  · rfl

theorem ofName_update_of_ne (server : Server) {v : Json} (hv : v ≠ .str uri)
    {f : Document → Document} (hf : ∀ d, (f d).uri = d.uri) :
    ofName uri (server.update v f).documents = ofName uri server.documents := by
  rw [ofName_update server v hf]
  exact (List.map_congr_left fun d hd => if_neg (not_same_of_mem_ofName hd hv)).trans (List.map_id _)

theorem ofName_close (server : Server) (v : Json) :
    ofName uri (server.close v).documents =
      (ofName uri server.documents).filter fun d => !d.uri.same v := by
  rw [Server.close, ofName, ofName, List.filter_comm]

theorem ofName_close_of_ne (server : Server) {v : Json} (hv : v ≠ .str uri) :
    ofName uri (server.close v).documents = ofName uri server.documents := by
  rw [ofName_close, List.filter_eq_self]
  intro d hd
  rw [Bool.not_eq_true', Bool.eq_false_iff]
  exact not_same_of_mem_ofName hd hv

/-- The second server knows of the first one's documents only the one of that name. The clients of both
are not asked for settings. -/
structure Reflects (uri : Text) (s s' : Server) : Prop where
  initialized : s'.initialized = s.initialized
  settings : s'.settings = s.settings
  documents : s'.documents = ofName uri s.documents
  asks : s.asksSettings = false ∧ s'.asksSettings = false
  idle : s.pending = [] ∧ s'.pending = []
  going : s.exited = false ∧ s'.exited = false

/-- The second turn publishes of the document what the first one does, and its server keeps up. -/
structure Mimics (uri : Text) (t t' : Turn) : Prop where
  reflects : Reflects uri t.server t'.server
  published : publishedFor (.str uri) t.out = publishedFor (.str uri) t'.out
  fault : t'.fault = none

theorem Reflects.with_documents (h : Reflects uri s s') {docs docs' : List Document}
    (hd : docs' = ofName uri docs) :
    Reflects uri { s with documents := docs } { s' with documents := docs' } :=
  ⟨h.initialized, h.settings, hd, h.asks, h.idle, h.going⟩

theorem reflects_empty : Reflects uri {} {} := ⟨rfl, rfl, rfl, ⟨rfl, rfl⟩, ⟨rfl, rfl⟩, ⟨rfl, rfl⟩⟩

theorem same_str_right_iff (v : Json) (name : Text) : v.same (.str name) = true ↔ v = .str name := by
  cases v <;> simp [Json.same, Json.number?]

theorem Reflects.find?_eq (h : Reflects uri s s') : s'.find? (.str uri) = s.find? (.str uri) := by
  have hname : (fun d : Document =>
      decide (decide (d.uri = .str uri) = true ∧ d.uri.same (.str uri) = true)) =
        fun d => d.uri.same (.str uri) := by
    funext d
    rw [Bool.eq_iff_iff, decide_eq_true_eq, decide_eq_true_eq]
    exact ⟨And.right, fun hs => ⟨(same_str_right_iff _ _).1 hs, hs⟩⟩
  rw [Server.find?, Server.find?, h.documents, ofName]
  simp only [List.find?_filter, hname]

theorem ofName_revised (s s' : Server) (name : Json) (doc : Document)
    (h : s'.documents = ofName uri s.documents) :
    (revised s' name doc).documents = ofName uri (revised s name doc).documents := by
  have hrewritten : ofName uri (s.update name fun d =>
      { d with text := doc.text, version := doc.version }).documents = _ :=
    ofName_update s name fun _ => rfl
  rw [revised, revised, hrewritten, ← h]
  rfl

theorem Idle.reflects (h : Idle s t) (hr : Reflects uri s s') : Reflects uri t.server s' := by
  obtain ⟨shutdown, hserver⟩ := h.server
  rw [hserver]
  exact ⟨hr.initialized, hr.settings, hr.documents, hr.asks, hr.idle, hr.going⟩

theorem Idle.reflects_right (h : Idle s' t') (hr : Reflects uri s s') : Reflects uri s t'.server := by
  obtain ⟨shutdown, hserver⟩ := h.server
  rw [hserver]
  exact ⟨hr.initialized, hr.settings, hr.documents, hr.asks, hr.idle, hr.going⟩

theorem Idle.mimics (h : Idle s t) (hr : Reflects uri s s') : Mimics uri t { server := s' } where
  reflects := h.reflects hr
  published := publishedFor_of_publications h.published _
  fault := rfl

theorem Idle.mimics_idle (h : Idle s t) (h' : Idle s' t') (hr : Reflects uri s s') :
    Mimics uri t t' where
  reflects := h.reflects (h'.reflects_right hr)
  published := by
    rw [publishedFor_of_publications h.published, publishedFor_of_publications h'.published]
  fault := h'.fault

theorem Shows.mimics {name message : Json} (h : Shows s t name docs message) (hne : name ≠ .str uri)
    (hd : ofName uri docs = ofName uri s.documents) (hr : Reflects uri s s') :
    Mimics uri t { server := s' } where
  reflects := by
    rw [h.server]
    exact hr.with_documents (hr.documents.trans hd.symm)
  published := by
    obtain ⟨p, hp, rfl⟩ := Option.map_eq_some_iff.1 h.named
    rw [h.out, publishedFor, List.filter_cons_of_neg (by simp [hp, hne])]
    rfl
  fault := rfl

theorem Shows.mimics_shows {name name' message : Json} {docs' : List Document}
    (h : Shows s t name docs message) (h' : Shows s' t' name' docs' message)
    (hd : docs' = ofName uri docs) (hr : Reflects uri s s') : Mimics uri t t' where
  reflects := by
    rw [h.server, h'.server]
    exact hr.with_documents hd
  published := by rw [h.out, h'.out]
  fault := h'.fault

end Session

end LittleMan
