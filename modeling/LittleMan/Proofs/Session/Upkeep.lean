import LittleMan.Proofs.Origin
import LittleMan.Proofs.Protocol.Writing
import LittleMan.Proofs.Session.Mirror

/-! Every handler keeps what a client sees up to date. Those that are not silent change documents or
settings and publish the documents concerned before they end. -/

namespace LittleMan

open Handler

def Document.isReadable (doc : Document) : Prop := ∃ text, doc.text = .str text

theorem Document.isReadable_of_items {doc : Document} {common : Settings} {items : List Json}
    (h : doc.items common = .ok items) : doc.isReadable := by
  cases ht : doc.text with
  | str text => exact ⟨text, ht⟩
  | _ => simp [Document.items, source?, ht, bind, Except.bind] at h

theorem Document.items_error {doc : Document} {common : Settings} {e : Fault}
    (hr : doc.isReadable) (h : doc.items common = .error e) :
    e = .tooManyDigits ∨ e = .loneSurrogate := by
  obtain ⟨text, ht⟩ := hr
  rw [items, source?, ht] at h
  rcases bind_eq_error_iff.1 h with hs | ⟨s, -, h⟩
  · cases hs
  · rcases bind_eq_error_iff.1 h with ha | ⟨a, -, h⟩
    · exact Or.inl (analyze_error ha)
    · obtain ⟨d, -, hd⟩ := exists_error_of_mapM h
      exact Or.inr (Diagnostic.toJson_error hd)

namespace Session

/-- The handler keeps the mirror in a turn, unless it fails in a way that ends the session. -/
def Keeps (shown : List (Json × Json)) (m : Handler Unit) (t : Turn) : Prop :=
  Mirrors t.server (shown ++ publications t.out) →
    (∀ e, (m t).1 = .error e → isInvalidParams e = true) →
    Mirrors (m t).2.server (shown ++ publications (m t).2.out)

variable {shown : List (Json × Json)} {t u : Turn}

theorem liftM_apply {α : Type} (e : Except Fault α) (t : Turn) :
    (liftM e : Handler α) t = (e, t) := rfl

theorem bind_of_ok {α β : Type} {m : Handler α} {a : α} (f : α → Handler β)
    (h : (m t).1 = .ok a) : (m >>= f) t = f a (m t).2 := by
  rw [bind_apply]
  generalize m t = r at h
  obtain ⟨_, u⟩ := r
  cases h
  rfl

theorem bind_of_error {α β : Type} {m : Handler α} {e : Fault} (f : α → Handler β)
    (h : (m t).1 = .error e) : ((m >>= f) t).1 = .error e := by
  rw [bind_apply]
  generalize m t = r at h
  obtain ⟨_, u⟩ := r
  cases h
  rfl

theorem Keeps.of_silent {m : Handler Unit} (h : Silent m) : Keeps shown m t :=
  fun hm _ => hm.quiet (h t)

theorem Keeps.lift {α : Type} {e : Except Fault α} {f : α → Handler Unit}
    (h : ∀ a, e = .ok a → Keeps shown (f a) t) :
    Keeps shown ((liftM e : Handler α) >>= f) t := by
  intro hm he
  cases e with
  | error e => exact hm
  | ok a => exact h a rfl hm he

theorem Keeps.server {f : Server → Handler Unit} (h : Keeps shown (f t.server) t) :
    Keeps shown (Handler.server >>= f) t := h

theorem Keeps.quiet {α : Type} {m : Handler α} {f : α → Handler Unit} {a : α}
    (hr : m t = (.ok a, u)) (hq : Quiet t u) (h : Keeps shown (f a) u) :
    Keeps shown (m >>= f) t := by
  intro hm he
  rw [bind_apply, hr] at he ⊢
  exact h (hm.quiet hq) he

theorem Keeps.recover {m : Handler Unit} {next : Fault → Handler Unit} (h : Keeps shown m t)
    (hn : ∀ e, Silent (next e)) :
    Keeps shown (Handler.recover m isInvalidParams next) t := by
  intro hm he
  rw [Handler.recover] at he ⊢
  cases hr : m t with
  | mk r u =>
    simp only [Keeps, hr] at h he ⊢
    cases r with
    | ok a => exact h hm (by simp)
    | error e =>
      cases hi : isInvalidParams e with
      | true =>
        have hu := h hm fun e' he' => by rwa [← Except.error.inj he']
        simpa only [hi, if_true] using hu.quiet (hn e u)
      | false =>
        have habs := he e (by simp [hi])
        simp [hi] at habs

theorem publications_concat {out : List Json} {message : Json} {p : Json × Json}
    (h : publication? message = some p) :
    publications (out ++ [message]) = publications out ++ [p] := by
  simp [publications, h]

theorem publish_of_ok {doc : Document} {items : List Json}
    (h : doc.items t.server.settings = .ok items) :
    (publish doc t).1 = .ok () ∧ (publish doc t).2.server = t.server ∧
      publications (publish doc t).2.out = publications t.out ++ [(doc.uri, .arr items)] := by
  simp only [publish, bind_apply, liftM_apply, Handler.log, Handler.server, h, notify, write,
    true_and]
  exact publications_concat rfl

theorem publish_of_error {doc : Document} {e : Fault}
    (h : doc.items t.server.settings = .error e) : (publish doc t).1 = .error e := by
  simp only [publish, bind_apply, liftM_apply, Handler.log, Handler.server, h]

theorem askForSettings_ok (doc : Document) (t : Turn) : (askForSettings doc t).1 = .ok () := by
  simp only [askForSettings, bind_apply, Handler.server]
  cases t.server.asksSettings <;> rfl

theorem mirrors_publish {doc : Document} {name : Text}
    (hm : Mirrors t.server (shown ++ publications t.out)) (hdoc : doc.uri = .str name)
    (hr : doc.isReadable) (hputs : Puts doc t.server.documents u.server.documents)
    (hs : u.server.settings = t.server.settings) (hi : u.server.initialized = true)
    (ho : publications u.out = publications t.out)
    (he : ∀ e, (publish doc u).1 = .error e → isInvalidParams e = true) :
    Mirrors (publish doc u).2.server (shown ++ publications (publish doc u).2.out) := by
  cases hitems : doc.items u.server.settings with
  | error e =>
    have hinv := he e (publish_of_error hitems)
    rcases Document.items_error hr hitems with rfl | rfl <;> cases hinv
  | ok items =>
    obtain ⟨-, hserver, hout⟩ := publish_of_ok hitems
    rw [hserver, hout, ho, ← List.append_assoc]
    exact hm.put hdoc hputs hs hi hitems

def hasText (v : Json) (key : Text) : Bool :=
  match v.field key with
  | .ok (.str _) | .error _ => true
  | .ok _ => false

theorem hasText_ok {v x : Json} {key : Text} (h : hasText v key = true)
    (hx : v.field key = .ok x) : ∃ text, x = .str text := by
  rw [hasText, hx] at h
  cases x with
  | str text => exact ⟨text, rfl⟩
  | _ => cases h

theorem keeps_didOpen {params : Json} (hi : t.server.initialized = true)
    (htext : ∀ item, params.field "textDocument" = .ok item →
      hasText item "uri" = true ∧ hasText item "text" = true) :
    Keeps shown (didOpen params) t := by
  refine Keeps.lift fun item hitem => Keeps.lift fun uri huri => Keeps.lift fun text ht => ?_
  refine Keeps.lift fun version _ => Keeps.lift fun _ _ => ?_
  obtain ⟨name, rfl⟩ := hasText_ok (htext item hitem).1 huri
  obtain ⟨text, rfl⟩ := hasText_ok (htext item hitem).2 ht
  intro hm he
  let doc : Document := { uri := .str name, text := .str text, version }
  let opened : Turn :=
    { t with server := { t.server with documents := Server.putDocument doc t.server.documents } }
  have hq := silent_askForSettings doc opened
  have hok := askForSettings_ok doc opened
  have hrun : (Handler.change (fun s => { s with documents := Server.putDocument doc s.documents })
      >>= fun _ => askForSettings doc >>= fun _ => publish doc) t =
        publish doc (askForSettings doc opened).2 :=
    bind_of_ok _ hok
  rw [hrun] at he ⊢
  have hputs : Puts doc t.server.documents (Server.putDocument doc t.server.documents) :=
    puts_putDocument rfl hm.named hm.distinct
  refine mirrors_publish hm rfl ⟨text, rfl⟩ ?_ hq.settings (hq.initialized hi) hq.publications he
  rw [hq.documents]
  exact hputs

theorem keeps_update {doc : Document} {uri : Json} {f : Document → Document}
    (hfind : t.server.find? uri = .ok (some doc)) (huri : ∀ d, (f d).uri = d.uri)
    (hr : (f doc).isReadable) :
    Keeps shown (Handler.change (fun s => s.update uri f) >>= fun _ => publish (f doc)) t := by
  intro hm he
  obtain ⟨hmem, rfl⟩ := hm.find?_eq_some_iff.1 hfind
  obtain ⟨name, hname⟩ := hm.named doc hmem
  exact mirrors_publish (u := { t with server := t.server.update doc.uri f }) hm
    ((huri doc).trans hname) hr (hm.puts_update hmem huri) rfl
    (hm.started (List.ne_nil_of_mem hmem)) rfl he

theorem lastText_ok {changes text : Json} (h : lastText changes = .ok text) :
    ∃ items last, changes = .arr items ∧ last ∈ items ∧ last.field "text" = .ok text := by
  unfold lastText at h
  split at h
  · next items =>
    split at h
    · next last hl => exact ⟨items, last, rfl, List.mem_of_getLast? hl, h⟩
    · cases h
  · cases h
  · cases h

theorem keeps_didChange {params : Json}
    (htext : ∀ changes text, params.field "contentChanges" = .ok changes →
      lastText changes = .ok text → ∃ x, text = .str x) :
    Keeps shown (didChange params) t := by
  refine Keeps.lift fun item _ => Keeps.lift fun uri _ => Keeps.server ?_
  refine Keeps.lift fun found hf => ?_
  cases found with
  | none => exact Keeps.of_silent (Silent.log _)
  | some doc =>
    refine Keeps.lift fun changes hc => ?_
    split
    · refine Keeps.lift fun text ht => Keeps.lift fun version _ => ?_
      exact keeps_update (f := fun d => { d with text, version }) hf (fun _ => rfl)
        (htext changes text hc ht)
    · exact Keeps.of_silent (Silent.pure ())

theorem keeps_close (uri : Json) :
    Keeps shown (Handler.change (·.close uri) >>= fun _ =>
      notify "textDocument/publishDiagnostics"
        (.obj [("uri", uri), ("diagnostics", .arr [])])) t := by
  intro hm _
  simp only [bind_apply, Handler.change, notify, write]
  rw [publications_concat (p := (uri, .arr [])) rfl, ← List.append_assoc]
  exact hm.close uri

theorem keeps_didClose (params : Json) : Keeps shown (didClose params) t := by
  refine Keeps.lift fun item _ => Keeps.lift fun uri _ => Keeps.server ?_
  simp only
  split
  · exact Keeps.lift fun _ _ => keeps_close uri
  · exact keeps_close uri

/-- What is done about an answer once its request is known. -/
def takeAnswer (result : Json) (left : List (Nat × Json)) (uri : Json) : Handler Unit := do
  change fun s => { s with pending := left }
  if !uri.isEmpty then
    match ← (← Handler.server).find? uri with
    | none => pure ()
    | some doc =>
      let settings := some (answeredSettings result)
      change fun s => s.update uri fun d => { d with settings }
      publish { doc with settings }

theorem keeps_takeAnswer (result : Json) (left : List (Nat × Json)) (uri : Json) :
    Keeps shown (takeAnswer result left uri) t := by
  refine Keeps.quiet rfl ⟨rfl, rfl, fun h => h, rfl⟩ ?_
  split
  · refine Keeps.server (Keeps.lift fun found hf => ?_)
    cases found with
    | none => exact Keeps.of_silent (Silent.pure ())
    | some doc =>
      intro hm he
      have hmem := (hm.find?_eq_some_iff.1 hf).1
      obtain ⟨items, hitems, -⟩ := hm.current doc hmem
      have hr : doc.isReadable := Document.isReadable_of_items hitems
      exact keeps_update (f := fun d => { d with settings := some (answeredSettings result) }) hf
        (fun _ => rfl) hr hm he
  · exact Keeps.of_silent (Silent.pure ())

theorem keeps_didAnswer (id result : Json) : Keeps shown (didAnswer id result) t := by
  refine Keeps.server ?_
  simp only
  split
  · exact Keeps.lift fun _ _ => keeps_takeAnswer result _ _
  · exact keeps_takeAnswer result _ _

/-- The documents are the same but for their versions and settings. -/
def SameTexts (docs docs' : List Document) : Prop :=
  docs'.map (fun d => (d.uri, d.text)) = docs.map fun d => (d.uri, d.text)

theorem each_askAgain (docs : List Document) (t : Turn) :
    (each askAgain docs t).1 = .ok () ∧
      SameTexts t.server.documents (each askAgain docs t).2.server.documents ∧
      (each askAgain docs t).2.server.settings = t.server.settings ∧
      (t.server.initialized = true → (each askAgain docs t).2.server.initialized = true) ∧
      publications (each askAgain docs t).2.out = publications t.out := by
  induction docs generalizing t with
  | nil => exact ⟨rfl, rfl, rfl, fun h => h, rfl⟩
  | cons doc docs ih =>
    let forgot : Turn :=
      { t with server := t.server.update doc.uri fun d => { d with settings := none } }
    have hsame : SameTexts t.server.documents forgot.server.documents := by
      simp only [SameTexts, forgot, Server.update, List.map_map]
      refine List.map_congr_left fun d _ => ?_
      simp only [Function.comp]
      split <;> rfl
    have hq := silent_askForSettings doc forgot
    have hok := askForSettings_ok doc forgot
    have hstep : each askAgain (doc :: docs) t = each askAgain docs (askForSettings doc forgot).2 :=
      bind_of_ok _ hok
    obtain ⟨hr, hd, hs, hi, ho⟩ := ih (askForSettings doc forgot).2
    rw [hstep]
    refine ⟨hr, ?_, hs.trans hq.settings, fun h => hi (hq.initialized h), ho.trans hq.publications⟩
    rw [SameTexts, hd, hq.documents]
    exact hsame

theorem each_publish (shown : List (Json × Json)) {docs : List Document}
    (hp : docs.Pairwise fun a b => a.uri ≠ b.uri)
    (hr : ∀ d ∈ docs, d.isReadable)
    (he : ∀ e, (each publish docs t).1 = .error e → isInvalidParams e = true) :
    (each publish docs t).2.server = t.server ∧
      (∀ d ∈ docs, ∃ items, d.items t.server.settings = .ok items ∧
        lastShown (shown ++ publications (each publish docs t).2.out) d.uri = some (.arr items)) ∧
      ∀ uri, (∀ d ∈ docs, d.uri ≠ uri) →
        lastShown (shown ++ publications (each publish docs t).2.out) uri =
          lastShown (shown ++ publications t.out) uri := by
  induction docs generalizing t with
  | nil => exact ⟨rfl, by simp, fun _ _ => rfl⟩
  | cons doc docs ih =>
    obtain ⟨hhead, htail⟩ := List.pairwise_cons.1 hp
    cases hitems : doc.items t.server.settings with
    | error e =>
      have hfail := publish_of_error hitems
      have hstop : (each publish (doc :: docs) t).1 = .error e := bind_of_error _ hfail
      have hinv := he e hstop
      rcases Document.items_error (hr doc List.mem_cons_self) hitems with rfl | rfl <;> cases hinv
    | ok items =>
      obtain ⟨hok, hserver, hout⟩ := publish_of_ok hitems
      have hstep : each publish (doc :: docs) t = each publish docs (publish doc t).2 :=
        bind_of_ok _ hok
      rw [hstep] at he ⊢
      generalize publish doc t = r at hserver hout he
      obtain ⟨_, u⟩ := r
      obtain ⟨hs, hcurrent, hother⟩ := ih htail (fun d hd => hr d (List.mem_cons_of_mem _ hd)) he
      have hlast : ∀ uri, lastShown (shown ++ publications u.out) uri =
          if doc.uri = uri then some (.arr items)
          else lastShown (shown ++ publications t.out) uri := by
        intro uri
        rw [hout, ← List.append_assoc, lastShown_concat]
      -- No later document has the name of the first, so its diagnostics stay the last of that name.
      refine ⟨hs.trans hserver, fun d hd => ?_, fun uri hno => ?_⟩
      · rcases List.mem_cons.1 hd with rfl | hd
        · exact ⟨items, hitems, by rw [hother _ fun x hx => (hhead x hx).symm, hlast, if_pos rfl]⟩
        · rw [← hserver]
          exact hcurrent d hd
      · rw [hother uri fun d hd => hno d (List.mem_cons_of_mem _ hd), hlast,
          if_neg (hno doc List.mem_cons_self)]

theorem mirrors_republish (hm : Mirrors t.server (shown ++ publications t.out))
    (hd : SameTexts t.server.documents u.server.documents)
    (hi : t.server.initialized = true → u.server.initialized = true)
    (ho : publications u.out = publications t.out)
    (he : ∀ e, (each publish u.server.documents u).1 = .error e → isInvalidParams e = true) :
    Mirrors (each publish u.server.documents u).2.server
      (shown ++ publications (each publish u.server.documents u).2.out) := by
  have hold : ∀ d' ∈ u.server.documents, ∃ d ∈ t.server.documents, d.uri = d'.uri ∧
      d.text = d'.text := by
    intro d' hd'
    have hmem := List.mem_map_of_mem (f := fun d => (d.uri, d.text)) hd'
    rw [hd] at hmem
    simpa using hmem
  have hnew : ∀ d ∈ t.server.documents, ∃ d' ∈ u.server.documents, d'.uri = d.uri ∧
      d'.text = d.text := by
    intro d hd'
    have hmem := List.mem_map_of_mem (f := fun d => (d.uri, d.text)) hd'
    rw [← hd] at hmem
    simpa using hmem
  have hdistinct : u.server.documents.Pairwise fun a b => a.uri ≠ b.uri := by
    have hp : (t.server.documents.map fun d => (d.uri, d.text)).Pairwise fun a b => a.1 ≠ b.1 :=
      List.pairwise_map.2 hm.distinct
    rw [← hd] at hp
    have hp' := List.pairwise_map.1 hp
    exact hp'
  have hreadable : ∀ d ∈ u.server.documents, d.isReadable := by
    intro d' hd'
    obtain ⟨d, hdm, -, htext⟩ := hold d' hd'
    obtain ⟨items, hitems, -⟩ := hm.current d hdm
    obtain ⟨text, ht⟩ := Document.isReadable_of_items hitems
    exact ⟨text, htext ▸ ht⟩
  obtain ⟨hs, hcurrent, hother⟩ := each_publish shown hdistinct hreadable he
  rw [hs]
  refine ⟨fun d' hd' => ?_, hdistinct, fun hne => hi (hm.started fun hnil => hne ?_), hcurrent,
    fun uri v hno hv => ?_⟩
  · obtain ⟨d, hdm, hu, -⟩ := hold d' hd'
    obtain ⟨name, hn⟩ := hm.named d hdm
    exact ⟨name, hu ▸ hn⟩
  · rw [SameTexts, hnil] at hd
    exact List.map_eq_nil_iff.1 hd
  · rw [hother uri hno, ho] at hv
    refine hm.cleared uri v (fun d hdm hu => ?_) hv
    obtain ⟨d', hd', hu', -⟩ := hnew d hdm
    exact hno d' hd' (hu'.trans hu)

theorem keeps_didChangeConfiguration (params : Json) :
    Keeps shown (didChangeConfiguration params) t := by
  refine Keeps.server ?_
  simp only
  split
  · refine Keeps.server ?_
    intro hm he
    obtain ⟨hok, hd, -, hi, ho⟩ := each_askAgain t.server.documents t
    have hrun : (each askAgain t.server.documents >>= fun _ =>
        Handler.server >>= fun s => each publish s.documents) t =
          each publish (each askAgain t.server.documents t).2.server.documents
            (each askAgain t.server.documents t).2 :=
      bind_of_ok _ hok
    rw [hrun] at he ⊢
    exact mirrors_republish hm hd hi ho he
  · refine Keeps.lift fun settings _ => ?_
    intro hm he
    exact mirrors_republish (u := { t with server := { t.server with settings } }) hm rfl
      (fun h => h) rfl he

/-- What a message says of documents is told in strings. -/
def tellsTexts (method : String) (params : Json) : Bool :=
  match method with
  | "textDocument/didOpen" =>
    match params.field "textDocument" with
    | .ok item => hasText item "uri" && hasText item "text"
    | .error _ => true
  | "textDocument/didChange" =>
    match params.field "contentChanges" with
    | .ok (.arr changes) => changes.all (hasText · "text")
    | _ => true
  | _ => true

theorem silent_handle (files : FileReader) {method : String} (id params : Json)
    (ho : method ≠ "textDocument/didOpen") (hc : method ≠ "textDocument/didChange")
    (hd : method ≠ "textDocument/didClose") (hg : method ≠ "workspace/didChangeConfiguration") :
    Silent (handle files method id params) := by
  unfold handle
  split
  · simp
  · exact silent_register
  · refine Silent.bind ?_ fun _ => Silent.respond _ _
    exact Silent.change (fun _ => rfl) (fun _ => rfl) fun _ h => h
  · exact Silent.change (fun _ => rfl) (fun _ => rfl) fun _ h => h
  · exact absurd rfl ho
  · exact absurd rfl hc
  · exact absurd rfl hd
  · exact Silent.pure ()
  · exact absurd rfl hg
  · exact Silent.bind (Silent.log _) fun _ => Silent.notify _ (by decide)
  · exact Silent.bind (Silent.lift _) fun _ => Silent.bind (Silent.lift _) fun _ =>
      Silent.of_replies (replies_diagnostic files id _)
  · exact Silent.respond _ _
  · exact Silent.of_replies (replies_completionResolve id params)
  · exact Silent.of_replies (replies_codeAction id params)
  · exact Silent.bind (Silent.lift _) fun _ => Silent.bind (Silent.lift _) fun _ =>
      Silent.bind (Silent.lift _) fun _ => Silent.of_replies (replies_hover id _ _)
  · exact Silent.of_replies (replies_unknown id _)

theorem keeps_handle (files : FileReader) {method : String} {id params : Json}
    (hi : t.server.initialized = true) (htext : tellsTexts method params = true) :
    Keeps shown (handle files method id params) t := by
  by_cases ho : method = "textDocument/didOpen"
  · subst ho
    refine keeps_didOpen hi fun item hitem => ?_
    simpa [tellsTexts, hitem] using htext
  by_cases hc : method = "textDocument/didChange"
  · subst hc
    refine keeps_didChange fun changes text hc ht => ?_
    obtain ⟨items, last, rfl, hlast, hfield⟩ := lastText_ok ht
    simp only [tellsTexts, hc, List.all_eq_true] at htext
    exact hasText_ok (htext last hlast) hfield
  by_cases hd : method = "textDocument/didClose"
  · subst hd
    exact keeps_didClose params
  by_cases hg : method = "workspace/didChangeConfiguration"
  · subst hg
    exact keeps_didChangeConfiguration params
  · exact Keeps.of_silent (silent_handle files id params ho hc hd hg)

end Session

end LittleMan
