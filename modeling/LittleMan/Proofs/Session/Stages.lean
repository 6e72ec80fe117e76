import LittleMan.Proofs.Session.Acts

/-! The messages that change documents or settings, in three stages: what they say is read, what it says is
changed, and the documents concerned are published. Reading changes nothing, and publishing can fail only
when all is changed. -/

namespace LittleMan

open Handler

theorem Document.not_isReadable_of_items {doc : Document} {common : Settings} {e : Fault}
    (h : doc.items common = .error e) (he : Session.isInvalidParams e = true) :
    ¬ doc.isReadable := by
  intro hr
  rcases Document.items_error hr h with rfl | rfl <;> cases he

section

variable {α β : Type} {f : α → Except Fault β} {x : α} {xs : List α} {e : Fault}

/-- The function fails on one of the items, and on none before it. -/
def FirstFails (f : α → Except Fault β) (xs : List α) (e : Fault) : Prop :=
  ∃ before x after, xs = before ++ x :: after ∧ (∀ y ∈ before, ∃ b, f y = .ok b) ∧ f x = .error e

theorem not_firstFails_nil : ¬ FirstFails f [] e := by
  rintro ⟨before, x, after, h, -⟩
  cases before <;> cases h

theorem firstFails_cons_iff :
    FirstFails f (x :: xs) e ↔ f x = .error e ∨ (∃ b, f x = .ok b) ∧ FirstFails f xs e := by
  constructor
  · rintro ⟨before, y, after, h, hbefore, hy⟩
    cases before with
    | nil =>
      obtain ⟨rfl, rfl⟩ := List.cons.inj h
      exact Or.inl hy
    | cons z before =>
      obtain ⟨rfl, rfl⟩ := List.cons.inj h
      obtain ⟨hz, hbefore⟩ := List.forall_mem_cons.1 hbefore
      exact Or.inr ⟨hz, before, y, after, rfl, hbefore, hy⟩
  · rintro (hx | ⟨hx, before, y, after, rfl, hbefore, hy⟩)
    · exact ⟨[], x, xs, rfl, by simp, hx⟩
    · exact ⟨x :: before, y, after, rfl, List.forall_mem_cons.2 ⟨hx, hbefore⟩, hy⟩

theorem exists_firstFails (hx : x ∈ xs) (he : f x = .error e) : ∃ e', FirstFails f xs e' := by
  induction xs with
  | nil => cases hx
  | cons y xs ih =>
    simp only [firstFails_cons_iff]
    cases hy : f y with
    | error e' => exact ⟨e', Or.inl rfl⟩
    | ok b =>
      have hlater : x ∈ xs := by
        rcases List.mem_cons.1 hx with rfl | hx
        · cases hy.symm.trans he
        · exact hx
      obtain ⟨e', hfails⟩ := ih hlater
      exact ⟨e', Or.inr ⟨⟨b, rfl⟩, hfails⟩⟩

end

def Json.isObject : Json → Bool
  | .obj _ => true
  | _ => false

namespace Session

variable {t : Turn} {e : Fault}

theorem publish_server (doc : Document) (t : Turn) : (publish doc t).2.server = t.server := by
  obtain ⟨messages, lines, -, hrun⟩ := publish_tells doc t
  rw [hrun]

theorem publish_fault (doc : Document) (t : Turn) : (publish doc t).2.fault = t.fault := by
  obtain ⟨messages, lines, -, hrun⟩ := publish_tells doc t
  rw [hrun]

theorem publish_error_iff {doc : Document} :
    (publish doc t).1 = .error e ↔ doc.items t.server.settings = .error e := by
  constructor
  · intro h
    cases hitems : doc.items t.server.settings with
    | error e' =>
      rw [publish_of_error hitems] at h
      exact congrArg Except.error (Except.error.inj h)
    | ok items =>
      rw [(publish_of_ok hitems).1] at h
      cases h
  · exact publish_of_error

theorem each_publish_server (docs : List Document) (t : Turn) :
    (each publish docs t).2.server = t.server := by
  induction docs generalizing t with
  | nil => rfl
  | cons doc docs ih =>
    cases hp : (publish doc t).1 with
    | error e =>
      have hstop : (each publish (doc :: docs) t).2 = (publish doc t).2 := by
        simp only [each, bind_apply]
        generalize publish doc t = r at hp
        obtain ⟨_, u⟩ := r
        cases hp
        rfl
      rw [hstop, publish_server]
    | ok a =>
      have hstep : each publish (doc :: docs) t = each publish docs (publish doc t).2 :=
        bind_of_ok _ hp
      rw [hstep, ih, publish_server]

theorem each_publish_error_iff {docs : List Document} :
    (each publish docs t).1 = .error e ↔ FirstFails (·.items t.server.settings) docs e := by
  induction docs generalizing t with
  | nil => simp [each, pure_apply, not_firstFails_nil]
  | cons doc docs ih =>
    rw [firstFails_cons_iff]
    cases hitems : doc.items t.server.settings with
    | error e' =>
      have hstop : (each publish (doc :: docs) t).1 = .error e' :=
        bind_of_error _ (publish_of_error hitems)
      simp [hstop]
    | ok items =>
      have hstep : each publish (doc :: docs) t = each publish docs (publish doc t).2 :=
        bind_of_ok _ (publish_of_ok hitems).1
      rw [hstep, ih, publish_server]
      simp

section

variable {α β γ : Type}

theorem lift_bind_assoc (x : Except Fault α) (f : α → Except Fault β) (k : β → Handler γ) :
    (liftM (x >>= f) : Handler β) >>= k =
      (liftM x : Handler α) >>= fun a => (liftM (f a) : Handler β) >>= k := by
  cases x <;> rfl

theorem lift_pure_bind (a : α) (k : α → Handler γ) :
    (liftM (pure a : Except Fault α) : Handler α) >>= k = k a := rfl

theorem lift_bind_congr {x : Except Fault α} {f g : α → Handler γ} (h : ∀ a, f a t = g a t) :
    ((liftM x : Handler α) >>= f) t = ((liftM x : Handler α) >>= g) t := by
  cases x with
  | error e => rfl
  | ok a => exact h a

end

/-- The document that a message opens. -/
def openingOf (params : Json) : Except Fault Document := do
  let item ← params.field "textDocument"
  let uri ← item.field "uri"
  let text ← item.field "text"
  let version ← item.field? "version"
  uri.requireScalar
  return { uri, text, version }

def takeIn (doc : Document) : Handler Unit := fun t => publish doc ((t.put doc).ask doc.uri)

theorem didOpen_apply (params : Json) (t : Turn) :
    didOpen params t = ((liftM (openingOf params) : Handler Document) >>= takeIn) t := by
  simp only [didOpen, openingOf, lift_bind_assoc, lift_pure_bind]
  refine lift_bind_congr fun item => lift_bind_congr fun uri => lift_bind_congr fun text => ?_
  refine lift_bind_congr fun version => lift_bind_congr fun _ => ?_
  simp only [bind_apply, Handler.change, askForSettings_apply]
  rfl

/-- What a message changes: the text of the document under a name, if there is one and a change is
given. -/
inductive Revision where
  | unopened (uri : Json)
  | unchanged
  | changed (uri : Json) (doc : Document)

def revisionOf (server : Server) (params : Json) : Except Fault Revision := do
  let item ← params.field "textDocument"
  let uri ← item.field "uri"
  match ← server.find? uri with
  | none => return .unopened uri
  | some doc =>
    let changes ← params.field "contentChanges"
    if changes.isEmpty then return .unchanged
    let text ← lastText changes
    let version ← item.field? "version"
    return .changed uri { doc with text, version }

def revised (server : Server) (uri : Json) (doc : Document) : Server :=
  server.update uri fun d => { d with text := doc.text, version := doc.version }

def Revision.handle : Revision → Handler Unit
  | .unopened uri => log ("Change for unopened document " ++ uri.display)
  | .unchanged => pure ()
  | .changed uri doc => fun t => publish doc { t with server := revised t.server uri doc }

theorem didChange_apply (params : Json) (t : Turn) :
    didChange params t =
      ((liftM (revisionOf t.server params) : Handler Revision) >>= Revision.handle) t := by
  simp only [didChange, revisionOf, lift_bind_assoc]
  refine lift_bind_congr fun item => lift_bind_congr fun uri => ?_
  show ((liftM (t.server.find? uri) : Handler _) >>= _) t = _
  refine lift_bind_congr fun found => ?_
  cases found with
  | none => rfl
  | some doc =>
    simp only [lift_bind_assoc]
    refine lift_bind_congr fun changes => ?_
    cases changes.isEmpty with
    | true => rfl
    | false =>
      simp only [Bool.not_false, if_true, Bool.false_eq_true, if_false, lift_bind_assoc]
      exact lift_bind_congr fun text => lift_bind_congr fun version => rfl

/-- The name of the document that a message closes. -/
def closingOf (server : Server) (params : Json) : Except Fault Json := do
  let uri ← (← params.field "textDocument").field "uri"
  if !server.documents.isEmpty then uri.requireScalar
  return uri

def dismiss (uri : Json) : Handler Unit := do
  change (·.close uri)
  notify "textDocument/publishDiagnostics" (.obj [("uri", uri), ("diagnostics", .arr [])])

theorem didClose_apply (params : Json) (t : Turn) :
    didClose params t = ((liftM (closingOf t.server params) : Handler Json) >>= dismiss) t := by
  simp only [didClose, closingOf, lift_bind_assoc]
  refine lift_bind_congr fun item => lift_bind_congr fun uri => ?_
  simp only [bind_apply, Handler.server]
  cases t.server.documents.isEmpty with
  | true => rfl
  | false =>
    cases uri.requireScalar <;> rfl

/-- The turn in which the new configuration is known, or is asked for, but not yet shown. -/
def configured (params : Json) (t : Turn) : Except Fault Turn :=
  if t.server.asksSettings then
    .ok (t.server.documents.foldl (fun t doc => (t.forget doc.uri).ask doc.uri) t)
  else
    (commonSettings params).map fun settings => { t with server := { t.server with settings } }

theorem each_askAgain_apply (docs : List Document) (t : Turn) :
    each askAgain docs t =
      (.ok (), docs.foldl (fun t doc => (t.forget doc.uri).ask doc.uri) t) := by
  induction docs generalizing t with
  | nil => rfl
  | cons doc docs ih =>
    have hask : askAgain doc t = (.ok (), (t.forget doc.uri).ask doc.uri) :=
      askForSettings_apply doc _
    simp only [each, bind_apply, hask, ih, List.foldl_cons]

theorem sameTexts_configured {t u : Turn} (h : configured params t = .ok u) :
    SameTexts t.server.documents u.server.documents := by
  rw [configured] at h
  split at h
  · have hsame := (each_askAgain t.server.documents t).2.1
    rw [each_askAgain_apply] at hsame
    rwa [← Except.ok.inj h]
  · cases hc : commonSettings params with
    | error e => simp [hc, Except.map] at h
    | ok settings =>
      obtain rfl : _ = u := Except.ok.inj (by simpa only [hc, Except.map] using h)
      rfl

def republish (u : Turn) : Handler Unit := fun _ => each publish u.server.documents u

theorem didChangeConfiguration_apply (params : Json) (t : Turn) :
    didChangeConfiguration params t =
      ((liftM (configured params t) : Handler Turn) >>= republish) t := by
  simp only [didChangeConfiguration, configured, bind_apply, Handler.server]
  by_cases h : t.server.asksSettings = true
  · simp only [if_pos h, bind_apply, each_askAgain_apply, Handler.server, liftM_apply]
    rfl
  · simp only [if_neg h, bind_apply, liftM_apply]
    cases commonSettings params <;> rfl

theorem commonSettings_eq_error_iff {params : Json} :
    commonSettings params = .error e ↔ params.isObject = false ∧ e = .notAnObject := by
  cases params with
  | obj fields =>
    simp only [commonSettings, Json.field?, bind, Except.bind, Json.isObject, Bool.true_eq_false,
      false_and, iff_false]
    intro h
    split at h <;> cases h
  | _ => exact ⟨fun h => ⟨rfl, (Except.error.inj h).symm⟩, fun h => h.2 ▸ rfl⟩

theorem configured_eq_error_iff {params : Json} :
    configured params t = .error e ↔
      t.server.asksSettings = false ∧ params.isObject = false ∧ e = .notAnObject := by
  rw [configured]
  split
  · next ha => simp [ha]
  · next ha =>
    rw [← commonSettings_eq_error_iff]
    cases commonSettings params with
    | error e' => simp [Except.map, ha]
    | ok settings => simp [Except.map]

end Session

end LittleMan
