import LittleMan.Proofs.Session.ActionRequests

/-! Two requests that word the returned diagnostics differently. What is read from them differs in the
messages and in candidates that are no mnemonics, of which no action is made, so both runs propose the
same edits under the same titles, or fail alike. -/

namespace LittleMan

/-- Two runs succeed with related results, or fail alike. -/
inductive Alike {α β : Type} (R : α → β → Prop) : Except Fault α → Except Fault β → Prop
  | ok {a : α} {b : β} (h : R a b) : Alike R (.ok a) (.ok b)
  | error (e : Fault) : Alike R (.error e) (.error e)

namespace Alike

variable {α β γ δ : Type} {R : α → β → Prop} {S : γ → δ → Prop}

theorem refl {R : α → α → Prop} (h : ∀ a, R a a) (x : Except Fault α) : Alike R x x := by
  cases x with
  | error e => exact .error e
  | ok a => exact .ok (h a)

theorem bind {x : Except Fault α} {y : Except Fault β} {f : α → Except Fault γ}
    {g : β → Except Fault δ} (h : Alike R x y) (hfg : ∀ a b, R a b → Alike S (f a) (g b)) :
    Alike S (x >>= f) (y >>= g) := by
  cases h with
  | ok h => exact hfg _ _ h
  | error e => exact .error e

end Alike

/-- The diagnostics differ in what no action is made of. -/
structure Diagnostic.FixesAlike (d d' : Diagnostic) : Prop where
  kind : d'.kind = d.kind
  span : d'.span = d.span
  token : d'.token = d.token
  source : d'.source = d.source
  lineAsTruth : d'.lineAsTruth = d.lineAsTruth
  proposed : QuickFix.proposed d' = QuickFix.proposed d

theorem Diagnostic.FixesAlike.refl (d : Diagnostic) : d.FixesAlike d :=
  ⟨rfl, rfl, rfl, rfl, rfl, rfl⟩

/-- The actions differ in nothing but the wording of the diagnostics that they are for. -/
structure Action.SameEdits (x x' : Action) : Prop where
  title : x'.title = x.title
  uri : x'.uri = x.uri
  edits : x'.edits = x.edits
  diagnostics : List.Forall₂ Diagnostic.FixesAlike x.diagnostics x'.diagnostics

theorem Action.SameEdits.refl (x : Action) : x.SameEdits x :=
  ⟨rfl, rfl, rfl, List.forall₂_same.2 fun d _ => Diagnostic.FixesAlike.refl d⟩

section

variable {s : Source} {records : List Record} {labels : LabelTable} {d d' : Diagnostic}
variable {ds ds' : List Diagnostic}

theorem QuickFix.fixes_eq_of_fixesAlike (h : d.FixesAlike d') :
    fixes s records labels d' = fixes s records labels d := by
  simp only [fixes, createLabel, replacement, addition, h.kind, h.span, h.token, h.lineAsTruth,
    h.proposed]

theorem QuickFix.actions_alike (h : d.FixesAlike d') :
    Alike (List.Forall₂ Action.SameEdits) (actions s records labels d)
      (actions s records labels d') := by
  rw [actions, actions, fixes_eq_of_fixesAlike h]
  cases fixes s records labels d with
  | error e => exact .error e
  | ok fs =>
    refine .ok ?_
    rw [List.forall₂_map_left_iff, List.forall₂_map_right_iff, List.forall₂_same]
    exact fun f _ => ⟨rfl, rfl, rfl, .cons h .nil⟩

theorem QuickFix.allActions_alike (h : List.Forall₂ Diagnostic.FixesAlike ds ds') :
    Alike (List.Forall₂ Action.SameEdits) (allActions s records labels ds)
      (allActions s records labels ds') := by
  induction h with
  | nil => exact .ok .nil
  | cons hd _ ih =>
    exact (actions_alike hd).bind fun _ _ hhere => ih.bind fun _ _ hlater =>
      .ok (List.rel_append hhere hlater)

theorem proposeActions_alike (wanted : Span → Bool)
    (h : List.Forall₂ Diagnostic.FixesAlike ds ds') :
    Alike (List.Forall₂ Action.SameEdits) (proposeActions s none ds wanted)
      (proposeActions s none ds' wanted) := by
  have hfilter : List.Forall₂ Diagnostic.FixesAlike
      (ds.filter fun d => QuickFix.isOwn d && wanted d.span)
      (ds'.filter fun d => QuickFix.isOwn d && wanted d.span) := by
    refine List.rel_filter (fun d d' hd => ?_) h
    simp only [QuickFix.isOwn, hd.source, hd.span]
  refine (QuickFix.allActions_alike hfilter).bind fun _ _ hfound => .ok ?_
  exact List.rel_append hfound (List.forall₂_same.2 fun x _ => Action.SameEdits.refl x)

end

def Json.isMnemonicName : Json → Bool
  | .str name => (Mnemonic.ofText? name.toList).isSome
  | _ => false

/-- Two values for a returned diagnostic that differ in the message, the severity and the data only, and
there propose the same mnemonics. -/
inductive Json.Reworded : Json → Json → Prop
  | refl (v : Json) : Reworded v v
  | wording {fields fields' data data' : List (Text × Json)} {items items' : List Json}
      (hfields : ∀ key : Text, key ≠ "message" → key ≠ "severity" → key ≠ "data" →
        lookup key fields' = lookup key fields)
      (hdata : lookup "data" fields = some (.obj data))
      (hdata' : lookup "data" fields' = some (.obj data'))
      (hitems : lookup "candidates" data = some (.arr items))
      (hitems' : lookup "candidates" data' = some (.arr items'))
      (hnames : items'.filter isMnemonicName = items.filter isMnemonicName) :
      Reworded (.obj fields) (.obj fields')

/-- Two values for the parameters of a request that differ in the wording of diagnostics only. -/
inductive Json.RewordedParams : Json → Json → Prop
  | refl (params : Json) : RewordedParams params params
  | wording {fields fields' context context' : List (Text × Json)} {items items' : List Json}
      (hfields : ∀ key : Text, key ≠ "context" → lookup key fields' = lookup key fields)
      (hcontext : lookup "context" fields = some (.obj context))
      (hcontext' : lookup "context" fields' = some (.obj context'))
      (hitems : lookup "diagnostics" context = some (.arr items))
      (hitems' : lookup "diagnostics" context' = some (.arr items'))
      (hreworded : List.Forall₂ Reworded items items') :
      RewordedParams (.obj fields) (.obj fields')

theorem Json.RewordedParams.field_eq {params params' : Json} (h : RewordedParams params params')
    {key : Text} (hkey : key ≠ "context") : params'.field key = params.field key := by
  cases h with
  | refl => rfl
  | wording hfields => rw [Json.field, Json.field, hfields key hkey]

open Json

theorem QuickFix.proposed_eq_of_filter {d d' : Diagnostic}
    (h : d'.candidates.filter isMnemonicName = d.candidates.filter isMnemonicName) :
    proposed d' = proposed d := by
  have hnames : ∀ d : Diagnostic, proposed d =
      (d.candidates.filter isMnemonicName).filterMap fun
        | .str name => Mnemonic.ofText? name.toList
        | _ => none := by
    intro d
    rw [proposed, List.filterMap_filter]
    refine List.filterMap_congr fun v _ => ?_
    cases v with
    | str name => cases h : Mnemonic.ofText? name.toList <;> simp [isMnemonicName, h]
    | _ => rfl
  rw [hnames, hnames, h]

namespace Diagnostic

theorem rebuild_alike (s : Source) (kind : Kind) {fields fields' : List (Text × Json)}
    (start stop : Point) (hsource : lookup "source" fields' = lookup "source" fields)
    (hnames : (candidatesOf (lookup "data" fields')).filter isMnemonicName =
      (candidatesOf (lookup "data" fields)).filter isMnemonicName) :
    Alike (Option.Rel FixesAlike) (rebuild s kind fields start stop)
      (rebuild s kind fields' start stop) := by
  unfold rebuild
  split
  · split
    · exact .ok .none
    · split
      · refine .ok (.some ⟨rfl, rfl, rfl, ?_, rfl, QuickFix.proposed_eq_of_filter hnames⟩)
        simp only [hsource]
      · exact .error _
      · exact .error _
      · exact .error _
  · exact .ok .none

theorem ofJson?_alike (s : Source) {v v' : Json} (h : Reworded v v') :
    Alike (Option.Rel FixesAlike) (ofJson? s v) (ofJson? s v') := by
  cases h with
  | refl v =>
    refine Alike.refl (fun d? => ?_) _
    cases d? with
    | none => exact .none
    | some d => exact .some (FixesAlike.refl d)
  | @wording fields fields' data data' items items' hfields hdata hdata' hitems hitems' hnames =>
    have hkeys : ∀ key ∈ ["code", "range", "source"],
        lookup (key : String) fields' = lookup key fields := by
      intro key hkey
      simp only [List.mem_cons, List.not_mem_nil, or_false] at hkey
      rcases hkey with rfl | rfl | rfl <;> exact hfields _ (by decide) (by decide) (by decide)
    have hcode := hkeys "code" (by simp)
    have hrange : (Json.obj fields').field "range" = (Json.obj fields).field "range" := by
      rw [Json.field, Json.field, hkeys "range" (by simp)]
    have hcandidates : (candidatesOf (lookup "data" fields')).filter isMnemonicName =
        (candidatesOf (lookup "data" fields)).filter isMnemonicName := by
      simp only [candidatesOf, hdata, hdata', hitems, hitems', hnames]
    simp only [ofJson?, hcode, hrange]
    split
    · exact .ok .none
    · refine (Alike.refl (R := Eq) (fun _ => rfl) _).bind fun range _ heq => ?_
      subst heq
      refine (Alike.refl (R := Eq) (fun _ => rfl) _).bind fun ends _ heq => ?_
      subst heq
      exact rebuild_alike s _ ends.1 ends.2 (hkeys "source" (by simp)) hcandidates

end Diagnostic

namespace Session

variable {params params' : Json} {items items' : List Json}

theorem returned_alike (s : Source) (h : List.Forall₂ Reworded items items') :
    Alike (List.Forall₂ Diagnostic.FixesAlike) (returned s items) (returned s items') := by
  induction h with
  | nil => exact .ok .nil
  | cons hv _ ih =>
    refine (Diagnostic.ofJson?_alike s hv).bind fun d? d?' hd => ih.bind fun _ _ hds => .ok ?_
    cases hd with
    | none => exact hds
    | some hd => exact .cons hd hds

theorem contextItems_alike (h : RewordedParams params params') :
    Alike (List.Forall₂ Reworded) (contextItems params) (contextItems params') := by
  cases h with
  | refl params => exact Alike.refl (fun items => List.forall₂_same.2 fun v _ => .refl v) _
  | wording _ hcontext hcontext' hitems hitems' hreworded =>
    have h : Brings _ _ := ⟨_, field_eq_ok_iff.2 hcontext, field_eq_ok_iff.2 hitems⟩
    have h' : Brings _ _ := ⟨_, field_eq_ok_iff.2 hcontext', field_eq_ok_iff.2 hitems'⟩
    rw [h.contextItems, h'.contextItems]
    exact .ok hreworded

theorem requestedRange_eq_of_reworded (s : Source) (h : RewordedParams params params') :
    requestedRange s params' = requestedRange s params := by
  cases h with
  | refl => rfl
  | wording hfields => simp only [requestedRange, hfields "range" (by decide)]

theorem codeActions_alike (s : Source) (h : RewordedParams params params') :
    Alike (List.Forall₂ Action.SameEdits) (codeActions s params) (codeActions s params') := by
  refine (contextItems_alike h).bind fun items items' hitems => ?_
  refine (returned_alike s hitems).bind fun ds ds' hds => ?_
  rw [requestedRange_eq_of_reworded s h]
  refine (Alike.refl (R := Eq) (fun _ => rfl) _).bind fun range _ heq => ?_
  subst heq
  exact proposeActions_alike _ hds

end Session

end LittleMan
