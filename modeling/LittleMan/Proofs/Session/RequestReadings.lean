import LittleMan.Proofs.Proposals
import LittleMan.Proofs.Protocol.ActionEdits
import LittleMan.Proofs.Session.Readings

/-! How a request for actions, or for what is at a position, can fail to be read. A fix itself cannot fail
for a diagnostic on a line of the text. Each action comes from one of the returned diagnostics, or is a
template. -/

namespace LittleMan

open Json

variable {α : Type} {e : Fault}

theorem QuickFix.exists_of_mem_actions {s : Source} {records : List Record} {labels : LabelTable}
    {d : Diagnostic} {as : List Action} {x : Action} (h : actions s records labels d = .ok as)
    (hx : x ∈ as) :
    ∃ fs, fixes s records labels d = .ok fs ∧
      ∃ f ∈ fs, x = { title := f.1, uri := s.name, edits := [f.2], diagnostics := [d] } := by
  cases hfixes : fixes s records labels d with
  | error e => simp [actions, hfixes, Except.map] at h
  | ok fs =>
    simp only [actions, hfixes, Except.map, Except.ok.injEq] at h
    subst h
    obtain ⟨f, hf, rfl⟩ := List.mem_map.1 hx
    exact ⟨fs, rfl, f, hf, rfl⟩

theorem exists_of_mem_proposeActions {s : Source} {ds : List Diagnostic} {wanted : Span → Bool}
    {as : List Action} {x : Action} (h : proposeActions s none ds wanted = .ok as) (hx : x ∈ as) :
    (∃ d ∈ ds, ∃ here,
      QuickFix.actions s s.records (LabelTable.ofRecords s.records) d = .ok here ∧ x ∈ here) ∨
      x ∈ QuickFix.templateOffers s := by
  obtain ⟨own, hown, h⟩ := bind_eq_ok_iff.1 h
  obtain rfl := Except.ok.inj h
  refine (List.mem_append.1 hx).imp_left fun hx => ?_
  obtain ⟨found, hfound, rfl⟩ := QuickFix.allActions_eq_ok_iff.1 hown
  obtain ⟨here, hhere, hx⟩ := List.mem_flatten.1 hx
  obtain ⟨i, hi, rfl⟩ := List.mem_iff_getElem.1 hhere
  have hlt := hfound.length_eq ▸ hi
  exact ⟨_, (List.mem_filter.1 (List.getElem_mem hlt)).1, _, hfound.get hlt hi, hx⟩

theorem mem_of_mem_proposeActions {s : Source} {ds : List Diagnostic} {wanted : Span → Bool}
    {as : List Action} {x : Action} {d : Diagnostic} (h : proposeActions s none ds wanted = .ok as)
    (hx : x ∈ as) (hd : d ∈ x.diagnostics) : d ∈ ds := by
  rcases exists_of_mem_proposeActions h hx with ⟨d', hd', here, hhere, hx⟩ | hx
  · obtain ⟨fs, -, f, -, rfl⟩ := QuickFix.exists_of_mem_actions hhere hx
    obtain rfl := List.mem_singleton.1 hd
    exact hd'
  · have hnone := (isFor_of_mem_templateOffers [] hx).diagnostics d hd
    cases hnone

theorem QuickFix.nonneg_newLastLine (s : Source) (text : List CodePoint) :
    0 ≤ (newLastLine s text).start.col ∧ 0 ≤ (newLastLine s text).stop.col := by
  have hend : 0 ≤ s.atEnd.start.col := Int.natCast_nonneg _
  unfold newLastLine
  split <;> exact ⟨hend, hend⟩

theorem QuickFix.nonneg_of_mem_createLabel {s : Source} {records : List Record} {labels : LabelTable}
    {d : Diagnostic} {f : Text × Edit} (h : createLabel s records labels d = some f) :
    0 ≤ f.2.start.col ∧ 0 ≤ f.2.stop.col := by
  unfold createLabel at h
  dsimp only at h
  split at h
  · cases h
  · split at h
    · split at h
      · obtain rfl := Option.some.inj h
        exact ⟨Int.le_refl 0, Int.le_refl 0⟩
      · obtain rfl := Option.some.inj h
        exact nonneg_newLastLine s _
    · obtain rfl := Option.some.inj h
      exact nonneg_newLastLine s _

theorem QuickFix.nonneg_of_mem_fixes {s : Source} {records : List Record} {labels : LabelTable}
    {d : Diagnostic} {fs : List (Text × Edit)} {f : Text × Edit} (hd : d.Returnable s)
    (h : fixes s records labels d = .ok fs) (hf : f ∈ fs) :
    0 ≤ f.2.start.col ∧ 0 ≤ f.2.stop.col := by
  have hreplace : ∀ text, 0 ≤ (replacement d text).start.col ∧ 0 ≤ (replacement d text).stop.col :=
    fun _ => ⟨hd.col, hd.stopCol⟩
  unfold fixes at h
  split at h
  · obtain rfl := Except.ok.inj h
    obtain rfl := List.mem_singleton.1 hf
    exact hreplace _
  · obtain rfl := Except.ok.inj h
    split at hf
    · obtain rfl := List.mem_singleton.1 hf
      exact ⟨hd.stopCol, hd.stopCol⟩
    · cases hf
  · obtain rfl := Except.ok.inj h
    obtain rfl := List.mem_singleton.1 hf
    exact hreplace _
  · obtain rfl := Except.ok.inj h
    obtain rfl := List.mem_singleton.1 hf
    exact hreplace _
  · obtain rfl := Except.ok.inj h
    obtain rfl := List.mem_singleton.1 hf
    exact hreplace _
  · obtain rfl := Except.ok.inj h
    exact nonneg_of_mem_createLabel (Option.mem_toList.1 hf)
  · obtain rfl := Except.ok.inj h
    exact nonneg_of_mem_createLabel (Option.mem_toList.1 hf)
  · split at h
    · obtain ⟨chosen, -, h⟩ := bind_eq_ok_iff.1 h
      obtain rfl := Except.ok.inj h
      obtain ⟨m, -, rfl⟩ := List.mem_map.1 hf
      exact hreplace _
    · obtain rfl := Except.ok.inj h
      obtain ⟨m, -, rfl⟩ := List.mem_map.1 hf
      exact hreplace _
  · obtain rfl := Except.ok.inj h
    cases hf
  · obtain rfl := Except.ok.inj h
    cases hf

theorem isCounted_of_mem_proposeActions {s : Source} {ds : List Diagnostic} {wanted : Span → Bool}
    {as : List Action} {x : Action} (hds : ∀ d ∈ ds, d.Returnable s)
    (h : proposeActions s none ds wanted = .ok as) (hx : x ∈ as) : x.IsCounted := by
  rcases exists_of_mem_proposeActions h hx with ⟨d, hd, here, hhere, hx⟩ | hx
  · obtain ⟨fs, hfs, f, hf, rfl⟩ := QuickFix.exists_of_mem_actions hhere hx
    have hd := hds d hd
    exact ⟨by simpa using ⟨hd.col, hd.stopCol⟩,
      by simpa using QuickFix.nonneg_of_mem_fixes hd hfs hf⟩
  · obtain ⟨e, k, a, b, hedits, he⟩ := (isFor_of_mem_templateOffers [] hx).edit
    refine ⟨fun d hd => ?_, fun e' he' => ?_⟩
    · cases (isFor_of_mem_templateOffers [] hx).diagnostics d hd
    · obtain rfl : e' = e := by simpa [hedits] using he'
      rw [he.start, he.stop]
      exact ⟨Int.natCast_nonneg _, Int.natCast_nonneg _⟩

namespace Session

theorem returned_eq_error_iff {s : Source} {items : List Json} :
    returned s items = .error e ↔ FirstFails (Diagnostic.ofJson? s) items e := by
  induction items with
  | nil => simp [returned, not_firstFails_nil]
  | cons v items ih =>
    rw [returned, bind_eq_error_iff, firstFails_cons_iff, ← ih]
    refine or_congr_right ⟨?_, ?_⟩
    · rintro ⟨d, hd, h⟩
      rcases bind_eq_error_iff.1 h with h | ⟨ds, -, h⟩
      · exact ⟨⟨d, hd⟩, h⟩
      · cases h
    · rintro ⟨⟨d, hd⟩, h⟩
      exact ⟨d, hd, bind_eq_error_iff.2 (Or.inl h)⟩

theorem exists_ofJson?_of_returned {s : Source} {items : List Json} {ds : List Diagnostic}
    {d : Diagnostic} (h : returned s items = .ok ds) (hd : d ∈ ds) :
    ∃ v ∈ items, Diagnostic.ofJson? s v = .ok (some d) := by
  induction items generalizing ds with
  | nil =>
    obtain rfl := Except.ok.inj h
    cases hd
  | cons v items ih =>
    obtain ⟨d?, hv, h⟩ := bind_eq_ok_iff.1 h
    obtain ⟨later, hlater, h⟩ := bind_eq_ok_iff.1 h
    obtain rfl := Except.ok.inj h
    rcases List.mem_append.1 hd with hd | hd
    · obtain rfl := Option.mem_toList.1 hd
      exact ⟨v, List.mem_cons_self, hv⟩
    · obtain ⟨w, hw, hread⟩ := ih hlater hd
      exact ⟨w, List.mem_cons_of_mem v hw, hread⟩

theorem returnable_of_returned {s : Source} {items : List Json} {ds : List Diagnostic}
    (h : returned s items = .ok ds) : ∀ d ∈ ds, d.Returnable s := by
  intro d hd
  obtain ⟨v, -, hv⟩ := exists_ofJson?_of_returned h hd
  exact Diagnostic.returnable_of_ofJson? hv

/-- The diagnostics of a request are looked for in a value that cannot be an object, or are parts of
one that cannot be diagnostics. -/
inductive BadContext (params : Json) : Prop
  | context {v : Json} (h : params.field "context" = .ok v) (he : v.isEmpty = false)
      (ho : v.isObject = false)
  | diagnostics {v w : Json} (h : params.field "context" = .ok v)
      (hw : v.field "diagnostics" = .ok w) (he : w.isEmpty = false)
      (ho : w.isObject = true ∨ ∃ t, w = .str t)

theorem contextItems_of_isEmpty {params v : Json} (hv : params.field? "context" = .ok v)
    (he : v.isEmpty = true) : contextItems params = .ok [] := by
  simp only [contextItems, hv, bind, Except.bind, he, if_true, lookup]
  rfl

theorem contextItems_of_obj {params : Json} {fields : List (Text × Json)}
    (hv : params.field? "context" = .ok (.obj fields)) :
    contextItems params =
      match lookup "diagnostics" fields with
      | none => .ok []
      | some (.arr items) => .ok items
      | some (.str s) => if s = "" then .ok [] else .error .notAnObject
      | some (.obj fs) => if fs.isEmpty then .ok [] else .error .notAnObject
      | some _ => .error .wrongShape := by
  cases fields with
  | nil => exact contextItems_of_isEmpty hv rfl
  | cons f fields =>
    simp only [contextItems, hv, bind, Except.bind, isEmpty, List.isEmpty_cons, Bool.false_eq_true,
      if_false]
    rfl

theorem field_eq_ok_iff {fields : List (Text × Json)} {key : Text} {v : Json} :
    (Json.obj fields).field key = .ok v ↔ lookup key fields = some v := by
  rw [Json.field]
  cases lookup key fields <;> simp

theorem badContext_iff {params v : Json} (h : params.field "context" = .ok v) :
    BadContext params ↔ v.isEmpty = false ∧ v.isObject = false ∨
      ∃ w, v.field "diagnostics" = .ok w ∧ w.isEmpty = false ∧
        (w.isObject = true ∨ ∃ t, w = .str t) := by
  constructor
  · intro hb
    cases hb with
    | context h' he ho =>
      obtain rfl := Except.ok.inj (h.symm.trans h')
      exact Or.inl ⟨he, ho⟩
    | diagnostics h' hw he ho =>
      obtain rfl := Except.ok.inj (h.symm.trans h')
      exact Or.inr ⟨_, hw, he, ho⟩
  · rintro (⟨he, ho⟩ | ⟨w, hw, he, ho⟩)
    · exact .context h he ho
    · exact .diagnostics h hw he ho

theorem contextItems_of_not_obj {params v : Json} (hv : params.field? "context" = .ok v)
    (ho : v.isObject = false) :
    contextItems params = if v.isEmpty then .ok [] else .error .notAnObject := by
  cases he : v.isEmpty with
  | true => exact contextItems_of_isEmpty hv he
  | false =>
    simp only [contextItems, hv, bind, Except.bind, he, Bool.false_eq_true, if_false]
    cases v with
    | obj => cases ho
    | _ => rfl

theorem contextItems_eq_error_iff {params : Json} (hp : params.isObject = true) (he : Grave e) :
    contextItems params = .error e ↔ e = .notAnObject ∧ BadContext params := by
  cases params with
  | obj fields =>
    cases hl : lookup "context" fields with
    | none =>
      have hv : (Json.obj fields).field? "context" = .ok .null := by simp [Json.field?, hl]
      rw [contextItems_of_isEmpty hv rfl]
      refine ⟨by simp, ?_⟩
      rintro ⟨-, ⟨h, -, -⟩ | ⟨h, -, -, -⟩⟩ <;> simp [field_eq_ok_iff, hl] at h
    | some v =>
      have hv : (Json.obj fields).field? "context" = .ok v := by simp [Json.field?, hl]
      rw [badContext_iff (field_eq_ok_iff.2 hl)]
      cases ho : v.isObject with
      | false =>
        have hno : ∀ w, v.field "diagnostics" ≠ .ok w := by
          intro w hw
          rw [isObject_of_field hw] at ho
          cases ho
        rw [contextItems_of_not_obj hv ho]
        cases hempty : v.isEmpty with
        | true => simp [hno]
        | false => exact ⟨fun h => ⟨(Except.error.inj h).symm, Or.inl ⟨rfl, rfl⟩⟩, fun h => h.1 ▸ rfl⟩
      | true =>
        obtain ⟨fs, rfl⟩ := exists_of_isObject ho
        have hgrave : .wrongShape ≠ e := by
          rintro rfl
          cases he
        rw [contextItems_of_obj hv]
        simp only [field_eq_ok_iff, Bool.true_eq_false, and_false, false_or]
        cases lookup "diagnostics" fs with
        | none => simp
        | some w =>
          cases w with
          | str t =>
            by_cases ht : t = ""
            · simp [ht, isEmpty]
            · simp only [if_neg ht]
              refine ⟨fun h => ⟨(Except.error.inj h).symm, _, rfl, ?_, Or.inr ⟨t, rfl⟩⟩,
                fun h => h.1 ▸ rfl⟩
              simpa [isEmpty] using ht
          | obj fs' =>
            cases fs' with
            | nil => simp [isEmpty]
            | cons f fs' =>
              exact ⟨fun h => ⟨(Except.error.inj h).symm, _, rfl, rfl, Or.inl rfl⟩, fun h => h.1 ▸ rfl⟩
          | arr items => simp [isObject]
          | _ => simp [isObject, hgrave]
  | _ => cases hp

theorem contextItems_eq_ok_iff {params : Json} {items : List Json} (hp : params.isObject = true)
    (hne : items ≠ []) :
    contextItems params = .ok items ↔
      ∃ v, params.field "context" = .ok v ∧ v.field "diagnostics" = .ok (.arr items) := by
  cases params with
  | obj fields =>
    cases hl : lookup "context" fields with
    | none =>
      have hv : (Json.obj fields).field? "context" = .ok .null := by simp [Json.field?, hl]
      rw [contextItems_of_isEmpty hv rfl]
      simp [field_eq_ok_iff, hl, hne]
    | some v =>
      have hv : (Json.obj fields).field? "context" = .ok v := by simp [Json.field?, hl]
      simp only [field_eq_ok_iff, hl, Option.some.injEq, exists_eq_left']
      cases ho : v.isObject with
      | false =>
        have hno : v.field "diagnostics" ≠ .ok (.arr items) := by
          intro hw
          rw [isObject_of_field hw] at ho
          cases ho
        rw [contextItems_of_not_obj hv ho]
        cases v.isEmpty <;> simp [hno, hne.symm]
      | true =>
        obtain ⟨fs, rfl⟩ := exists_of_isObject ho
        rw [contextItems_of_obj hv, field_eq_ok_iff]
        cases lookup "diagnostics" fs with
        | none => simp [hne.symm]
        | some w =>
          cases w with
          | str t => by_cases ht : t = "" <;> simp [ht, hne.symm]
          | obj fs' => by_cases hf : fs' = [] <;> simp [hf, hne.symm]
          | _ => simp
  | _ => cases hp

theorem mild_requestedRange (s : Source) (params : Json) : Mild (requestedRange s params) := by
  unfold requestedRange
  split
  · split
    · exact (Point.mild_rangeOfJson _).map _
    · exact mild_ok _
  · exact mild_ok _

theorem exists_fixes_of_hasLine {s : Source} {d : Diagnostic} (records : List Record)
    (labels : LabelTable) (h : s.hasLine d.span.line = true) :
    ∃ fs, QuickFix.fixes s records labels d = .ok fs := by
  have hline : 0 ≤ d.span.line ∧ d.span.line < s.lines.length := by simpa [Source.hasLine] using h
  obtain ⟨k, hk⟩ := Int.eq_ofNat_of_zero_le hline.1
  have hlt : k < s.lines.length := by omega
  obtain ⟨text, htext⟩ := exists_textAt hk hlt
  unfold QuickFix.fixes
  cases d.kind with
  | invalidInstruction =>
    cases QuickFix.proposed d with
    | nil => exact ⟨_, by simp only [htext]; rfl⟩
    | cons m ms => exact ⟨_, rfl⟩
  | _ => exact ⟨_, rfl⟩

theorem exists_proposeActions_of_hasLine {s : Source} {ds : List Diagnostic} (wanted : Span → Bool)
    (h : ∀ d ∈ ds, s.hasLine d.span.line = true) :
    ∃ actions, proposeActions s none ds wanted = .ok actions := by
  have hall : ∀ d ∈ ds.filter fun d => QuickFix.isOwn d && wanted d.span,
      ∃ as, QuickFix.actions s s.records (LabelTable.ofRecords s.records) d = .ok as ∧
        ∀ x ∈ as, True := by
    intro d hd
    obtain ⟨fs, hfs⟩ := exists_fixes_of_hasLine s.records
      (LabelTable.ofRecords s.records) (h d (List.mem_filter.1 hd).1)
    exact ⟨_, by rw [QuickFix.actions, hfs]; rfl, fun _ _ => trivial⟩
  obtain ⟨as, has, -⟩ := exists_allActions hall
  exact ⟨as ++ QuickFix.templateOffers s, by simp only [proposeActions, Option.getD_none, has]; rfl⟩

/-- A request for actions that ends the session. -/
inductive BreaksActions (s : Source) (params : Json) : Fault → Prop
  | context (h : BadContext params) : BreaksActions s params .notAnObject
  | diagnostic {context v : Json} {before after : List Json} {e : Fault}
      (hc : params.field "context" = .ok context)
      (hd : context.field "diagnostics" = .ok (.arr (before ++ v :: after)))
      (hb : ∀ x ∈ before, ∃ d, Diagnostic.ofJson? s x = .ok d) (hv : Diagnostic.Breaks s v e) :
      BreaksActions s params e

theorem codeActions_eq_error_iff {s : Source} {params : Json} (hp : params.isObject = true)
    (he : Grave e) : codeActions s params = .error e ↔ BreaksActions s params e := by
  have hread : codeActions s params = .error e ↔ contextItems params = .error e ∨
      ∃ items, contextItems params = .ok items ∧ returned s items = .error e := by
    rw [codeActions, bind_eq_error_iff]
    refine or_congr_right (exists_congr fun items => and_congr_right fun _ => ?_)
    rw [bind_eq_error_iff]
    refine or_iff_left ?_
    rintro ⟨found, hfound, h⟩
    obtain ⟨range, -, h⟩ := ((mild_requestedRange s params).bind_eq_error_iff he).1 h
    obtain ⟨as, has⟩ := exists_proposeActions_of_hasLine (fun span => range.all span.touchesRange)
      fun d hd => (returnable_of_returned hfound d hd).line
    rw [has] at h
    cases h
  rw [hread, contextItems_eq_error_iff hp he]
  constructor
  · rintro (⟨rfl, h⟩ | ⟨items, hitems, h⟩)
    · exact .context h
    · obtain ⟨before, v, after, rfl, hb, hv⟩ := returned_eq_error_iff.1 h
      obtain ⟨context, hc, hd⟩ := (contextItems_eq_ok_iff hp (by simp)).1 hitems
      exact .diagnostic hc hd hb ((Diagnostic.ofJson?_eq_error_iff he).1 hv)
  · intro h
    cases h with
    | context h => exact Or.inl ⟨rfl, h⟩
    | diagnostic hc hd hb hv =>
      refine Or.inr ⟨_, (contextItems_eq_ok_iff hp (by simp)).2 ⟨_, hc, hd⟩, ?_⟩
      exact returned_eq_error_iff.2 ⟨_, _, _, rfl, hb, (Diagnostic.ofJson?_eq_error_iff he).2 hv⟩

theorem exists_returned_of_codeActions {s : Source} {params : Json} {as : List Action}
    (h : codeActions s params = .ok as) :
    ∃ ds wanted, (∀ d ∈ ds, d.Returnable s) ∧ proposeActions s none ds wanted = .ok as := by
  obtain ⟨items, -, h⟩ := bind_eq_ok_iff.1 h
  obtain ⟨ds, hds, h⟩ := bind_eq_ok_iff.1 h
  obtain ⟨range, -, h⟩ := bind_eq_ok_iff.1 h
  exact ⟨ds, _, returnable_of_returned hds, h⟩

theorem actionItems_of_codeActions {s : Source} {params : Json} {as : List Action}
    (h : codeActions s params = .ok as) :
    actionItems s params =
      if ∀ x ∈ as, x.IsWritable s then .ok (as.map (·.written s)) else .error .loneSurrogate := by
  obtain ⟨ds, wanted, hds, hpropose⟩ := exists_returned_of_codeActions h
  rw [actionItems, h]
  exact mapM_eq_ite fun x hx => (isCounted_of_mem_proposeActions hds hpropose hx).toJson_eq

/-- A request for actions that cannot be answered. -/
inductive BreaksItems (s : Source) (params : Json) : Fault → Prop
  | reading {e : Fault} (h : BreaksActions s params e) : BreaksItems s params e
  | writing {as : List Action} {x : Action} (h : codeActions s params = .ok as) (hx : x ∈ as)
      (hw : ¬ x.IsWritable s) : BreaksItems s params .loneSurrogate

theorem actionItems_eq_error_iff {s : Source} {params : Json} (hp : params.isObject = true)
    (he : Grave e) : actionItems s params = .error e ↔ BreaksItems s params e := by
  cases hcode : codeActions s params with
  | error e' =>
    have hitems : actionItems s params = .error e' := by
      rw [actionItems, hcode]
      rfl
    have hread := codeActions_eq_error_iff (s := s) hp he
    rw [hcode, Except.error.injEq] at hread
    rw [hitems, Except.error.injEq, hread]
    refine ⟨.reading, fun h => ?_⟩
    cases h with
    | reading h => exact h
    | writing h => rw [hcode] at h; cases h
  | ok as =>
    rw [actionItems_of_codeActions hcode]
    constructor
    · intro h
      split at h
      · cases h
      · next hall =>
        obtain rfl := Except.error.inj h
        obtain ⟨x, hx, hw⟩ := not_forall₂.1 hall
        exact .writing hcode hx hw
    · intro h
      cases h with
      | reading h => rw [(codeActions_eq_error_iff hp he).2 h] at hcode; cases hcode
      | writing h hx hw =>
        obtain rfl := Except.ok.inj (h.symm.trans hcode)
        exact if_neg fun hall => hw (hall _ hx)

theorem nth?_eq_none_iff {xs : List α} {n : Int} (h : n < xs.length) :
    nth? xs n = none ↔ n < -(xs.length : Int) := by
  unfold nth?
  split
  · rw [List.getElem?_eq_none_iff]
    omega
  · split
    · rw [List.getElem?_eq_none_iff]
      omega
    · simp
      omega

theorem hoverAt_eq_error_iff {s : Source} {position : Json} (he : Grave e) :
    hoverAt s position = .error e ↔
      e = .outOfRange ∧
        ∃ n : Int, position.field "line" = .ok (.int n) ∧ n < -(s.lines.length : Int) := by
  rw [hoverAt, (mild_field _ _).bind_eq_error_iff he]
  simp only [(mild_number _).bind_eq_error_iff he]
  constructor
  · rintro ⟨given, hgiven, line, hline, h⟩
    split at h
    · cases h
    · next hle =>
      cases line with
      | real x =>
        obtain rfl := Except.error.inj h
        cases he
      | whole n =>
        have hlt : n < s.lines.length := by
          rw [Number.le_whole] at hle
          omega
        cases hnth : nth? s.lines n with
        | none =>
          simp only [hnth] at h
          obtain rfl := Except.error.inj h
          have hneg := (nth?_eq_none_iff hlt).1 hnth
          refine ⟨rfl, n, ?_, hneg⟩
          cases given with
          | int k =>
            obtain rfl : k = n := by simpa [Json.number, Json.number?] using hline
            exact hgiven
          | bool b =>
            have hb : (if b then 1 else 0 : Int) = n := by
              simpa [Json.number, Json.number?] using hline
            cases b <;> simp at hb <;> omega
          | _ => simp [Json.number, Json.number?] at hline
        | some text =>
          simp only [hnth, (mild_field _ _).bind_eq_error_iff he,
            (mild_number _).bind_eq_error_iff he] at h
          obtain ⟨_, -, _, -, h⟩ := h
          split at h
          · split at h
            · split at h <;> cases h
            · cases h
          · cases h
  · rintro ⟨rfl, n, hline, hneg⟩
    refine ⟨_, hline, .whole n, rfl, ?_⟩
    have hle : ¬ (Number.whole s.lines.length).le (.whole n) = true := by
      rw [Number.le_whole]
      omega
    have hnth : nth? s.lines n = none := (nth?_eq_none_iff (by omega)).2 hneg
    simp only [hle, hnth, Bool.false_eq_true, if_false]
    rfl

theorem isEncodable_mnemonic (m : Mnemonic) : IsEncodable m.text := by
  cases m <;> decide

theorem exists_statement_of_hoverAt {s : Source} {position : Json} {m : Mnemonic} {span : Span}
    (h : hoverAt s position = .ok (some (m, span))) :
    ∃ n text st, nth? s.lines n = some text ∧ Statement.read? text = some st ∧
      st.mnemonic.text = m.text ∧ span = st.mnemonic.span n := by
  obtain ⟨given, -, h⟩ := bind_eq_ok_iff.1 h
  obtain ⟨line, -, h⟩ := bind_eq_ok_iff.1 h
  split at h
  · cases h
  · cases line with
    | real x => cases h
    | whole n =>
      cases hnth : nth? s.lines n with
      | none =>
        simp only [hnth] at h
        cases h
      | some text =>
        simp only [hnth] at h
        obtain ⟨character, -, h⟩ := bind_eq_ok_iff.1 h
        obtain ⟨units, -, h⟩ := bind_eq_ok_iff.1 h
        cases hst : Statement.read? text with
        | none =>
          simp only [hst] at h
          cases h
        | some st =>
          simp only [hst] at h
          split at h
          · next m' hm =>
            split at h
            · obtain ⟨rfl, rfl⟩ := Prod.mk.inj (Option.some.inj (Except.ok.inj h))
              exact ⟨n, text, st, hnth, hst, (Mnemonic.ofText?_eq_some_iff.1 hm).symm, rfl⟩
            · cases h
          · cases h

/-- All of a line up to the end of its mnemonic has an encoding. A line before the first has no columns. -/
theorem toJson_of_hoverAt {s : Source} {position : Json} {m : Mnemonic} {span : Span}
    (h : hoverAt s position = .ok (some (m, span))) (asTruth : Bool) :
    span.toJson s asTruth = .ok (rangeWritten s span.start span.stop asTruth) := by
  obtain ⟨n, text, st, hnth, hst, hm, rfl⟩ := exists_statement_of_hoverAt h
  have hwritable : (st.mnemonic.span n).start.IsWritable s ∧ (st.mnemonic.span n).stop.IsWritable s := by
    by_cases hn : 0 ≤ n
    · have htext : s.columnText n = text := by
        rw [nth?, if_pos hn] at hnth
        simp [Source.columnText, hn, hnth]
      have hfollows : st.mnemonic.FollowsAscii (s.columnText n) :=
        htext ▸ Statement.followsAscii_of_read? hst (by simp [Statement.words])
      rw [hfollows.isWritable_iff, hm]
      exact isEncodable_mnemonic m
    · have htext : s.columnText n = [] := if_neg hn
      constructor
      · simp [Position.IsWritable, Span.start, Word.span, htext, IsEncodable]
      · simp [Position.IsWritable, Span.stop, Word.span, htext, IsEncodable]
  have hstart : 0 ≤ (st.mnemonic.span n).start.col := Int.natCast_nonneg _
  have hstop : 0 ≤ (st.mnemonic.span n).stop.col := Int.natCast_nonneg _
  rw [Span.toJson, rangeJson_eq hstart hstop, if_pos hwritable]

end Session

end LittleMan
