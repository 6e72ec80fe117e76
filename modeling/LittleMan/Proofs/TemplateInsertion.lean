import LittleMan.Proofs.LineBreaks

/-! Templates for blank documents. A text of white space of any kind gets all templates, in order, and any
other text gets none. A template is put before the white space, whose lines say nothing, so the program that
results is that of the template, and nothing is wrong with it. -/

namespace LittleMan

/-- The characters with the Unicode property White_Space, and the four information separators. -/
def whiteSpace : List CodePoint :=
  ['\t', '\n', '\x0b', '\x0c', '\r', '\x1c', '\x1d', '\x1e', '\x1f', ' ', '\u0085', '\u00a0', '\u1680',
    '\u2000', '\u2001', '\u2002', '\u2003', '\u2004', '\u2005', '\u2006', '\u2007', '\u2008', '\u2009',
    '\u200a', '\u2028', '\u2029', '\u202f', '\u205f', '\u3000']

theorem isBlank_iff_mem {c : CodePoint} : isBlank c = true ↔ c ∈ whiteSpace := by
  have hnumber : c ∈ whiteSpace ↔ c.toNat ∈ whiteSpace.map CodePoint.toNat :=
    (List.mem_map_of_injective fun _ _ => CodePoint.toNat_inj.1).symm
  have hnumbers : whiteSpace.map CodePoint.toNat =
      [0x9, 0xa, 0xb, 0xc, 0xd, 0x1c, 0x1d, 0x1e, 0x1f, 0x20, 0x85, 0xa0, 0x1680, 0x2000, 0x2001, 0x2002,
        0x2003, 0x2004, 0x2005, 0x2006, 0x2007, 0x2008, 0x2009, 0x200a, 0x2028, 0x2029, 0x202f, 0x205f,
        0x3000] := by decide
  rw [hnumber, hnumbers]
  simp only [isBlank, blankRanges, List.any_cons, List.any_nil, Bool.or_eq_true, Bool.and_eq_true,
    decide_eq_true_eq, Bool.false_eq_true, or_false, List.mem_cons, List.not_mem_nil]
  omega

theorem Source.isBlank_iff {s : Source} : s.isBlank = true ↔ ∀ c ∈ s.text, c ∈ whiteSpace := by
  simp only [isBlank, List.all_eq_true, isBlank_iff_mem]

theorem Statement.read?_of_blank {line : List CodePoint} (h : ∀ c ∈ line, isBlank c = true) :
    read? line = none := by
  cases hread : read? line with
  | none => rfl
  | some st =>
    obtain ⟨c, hc, hu⟩ := exists_upper_of_read? hread
    have hblank := h c hc
    rw [not_isBlank_of_isUpper hu] at hblank
    cases hblank

theorem readRecords_of_unread {lines : List (List CodePoint)}
    (h : ∀ line ∈ lines, Statement.read? line = none) (n : Nat) : readRecords n lines = [] := by
  induction lines generalizing n with
  | nil => rfl
  | cons line lines ih =>
    rw [readRecords, h line List.mem_cons_self]
    exact ih (fun l hl => h l (List.mem_cons_of_mem _ hl)) (n + 1)

theorem readRecords_of_blank {t : List CodePoint} (h : t.all isBlank = true) (n : Nat) :
    readRecords n (linesOf t) = [] := by
  rw [← all_linesOf (by decide) (by decide), List.all_eq_true] at h
  exact readRecords_of_unread (fun line hl => Statement.read?_of_blank (List.all_eq_true.1 (h line hl))) n

namespace Template

/-- No line of the template holds a break. -/
def HasWholeLines (t : Template) : Prop :=
  ∀ line ∈ t.lines, .scalar '\r' ∉ line.toList ∧ .scalar '\n' ∉ line.toList

instance (t : Template) : Decidable t.HasWholeLines :=
  inferInstanceAs (Decidable (∀ line ∈ t.lines, .scalar '\r' ∉ line.toList ∧ .scalar '\n' ∉ line.toList))

theorem linesOf_text_append {t : Template} (h : t.HasWholeLines) (u : List CodePoint) :
    linesOf (t.text ++ u) = t.lines.map Text.toList ++ linesOf u := by
  obtain ⟨name, lines⟩ := t
  unfold HasWholeLines at h
  unfold text
  induction lines with
  | nil => rfl
  | cons line lines ih =>
    have hline := h line List.mem_cons_self
    rw [List.flatMap_cons, List.append_assoc, List.append_assoc, List.singleton_append,
      linesOf_line_newline hline.1 hline.2, ih fun l hl => h l (List.mem_cons_of_mem _ hl)]
    rfl

theorem records_append {t : Template} (h : t.HasWholeLines) {u : List CodePoint}
    (hu : u.all LittleMan.isBlank = true) (n : Nat) :
    readRecords n (linesOf (t.text ++ u)) = readRecords n (t.lines.map Text.toList) := by
  rw [linesOf_text_append h, readRecords_append, readRecords_of_blank hu, List.append_nil]

theorem hasWholeLines_of_mem : ∀ t ∈ all, t.HasWholeLines := by decide +kernel

theorem clean_of_mem : ∀ t ∈ all,
    (analyze (Source.named none t.text)).toOption.map (·.diagnostics) = some [] := by decide +kernel

end Template

/-- The action puts a template in front of a text, and what it makes of the text has the records of the
template and nothing wrong with it. -/
structure Action.Inserts (action : Action) (s : Source) (t : Template) : Prop where
  title : action.title = "Insert template: " ++ t.name
  uri : action.uri = s.name
  diagnostics : action.diagnostics = []
  edits : ∃ edit, action.edits = [edit] ∧ edit.textAfter s = some (t.text ++ s.text)
  records : (s.withText (t.text ++ s.text)).records = (Source.named none t.text).records
  clean : ∃ a, analyze (s.withText (t.text ++ s.text)) = .ok a ∧ a.diagnostics = []

section

variable {s : Source} {t : Template}

theorem Source.offset?_zero (s : Source) : s.offset? ⟨0, 0⟩ = some 0 := by
  cases hlines : s.lines with
  | nil => exact absurd hlines s.lines_ne_nil
  | cons line lines => simp [offset?, lineStart?, hlines]

theorem Edit.textAfter_insert_zero (s : Source) (t : List CodePoint) :
    (insert ⟨0, 0⟩ t).textAfter s = some (t ++ s.text) := by
  simp [textAfter, insert, Source.offset?_zero]

theorem records_of_inserted (ht : t ∈ Template.all) (hblank : s.isBlank = true) :
    (s.withText (t.text ++ s.text)).records = (Source.named none t.text).records := by
  have hwhole := Template.hasWholeLines_of_mem t ht
  have halone := Template.records_append (u := []) hwhole rfl 0
  rw [List.append_nil] at halone
  exact (Template.records_append hwhole hblank 0).trans halone.symm

theorem analyze_of_records_eq {s' : Source} (h : s'.records = s.records) : analyze s' = analyze s := by
  simp only [analyze, analyzeAfter, h]

theorem clean_of_inserted (ht : t ∈ Template.all) (hblank : s.isBlank = true) :
    ∃ a, analyze (s.withText (t.text ++ s.text)) = .ok a ∧ a.diagnostics = [] := by
  have hclean := Template.clean_of_mem t ht
  rw [analyze_of_records_eq (records_of_inserted ht hblank)]
  cases ha : analyze (Source.named none t.text) with
  | error e => simp [ha, Except.toOption] at hclean
  | ok a => exact ⟨a, rfl, by simpa [ha, Except.toOption] using hclean⟩

theorem proposeActions_nil (s : Source) (wanted : Span → Bool) :
    proposeActions s none [] wanted = .ok (QuickFix.templateOffers s) := by
  simp [proposeActions, QuickFix.allActions, bind, Except.bind, pure, Except.pure]

/-- Without diagnostics the actions are the templates, for texts of white space only. -/
theorem inserts_of_whiteSpace (s : Source) (wanted : Span → Bool) :
    ∃ actions, proposeActions s none [] wanted = .ok actions ∧
      (actions ≠ [] ↔ ∀ c ∈ s.text, c ∈ whiteSpace) ∧
      (actions = [] ∨ List.Forall₂ (fun t action => action.Inserts s t) Template.all actions) := by
  refine ⟨_, proposeActions_nil s wanted, ?_⟩
  rw [← Source.isBlank_iff, QuickFix.templateOffers]
  cases hblank : s.isBlank with
  | false => simp
  | true =>
    simp only [if_true, iff_true]
    refine ⟨by simp [Template.all], Or.inr ?_⟩
    rw [List.forall₂_map_right_iff]
    exact List.forall₂_same.2 fun t ht =>
      { title := rfl
        uri := rfl
        diagnostics := rfl
        edits := ⟨_, rfl, Edit.textAfter_insert_zero s t.text⟩
        records := records_of_inserted ht hblank
        clean := clean_of_inserted ht hblank }

end

end LittleMan
