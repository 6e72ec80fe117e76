import LittleMan.Proofs.Grammar
import Mathlib.Data.List.Basic

/-! The reader of lines against a grammar that only says which parts a line consists of. The reader takes
the longest runs of blanks and of word characters; the grammar has no such rule, but since a character of
one class stops a run of the other, a line has its parts in one way only. -/

namespace LittleMan

/-- Blanks, three capital letters and what follows them, which does not go on with the same word. -/
structure IsInstruction (gap mnemonic rest : List CodePoint) : Prop where
  gap : ∀ c ∈ gap, isSpace c = true
  length : mnemonic.length = 3
  upper : ∀ c ∈ mnemonic, c.isUpper = true
  boundary : ∀ c ∈ rest.head?, isWord c = false

structure IsLabelled (code label gap mnemonic rest : List CodePoint) : Prop where
  code : code = label ++ (gap ++ (mnemonic ++ rest))
  identifier : isIdentifier label = true
  no_mnemonic : ∀ m : Mnemonic, label ≠ m.text
  gap_ne_nil : gap ≠ []
  instruction : IsInstruction gap mnemonic rest

structure IsUnlabelled (code gap mnemonic rest : List CodePoint) : Prop where
  code : code = gap ++ (mnemonic ++ rest)
  instruction : IsInstruction gap mnemonic rest

/-- Blanks, a word without blanks and what follows it after another blank. -/
structure IsOperand (rest gap operand tail : List CodePoint) : Prop where
  rest : rest = gap ++ (operand ++ tail)
  gap_ne_nil : gap ≠ []
  gap : ∀ c ∈ gap, isSpace c = true
  operand_ne_nil : operand ≠ []
  operand : ∀ c ∈ operand, isSpace c = false
  boundary : ∀ c ∈ tail.head?, isSpace c = true

/-- What follows a mnemonic, from column `col` on, has that word as its operand, or has none. -/
inductive OperandReading (col : Nat) (rest : List CodePoint) : Option Word → Prop
  | word {gap operand tail : List CodePoint} (h : IsOperand rest gap operand tail) :
      OperandReading col rest (some ⟨col + gap.length, operand⟩)
  | absent (h : ∀ gap operand tail, ¬ IsOperand rest gap operand tail) : OperandReading col rest none

/-- The code of a line says that, or says nothing. It has a label wherever it can have one. -/
inductive LineReading (code : List CodePoint) : Option Statement → Prop
  | labelled {label gap mnemonic rest : List CodePoint} {operand : Option Word}
      (h : IsLabelled code label gap mnemonic rest)
      (ho : OperandReading (label.length + gap.length + 3) rest operand) :
      LineReading code
        (some ⟨some ⟨0, label⟩, ⟨label.length + gap.length, mnemonic⟩, operand⟩)
  | unlabelled {gap mnemonic rest : List CodePoint} {operand : Option Word}
      (hno : ∀ label gap mnemonic rest, ¬ IsLabelled code label gap mnemonic rest)
      (h : IsUnlabelled code gap mnemonic rest)
      (ho : OperandReading (gap.length + 3) rest operand) :
      LineReading code (some ⟨none, ⟨gap.length, mnemonic⟩, operand⟩)
  | nothing (hno : ∀ label gap mnemonic rest, ¬ IsLabelled code label gap mnemonic rest)
      (hno' : ∀ gap mnemonic rest, ¬ IsUnlabelled code gap mnemonic rest) : LineReading code none

/-- A line is read as the grammar has it, and the grammar has it in one way. -/
structure FollowsGrammar (line : List CodePoint) : Prop where
  code : ∃ comment, line = codePart line ++ comment ∧ IsComment comment ∧ .scalar ';' ∉ codePart line
  reading : ∀ r, Statement.read? line = r ↔ LineReading (codePart line) r
  labelled_unique : ∀ {label gap mnemonic rest label' gap' mnemonic' rest'},
    IsLabelled (codePart line) label gap mnemonic rest →
      IsLabelled (codePart line) label' gap' mnemonic' rest' →
        label = label' ∧ gap = gap' ∧ mnemonic = mnemonic' ∧ rest = rest'
  unlabelled_unique : ∀ {gap mnemonic rest gap' mnemonic' rest'},
    IsUnlabelled (codePart line) gap mnemonic rest →
      IsUnlabelled (codePart line) gap' mnemonic' rest' →
        gap = gap' ∧ mnemonic = mnemonic' ∧ rest = rest'
  operand_unique : ∀ {rest gap operand tail gap' operand' tail'},
    IsOperand rest gap operand tail → IsOperand rest gap' operand' tail' →
      gap = gap' ∧ operand = operand' ∧ tail = tail'

variable {code label gap mnemonic rest operand tail : List CodePoint}
variable {label' gap' mnemonic' rest' operand' tail' : List CodePoint} {col : Nat}

/-- A run of one class that a character outside the class ends is found in one place only. -/
theorem append_inj_of_stop {p : CodePoint → Bool} {s t s' t' : List CodePoint} (h : s ++ t = s' ++ t')
    (hs : ∀ c ∈ s, p c = true) (ht : ∀ c ∈ t.head?, p c = false) (hs' : ∀ c ∈ s', p c = true)
    (ht' : ∀ c ∈ t'.head?, p c = false) : s = s' ∧ t = t' := by
  have hrun : s = s' := by
    rw [← takeWhile_append_of_stop hs ht, h, takeWhile_append_of_stop hs' ht']
  subst hrun
  exact ⟨rfl, List.append_cancel_left h⟩

theorem head?_append_of_ne_nil {p : CodePoint → Bool} {s : List CodePoint} (t : List CodePoint) (hne : s ≠ [])
    (hs : ∀ c ∈ s, p c = false) : ∀ c ∈ (s ++ t).head?, p c = false := by
  intro c hc
  rw [List.head?_append, Option.or_of_isSome (List.isSome_head?.2 hne)] at hc
  exact hs c (List.mem_of_mem_head? hc)

namespace IsInstruction

theorem mnemonic_ne_nil (h : IsInstruction gap mnemonic rest) : mnemonic ≠ [] := by
  intro hnil
  have hlen := h.length
  simp [hnil] at hlen

theorem not_isSpace_head (h : IsInstruction gap mnemonic rest) :
    ∀ c ∈ (mnemonic ++ rest).head?, isSpace c = false :=
  head?_append_of_ne_nil rest h.mnemonic_ne_nil fun c hc =>
    not_isSpace_of_isWord (isWord_of_isUpper (h.upper c hc))

theorem unique (h : IsInstruction gap mnemonic rest) (h' : IsInstruction gap' mnemonic' rest')
    (heq : gap ++ (mnemonic ++ rest) = gap' ++ (mnemonic' ++ rest')) :
    gap = gap' ∧ mnemonic = mnemonic' ∧ rest = rest' := by
  obtain ⟨hgap, hrest⟩ :=
    append_inj_of_stop heq h.gap h.not_isSpace_head h'.gap h'.not_isSpace_head
  have hlen : mnemonic.length = mnemonic'.length := by rw [h.length, h'.length]
  exact ⟨hgap, List.append_inj hrest hlen⟩

theorem instruction?_eq_some (h : IsInstruction gap mnemonic rest) (col : Nat) :
    Statement.instruction? col (gap ++ (mnemonic ++ rest)) =
      some (⟨col + gap.length, mnemonic⟩, Statement.operand? (col + gap.length + 3) rest) := by
  obtain ⟨a, b, c, rfl⟩ := List.length_eq_three.1 h.length
  have hu : (a.isUpper && b.isUpper && c.isUpper) = true := by
    simp [h.upper a (by simp), h.upper b (by simp), h.upper c (by simp)]
  exact Statement.instruction?_eq_some col h.gap hu h.boundary

end IsInstruction

theorem exists_isInstruction {m : Word} {o : Option Word}
    (h : Statement.instruction? col code = some (m, o)) :
    ∃ gap rest, code = gap ++ (m.text ++ rest) ∧ IsInstruction gap m.text rest ∧
      m.col = col + gap.length ∧ o = Statement.operand? (col + gap.length + 3) rest := by
  obtain ⟨gap, a, b, c, rest, hcode, rfl, ho, hgap, hu, hboundary⟩ :=
    Statement.exists_of_instruction? h
  have hupper : ∀ x ∈ [a, b, c], x.isUpper = true := by
    simp only [Bool.and_eq_true] at hu
    simp [hu]
  exact ⟨gap, rest, hcode, ⟨hgap, rfl, hupper, hboundary⟩, rfl, ho⟩

theorem IsOperand.unique (h : IsOperand rest gap operand tail)
    (h' : IsOperand rest gap' operand' tail') : gap = gap' ∧ operand = operand' ∧ tail = tail' := by
  have hword : ∀ c ∈ operand, (!isSpace c) = true := by simpa using h.operand
  have hword' : ∀ c ∈ operand', (!isSpace c) = true := by simpa using h'.operand
  obtain ⟨hgap, hrest⟩ := append_inj_of_stop (h.rest.symm.trans h'.rest) h.gap
    (head?_append_of_ne_nil tail h.operand_ne_nil h.operand) h'.gap
    (head?_append_of_ne_nil tail' h'.operand_ne_nil h'.operand)
  exact ⟨hgap, append_inj_of_stop hrest hword (by simpa using h.boundary) hword'
    (by simpa using h'.boundary)⟩

theorem operandReading_operand? (col : Nat) (rest : List CodePoint) :
    OperandReading col rest (Statement.operand? col rest) := by
  cases h : Statement.operand? col rest with
  | some w =>
    obtain ⟨gap, tail, hrest, hcol, hne, hgap, hwne, hword, htail⟩ := Statement.exists_of_operand? h
    have hw : w = ⟨col + gap.length, w.text⟩ := by rw [← hcol]
    rw [hw]
    exact .word ⟨hrest, hne, hgap, hwne, hword, htail⟩
  | none =>
    refine .absent fun gap operand tail ho => ?_
    have hsome := Statement.operand?_eq_some col ho.gap_ne_nil ho.gap ho.operand_ne_nil ho.operand
      ho.boundary
    rw [← ho.rest, h] at hsome
    cases hsome

theorem operand?_eq_of_reading {o : Option Word} (h : OperandReading col rest o) :
    Statement.operand? col rest = o := by
  cases h with
  | word h =>
    have hsome := Statement.operand?_eq_some col h.gap_ne_nil h.gap h.operand_ne_nil h.operand
      h.boundary
    rwa [← h.rest] at hsome
  | absent hno =>
    have hread := operandReading_operand? col rest
    generalize Statement.operand? col rest = o at hread ⊢
    cases hread with
    | word h => exact absurd h (hno _ _ _)
    | absent => rfl

namespace IsLabelled

theorem not_isWord_head (h : IsLabelled code label gap mnemonic rest) :
    ∀ c ∈ (gap ++ (mnemonic ++ rest)).head?, isWord c = false :=
  head?_append_of_ne_nil _ h.gap_ne_nil fun c hc => not_isWord_of_isSpace (h.instruction.gap c hc)

theorem unique (h : IsLabelled code label gap mnemonic rest)
    (h' : IsLabelled code label' gap' mnemonic' rest') :
    label = label' ∧ gap = gap' ∧ mnemonic = mnemonic' ∧ rest = rest' := by
  obtain ⟨hlabel, hrest⟩ := append_inj_of_stop (h.code.symm.trans h'.code)
    (all_isWord_of_isIdentifier h.identifier) h.not_isWord_head
    (all_isWord_of_isIdentifier h'.identifier) h'.not_isWord_head
  exact ⟨hlabel, h.instruction.unique h'.instruction hrest⟩

theorem labelled?_eq_some (h : IsLabelled code label gap mnemonic rest) :
    Statement.labelled? code =
      some ⟨some ⟨0, label⟩, ⟨label.length + gap.length, mnemonic⟩,
        Statement.operand? (label.length + gap.length + 3) rest⟩ := by
  obtain ⟨c, gap, rfl⟩ := List.exists_cons_of_ne_nil h.gap_ne_nil
  have hm : Mnemonic.ofText? label = none := by
    rw [Option.eq_none_iff_forall_ne_some]
    intro m hm
    exact h.no_mnemonic m (Mnemonic.ofText?_eq_some_iff.1 hm).symm
  rw [h.code]
  exact Statement.labelled?_eq_some h.identifier hm (h.instruction.gap c List.mem_cons_self)
    (h.instruction.instruction?_eq_some label.length)

end IsLabelled

theorem exists_isLabelled {st : Statement} (h : Statement.labelled? code = some st) :
    ∃ label gap mnemonic rest, IsLabelled code label gap mnemonic rest := by
  simp only [Statement.labelled?] at h
  cases hlab : Statement.label? code with
  | none => simp [hlab] at h
  | some p =>
    obtain ⟨label, behind⟩ := p
    simp only [hlab, Option.map_eq_some_iff, Prod.exists] at h
    obtain ⟨m, o, hi, -⟩ := h
    obtain ⟨c, tail, rfl, hcode, -, hc, hid, hm⟩ := Statement.exists_of_label? hlab
    obtain ⟨gap, rest, hbehind, hinstr, -⟩ := exists_isInstruction hi
    have hno : ∀ m : Mnemonic, label.text ≠ m.text := by
      intro m heq
      simp [heq, Mnemonic.ofText?_text] at hm
    have hne : gap ≠ [] := by
      intro hnil
      have hhead := hinstr.not_isSpace_head c
      rw [hnil, List.nil_append] at hbehind
      rw [← hbehind, hc] at hhead
      simp at hhead
    exact ⟨label.text, gap, m.text, rest, hbehind ▸ hcode, hid, hno, hne, hinstr⟩

theorem labelled?_eq_none_iff :
    Statement.labelled? code = none ↔
      ∀ label gap mnemonic rest, ¬ IsLabelled code label gap mnemonic rest := by
  constructor
  · intro hnone label gap mnemonic rest h
    have hsome := h.labelled?_eq_some
    simp [hnone] at hsome
  · intro hno
    rw [Option.eq_none_iff_forall_ne_some]
    intro st hst
    obtain ⟨label, gap, mnemonic, rest, h⟩ := exists_isLabelled hst
    exact hno label gap mnemonic rest h

theorem instruction?_eq_none_iff :
    Statement.instruction? 0 code = none ↔
      ∀ gap mnemonic rest, ¬ IsUnlabelled code gap mnemonic rest := by
  constructor
  · intro hnone gap mnemonic rest h
    have hsome := h.instruction.instruction?_eq_some 0
    rw [← h.code, hnone] at hsome
    cases hsome
  · intro hno
    rw [Option.eq_none_iff_forall_ne_some]
    intro p hp
    obtain ⟨gap, rest, hcode, h, -⟩ := exists_isInstruction hp
    exact hno gap p.1.text rest ⟨hcode, h⟩

theorem read?_eq_of_reading {line : List CodePoint} {r : Option Statement}
    (h : LineReading (codePart line) r) : Statement.read? line = r := by
  simp only [Statement.read?]
  cases h with
  | labelled h ho => rw [h.labelled?_eq_some, operand?_eq_of_reading ho]
  | unlabelled hno h ho =>
    have hsome := h.instruction.instruction?_eq_some 0
    rw [← h.code, Nat.zero_add, operand?_eq_of_reading ho] at hsome
    simp [labelled?_eq_none_iff.2 hno, hsome]
  | nothing hno hno' =>
    simp [labelled?_eq_none_iff.2 hno, instruction?_eq_none_iff.2 hno']

theorem exists_lineReading (code : List CodePoint) : ∃ r, LineReading code r := by
  by_cases hl : ∃ label gap mnemonic rest, IsLabelled code label gap mnemonic rest
  · obtain ⟨label, gap, mnemonic, rest, h⟩ := hl
    exact ⟨_, .labelled h (operandReading_operand? _ rest)⟩
  · have hno : ∀ label gap mnemonic rest, ¬ IsLabelled code label gap mnemonic rest := by
      intro label gap mnemonic rest h
      exact hl ⟨label, gap, mnemonic, rest, h⟩
    by_cases hu : ∃ gap mnemonic rest, IsUnlabelled code gap mnemonic rest
    · obtain ⟨gap, mnemonic, rest, h⟩ := hu
      exact ⟨_, .unlabelled hno h (operandReading_operand? _ rest)⟩
    · exact ⟨none, .nothing hno fun gap mnemonic rest h => hu ⟨gap, mnemonic, rest, h⟩⟩

theorem lineReading_read? (line : List CodePoint) : LineReading (codePart line) (Statement.read? line) := by
  obtain ⟨r, h⟩ := exists_lineReading (codePart line)
  rwa [read?_eq_of_reading h]

/-- Every line is read as the grammar says: with the label, the mnemonic and the operand it gives, each in
its column, or as nothing where the line has no such parts. -/
theorem followsGrammar (line : List CodePoint) : FollowsGrammar line where
  code := exists_comment line
  reading r := by
    constructor
    · intro h
      rw [← h]
      exact lineReading_read? line
    · exact read?_eq_of_reading
  labelled_unique h h' := h.unique h'
  unlabelled_unique h h' := h.instruction.unique h'.instruction (h.code.symm.trans h'.code)
  operand_unique h h' := h.unique h'

end LittleMan
