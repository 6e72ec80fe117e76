import LittleMan.Proofs.LineGrammar
import Mathlib.Tactic.Tauto

/-! Where the words of a line stand, and what the line says with another text in the place of one of them. A
line without a label must not gain one, which could only be the word before its operand. -/

namespace LittleMan

variable {code label gap mnemonic rest operand tail v : List CodePoint}
  {label' gap' mnemonic' rest' : List CodePoint}

/-- A line that starts with an instruction can have no label but the mnemonic itself. -/
theorem IsLabelled.eq_mnemonic (hl : IsLabelled (gap ++ (mnemonic ++ rest)) label gap' mnemonic' rest')
    (h : IsInstruction gap mnemonic rest) :
    label = mnemonic ∧ gap' ++ (mnemonic' ++ rest') = rest := by
  have hcode := hl.code
  have hword := all_isWord_of_isIdentifier hl.identifier
  cases hg : gap with
  | nil =>
    rw [hg, List.nil_append] at hcode
    obtain ⟨heq, hrest⟩ := append_inj_of_stop hcode
      (fun c hc => isWord_of_isUpper (h.upper c hc)) h.boundary hword hl.not_isWord_head
    exact ⟨heq.symm, hrest.symm⟩
  | cons c gap =>
    have hc := h.gap c (by simp [hg])
    cases hn : label with
    | nil =>
      have hid := hl.identifier
      simp [hn, isIdentifier] at hid
    | cons x label =>
      rw [hg, hn] at hcode
      have hx := hword x (by simp [hn])
      rw [← (List.cons.inj hcode).1, not_isWord_of_isSpace hc] at hx
      cases hx

theorem Statement.read?_append_of_reading {comment : List CodePoint} {st : Statement}
    (hsemi : .scalar ';' ∉ code) (hc : IsComment comment) (h : LineReading code (some st)) :
    Statement.read? (code ++ comment) = some st := by
  apply read?_eq_of_reading
  rwa [codePart_append hsemi hc]

section mnemonics

theorem Mnemonic.isUpper_of_mem_text (m : Mnemonic) : ∀ c ∈ m.text, c.isUpper = true := by
  have hall : m.text.all CodePoint.isUpper = true := by cases m <;> rfl
  exact List.all_eq_true.1 hall

theorem Mnemonic.not_mem_text (m : Mnemonic) {c : CodePoint} (hc : c.isUpper = false) : c ∉ m.text := by
  intro hm
  rw [m.isUpper_of_mem_text c hm] at hc
  cases hc

theorem IsInstruction.with_mnemonic (h : IsInstruction gap mnemonic rest) (m : Mnemonic) :
    IsInstruction gap m.text rest where
  gap := h.gap
  length := by cases m <;> rfl
  upper := m.isUpper_of_mem_text
  boundary := h.boundary

theorem IsInstruction.not_isLabelled_with_mnemonic (h : IsInstruction gap mnemonic rest) (m : Mnemonic) :
    ¬ IsLabelled (gap ++ (m.text ++ rest)) label' gap' mnemonic' rest' := by
  intro hl
  obtain ⟨heq, -⟩ := hl.eq_mnemonic (h.with_mnemonic m)
  exact hl.no_mnemonic m heq

namespace Statement

def withMnemonic (st : Statement) (m : Mnemonic) : Statement :=
  { st with mnemonic := ⟨st.mnemonic.col, m.text⟩ }

/-- Where the mnemonic of a line stands, and what the line says with another one in its place. -/
theorem exists_mnemonic_place {line : List CodePoint} {st : Statement} (h : read? line = some st) :
    ∃ head tail, line = head ++ (st.mnemonic.text ++ tail) ∧ st.mnemonic.col = head.length ∧
      ∀ m : Mnemonic, read? (head ++ (m.text ++ tail)) = some (st.withMnemonic m) := by
  obtain ⟨comment, hline, hcomment, hsemi⟩ := exists_comment line
  have hread := lineReading_read? line
  rw [h] at hread
  generalize codePart line = code at hline hsemi hread
  cases hread with
  | @labelled label gap mnemonic rest operand hl ho =>
    rw [hl.code] at hline hsemi
    refine ⟨label ++ gap, rest ++ comment, ?_, by simp, fun m => ?_⟩
    · rw [hline]
      simp only [List.append_assoc]
    · have hl' : IsLabelled (label ++ (gap ++ (m.text ++ rest))) label gap m.text rest :=
        ⟨rfl, hl.identifier, hl.no_mnemonic, hl.gap_ne_nil, hl.instruction.with_mnemonic m⟩
      have hcode : .scalar ';' ∉ label ++ (gap ++ (m.text ++ rest)) := by
        have htext := m.not_mem_text (c := .scalar ';') (by decide)
        simp only [List.mem_append, not_or] at hsemi ⊢
        tauto
      have hst := read?_append_of_reading hcode hcomment (.labelled hl' ho)
      simpa only [List.append_assoc, withMnemonic] using hst
  | @unlabelled gap mnemonic rest operand hno hu ho =>
    rw [hu.code] at hline hsemi
    refine ⟨gap, rest ++ comment, ?_, rfl, fun m => ?_⟩
    · rw [hline]
      simp only [List.append_assoc]
    · have hu' : IsUnlabelled (gap ++ (m.text ++ rest)) gap m.text rest :=
        ⟨rfl, hu.instruction.with_mnemonic m⟩
      have hcode : .scalar ';' ∉ gap ++ (m.text ++ rest) := by
        have htext := m.not_mem_text (c := .scalar ';') (by decide)
        simp only [List.mem_append, not_or] at hsemi ⊢
        tauto
      have hst := read?_append_of_reading hcode hcomment
        (.unlabelled (fun _ _ _ _ => hu.instruction.not_isLabelled_with_mnemonic m) hu' ho)
      simpa only [List.append_assoc, withMnemonic] using hst

end Statement

end mnemonics

section operands

/-- What can stand in the place of an operand and starts no instruction. -/
structure Statement.IsFiller (v : List CodePoint) : Prop where
  ne_nil : v ≠ []
  not_space : ∀ c ∈ v, isSpace c = false
  no_comment : .scalar ';' ∉ v
  not_upper : ∀ c ∈ v.head?, c.isUpper = false

theorem IsOperand.with_filler (h : IsOperand rest gap operand tail) (hv : Statement.IsFiller v) :
    IsOperand (gap ++ (v ++ tail)) gap v tail :=
  ⟨rfl, h.gap_ne_nil, h.gap, hv.ne_nil, hv.not_space, h.boundary⟩

theorem IsInstruction.with_operand (h : IsInstruction gap mnemonic rest)
    (ho : IsOperand rest' gap' operand tail) : IsInstruction gap mnemonic rest' where
  gap := h.gap
  length := h.length
  upper := h.upper
  boundary := by
    rw [ho.rest]
    exact head?_append_of_ne_nil _ ho.gap_ne_nil fun c hc => not_isWord_of_isSpace (ho.gap c hc)

theorem IsInstruction.not_isLabelled_with_filler (h : IsInstruction gap mnemonic rest)
    (ho : IsOperand rest gap' v tail) (hv : Statement.IsFiller v) {label gap'' : List CodePoint} :
    ¬ IsLabelled (gap ++ (mnemonic ++ rest)) label gap'' mnemonic' rest' := by
  intro hl
  obtain ⟨-, hrest⟩ := hl.eq_mnemonic h
  have hinstr := hl.instruction
  obtain ⟨-, hword⟩ := append_inj_of_stop (hrest.trans ho.rest) hinstr.gap hinstr.not_isSpace_head
    ho.gap (head?_append_of_ne_nil tail hv.ne_nil hv.not_space)
  obtain ⟨x, m, rfl⟩ := List.exists_cons_of_ne_nil hinstr.mnemonic_ne_nil
  obtain ⟨c, v, rfl⟩ := List.exists_cons_of_ne_nil hv.ne_nil
  have hx := hinstr.upper x List.mem_cons_self
  rw [(List.cons.inj hword).1, hv.not_upper c rfl] at hx
  cases hx

/-- The parts of a line with an operand, and how it is read with another one in its place. -/
theorem Statement.exists_operand_place {line : List CodePoint} {st : Statement} {w : Word}
    (h : read? line = some st) (hw : st.operand = some w) :
    ∃ head tail, line = head ++ (w.text ++ tail) ∧ w.col = head.length ∧
      ∀ v, IsFiller v →
        read? (head ++ (v ++ tail)) = some { st with operand := some ⟨w.col, v⟩ } := by
  obtain ⟨comment, hline, hcomment, hsemi⟩ := exists_comment line
  have hread := lineReading_read? line
  rw [h] at hread
  generalize codePart line = code at hline hsemi hread
  cases hread with
  | @labelled label gap mnemonic rest operand hl ho =>
    obtain rfl : operand = some w := hw
    obtain @⟨gap', operand, tail, ho⟩ := ho
    rw [hl.code, ho.rest] at hline hsemi
    refine ⟨label ++ (gap ++ (mnemonic ++ gap')), tail ++ comment, ?_, ?_, fun v hv => ?_⟩
    · rw [hline]
      simp only [List.append_assoc]
    · simp only [List.length_append, hl.instruction.length]
      omega
    · have ho' := ho.with_filler hv
      have hl' : IsLabelled (label ++ (gap ++ (mnemonic ++ (gap' ++ (v ++ tail))))) label gap mnemonic
          (gap' ++ (v ++ tail)) :=
        ⟨rfl, hl.identifier, hl.no_mnemonic, hl.gap_ne_nil, hl.instruction.with_operand ho'⟩
      have hcode : .scalar ';' ∉ label ++ (gap ++ (mnemonic ++ (gap' ++ (v ++ tail)))) := by
        have hnc := hv.no_comment
        simp only [List.mem_append, not_or] at hsemi ⊢
        tauto
      have hst := read?_append_of_reading hcode hcomment (.labelled hl' (.word ho'))
      simpa only [List.append_assoc] using hst
  | @unlabelled gap mnemonic rest operand hno hu ho =>
    obtain rfl : operand = some w := hw
    obtain @⟨gap', operand, tail, ho⟩ := ho
    rw [hu.code, ho.rest] at hline hsemi
    refine ⟨gap ++ (mnemonic ++ gap'), tail ++ comment, ?_, ?_, fun v hv => ?_⟩
    · rw [hline]
      simp only [List.append_assoc]
    · simp only [List.length_append, hu.instruction.length]
      omega
    · have ho' := ho.with_filler hv
      have hu' : IsUnlabelled (gap ++ (mnemonic ++ (gap' ++ (v ++ tail)))) gap mnemonic
          (gap' ++ (v ++ tail)) := ⟨rfl, hu.instruction.with_operand ho'⟩
      have hcode : .scalar ';' ∉ gap ++ (mnemonic ++ (gap' ++ (v ++ tail))) := by
        have hnc := hv.no_comment
        simp only [List.mem_append, not_or] at hsemi ⊢
        tauto
      have hst := read?_append_of_reading hcode hcomment (.unlabelled
        (fun _ _ _ _ => hu'.instruction.not_isLabelled_with_filler ho' hv) hu' (.word ho'))
      simpa only [List.append_assoc] using hst

end operands

end LittleMan
