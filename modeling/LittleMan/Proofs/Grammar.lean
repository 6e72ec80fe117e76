import LittleMan.Record
import Mathlib.Data.List.TakeWhile

/-! What a line is read as, in terms of its parts: blanks, a label, three capital letters, an operand
and the rest. The first half reads a line off its parts, the second half finds the parts of a line. -/

namespace LittleMan

theorem takeWhile_append_of_stop {p : CodePoint → Bool} {s t : List CodePoint} (hs : ∀ c ∈ s, p c = true)
    (ht : ∀ c ∈ t.head?, p c = false) : (s ++ t).takeWhile p = s := by
  rw [List.takeWhile_append_of_pos hs]
  cases t with
  | nil => simp
  | cons c t => simp [ht c rfl]

theorem dropWhile_append_of_stop {p : CodePoint → Bool} {s t : List CodePoint} (hs : ∀ c ∈ s, p c = true)
    (ht : ∀ c ∈ t.head?, p c = false) : (s ++ t).dropWhile p = t := by
  rw [List.dropWhile_append_of_pos hs]
  cases t with
  | nil => simp
  | cons c t => simp [ht c rfl]

theorem head?_dropWhile_false {p : CodePoint → Bool} {s : List CodePoint} :
    ∀ c ∈ (s.dropWhile p).head?, p c = false := by
  intro c hc
  have hh := List.head?_dropWhile_not p s
  rw [Option.mem_def.1 hc] at hh
  simpa using hh

theorem isWord_of_isUpper {c : CodePoint} (h : c.isUpper = true) : isWord c = true :=
  (isWord_iff c).2 (Or.inl h)

theorem isWord_of_isAlpha {c : CodePoint} (h : c.isAlpha = true) : isWord c = true := by
  simp [isWord, CodePoint.isAlphanum, h]

theorem not_isSpace_of_isWord {c : CodePoint} (h : isWord c = true) : isSpace c = false := by
  by_contra hs
  have hw := not_isWord_of_isSpace (by simpa using hs)
  simp [hw] at h

theorem all_isWord_of_isIdentifier {name : List CodePoint} (h : isIdentifier name = true) :
    ∀ c ∈ name, isWord c = true := by
  cases name with
  | nil => simp
  | cons c name =>
    simp only [isIdentifier, Bool.and_eq_true, List.all_eq_true] at h
    intro d hd
    rcases List.mem_cons.1 hd with rfl | hd
    · exact isWord_of_isAlpha h.1
    · exact h.2 d hd

theorem not_isBlank_of_isUpper {c : CodePoint} (h : c.isUpper = true) : isBlank c = false := by
  rw [CodePoint.isUpper_iff] at h
  rw [Bool.eq_false_iff]
  intro hb
  simp only [isBlank, blankRanges, List.any_cons, List.any_nil, Bool.or_eq_true, Bool.and_eq_true,
    decide_eq_true_eq, Bool.false_eq_true, or_false] at hb
  omega

def IsComment (t : List CodePoint) : Prop := ∀ c ∈ t.head?, c = ';'

theorem codePart_append {code comment : List CodePoint} (hcode : .scalar ';' ∉ code)
    (hc : IsComment comment) : codePart (code ++ comment) = code := by
  refine takeWhile_append_of_stop ?_ ?_
  · intro c hm
    have hne : c ≠ ';' := fun he => hcode (he ▸ hm)
    simpa using hne
  · intro c hm
    simp [hc c hm]

theorem exists_comment (line : List CodePoint) :
    ∃ comment, line = codePart line ++ comment ∧ IsComment comment ∧ .scalar ';' ∉ codePart line := by
  refine ⟨line.dropWhile (· != .scalar ';'), List.takeWhile_append_dropWhile.symm, ?_, ?_⟩
  · intro c hc
    simpa using head?_dropWhile_false c hc
  · intro hm
    simpa using List.mem_takeWhile_imp hm

namespace Statement

theorem operand?_eq_some {gap word tail : List CodePoint} (col : Nat) (hne : gap ≠ [])
    (hgap : ∀ c ∈ gap, isSpace c = true) (hwne : word ≠ [])
    (hword : ∀ c ∈ word, isSpace c = false) (htail : ∀ c ∈ tail.head?, isSpace c = true) :
    operand? col (gap ++ (word ++ tail)) = some ⟨col + gap.length, word⟩ := by
  have hstop : ∀ c ∈ (word ++ tail).head?, isSpace c = false := by
    intro c hc
    rw [List.head?_append, Option.or_of_isSome (List.isSome_head?.2 hwne)] at hc
    exact hword c (List.mem_of_mem_head? hc)
  have htake := takeWhile_append_of_stop hgap hstop
  have hdrop := dropWhile_append_of_stop hgap hstop
  have hw : (word ++ tail).takeWhile (!isSpace ·) = word :=
    takeWhile_append_of_stop (by simpa using hword) (by simpa using htail)
  simp [operand?, htake, hdrop, hw, hne, hwne]

theorem instruction?_eq_some {blanks rest : List CodePoint} {a b c : CodePoint} (col : Nat)
    (hb : ∀ x ∈ blanks, isSpace x = true) (hu : a.isUpper && b.isUpper && c.isUpper)
    (hr : ∀ x ∈ rest.head?, isWord x = false) :
    instruction? col (blanks ++ a :: b :: c :: rest) =
      some (⟨col + blanks.length, [a, b, c]⟩, operand? (col + blanks.length + 3) rest) := by
  have ha : a.isUpper = true := by
    simp only [Bool.and_eq_true] at hu
    exact hu.1.1
  have hstop : ∀ x ∈ (a :: b :: c :: rest).head?, isSpace x = false := by
    intro x hx
    obtain rfl : a = x := by simpa using hx
    exact not_isSpace_of_isWord (isWord_of_isUpper ha)
  have hrest : rest.head?.any isWord = false := by
    cases rest with
    | nil => rfl
    | cons x rest => simp [hr x rfl]
  simp [instruction?, takeWhile_append_of_stop hb hstop, dropWhile_append_of_stop hb hstop,
    hu, hrest]

theorem label?_append (name rest : List CodePoint) {c : CodePoint} (hn : ∀ x ∈ name, isWord x = true)
    (hc : isWord c = false) :
    label? (name ++ c :: rest) =
      if isIdentifier name && isSpace c && (Mnemonic.ofText? name).isNone then
        some (⟨0, name⟩, c :: rest)
      else none := by
  have hstop : ∀ x ∈ (c :: rest).head?, isWord x = false := by
    intro x hx
    obtain rfl : c = x := by simpa using hx
    exact hc
  simp only [label?, takeWhile_append_of_stop hn hstop, dropWhile_append_of_stop hn hstop,
    List.head?_cons, Option.any_some]

theorem exists_of_operand? {col : Nat} {rest : List CodePoint} {w : Word}
    (h : operand? col rest = some w) :
    ∃ gap tail, rest = gap ++ (w.text ++ tail) ∧ w.col = col + gap.length ∧ gap ≠ [] ∧
      (∀ c ∈ gap, isSpace c = true) ∧ w.text ≠ [] ∧ (∀ c ∈ w.text, isSpace c = false) ∧
      ∀ c ∈ tail.head?, isSpace c = true := by
  simp only [operand?, Bool.or_eq_true, List.isEmpty_iff] at h
  split at h
  · simp at h
  · next hne =>
    simp only [not_or] at hne
    obtain rfl := Option.some.inj h
    refine ⟨rest.takeWhile isSpace, (rest.dropWhile isSpace).dropWhile (!isSpace ·), ?_, rfl,
      hne.1, fun c hc => List.mem_takeWhile_imp hc, hne.2, ?_, ?_⟩
    · rw [List.takeWhile_append_dropWhile, List.takeWhile_append_dropWhile]
    · intro c hc
      simpa using List.mem_takeWhile_imp hc
    · intro c hc
      simpa using head?_dropWhile_false c hc

theorem exists_of_instruction? {col : Nat} {code : List CodePoint} {m : Word} {o : Option Word}
    (h : instruction? col code = some (m, o)) :
    ∃ blanks a b c rest, code = blanks ++ a :: b :: c :: rest ∧
      m = ⟨col + blanks.length, [a, b, c]⟩ ∧ o = operand? (col + blanks.length + 3) rest ∧
      (∀ x ∈ blanks, isSpace x = true) ∧ (a.isUpper && b.isUpper && c.isUpper) = true ∧
      ∀ x ∈ rest.head?, isWord x = false := by
  have hcode : code = code.takeWhile isSpace ++ code.dropWhile isSpace :=
    List.takeWhile_append_dropWhile.symm
  simp only [instruction?] at h
  split at h
  · next a b c rest hd =>
    split at h
    · next hc =>
      simp only [Bool.and_eq_true, Bool.not_eq_true'] at hc
      obtain ⟨rfl, rfl⟩ := Prod.mk.inj (Option.some.inj h)
      refine ⟨code.takeWhile isSpace, a, b, c, rest, hd ▸ hcode, rfl, rfl,
        fun x hx => List.mem_takeWhile_imp hx, by simp [hc.1], ?_⟩
      intro x hx
      have hr := hc.2
      rw [Option.mem_def.1 hx] at hr
      exact hr
    · simp at h
  · simp at h

theorem exists_of_label? {code rest : List CodePoint} {w : Word} (h : label? code = some (w, rest)) :
    ∃ c tail, rest = c :: tail ∧ code = w.text ++ rest ∧ w.col = 0 ∧ isSpace c = true ∧
      isIdentifier w.text = true ∧ Mnemonic.ofText? w.text = none := by
  have hcode : code = code.takeWhile isWord ++ code.dropWhile isWord :=
    List.takeWhile_append_dropWhile.symm
  simp only [label?] at h
  split at h
  · next hc =>
    simp only [Bool.and_eq_true, Option.isNone_iff_eq_none] at hc
    obtain ⟨rfl, rfl⟩ := Prod.mk.inj (Option.some.inj h)
    cases hd : code.dropWhile isWord with
    | nil => simp [hd] at hc
    | cons c tail =>
      refine ⟨c, tail, rfl, hd ▸ hcode, rfl, ?_, hc.1.1, hc.2⟩
      simpa [hd] using hc.1.2
  · simp at h

theorem labelled?_eq_some {name rest : List CodePoint} {c : CodePoint} {m : Word} {o : Option Word}
    (hid : isIdentifier name = true) (hm : Mnemonic.ofText? name = none) (hc : isSpace c = true)
    (hi : instruction? name.length (c :: rest) = some (m, o)) :
    labelled? (name ++ c :: rest) = some ⟨some ⟨0, name⟩, m, o⟩ := by
  have hl := label?_append name rest (all_isWord_of_isIdentifier hid) (not_isWord_of_isSpace hc)
  simp only [hid, hc, hm, Option.isNone_none, Bool.and_self, if_true] at hl
  simp only [labelled?, hl, hi, Option.map_some]

theorem read?_of_labelled {code comment : List CodePoint} {st : Statement} (hsemi : .scalar ';' ∉ code)
    (hc : IsComment comment) (h : labelled? code = some st) : read? (code ++ comment) = some st := by
  simp only [read?, codePart_append hsemi hc, h]

theorem exists_upper_of_instruction? {col : Nat} {code : List CodePoint} {m : Word} {o : Option Word}
    (h : instruction? col code = some (m, o)) : ∃ c ∈ code, c.isUpper = true := by
  obtain ⟨blanks, a, b, c, rest, rfl, -, -, -, hu, -⟩ := exists_of_instruction? h
  simp only [Bool.and_eq_true] at hu
  exact ⟨a, by simp, hu.1.1⟩

theorem exists_upper_of_read? {line : List CodePoint} {st : Statement} (h : read? line = some st) :
    ∃ c ∈ line, c.isUpper = true := by
  suffices hcode : ∃ c ∈ codePart line, c.isUpper = true by
    obtain ⟨c, hc, hu⟩ := hcode
    exact ⟨c, (List.takeWhile_sublist _).subset hc, hu⟩
  simp only [read?] at h
  cases hl : labelled? (codePart line) with
  | none =>
    simp only [hl, Option.map_eq_some_iff, Prod.exists] at h
    obtain ⟨m, o, hi, -⟩ := h
    exact exists_upper_of_instruction? hi
  | some s =>
    simp only [labelled?] at hl
    split at hl
    · next label rest hlab =>
      obtain ⟨p, hi, -⟩ := Option.map_eq_some_iff.1 hl
      obtain ⟨c, hc, hu⟩ := exists_upper_of_instruction? hi
      obtain ⟨-, -, -, hcode, -⟩ := exists_of_label? hlab
      exact ⟨c, by rw [hcode]; exact List.mem_append_right _ hc, hu⟩
    · simp at hl

end Statement

end LittleMan
