import LittleMan.Catalog.Distance
import LittleMan.Text.Basic
import Mathlib.Order.MinMax

/-! Words turned into one another by single edits, and the edit distance as the length of the shortest such
script. A script of any order and detours is no shorter than some alignment of the two words, and over
alignments the distances follow the recurrence by which the rows are computed. -/

namespace LittleMan

/-- One character is put in, taken out or replaced. -/
inductive SingleEdit : List CodePoint → List CodePoint → Prop
  | insert (p s : List CodePoint) (c : CodePoint) : SingleEdit (p ++ s) (p ++ c :: s)
  | delete (p s : List CodePoint) (c : CodePoint) : SingleEdit (p ++ c :: s) (p ++ s)
  | replace (p s : List CodePoint) (c d : CodePoint) : SingleEdit (p ++ c :: s) (p ++ d :: s)

/-- So many edits, one after the other, turn a word into another. -/
inductive Script : Nat → List CodePoint → List CodePoint → Prop
  | done (a : List CodePoint) : Script 0 a a
  | edit {n : Nat} {a b c : List CodePoint} (h : SingleEdit a b) (rest : Script n b c) : Script (n + 1) a c

/-- Some script of that many edits turns a word into another, and no shorter one does. -/
structure IsDistance (a b : List CodePoint) (n : Nat) : Prop where
  script : Script n a b
  least : ∀ m, Script m a b → n ≤ m

variable {a b p q : List CodePoint} {c d : CodePoint} {n m : Nat}

theorem SingleEdit.cons (h : SingleEdit a b) (c : CodePoint) : SingleEdit (c :: a) (c :: b) := by
  cases h with
  | insert p s x => exact .insert (c :: p) s x
  | delete p s x => exact .delete (c :: p) s x
  | replace p s x y => exact .replace (c :: p) s x y

theorem SingleEdit.reverse (h : SingleEdit a b) : SingleEdit a.reverse b.reverse := by
  cases h with
  | insert p s x => simpa using SingleEdit.insert s.reverse p.reverse x
  | delete p s x => simpa using SingleEdit.delete s.reverse p.reverse x
  | replace p s x y => simpa using SingleEdit.replace s.reverse p.reverse x y

theorem SingleEdit.length_le (h : SingleEdit a b) :
    a.length ≤ b.length + 1 ∧ b.length ≤ a.length + 1 := by
  cases h <;> simp only [List.length_append, List.length_cons] <;> omega

theorem Script.cons (h : Script n a b) (c : CodePoint) : Script n (c :: a) (c :: b) := by
  induction h with
  | done a => exact .done (c :: a)
  | edit h _ ih => exact .edit (h.cons c) ih

theorem Script.reverse (h : Script n a b) : Script n a.reverse b.reverse := by
  induction h with
  | done a => exact .done a.reverse
  | edit h _ ih => exact .edit h.reverse ih

theorem Script.length_le (h : Script n a b) :
    a.length ≤ b.length + n ∧ b.length ≤ a.length + n := by
  induction h with
  | done a => omega
  | edit h _ ih =>
    have hlen := h.length_le
    omega

/-- Two words written one below the other, and the number of places at which they differ. -/
inductive Aligned : Nat → List CodePoint → List CodePoint → Prop
  | nil : Aligned 0 [] []
  | keep {n : Nat} {a b : List CodePoint} (c : CodePoint) (h : Aligned n a b) : Aligned n (c :: a) (c :: b)
  | replace {n : Nat} {a b : List CodePoint} (c d : CodePoint) (h : Aligned n a b) :
      Aligned (n + 1) (c :: a) (d :: b)
  | insert {n : Nat} {a b : List CodePoint} (d : CodePoint) (h : Aligned n a b) : Aligned (n + 1) a (d :: b)
  | delete {n : Nat} {a b : List CodePoint} (c : CodePoint) (h : Aligned n a b) : Aligned (n + 1) (c :: a) b

namespace Aligned

theorem refl (a : List CodePoint) : Aligned 0 a a := by
  induction a with
  | nil => exact .nil
  | cons c a ih => exact .keep c ih

theorem script (h : Aligned n a b) : Script n a b := by
  induction h with
  | nil => exact .done []
  | keep c _ ih => exact ih.cons c
  | @replace _ a _ c d _ ih => exact .edit (.replace [] a c d) (ih.cons d)
  | @insert _ a _ d _ ih => exact .edit (.insert [] a d) (ih.cons d)
  | @delete _ a _ c _ ih => exact .edit (.delete [] a c) ih

theorem append {x y : List CodePoint} (h : Aligned n a b) (h' : Aligned m x y) :
    Aligned (n + m) (a ++ x) (b ++ y) := by
  induction h with
  | nil => simpa using h'
  | keep c _ ih => exact .keep c ih
  | @replace n _ _ c d _ ih =>
    rw [Nat.add_right_comm]
    exact .replace c d ih
  | insert d _ ih =>
    rw [Nat.add_right_comm]
    exact .insert d ih
  | delete c _ ih =>
    rw [Nat.add_right_comm]
    exact .delete c ih

theorem exists_of_append {x : List CodePoint} (h : Aligned n (p ++ x) b) :
    ∃ i j y z, n = i + j ∧ b = y ++ z ∧ Aligned i p y ∧ Aligned j x z := by
  generalize hw : p ++ x = w at h
  induction h generalizing p with
  | nil =>
    obtain ⟨rfl, rfl⟩ := List.append_eq_nil_iff.1 hw
    exact ⟨0, 0, [], [], rfl, rfl, .nil, .nil⟩
  | @insert n w b d h ih =>
    obtain ⟨i, j, y, z, rfl, rfl, hp, hx⟩ := ih hw
    exact ⟨i + 1, j, d :: y, z, by omega, rfl, .insert d hp, hx⟩
  | @keep n w b c h ih =>
    cases p with
    | nil => exact ⟨0, n, [], c :: b, by omega, rfl, .nil, (show x = c :: w from hw) ▸ .keep c h⟩
    | cons e p =>
      obtain ⟨rfl, hrest⟩ := List.cons.inj hw
      obtain ⟨i, j, y, z, rfl, rfl, hp, hx⟩ := ih hrest
      exact ⟨i, j, e :: y, z, rfl, rfl, .keep e hp, hx⟩
  | @replace n w b c d h ih =>
    cases p with
    | nil =>
      exact ⟨0, n + 1, [], d :: b, by omega, rfl, .nil, (show x = c :: w from hw) ▸ .replace c d h⟩
    | cons e p =>
      obtain ⟨rfl, hrest⟩ := List.cons.inj hw
      obtain ⟨i, j, y, z, rfl, rfl, hp, hx⟩ := ih hrest
      exact ⟨i + 1, j, d :: y, z, by omega, rfl, .replace e d hp, hx⟩
  | @delete n w b c h ih =>
    cases p with
    | nil => exact ⟨0, n + 1, [], b, by omega, rfl, .nil, (show x = c :: w from hw) ▸ .delete c h⟩
    | cons e p =>
      obtain ⟨rfl, hrest⟩ := List.cons.inj hw
      obtain ⟨i, j, y, z, rfl, rfl, hp, hx⟩ := ih hrest
      exact ⟨i + 1, j, y, z, by omega, rfl, .delete e hp, hx⟩

theorem exists_of_head_deleted (h : Aligned n (c :: a) b) : ∃ m, m ≤ n + 1 ∧ Aligned m a b := by
  generalize hw : c :: a = w at h
  induction h with
  | nil => cases hw
  | @keep n w b e h _ =>
    obtain ⟨rfl, rfl⟩ := List.cons.inj hw
    exact ⟨n + 1, by omega, .insert c h⟩
  | @replace n w b e d h _ =>
    obtain ⟨rfl, rfl⟩ := List.cons.inj hw
    exact ⟨n + 1, by omega, .insert d h⟩
  | insert d _ ih =>
    obtain ⟨m, hm, h⟩ := ih hw
    exact ⟨m + 1, by omega, .insert d h⟩
  | @delete n w b e h _ =>
    obtain ⟨rfl, rfl⟩ := List.cons.inj hw
    exact ⟨n, by omega, h⟩

theorem exists_of_head_replaced (h : Aligned n (c :: a) b) (d : CodePoint) :
    ∃ m, m ≤ n + 1 ∧ Aligned m (d :: a) b := by
  generalize hw : c :: a = w at h
  induction h with
  | nil => cases hw
  | @keep n w b e h _ =>
    obtain ⟨rfl, rfl⟩ := List.cons.inj hw
    exact ⟨n + 1, by omega, .replace d c h⟩
  | @replace n w b e x h _ =>
    obtain ⟨rfl, rfl⟩ := List.cons.inj hw
    exact ⟨n + 1, by omega, .replace d x h⟩
  | insert x _ ih =>
    obtain ⟨m, hm, h⟩ := ih hw
    exact ⟨m + 1, by omega, .insert x h⟩
  | @delete n w b e h _ =>
    obtain ⟨rfl, rfl⟩ := List.cons.inj hw
    exact ⟨n + 1, by omega, .delete d h⟩

theorem exists_of_edit {x : List CodePoint} (he : SingleEdit a b) (h : Aligned n b x) :
    ∃ m, m ≤ n + 1 ∧ Aligned m a x := by
  cases he with
  | insert p s c =>
    obtain ⟨i, j, y, z, rfl, rfl, hp, hs⟩ := exists_of_append h
    obtain ⟨m, hm, hs⟩ := exists_of_head_deleted hs
    exact ⟨i + m, by omega, hp.append hs⟩
  | delete p s c =>
    obtain ⟨i, j, y, z, rfl, rfl, hp, hs⟩ := exists_of_append h
    exact ⟨i + (j + 1), by omega, hp.append (.delete c hs)⟩
  | replace p s c d =>
    obtain ⟨i, j, y, z, rfl, rfl, hp, hs⟩ := exists_of_append h
    obtain ⟨m, hm, hs⟩ := exists_of_head_replaced hs c
    exact ⟨i + m, by omega, hp.append hs⟩

end Aligned

theorem Script.exists_aligned (h : Script n a b) : ∃ m, m ≤ n ∧ Aligned m a b := by
  induction h with
  | done a => exact ⟨0, by omega, .refl a⟩
  | edit he _ ih =>
    obtain ⟨m, hm, h⟩ := ih
    obtain ⟨k, hk, h⟩ := Aligned.exists_of_edit he h
    exact ⟨k, by omega, h⟩

namespace IsDistance

theorem reverse (h : IsDistance a b n) : IsDistance a.reverse b.reverse n where
  script := h.script.reverse
  least m hm := by
    have hback := hm.reverse
    rw [List.reverse_reverse, List.reverse_reverse] at hback
    exact h.least m hback

theorem nil_left (b : List CodePoint) : IsDistance [] b b.length where
  script := by
    induction b with
    | nil => exact .done []
    | cons d b ih => exact .edit (.insert [] [] d) (ih.cons d)
  least m hm := by
    have hlen := hm.length_le
    simpa using hlen.2

theorem nil_right (a : List CodePoint) : IsDistance a [] a.length where
  script := by
    induction a with
    | nil => exact .done []
    | cons c a ih => exact .edit (.delete [] a c) ih
  least m hm := by
    have hlen := hm.length_le
    simpa using hlen.1

/-- The distance of two words from those of the words that lack one first character or both. -/
theorem cons {above left diagonal : Nat} (ha : IsDistance a (d :: b) above)
    (hl : IsDistance (c :: a) b left) (hd : IsDistance a b diagonal) :
    IsDistance (c :: a) (d :: b)
      (min (min (above + 1) (left + 1)) (diagonal + if c = d then 0 else 1)) where
  script := by
    have hdelete : Script (above + 1) (c :: a) (d :: b) := .edit (.delete [] a c) ha.script
    have hinsert : Script (left + 1) (c :: a) (d :: b) :=
      .edit (.insert [] (c :: a) d) (hl.script.cons d)
    have hboth : Script (diagonal + if c = d then 0 else 1) (c :: a) (d :: b) := by
      by_cases h : c = d
      · subst h
        simpa using hd.script.cons c
      · rw [if_neg h]
        exact .edit (.replace [] a c d) (hd.script.cons d)
    rcases min_choice (min (above + 1) (left + 1)) (diagonal + if c = d then 0 else 1) with
      hmin | hmin
    · rw [hmin]
      rcases min_choice (above + 1) (left + 1) with hmin | hmin
      · rwa [hmin]
      · rwa [hmin]
    · rwa [hmin]
  least m hm := by
    obtain ⟨k, hk, h⟩ := hm.exists_aligned
    cases h with
    | keep _ h =>
      have hle := hd.least k h.script
      rw [if_pos rfl]
      omega
    | @replace k _ _ _ _ h =>
      have hle := hd.least k h.script
      have hcost : (if c = d then 0 else 1) ≤ 1 := by split <;> omega
      omega
    | @insert k _ _ _ h =>
      have hle := hl.least k h.script
      omega
    | @delete k _ _ _ h =>
      have hle := ha.least k h.script
      omega

/-- The distance of two beginnings from those of the beginnings that are shorter by one. -/
theorem concat {above left diagonal : Nat} (ha : IsDistance p (q ++ [d]) above)
    (hl : IsDistance (p ++ [c]) q left) (hd : IsDistance p q diagonal) :
    IsDistance (p ++ [c]) (q ++ [d])
      (min (min (above + 1) (left + 1)) (diagonal + if c = d then 0 else 1)) := by
  have ha' : IsDistance p.reverse (d :: q.reverse) above := by simpa using ha.reverse
  have hl' : IsDistance (c :: p.reverse) q.reverse left := by simpa using hl.reverse
  have hboth := (ha'.cons hl' hd.reverse).reverse
  simpa using hboth

end IsDistance

/-- The distances of a word to those beginnings of `q ++ b` that are longer than `q`. -/
inductive IsRow (p : List CodePoint) : List CodePoint → List CodePoint → List Nat → Prop
  | nil (q : List CodePoint) : IsRow p q [] []
  | cons {q b : List CodePoint} {d : CodePoint} {n : Nat} {row : List Nat} (h : IsDistance p (q ++ [d]) n)
      (rest : IsRow p (q ++ [d]) b row) : IsRow p q (d :: b) (n :: row)

variable {row : List Nat}

theorem isRow_range' (q b : List CodePoint) : IsRow [] q b (List.range' (q.length + 1) b.length) := by
  induction b generalizing q with
  | nil => exact .nil q
  | cons d b ih =>
    have hhere := IsDistance.nil_left (q ++ [d])
    have hrest := ih (q ++ [d])
    rw [List.length_append, List.length_singleton] at hhere hrest
    rw [List.length_cons, List.range'_succ]
    exact .cons hhere hrest

theorem isRow_nextRow {diagonal left : Nat} (hrow : IsRow p q b row) (hd : IsDistance p q diagonal)
    (hl : IsDistance (p ++ [c]) q left) : IsRow (p ++ [c]) q b (nextRow c b diagonal row left) := by
  induction hrow generalizing diagonal left with
  | nil q => exact .nil q
  | cons h _ ih =>
    have hhere := h.concat hl hd
    exact .cons hhere (ih h hhere)

theorem IsRow.isDistance_getLastD (hrow : IsRow p q b row) (h : IsDistance p q n) :
    IsDistance p (q ++ b) ((n :: row).getLastD 0) := by
  induction hrow generalizing n with
  | nil q => simpa using h
  | @cons q b d m row hm _ ih =>
    have hlast := ih hm
    rw [List.append_assoc] at hlast
    simpa using hlast

/-- The distances of a word to all beginnings of another. -/
def IsWholeRow (p b : List CodePoint) (row : List Nat) : Prop :=
  ∃ rest, row = p.length :: rest ∧ IsRow p [] b rest

theorem isWholeRow_range (b : List CodePoint) : IsWholeRow [] b (List.range (b.length + 1)) := by
  refine ⟨List.range' 1 b.length, ?_, isRow_range' [] b⟩
  rw [List.range_eq_range', List.range'_succ]
  rfl

theorem isWholeRow_stepRow (h : IsWholeRow p b row) (c : CodePoint) :
    IsWholeRow (p ++ [c]) b (stepRow b row c) := by
  obtain ⟨rest, rfl, hrow⟩ := h
  have hfirst := IsDistance.nil_right (p ++ [c])
  rw [List.length_append, List.length_singleton] at hfirst
  refine ⟨nextRow c b p.length rest (p.length + 1), ?_, isRow_nextRow hrow (.nil_right p) hfirst⟩
  rw [stepRow, List.length_append, List.length_singleton]

theorem isWholeRow_foldl (h : IsWholeRow p b row) (a : List CodePoint) :
    IsWholeRow (p ++ a) b (a.foldl (stepRow b) row) := by
  induction a generalizing p row with
  | nil => simpa using h
  | cons c a ih =>
    have hstep := ih (isWholeRow_stepRow h c)
    rw [List.append_assoc] at hstep
    exact hstep

/-- The edit distance is the least number of characters that have to be put in, taken out or replaced to
turn one word into the other. -/
theorem isDistance_editDistance (a b : List CodePoint) : IsDistance a b (editDistance a b) := by
  obtain ⟨rest, heq, hrow⟩ := isWholeRow_foldl (isWholeRow_range b) a
  rw [List.nil_append] at heq hrow
  have hlast := hrow.isDistance_getLastD (.nil_right a)
  rw [List.nil_append] at hlast
  rw [editDistance, heq]
  exact hlast

example : editDistance (Text.toList "SBU") (Text.toList "SUB") = 2 := by decide

end LittleMan
