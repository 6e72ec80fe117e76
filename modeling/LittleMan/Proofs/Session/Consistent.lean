import Mathlib.Data.List.Nodup
import LittleMan.Proofs.Session.Acts

/-! What holds of the documents and the requests of a server at any time: no two documents go by one name,
and the requests that wait were made in the order of their numbers. -/

namespace LittleMan

namespace Json

/-- What a value counts as when it names something: a number goes by its value, if it has one. -/
def key (v : Json) : (Int × Rat) ⊕ Json :=
  match v.number? with
  | some x => if x.isNaN then .inr v else .inl (x.excess, x.value)
  | none => .inr v

theorem eq_float_of_isNaN {v : Json} {x : Number} (h : v.number? = some x) (hx : x.isNaN = true) :
    ∃ r, v = .float r ∧ x = .real r := by
  cases v with
  | bool | int =>
    obtain rfl := Option.some.inj h
    cases hx
  | float r => exact ⟨r, rfl, (Option.some.inj h).symm⟩
  | _ => cases h

theorem same_scalar {a : Json} (ha : a.isScalar = true) (b : Json) :
    a.same b =
      match a.number?, b.number? with
      | some x, some y => x == y || x.same y
      | none, none => a == b
      | _, _ => false := by
  cases a with
  | arr | obj => cases ha
  | _ => cases b <;> simp [same, number?]

theorem same_number_iff {a b : Json} {x y : Number} (hx : a.number? = some x) (hy : b.number? = some y) :
    (x == y || x.same y) = true ↔ a.key = b.key := by
  simp only [key, hx, hy, Number.same, Bool.or_eq_true, beq_iff_eq, Bool.and_eq_true, Bool.not_eq_true',
    decide_eq_true_eq]
  cases hxn : x.isNaN with
  | true =>
    obtain ⟨r, rfl, rfl⟩ := eq_float_of_isNaN hx hxn
    cases hyn : y.isNaN with
    | true =>
      obtain ⟨r', rfl, rfl⟩ := eq_float_of_isNaN hy hyn
      simp
    | false =>
      have hne : Number.real r ≠ y := by
        rintro rfl
        rw [hxn] at hyn
        cases hyn
      simp [hne]
  | false =>
    cases hyn : y.isNaN with
    | true =>
      have hne : x ≠ y := by
        rintro rfl
        rw [hxn] at hyn
        cases hyn
      simp [hne]
    | false =>
      have hvalue : x = y → x.excess = y.excess ∧ x.value = y.value := fun h => h ▸ ⟨rfl, rfl⟩
      simp only [Bool.false_eq_true, if_false, true_and, Sum.inl.injEq, Prod.mk.injEq]
      exact or_iff_right_of_imp hvalue

theorem same_iff_key_eq {a : Json} (ha : a.isScalar = true) (b : Json) :
    a.same b = true ↔ a.key = b.key := by
  rw [same_scalar ha]
  cases hx : a.number? with
  | none =>
    cases hy : b.number? with
    | none => simp [key, hx, hy]
    | some y =>
      have hne : a ≠ b := by
        rintro rfl
        rw [hx] at hy
        cases hy
      by_cases hyn : y.isNaN = true <;> simp [key, hx, hy, hyn, hne]
  | some x =>
    cases hy : b.number? with
    | none =>
      have hne : a ≠ b := by
        rintro rfl
        rw [hx] at hy
        cases hy
      by_cases hxn : x.isNaN = true <;> simp [key, hx, hy, hxn, hne]
    | some y => exact same_number_iff hx hy

theorem same_number_inj {m n : Nat} {id : Json} (hm : same (.int m) id = true)
    (hn : same (.int n) id = true) : m = n := by
  have hkey : key (.int m) = key (.int n) :=
    ((same_iff_key_eq rfl id).1 hm).trans ((same_iff_key_eq rfl id).1 hn).symm
  simp only [key, number?, Number.isNaN, Number.excess, Number.value, Bool.false_eq_true, if_false,
    Sum.inl.injEq, Prod.mk.injEq, true_and] at hkey
  exact_mod_cast hkey

theorem isScalar_of_same_number {n : Nat} {id : Json} (h : same (.int n) id = true) :
    id.isScalar = true := by
  cases id <;> first | rfl | simp [same, number?] at h

end Json

namespace Server

def keys (docs : List Document) : List ((Int × Rat) ⊕ Json) := docs.map (·.uri.key)

variable {docs : List Document} {doc : Document}

theorem keys_putDocument (hs : ∀ d ∈ docs, d.uri.isScalar = true) :
    keys (putDocument doc docs) = keys docs ∨
      doc.uri.key ∉ keys docs ∧ keys (putDocument doc docs) = keys docs ++ [doc.uri.key] := by
  induction docs with
  | nil => exact Or.inr ⟨List.not_mem_nil, rfl⟩
  | cons d docs ih =>
    have hd := Json.same_iff_key_eq (hs d List.mem_cons_self) doc.uri
    by_cases he : d.uri.key = doc.uri.key
    · refine Or.inl ?_
      rw [putDocument, if_pos (hd.2 he), keys, keys, List.map_cons, List.map_cons, he]
    · rw [putDocument, if_neg fun hsame => he (hd.1 hsame)]
      rcases ih fun x hx => hs x (List.mem_cons_of_mem _ hx) with hk | ⟨hno, hk⟩
      · exact Or.inl (congrArg (d.uri.key :: ·) hk)
      · exact Or.inr ⟨List.not_mem_cons_of_ne_of_not_mem (Ne.symm he) hno, congrArg (d.uri.key :: ·) hk⟩

theorem nodup_keys_putDocument (hs : ∀ d ∈ docs, d.uri.isScalar = true)
    (hn : (keys docs).Nodup) : (keys (putDocument doc docs)).Nodup := by
  rcases keys_putDocument hs with hk | ⟨hno, hk⟩
  · rw [hk]
    exact hn
  · rw [hk]
    exact hn.append (List.nodup_singleton _) (List.disjoint_singleton.2 hno)

theorem mem_putDocument {d : Document} (h : d ∈ putDocument doc docs) : d = doc ∨ d ∈ docs := by
  induction docs with
  | nil => exact Or.inl (List.mem_singleton.1 h)
  | cons x docs ih =>
    rw [putDocument] at h
    split at h
    · rcases List.mem_cons.1 h with rfl | h
      · exact Or.inl rfl
      · exact Or.inr (List.mem_cons_of_mem _ h)
    · rcases List.mem_cons.1 h with rfl | h
      · exact Or.inr List.mem_cons_self
      · exact (ih h).imp_right (List.mem_cons_of_mem _)

theorem self_mem_putDocument (doc : Document) (docs : List Document) :
    doc ∈ putDocument doc docs := by
  induction docs with
  | nil => exact List.mem_cons_self
  | cons x docs ih =>
    rw [putDocument]
    split
    · exact List.mem_cons_self
    · exact List.mem_cons_of_mem _ ih

/-- What the server keeps is in order. -/
structure Consistent (s : Server) : Prop where
  named : ∀ d ∈ s.documents, d.uri.isScalar = true
  distinct : (keys s.documents).Nodup
  started : s.initialized = false → s.documents = []
  due : ∀ p ∈ s.pending, p.2.isScalar = true ∧ p.1 ≤ s.lastRequest
  increasing : s.pending.Pairwise fun a b => a.1 < b.1

theorem consistent_empty : Consistent {} where
  named := by simp
  distinct := List.nodup_nil
  started _ := rfl
  due := by simp
  increasing := List.Pairwise.nil

namespace Consistent

variable {s : Server}

theorem initialized_of_mem (h : s.Consistent) (hd : doc ∈ s.documents) : s.initialized = true := by
  cases hi : s.initialized with
  | true => rfl
  | false =>
    rw [h.started hi] at hd
    cases hd

theorem eq_of_key_eq (h : s.Consistent) {a b : Document} (ha : a ∈ s.documents)
    (hb : b ∈ s.documents) (he : a.uri.key = b.uri.key) : a = b :=
  List.inj_on_of_nodup_map h.distinct ha hb he

theorem update (h : s.Consistent) (uri : Json) {f : Document → Document}
    (hf : ∀ d, (f d).uri = d.uri) : (s.update uri f).Consistent := by
  have huri : ∀ d : Document, (if d.uri.same uri then f d else d).uri = d.uri := by
    intro d
    split
    · exact hf d
    · rfl
  refine ⟨fun d hd => ?_, ?_, fun hi => ?_, h.due, h.increasing⟩
  · obtain ⟨x, hx, rfl⟩ := List.mem_map.1 hd
    rw [huri]
    exact h.named x hx
  · have hkeys : keys (s.update uri f).documents = keys s.documents := by
      simp only [keys, Server.update, List.map_map]
      exact List.map_congr_left fun d _ => congrArg Json.key (huri d)
    rw [hkeys]
    exact h.distinct
  · rw [Server.update, h.started hi, List.map_nil]

theorem close (h : s.Consistent) (uri : Json) : (s.close uri).Consistent where
  named d hd := h.named d (List.mem_filter.1 hd).1
  distinct := h.distinct.sublist (List.filter_sublist.map _)
  started hi := by rw [Server.close, h.started hi, List.filter_nil]
  due := h.due
  increasing := h.increasing

theorem put (h : s.Consistent) (hi : s.initialized = true) (hdoc : doc.uri.isScalar = true) :
    Consistent { s with documents := putDocument doc s.documents } where
  named d hd := by
    rcases mem_putDocument hd with rfl | hd
    · exact hdoc
    · exact h.named d hd
  distinct := nodup_keys_putDocument h.named h.distinct
  started hno := by simp [hi] at hno
  due := h.due
  increasing := h.increasing

theorem sublist (h : s.Consistent) {pending : List (Nat × Json)} (hp : pending.Sublist s.pending) :
    Consistent { s with pending } where
  named := h.named
  distinct := h.distinct
  started := h.started
  due p hmem := h.due p (hp.subset hmem)
  increasing := h.increasing.sublist hp

theorem ask {t : Turn} (h : t.server.Consistent) {uri : Json} (huri : uri.isScalar = true) :
    (t.ask uri).server.Consistent := by
  unfold Turn.ask
  split
  · refine ⟨h.named, h.distinct, h.started, fun p hp => ?_, ?_⟩
    · rcases List.mem_append.1 hp with hp | hp
      · exact ⟨(h.due p hp).1, Nat.le_succ_of_le (h.due p hp).2⟩
      · obtain rfl := List.mem_singleton.1 hp
        exact ⟨huri, Nat.le_refl _⟩
    · refine List.pairwise_append.2 ⟨h.increasing, List.pairwise_singleton _ _, fun a ha b hb => ?_⟩
      obtain rfl := List.mem_singleton.1 hb
      exact Nat.lt_succ_of_le (h.due a ha).2
  · exact h

end Consistent

end Server

namespace Turn

theorem Act.consistent {t t' : Turn} (ha : Act t t') (h : t.server.Consistent) :
    t'.server.Consistent := by
  cases ha with
  | tell | configure | shutdown | exit =>
    exact ⟨h.named, h.distinct, h.started, h.due, h.increasing⟩
  | start _ _ hi => exact ⟨h.named, h.distinct, fun _ => h.started hi, h.due, h.increasing⟩
  | register =>
    exact ⟨h.named, h.distinct, h.started,
      fun p hp => ⟨(h.due p hp).1, Nat.le_succ_of_le (h.due p hp).2⟩, h.increasing⟩
  | opened doc hi _ huri =>
    have hput : (t.put doc).server.Consistent := h.put hi huri
    exact hput.ask huri
  | edit uri text version => exact h.update uri fun _ => rfl
  | close uri => exact h.close uri
  | askAgain uri huri =>
    have hforget : (t.forget uri).server.Consistent := h.update uri fun _ => rfl
    exact hforget.ask huri

theorem Acts.consistent {t t' : Turn} (ha : Acts t t') (h : t.server.Consistent) :
    t'.server.Consistent := by
  induction ha with
  | refl => exact h
  | tail _ hact ih => exact hact.consistent ih

end Turn

end LittleMan
