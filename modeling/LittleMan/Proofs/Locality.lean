import LittleMan.Proofs.FirstDefinitions
import LittleMan.Proofs.LineByLine
import LittleMan.Proofs.LineGrammar

/-! What a line has to do with the other lines of its text: the label that it defines, and nothing else. While
the label stays, all else on the line may change, and the same is reported on the other lines. -/

namespace LittleMan

/-- The label that a line defines; a line that is read as no record defines none. -/
def definedLabel? (line : List CodePoint) : Option (List CodePoint) :=
  (Statement.read? line).bind fun st => st.label.map Word.text

/-- The texts have the same lines but for one, which defines the same label in both or none in both. -/
structure Source.RewritesLine (k : Nat) (s s' : Source) : Prop where
  length : s'.lines.length = s.lines.length
  others : ∀ i, i ≠ k → s'.lines[i]? = s.lines[i]?
  label : s'.lines[k]?.bind definedLabel? = s.lines[k]?.bind definedLabel?

/-- What is reported on all lines but one. -/
def Analysis.elsewhere (a : Analysis) (k : Nat) : List Diagnostic :=
  a.diagnostics.filter fun d => !d.isOnLine k

theorem Statement.label_of_read? {line : List CodePoint} {st : Statement} (h : read? line = some st) :
    st.label = (definedLabel? line).map fun name => ⟨0, name⟩ := by
  have hread := lineReading_read? line
  rw [h] at hread
  rw [definedLabel?, h]
  cases hread with
  | labelled => rfl
  | unlabelled => rfl

theorem definitions_append (rs rs' : List Record) :
    definitions (rs ++ rs') = definitions rs ++ definitions rs' := List.filterMap_append

theorem definitions_readRecords_cons (n : Nat) (line : List CodePoint) (lines : List (List CodePoint)) :
    definitions (readRecords n (line :: lines)) =
      ((definedLabel? line).map fun name => (n, ⟨0, name⟩)).toList ++
        definitions (readRecords (n + 1) lines) := by
  cases hr : Statement.read? line with
  | none => simp [readRecords, hr, definedLabel?]
  | some st =>
    have hlabel := Statement.label_of_read? hr
    cases hd : definedLabel? line with
    | none =>
      rw [hd, Option.map_none] at hlabel
      simp [readRecords, hr, definitions, hlabel]
    | some name =>
      rw [hd, Option.map_some] at hlabel
      simp [readRecords, hr, definitions, hlabel]

theorem LabelTable.ofRecords_congr {rs rs' : List Record} (h : definitions rs' = definitions rs) :
    ofRecords rs' = ofRecords rs := by
  have hentries : (ofRecords rs').entries = (ofRecords rs).entries := by
    rw [entries_ofRecords, entries_ofRecords, h]
  exact LabelTable.ext hentries

theorem Analysis.duplicates_congr {s s' : Source}
    (h : definitions s'.records = definitions s.records) :
    duplicates s'.records = duplicates s.records := by
  rw [(tabulated_ofRecords s').repeated, (tabulated_ofRecords s).repeated, h]

theorem Analysis.filter_inspectRecords_eq {labels : LabelTable} {n : Nat} {line line' : List CodePoint}
    {upper lower : List (List CodePoint)} {ds ds' : List Diagnostic}
    (h : inspectRecords labels (readRecords n (upper ++ line :: lower)) = .ok ds)
    (h' : inspectRecords labels (readRecords n (upper ++ line' :: lower)) = .ok ds') :
    ds'.filter (fun d => !d.isOnLine (n + upper.length)) =
      ds.filter fun d => !d.isOnLine (n + upper.length) := by
  rw [readRecords_append, inspectRecords_append_ok] at h h'
  obtain ⟨xs, rest, hx, hrest, rfl⟩ := h
  obtain ⟨xs', rest', hx', hrest', rfl⟩ := h'
  obtain ⟨here, ys, hhere, hy, rfl⟩ := inspectRecords_cons_line_ok.1 hrest
  obtain ⟨here', ys', hhere', hy', rfl⟩ := inspectRecords_cons_line_ok.1 hrest'
  obtain rfl := Except.ok.inj (hx.symm.trans hx')
  obtain rfl := Except.ok.inj (hy.symm.trans hy')
  have hnone : ∀ {line : List CodePoint} {zs : List Diagnostic},
      inspectLine labels (n + upper.length) line = .ok zs →
        zs.filter (fun d => !d.isOnLine (n + upper.length)) = [] := by
    intro line zs hz
    refine List.filter_eq_nil_iff.2 fun d hd => ?_
    simp [Diagnostic.isOnLine, (mem_inspectLine hz hd).1]
  simp only [List.filter_append, hnone hhere, hnone hhere']

theorem definitions_congr_line {upper lower : List (List CodePoint)} {line line' : List CodePoint}
    (h : definedLabel? line' = definedLabel? line) (n : Nat) :
    definitions (readRecords n (upper ++ line' :: lower)) =
      definitions (readRecords n (upper ++ line :: lower)) := by
  simp only [readRecords_append, definitions_append, definitions_readRecords_cons, h]

section

variable {k : Nat} {s s' : Source} {a a' : Analysis}

namespace Source.RewritesLine

/-- The lines above the one that is rewritten are the same, and so are those below it. -/
theorem exists_split (h : s.RewritesLine k s') (hk : k < s.lines.length) :
    ∃ upper line line' lower, upper.length = k ∧ s.lines = upper ++ line :: lower ∧
      s'.lines = upper ++ line' :: lower ∧ definedLabel? line' = definedLabel? line := by
  obtain ⟨line, hline⟩ : ∃ line, s.lines[k]? = some line := ⟨_, List.getElem?_eq_getElem hk⟩
  obtain ⟨line', hline'⟩ : ∃ line', s'.lines[k]? = some line' :=
    ⟨_, List.getElem?_eq_getElem (h.length ▸ hk)⟩
  have hset : s'.lines = s.lines.set k line' := by
    refine List.ext_getElem? fun i => ?_
    by_cases hi : i = k
    · rw [hi, hline', List.getElem?_set_self hk]
    · rw [h.others i hi, List.getElem?_set_ne (Ne.symm hi)]
  have hlabel := h.label
  rw [hline, hline'] at hlabel
  refine ⟨s.lines.take k, line, line', s.lines.drop (k + 1), ?_, ?_, ?_, hlabel⟩
  · rw [List.length_take, Nat.min_eq_left hk.le]
  · have hcons := List.drop_eq_getElem_cons hk
    rw [(List.getElem?_eq_some_iff.1 hline).2] at hcons
    rw [← hcons, List.take_append_drop]
  · rw [hset, List.set_eq_take_append_cons_drop, if_pos hk]

theorem lines_eq_of_le (h : s.RewritesLine k s') (hk : s.lines.length ≤ k) : s'.lines = s.lines := by
  refine List.ext_getElem? fun i => ?_
  by_cases hi : i = k
  · rw [hi, List.getElem?_eq_none hk, List.getElem?_eq_none (h.length ▸ hk)]
  · exact h.others i hi

end Source.RewritesLine

/-- When a line is rewritten and defines the label of before, the labels stay, and so does what is reported on
the other lines. -/
theorem elsewhere_of_rewritten_line (h : s.RewritesLine k s') (ha : analyze s = .ok a)
    (ha' : analyze s' = .ok a') : a'.elsewhere k = a.elsewhere k ∧ a'.labels = a.labels := by
  by_cases hk : k < s.lines.length
  · obtain ⟨upper, line, line', lower, hlen, hs, hs', hlabel⟩ := h.exists_split hk
    have hrecords : s.records = readRecords 0 (upper ++ line :: lower) := by rw [Source.records, hs]
    have hrecords' : s'.records = readRecords 0 (upper ++ line' :: lower) := by
      rw [Source.records, hs']
    have hdefs : definitions s'.records = definitions s.records := by
      rw [hrecords, hrecords', definitions_congr_line hlabel]
    have htable := LabelTable.ofRecords_congr hdefs
    obtain ⟨ds, hds, rfl⟩ := analyze_ok_iff.1 ha
    obtain ⟨ds', hds', rfl⟩ := analyze_ok_iff.1 ha'
    refine ⟨?_, htable⟩
    rw [htable] at hds'
    generalize LabelTable.ofRecords s.records = labels at hds hds'
    rw [hrecords] at hds
    rw [hrecords'] at hds'
    have hrest := Analysis.filter_inspectRecords_eq hds hds'
    rw [Nat.zero_add, hlen] at hrest
    simp only [Analysis.elsewhere, List.filter_append, Analysis.duplicates_congr hdefs, hrest]
  · have hsame := analyze_congr (h.lines_eq_of_le (Nat.le_of_not_lt hk))
    obtain rfl := Except.ok.inj (ha.symm.trans (hsame.symm.trans ha'))
    exact ⟨rfl, rfl⟩

end

/-- A label that is used above the line that defines it first, and defined again below it. -/
def usedAround : Source := Source.named none (Text.toList "LDA X\nX FOO #1\nX DAT Y")

def usedAroundBranch : Source := Source.named none (Text.toList "LDA X\r\nX \tBRA Z ; 𝄞\rX DAT Y")

theorem elsewhere_of_rewritten_line_usedAround :
    usedAround.RewritesLine 1 usedAroundBranch ∧
      ∃ a a', analyze usedAround = .ok a ∧ analyze usedAroundBranch = .ok a' ∧
        (a.elsewhere 1).map (·.kind) = [.duplicateLabel, .datOperandInvalid] ∧
        a'.elsewhere 1 = a.elsewhere 1 ∧ a'.labels = a.labels := by
  have hrewrites : usedAround.RewritesLine 1 usedAroundBranch := by
    have hlines : usedAround.lines =
        [Text.toList "LDA X", Text.toList "X FOO #1", Text.toList "X DAT Y"] := by decide +kernel
    have hlines' : usedAroundBranch.lines =
        [Text.toList "LDA X", Text.toList "X \tBRA Z ; 𝄞", Text.toList "X DAT Y"] := by decide +kernel
    refine ⟨by rw [hlines, hlines']; rfl, fun i hi => ?_, by decide +kernel⟩
    rw [hlines, hlines']
    match i with
    | 0 => rfl
    | 1 => exact absurd rfl hi
    | 2 => rfl
    | _ + 3 => rfl
  obtain ⟨a, ha, hkinds⟩ : ∃ a, analyze usedAround = .ok a ∧
      (a.elsewhere 1).map (·.kind) = [.duplicateLabel, .datOperandInvalid] := by
    refine ⟨_, rfl, ?_⟩
    decide +kernel
  obtain ⟨a', ha'⟩ : ∃ a', analyze usedAroundBranch = .ok a' := ⟨_, rfl⟩
  obtain ⟨hfound, hlabels⟩ := elsewhere_of_rewritten_line hrewrites ha ha'
  exact ⟨hrewrites, a, a', ha, ha', hkinds, hfound, hlabels⟩

end LittleMan
