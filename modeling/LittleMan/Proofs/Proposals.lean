import LittleMan.Proofs.Grammar
import LittleMan.Proofs.Origin
import LittleMan.Proofs.Text.Splice
import LittleMan.QuickFix
import Mathlib.Data.List.Forall2

/-! The actions proposed for diagnostics of this library. A text with a record is not blank, so no
template comes with them, and they are the actions for one diagnostic after the other. -/

namespace LittleMan

open Analysis

theorem not_isBlank_of_mem_records {s : Source} {r : Record} (hr : r ∈ s.records) :
    s.isBlank = false := by
  obtain ⟨line, hline, hread⟩ := Source.mem_records_iff.1 hr
  obtain ⟨c, hc, hu⟩ := Statement.exists_upper_of_read? hread
  obtain ⟨pre, line', post, hl⟩ := exists_lineAt (List.getElem?_eq_some_iff.1 hline).1
  obtain rfl := Option.some.inj (hline.symm.trans hl.line?)
  rw [Source.isBlank, List.all_eq_false]
  exact ⟨c, hl.mem_text hc, by simp [not_isBlank_of_isUpper hu]⟩

theorem Analysis.Finding.isOwn {labels : LabelTable} {r : Record} {d : Diagnostic}
    (h : Finding labels r d) : QuickFix.isOwn d = true := by
  have hs : d.source = .str "LMC" := by cases h <;> rfl
  simp [QuickFix.isOwn, hs]

namespace QuickFix

variable {s : Source} {records : List Record} {labels : LabelTable} {ds : List Diagnostic}

theorem allActions_eq_ok_iff {as : List Action} :
    allActions s records labels ds = .ok as ↔
      ∃ found, List.Forall₂ (fun d here => actions s records labels d = .ok here) ds found ∧
        as = found.flatten := by
  induction ds generalizing as with
  | nil => simp [allActions, eq_comm]
  | cons d ds ih =>
    rw [allActions]
    constructor
    · intro h
      cases hd : actions s records labels d with
      | error e => simp [hd, bind, Except.bind] at h
      | ok here =>
        cases hds : allActions s records labels ds with
        | error e => simp [hd, hds, bind, Except.bind] at h
        | ok later =>
          obtain ⟨found, hfound, rfl⟩ := ih.1 hds
          obtain rfl : here ++ found.flatten = as := by
            simpa [hd, hds, bind, Except.bind, pure, Except.pure] using h
          exact ⟨here :: found, .cons hd hfound, rfl⟩
    · rintro ⟨found, hfound, rfl⟩
      cases hfound with
      | cons hd hfound => simp only [hd, ih.2 ⟨_, hfound, rfl⟩]; rfl

theorem allActions_singleton (d : Diagnostic) :
    allActions s records labels [d] = actions s records labels d := by
  rw [allActions, allActions]
  cases actions s records labels d with
  | error e => rfl
  | ok as => simp [bind, Except.bind, pure, Except.pure]

theorem fixes_congr {s' : Source} (h : s'.lines = s.lines) (d : Diagnostic) :
    fixes s' records labels d = fixes s records labels d := by
  have hlast : ∀ text, newLastLine s' text = newLastLine s text := by
    intro text
    simp only [newLastLine, Source.atEnd, h]
  simp only [fixes, createLabel, hlast, Source.textAt, h]

theorem actions_congr {s' : Source} (hlines : s'.lines = s.lines) (hname : s'.name = s.name)
    (d : Diagnostic) : actions s' records labels d = actions s records labels d := by
  rw [actions, actions, fixes_congr hlines, hname]

theorem allActions_congr {s' : Source} (hlines : s'.lines = s.lines) (hname : s'.name = s.name) :
    allActions s' records labels ds = allActions s records labels ds := by
  induction ds with
  | nil => rfl
  | cons d ds ih => rw [allActions, allActions, actions_congr hlines hname, ih]

end QuickFix

section

variable {s : Source} {d : Diagnostic} {labels : LabelTable}

theorem proposeActions_of_isOwn {ds : List Diagnostic} (table : Option LabelTable)
    (wanted : Span → Bool) (hblank : s.isBlank = false)
    (hown : ∀ d ∈ ds, QuickFix.isOwn d = true) :
    proposeActions s table ds wanted =
      QuickFix.allActions s s.records (table.getD (LabelTable.ofRecords s.records))
        (ds.filter fun d => wanted d.span) := by
  have hfilter : (ds.filter fun d => QuickFix.isOwn d && wanted d.span) =
      ds.filter fun d => wanted d.span :=
    List.filter_congr fun d hd => by rw [hown d hd, Bool.true_and]
  simp only [proposeActions, hfilter, QuickFix.templateOffers, hblank, Bool.false_eq_true, if_false,
    List.append_nil]
  exact bind_pure _

theorem proposeActions_congr {s' : Source} (hlines : s'.lines = s.lines) (hname : s'.name = s.name)
    (hblank : s'.isBlank = s.isBlank) (table : Option LabelTable) (ds : List Diagnostic)
    (wanted : Span → Bool) :
    proposeActions s' table ds wanted = proposeActions s table ds wanted := by
  have hrecords : s'.records = s.records := by rw [Source.records, Source.records, hlines]
  simp only [proposeActions, hrecords, QuickFix.allActions_congr hlines hname,
    QuickFix.templateOffers, hblank, hname]

theorem proposeActions_singleton_of_isOwn (table : Option LabelTable) (hblank : s.isBlank = false)
    (hown : QuickFix.isOwn d = true) :
    proposeActions s table [d] (fun _ => true) =
      QuickFix.actions s s.records (table.getD (LabelTable.ofRecords s.records)) d := by
  rw [proposeActions_of_isOwn table _ hblank (by simpa using hown), ← QuickFix.allActions_singleton]
  rfl

theorem proposeActions_singleton {r : Record} (hr : r ∈ s.records) (hf : Finding labels r d) :
    proposeActions s none [d] (fun _ => true) =
      QuickFix.actions s s.records (LabelTable.ofRecords s.records) d :=
  proposeActions_singleton_of_isOwn none (not_isBlank_of_mem_records hr) hf.isOwn

end

end LittleMan
