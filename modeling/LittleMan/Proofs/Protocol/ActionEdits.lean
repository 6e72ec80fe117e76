import LittleMan.Proofs.Insertion
import LittleMan.Proofs.Protocol.ClientEdit
import LittleMan.Proofs.Protocol.RoundTrip

/-! The edits of the actions for a text lie in that text, and so do all places that an action names
to a client. A client that makes the edits gets the same text as is got here. An action cannot be sent if a
surrogate on its own stands before one of its places. -/

namespace LittleMan

open Analysis

/-- A value has an object with this line and this character somewhere in it. -/
inductive Json.HasPlace (line character : Json) : Json → Prop where
  | here {fields : List (Text × Json)} (hl : Json.lookup "line" fields = some line)
      (hc : Json.lookup "character" fields = some character) : HasPlace line character (.obj fields)
  | item {items : List Json} {v : Json} (hm : v ∈ items) (h : HasPlace line character v) :
      HasPlace line character (.arr items)
  | field {fields : List (Text × Json)} {f : Text × Json} (hm : f ∈ fields)
      (h : HasPlace line character f.2) : HasPlace line character (.obj fields)

namespace Json

variable {line character : Json}

@[simp] theorem hasPlace_obj {fields : List (Text × Json)} :
    HasPlace line character (.obj fields) ↔
      (lookup "line" fields = some line ∧ lookup "character" fields = some character) ∨
        ∃ f ∈ fields, HasPlace line character f.2 := by
  constructor
  · intro h
    cases h with
    | here hl hc => exact Or.inl ⟨hl, hc⟩
    | field hm h => exact Or.inr ⟨_, hm, h⟩
  · rintro (⟨hl, hc⟩ | ⟨f, hm, h⟩)
    · exact .here hl hc
    · exact .field hm h

@[simp] theorem hasPlace_arr {items : List Json} :
    HasPlace line character (.arr items) ↔ ∃ v ∈ items, HasPlace line character v := by
  constructor
  · intro h
    cases h with
    | item hm h => exact ⟨_, hm, h⟩
  · rintro ⟨v, hm, h⟩
    exact .item hm h

@[simp] theorem not_hasPlace_str (t : Text) : ¬ HasPlace line character (.str t) := nofun

@[simp] theorem not_hasPlace_int (n : Int) : ¬ HasPlace line character (.int n) := nofun

end Json

/-- A position on a line of the text, at its end at most. -/
structure Position.IsIn (p : Position) (s : Source) : Prop where
  line_nonneg : 0 ≤ p.line
  line_lt : p.line < s.lines.length
  col_nonneg : 0 ≤ p.col
  col_le : p.col ≤ (s.columnText p.line).length

/-- A line of the text and a number of its code units, up to where a character begins or the line
ends. -/
def Source.IsPlace (s : Source) (line character : Json) : Prop :=
  ∃ k units : Nat, line = .int k ∧ character = .int units ∧ k < s.lines.length ∧
    units ≤ (encodeUnits (s.columnText k)).length ∧
    ¬ SplitsPair (encodeUnits (s.columnText k)) units

section

variable {s : Source} {k a b : Nat} {line character : Json}

theorem isPlace_of_hasPlace {col : Nat} (hk : k < s.lines.length)
    (hcol : col ≤ (s.columnText k).length) (hw : (⟨k, col⟩ : Position).IsWritable s)
    (h : Json.HasPlace line character (Position.written s ⟨k, col⟩ false)) :
    s.IsPlace line character := by
  obtain ⟨rfl, rfl⟩ : .int k = line ∧ .int (unitColumn (s.columnText k) col) = character := by
    simpa [Position.written, positionObject, lineJson, Json.lookup] using h
  have hsplit := List.take_append_drop col (s.columnText k)
  have hunits : unitColumn (s.columnText k) col =
      ((encodeUnits ((s.columnText k).take col)).length : Nat) := by
    rw [unitColumn_natCast, Nat.sub_eq_zero_of_le hcol, Nat.add_zero, length_encodeUnits]
  refine ⟨k, _, rfl, by rw [hunits], hk, ?_, ?_⟩
  · nth_rewrite 2 [← hsplit]
    rw [encodeUnits_append, List.length_append]
    omega
  · nth_rewrite 1 [← hsplit]
    rw [encodeUnits_append]
    exact not_splitsPair hw _

theorem isPlace_of_hasPlace_range {start stop : Position} (hstart : start = ⟨k, a⟩)
    (hstop : stop = ⟨k, b⟩) (hab : a ≤ b) (hk : k < s.lines.length)
    (hb : b ≤ (s.columnText k).length) (hw : start.IsWritable s ∧ stop.IsWritable s)
    (h : Json.HasPlace line character (rangeWritten s start stop false)) :
    s.IsPlace line character := by
  subst hstart hstop
  have hends : Json.HasPlace line character (Position.written s ⟨k, a⟩ false) ∨
      Json.HasPlace line character (Position.written s ⟨k, b⟩ false) := by
    simpa [rangeWritten, rangeObject, Json.lookup] using h
  rcases hends with h | h
  · exact isPlace_of_hasPlace hk (Nat.le_trans hab hb) hw.1 h
  · exact isPlace_of_hasPlace hk hb hw.2 h

namespace Edit.IsOnLine

variable {e : Edit}

theorem isIn (h : e.IsOnLine s k a b) : e.start.IsIn s ∧ e.stop.IsIn s ∧ e.start ≤ e.stop := by
  have hk := h.lt_length
  have hab := h.le
  have hb := h.le_length
  rw [h.start, h.stop]
  refine ⟨⟨?_, ?_, ?_, ?_⟩, ⟨?_, ?_, ?_, ?_⟩, Or.inr ⟨rfl, ?_⟩⟩ <;> dsimp only <;> omega

theorem isPlace (h : e.IsOnLine s k a b) (hw : e.IsWritable s)
    (hp : Json.HasPlace line character (e.written s)) : s.IsPlace line character := by
  have hrange : Json.HasPlace line character (rangeWritten s e.start e.stop false) := by
    simpa [Edit.written, Edit.object, Json.lookup, h.lineAsTruth] using hp
  exact isPlace_of_hasPlace_range h.start h.stop h.le h.lt_length h.le_length hw hrange

end Edit.IsOnLine

theorem isOnLine_insert {line text : List CodePoint} {col : Nat} (hk : s.lines[k]? = some line)
    (hcol : col ≤ line.length) (ht : IsEncodable s.text → IsEncodable text) :
    (Edit.insert ⟨k, col⟩ text).IsOnLine s k col col where
  start := rfl
  stop := rfl
  le := Nat.le_refl col
  lt_length := (List.getElem?_eq_some_iff.1 hk).1
  le_length := by simpa [Source.columnText, hk] using hcol
  lineAsTruth := rfl
  isEncodable := ht

theorem isOnLine_newLastLine {text : List CodePoint} (ht : IsEncodable text) :
    ∃ k a b, (QuickFix.newLastLine s text).IsOnLine s k a b := by
  obtain ⟨k, pre, line, hk, -, hget, hlast⟩ := exists_lineAt_last s
  have hend : s.atEnd.start = ⟨k, line.length⟩ := by
    have hline : (s.lines.length : Int) - 1 = k := by omega
    simp only [Source.atEnd, Span.start, hlast, hline]
  rw [QuickFix.newLastLine, hend]
  have hbreak : IsEncodable [CodePoint.scalar '\n'] := by decide
  split
  · exact ⟨k, _, _, isOnLine_insert hget (Nat.le_refl _) fun _ =>
      isEncodable_append.2 ⟨ht, hbreak⟩⟩
  · exact ⟨k, _, _, isOnLine_insert hget (Nat.le_refl _) fun _ =>
      isEncodable_append.2 ⟨hbreak, ht⟩⟩

theorem isOnLine_createLabel {records : List Record} {labels : LabelTable} {d : Diagnostic}
    {f : Text × Edit} (hlines : ∀ r ∈ records, r.line < s.lines.length)
    (hf : QuickFix.createLabel s records labels d = some f) : ∃ k a b, f.2.IsOnLine s k a b := by
  unfold QuickFix.createLabel at hf
  dsimp only at hf
  split at hf
  · cases hf
  · next hlabel =>
    have hid : isIdentifier d.token = true := by
      by_contra hid
      simp [hid] at hlabel
    have htoken : IsEncodable d.token :=
      isEncodable_of_ascii fun c hc => ascii_of_isWord (all_isWord_of_isIdentifier hid c hc)
    have hnew : ∀ t : List CodePoint, IsEncodable t → IsEncodable (d.token ++ t) := fun t ht =>
      isEncodable_append.2 ⟨htoken, ht⟩
    split at hf
    · split at hf
      · next r hr =>
        obtain rfl := Option.some.inj hf
        have hget := List.getElem?_eq_getElem (hlines r (List.mem_of_find?_eq_some hr))
        exact ⟨r.line, 0, 0, isOnLine_insert hget (Nat.zero_le _) fun _ => hnew _ (by decide)⟩
      · obtain rfl := Option.some.inj hf
        exact isOnLine_newLastLine (hnew _ (by decide))
    · obtain rfl := Option.some.inj hf
      exact isOnLine_newLastLine (hnew _ (by decide))

theorem Diagnostic.IsAbout.exists_stand {d : Diagnostic} {r : Record} {w : Word}
    (h : d.IsAbout r w) (hr : r ∈ s.records) :
    r.line < s.lines.length ∧ w.col + w.text.length ≤ (s.columnText r.line).length ∧
      d.span.start = ⟨r.line, w.col⟩ ∧ d.span.stop = ⟨r.line, (w.col + w.text.length : Nat)⟩ := by
  obtain ⟨line, hline, head, tail, rfl, hcol⟩ :=
    exists_line_of_mem_words hr (mem_words_of_subject? h.subject)
  refine ⟨(List.getElem?_eq_some_iff.1 hline).1, ?_, ?_, ?_⟩
  · simp [Source.columnText, hline, hcol]
  · rw [h.span]
    rfl
  · rw [h.span, Span.stop, Span.stopCol, Word.span, Int.natCast_add]

theorem isEncodable_columnText (h : IsEncodable s.text) (hk : k < s.lines.length) :
    IsEncodable (s.columnText k) := by
  obtain ⟨pre, line, post, hl⟩ := exists_lineAt (s.lines_eq ▸ hk)
  have htext : s.columnText k = line := by
    simp [Source.columnText, s.lines_eq, hl.line?]
  rw [hl.text_eq, isEncodable_append, isEncodable_append] at h
  rw [htext]
  exact h.2.1

theorem isWritable_of_isEncodable (h : IsEncodable s.text) (hk : k < s.lines.length) (col : Int) :
    (⟨k, col⟩ : Position).IsWritable s :=
  fun c hc => isEncodable_columnText h hk c (List.mem_of_mem_take hc)

theorem Diagnostic.IsAbout.isEncodable_token {d : Diagnostic} {r : Record} {w : Word}
    (h : d.IsAbout r w) (hr : r ∈ s.records) (hs : IsEncodable s.text) : IsEncodable d.token := by
  obtain ⟨hlt, -, hstart, hstop⟩ := h.exists_stand hr
  rw [← h.isWritable_iff hr, IsWritable, hstart, hstop]
  exact ⟨isWritable_of_isEncodable hs hlt _, isWritable_of_isEncodable hs hlt _⟩

theorem exists_textAt {span : Span} {k : Nat} (hline : span.line = k) (hk : k < s.lines.length) :
    ∃ text, s.textAt span = .ok text := by
  have hget := List.getElem?_eq_getElem hk
  exact ⟨_, by simp only [Source.textAt, hline, nth?_natCast, hget]; rfl⟩

theorem exists_fixes {d : Diagnostic} {r : Record} {w : Word} (labels : LabelTable)
    (h : d.IsAbout r w) (hr : r ∈ s.records) :
    ∃ fs, QuickFix.fixes s s.records labels d = .ok fs ∧
      ∀ f ∈ fs, ∃ k a b, f.2.IsOnLine s k a b := by
  obtain ⟨hlt, hle, hstart, hstop⟩ := h.exists_stand hr
  have hreplace : ∀ text, (IsEncodable s.text → IsEncodable text) →
      (QuickFix.replacement d text).IsOnLine s r.line w.col (w.col + w.text.length) := fun text ht =>
    ⟨hstart, hstop, Nat.le_add_right _ _, hlt, hle, h.lineAsTruth, ht⟩
  have hadd : ∀ text, IsEncodable text → (QuickFix.addition d text).IsOnLine s r.line
      (w.col + w.text.length) (w.col + w.text.length) := fun text ht =>
    ⟨hstop, hstop, Nat.le_refl _, hlt, hle, h.lineAsTruth, fun _ => ht⟩
  have hhash : IsEncodable s.text → IsEncodable (.scalar '#' :: d.token) := fun hs =>
    isEncodable_append.2 ⟨(by decide : IsEncodable ['#']), h.isEncodable_token hr hs⟩
  rw [QuickFix.fixes]
  cases d.kind with
  | numericNeedsHash => exact ⟨_, rfl, by simpa using ⟨_, _, _, hreplace _ hhash⟩⟩
  | immediateOutOfRange | numericOutOfRange | incompleteImmediate =>
    exact ⟨_, rfl, by simpa using ⟨_, _, _, hreplace _ fun _ => (by decide)⟩⟩
  | missingOperand =>
    refine ⟨_, rfl, fun f hf => ?_⟩
    split at hf
    · obtain rfl := List.mem_singleton.1 hf
      exact ⟨_, _, _, hadd _ (by decide)⟩
    · simp at hf
  | undefinedLabel | undefinedLabelReference =>
    refine ⟨_, rfl, fun f hf => isOnLine_createLabel (fun r hr => ?_) (Option.mem_toList.1 hf)⟩
    obtain ⟨line, hline, -⟩ := Source.mem_records_iff.1 hr
    exact (List.getElem?_eq_some_iff.1 (s.lines_eq ▸ hline)).1
  | invalidInstruction =>
    obtain ⟨text, htext⟩ := exists_textAt (congrArg Span.line h.span) hlt
    have hall : ∀ ms : List Mnemonic, ∀ f ∈ ms.map fun m => (("Change to " ++ m.name : Text),
        QuickFix.replacement d m.text), ∃ k a b, f.2.IsOnLine s k a b := by
      intro ms f hf
      obtain ⟨m, -, rfl⟩ := List.mem_map.1 hf
      exact ⟨_, _, _, hreplace _ fun _ => by cases m <;> decide⟩
    cases QuickFix.proposed d with
    | nil => exact ⟨_, by rw [htext]; rfl, hall (suggestions text)⟩
    | cons m ms => exact ⟨_, rfl, hall (m :: ms)⟩
  | duplicateLabel | datOperandInvalid => exact ⟨[], rfl, by simp⟩

/-- The message and the candidates are plain strings. -/
structure Diagnostic.IsPlain (d : Diagnostic) : Prop where
  message : ∃ t, d.message = .str t
  candidates : ∀ v ∈ d.candidates, ∃ t, v = .str t

theorem isPlain_report (kind : Kind) (message : Text) (line : Nat) (w : Word) :
    (report kind message line w).IsPlain := ⟨⟨message, rfl⟩, by simp [report]⟩

theorem Analysis.Finding.isPlain {labels : LabelTable} {r : Record} {d : Diagnostic}
    (h : Finding labels r d) : d.IsPlain := by
  cases h <;> exact ⟨⟨_, rfl⟩, fun _ hv => absurd hv List.not_mem_nil⟩

theorem isPlain_of_mem_inspectMnemonic {r : Record} {d : Diagnostic} (h : d ∈ inspectMnemonic r) :
    d.IsPlain := by
  rw [inspectMnemonic] at h
  split at h
  · simp at h
  · obtain rfl := List.mem_singleton.1 h
    refine ⟨⟨_, rfl⟩, fun v hv => ?_⟩
    obtain ⟨m, -, rfl⟩ := List.mem_map.1 hv
    exact ⟨m.name, rfl⟩

theorem isPlain_of_mem {a : Analysis} {d : Diagnostic} (ha : analyze s = .ok a)
    (hd : d ∈ a.diagnostics) : d.IsPlain := by
  cases finds_of_mem ha hd with
  | label => exact isPlain_report _ _ _ _
  | mnemonic _ hm => exact isPlain_of_mem_inspectMnemonic hm
  | operand _ hf => exact hf.isPlain

theorem isPlace_of_mem {a : Analysis} {d : Diagnostic} (ha : analyze s = .ok a)
    (hd : d ∈ a.diagnostics) (hw : d.IsWritable s)
    (h : Json.HasPlace line character (d.written s)) : s.IsPlace line character := by
  obtain ⟨r, hr, w, habout⟩ := exists_isAbout ha hd
  obtain ⟨hlt, hle, hstart, hstop⟩ := habout.exists_stand hr
  obtain ⟨⟨message, hmessage⟩, hcand⟩ := isPlain_of_mem ha hd
  have hparts : Json.HasPlace line character (rangeWritten s d.span.start d.span.stop false) ∨
      ∃ v ∈ d.candidates, Json.HasPlace line character v := by
    simpa [Diagnostic.written, Diagnostic.object, Json.lookup, hmessage, habout.source,
      habout.lineAsTruth] using h
  rcases hparts with hrange | ⟨v, hv, h⟩
  · exact isPlace_of_hasPlace_range hstart hstop (Nat.le_add_right _ _) hlt hle hw hrange
  · obtain ⟨t, rfl⟩ := hcand v hv
    exact absurd h (Json.not_hasPlace_str t)

/-- An action that makes one edit, on one line of the text, because of some of the diagnostics. -/
structure Action.IsFor (action : Action) (s : Source) (ds : List Diagnostic) : Prop where
  uri : action.uri = s.name
  edit : ∃ e k a b, action.edits = [e] ∧ e.IsOnLine s k a b
  diagnostics : ∀ d ∈ action.diagnostics, d ∈ ds

theorem exists_allActions {records : List Record} {labels : LabelTable} {P : Action → Prop}
    {ds : List Diagnostic}
    (h : ∀ d ∈ ds, ∃ as, QuickFix.actions s records labels d = .ok as ∧ ∀ x ∈ as, P x) :
    ∃ as, QuickFix.allActions s records labels ds = .ok as ∧ ∀ x ∈ as, P x := by
  induction ds with
  | nil => exact ⟨[], rfl, by simp⟩
  | cons d ds ih =>
    obtain ⟨xs, hxs, hx⟩ := h d List.mem_cons_self
    obtain ⟨ys, hys, hy⟩ := ih fun d hd => h d (List.mem_cons_of_mem _ hd)
    refine ⟨xs ++ ys, by rw [QuickFix.allActions, hxs, hys]; rfl, fun x hm => ?_⟩
    exact (List.mem_append.1 hm).elim (hx x) (hy x)

theorem exists_actions {a : Analysis} {d : Diagnostic} (labels : LabelTable)
    (ha : analyze s = .ok a) (hd : d ∈ a.diagnostics) :
    ∃ as, QuickFix.actions s s.records labels d = .ok as ∧ ∀ x ∈ as, x.IsFor s a.diagnostics := by
  obtain ⟨r, hr, w, habout⟩ := exists_isAbout ha hd
  obtain ⟨fs, hfs, hf⟩ := exists_fixes labels habout hr
  refine ⟨_, by rw [QuickFix.actions, hfs]; rfl, fun x hx => ?_⟩
  obtain ⟨f, hm, rfl⟩ := List.mem_map.1 hx
  obtain ⟨k, a, b, he⟩ := hf f hm
  exact ⟨rfl, ⟨f.2, k, a, b, rfl, he⟩, by simpa using hd⟩

theorem isFor_of_mem_templateOffers {x : Action} (ds : List Diagnostic)
    (hx : x ∈ QuickFix.templateOffers s) : x.IsFor s ds := by
  rw [QuickFix.templateOffers] at hx
  split at hx
  · obtain ⟨t, ht, rfl⟩ := List.mem_map.1 hx
    have hplain : ∀ t ∈ Template.all, IsEncodable t.text := by decide +kernel
    have hget := List.getElem?_eq_getElem (List.length_pos_iff.2 s.lines_ne_nil)
    exact ⟨rfl, ⟨_, 0, 0, 0, rfl, isOnLine_insert hget (Nat.zero_le _) fun _ => hplain t ht⟩,
      by simp⟩
  · simp at hx

theorem exists_proposeActions {a : Analysis} (ha : analyze s = .ok a) :
    ∃ as, proposeActions s none a.diagnostics (fun _ => true) = .ok as ∧
      ∀ x ∈ as, x.IsFor s a.diagnostics := by
  have hown : ∀ d ∈ a.diagnostics.filter fun d => QuickFix.isOwn d && true,
      ∃ as, QuickFix.actions s s.records (LabelTable.ofRecords s.records) d = .ok as ∧
        ∀ x ∈ as, x.IsFor s a.diagnostics :=
    fun d hd => exists_actions _ ha (List.mem_filter.1 hd).1
  obtain ⟨as, has, h⟩ := exists_allActions hown
  refine ⟨as ++ QuickFix.templateOffers s, ?_, fun x hx => ?_⟩
  · simp only [proposeActions, Option.getD_none, has]
    rfl
  · exact (List.mem_append.1 hx).elim (h x) (isFor_of_mem_templateOffers _)

namespace Action.IsFor

variable {x : Action} {a : Analysis}

theorem edits?_written {ds : List Diagnostic} (h : x.IsFor s ds) :
    Client.edits? s.name (x.written s) = some (x.edits.map (·.written s)) := by
  simp [Client.edits?, Client.field?, Action.written, Action.object, Json.lookup, h.uri]

theorem isPlace (h : x.IsFor s a.diagnostics) (ha : analyze s = .ok a) (hw : x.IsWritable s)
    (hp : Json.HasPlace line character (x.written s)) : s.IsPlace line character := by
  obtain ⟨e, k, i, j, he, hon⟩ := h.edit
  have hparts : (∃ d ∈ x.diagnostics, Json.HasPlace line character (d.written s)) ∨
      (x.uri = "line" ∧ .arr [e.written s] = line) ∧
        x.uri = "character" ∧ .arr [e.written s] = character ∨
      Json.HasPlace line character (e.written s) := by
    simpa [Action.written, Action.object, Json.lookup, he] using hp
  rcases hparts with ⟨d, hd, h'⟩ | ⟨⟨hline, -⟩, hcharacter, -⟩ | h'
  · exact isPlace_of_mem ha (h.diagnostics d hd) (hw.1 d hd) h'
  · rw [hline] at hcharacter
    exact absurd hcharacter (by decide)
  · exact hon.isPlace (hw.2 e (by simp [he])) h'

theorem isCounted (h : x.IsFor s a.diagnostics) (ha : analyze s = .ok a) : x.IsCounted where
  diagnostics d hd :=
    have hreturnable := Diagnostic.returnable_of_mem ha (h.diagnostics d hd)
    ⟨hreturnable.col, hreturnable.stopCol⟩
  edits e he := by
    obtain ⟨e', k, i, j, hx, hon⟩ := h.edit
    obtain rfl : e = e' := by simpa [hx] using he
    exact ⟨hon.isIn.1.col_nonneg, hon.isIn.2.1.col_nonneg⟩

theorem toJson_eq (h : x.IsFor s a.diagnostics) (ha : analyze s = .ok a) :
    x.toJson s = if x.IsWritable s then .ok (x.written s) else .error .loneSurrogate :=
  (h.isCounted ha).toJson_eq

theorem isWritable (h : x.IsFor s a.diagnostics) (ha : analyze s = .ok a) (hs : IsEncodable s.text) :
    x.IsWritable s := by
  refine ⟨fun d hd => ?_, fun e he => ?_⟩
  · obtain ⟨r, hr, w, habout⟩ := exists_isAbout ha (h.diagnostics d hd)
    rw [habout.isWritable_iff hr]
    exact habout.isEncodable_token hr hs
  · obtain ⟨e', k, i, j, hx, hon⟩ := h.edit
    obtain rfl : e = e' := by simpa [hx] using he
    rw [Edit.IsWritable, hon.start, hon.stop]
    exact ⟨isWritable_of_isEncodable hs hon.lt_length _, isWritable_of_isEncodable hs hon.lt_length _⟩

end Action.IsFor

theorem analyze_named (s : Source) (name : Option Text) :
    analyze (Source.named name s.text) = analyze s := analyze_congr s.lines_eq.symm

/-- What a client gets, its places, and what it makes of the edits: with columns in code units they mean
the same as with columns in characters. -/
structure Action.MeansInUnits (action : Action) (s : Source) (v : Json) : Prop where
  isPlace : ∀ line character, Json.HasPlace line character v → s.IsPlace line character
  edits : Client.edits? s.name v = some (action.edits.map (·.written s))
  textAfter : ∀ e ∈ action.edits, e.toJson s = .ok (e.written s) ∧ ∃ text, e.textAfter s = some text ∧
    Client.unitsAfter? (encodeUnits s.text) (e.written s) = some (encodeUnits text) ∧
    (IsEncodable s.text → decodeUnits? (encodeUnits text) = some text)

theorem Action.IsFor.meansInUnits {x : Action} {a : Analysis} (h : x.IsFor s a.diagnostics)
    (ha : analyze s = .ok a) (hw : x.IsWritable s) : x.MeansInUnits s (x.written s) := by
  obtain ⟨e, k, i, j, he, hon⟩ := h.edit
  refine ⟨fun line character => h.isPlace ha hw, h.edits?_written, fun e' he' => ?_⟩
  obtain rfl : e' = e := by simpa [he] using he'
  obtain ⟨text, htext, hunits, hencodable⟩ := hon.unitsAfter?_written
  refine ⟨?_, text, htext, hunits, fun hs => decodeUnits?_encodeUnits (hencodable hs)⟩
  rw [Edit.toJson_eq hon.isIn.1.col_nonneg hon.isIn.2.1.col_nonneg, if_pos (hw.2 e' he')]

/-- The edits of the actions for a text are edits of that text, and mean the same with columns in
code units as with columns in characters. An action is sent just if no surrogate on its own stands before
one of its places. -/
theorem edits_in_code_units {s : Source} {a : Analysis}
    (ha : analyze (Source.named none s.text) = .ok a) :
    ∃ actions, proposeActions s none a.diagnostics (fun _ => true) = .ok actions ∧
      ∀ action ∈ actions,
        (∀ e ∈ action.edits, e.start.IsIn s ∧ e.stop.IsIn s ∧ e.start ≤ e.stop) ∧
        (action.IsWritable s → ∃ v, action.toJson s = .ok v ∧ action.MeansInUnits s v) ∧
        (¬ action.IsWritable s → action.toJson s = .error .loneSurrogate) ∧
        (IsEncodable s.text → action.IsWritable s) := by
  rw [analyze_named] at ha
  obtain ⟨actions, hactions, h⟩ := exists_proposeActions ha
  refine ⟨actions, hactions, fun x hx => ⟨?_, fun hw => ?_, fun hw => ?_, (h x hx).isWritable ha⟩⟩
  · obtain ⟨e, k, i, j, he, hon⟩ := (h x hx).edit
    intro e' he'
    obtain rfl : e' = e := by simpa [he] using he'
    exact hon.isIn
  · exact ⟨x.written s, by rw [(h x hx).toJson_eq ha, if_pos hw], (h x hx).meansInUnits ha hw⟩
  · rw [(h x hx).toJson_eq ha, if_neg hw]

end

def astralProgram : Source := Source.named (some "file:///a") (Text.toList "ADD #𝄞\r\nLDA FOO ;𝄞")

/-- The comment ends in half a character, behind which the missing label would be defined. -/
def halfProgram : Source :=
  Source.named (some "file:///a") (Text.toList "ADD #𝄞\r\nLDA FOO ;" ++ [.ofNat 0xd800])

theorem exists_actions_halfProgram :
    ∃ a actions, analyze (Source.named none halfProgram.text) = .ok a ∧
      proposeActions halfProgram none a.diagnostics (fun _ => true) = .ok actions ∧
      (∃ action ∈ actions, action.IsWritable halfProgram) ∧
      ∃ action ∈ actions, ¬ action.IsWritable halfProgram := by
  obtain ⟨a, ha⟩ : ∃ a, analyze halfProgram = .ok a := ⟨_, rfl⟩
  obtain ⟨actions, hactions, -⟩ := exists_proposeActions ha
  have hrun : ∀ as ∈ ((analyze halfProgram).bind fun a =>
      proposeActions halfProgram none a.diagnostics fun _ => true).toOption,
      (∃ x ∈ as, x.IsWritable halfProgram) ∧ ∃ x ∈ as, ¬ x.IsWritable halfProgram := by
    decide +kernel
  rw [ha, Except.bind, hactions] at hrun
  refine ⟨a, actions, ?_, hactions, hrun actions rfl⟩
  rwa [analyze_named]

theorem edits_in_code_units_halfProgram :
    ∃ a actions, analyze (Source.named none halfProgram.text) = .ok a ∧
      proposeActions halfProgram none a.diagnostics (fun _ => true) = .ok actions ∧
      (∃ action ∈ actions, ∃ v, action.toJson halfProgram = .ok v ∧
        action.MeansInUnits halfProgram v) ∧
      ∃ action ∈ actions, action.toJson halfProgram = .error .loneSurrogate := by
  obtain ⟨a, actions, ha, hactions, ⟨x, hx, hsent⟩, y, hy, hunsent⟩ := exists_actions_halfProgram
  obtain ⟨actions', hactions', h⟩ := edits_in_code_units ha
  obtain rfl : actions = actions' := Except.ok.inj (hactions.symm.trans hactions')
  exact ⟨a, actions, ha, hactions, ⟨x, hx, (h x hx).2.1 hsent⟩, y, hy, (h y hy).2.2.1 hunsent⟩

/-- Not every action for a text can be sent. -/
theorem not_exists_action_toJson : ¬ ∀ (s : Source) (a : Analysis),
    analyze (Source.named none s.text) = .ok a → ∃ actions,
      proposeActions s none a.diagnostics (fun _ => true) = .ok actions ∧
      ∀ action ∈ actions, ∃ v, action.toJson s = .ok v := by
  intro h
  obtain ⟨a, actions, ha, hactions, -, x, hx, hunsent⟩ := exists_actions_halfProgram
  obtain ⟨actions', hactions', hsent⟩ := h halfProgram a ha
  obtain rfl : actions = actions' := Except.ok.inj (hactions.symm.trans hactions')
  obtain ⟨v, hv⟩ := hsent x hx
  have ha' : analyze halfProgram = .ok a := by rwa [analyze_named] at ha
  obtain ⟨actions', hactions', hfor⟩ := exists_proposeActions ha'
  obtain rfl : actions = actions' := Except.ok.inj (hactions.symm.trans hactions')
  rw [(hfor x hx).toJson_eq ha', if_neg hunsent] at hv
  cases hv

end LittleMan
