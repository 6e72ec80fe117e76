import LittleMan.Proofs.Protocol.Writing
import LittleMan.Proofs.Text.Splice

/-! What a client makes of an edit. It holds the text in UTF-16 code units, finds the lines in them,
counts the columns of a position in units and puts the new text between the two places. The result
is the text that the edit stands for here, where columns count characters. -/

namespace LittleMan

namespace Client

/-- The number of units before the given line, if the text has that many lines. -/
def lineStart? : Nat → List Nat → Option Nat
  | 0, _ => some 0
  | _ + 1, [] => none
  | n + 1, 13 :: 10 :: rest => (lineStart? n rest).map (· + 2)
  | n + 1, u :: rest =>
    if u = 13 ∨ u = 10 then (lineStart? n rest).map (· + 1)
    else (lineStart? (n + 1) rest).map (· + 1)

/-- The number of units in the first line. -/
def lineLength (units : List Nat) : Nat := (units.takeWhile fun u => u ≠ 13 ∧ u ≠ 10).length

/-- The number of units before a position. A column beyond the line stands for its end. -/
def offset? (units : List Nat) (line character : Int) : Option Nat :=
  if line < 0 ∨ character < 0 then none
  else do
    let start ← lineStart? line.toNat units
    return start + min character.toNat (lineLength (units.drop start))

def field? (key : Text) : Json → Option Json
  | .obj fields => Json.lookup key fields
  | _ => none

def place? (units : List Nat) (v : Json) : Option Nat :=
  match field? "line" v, field? "character" v with
  | some (.int line), some (.int character) => offset? units line character
  | _, _ => none

/-- The units after an edit, if its range is one of the text. -/
def unitsAfter? (units : List Nat) (edit : Json) : Option (List Nat) := do
  let range ← field? "range" edit
  let start ← place? units (← field? "start" range)
  let stop ← place? units (← field? "end" range)
  match field? "newText" edit with
  | some (.str new) =>
    if start ≤ stop then some (units.take start ++ encodeUnits new.toList ++ units.drop stop) else none
  | _ => none

/-- The edits of an action to the document of the given name. -/
def edits? (name : Text) (action : Json) : Option (List Json) := do
  match field? name (← field? "changes" (← field? "edit" action)) with
  | some (.arr edits) => some edits
  | _ => none

theorem not_break_of_mem_encodeUnits {t : List CodePoint} (hr : .scalar '\r' ∉ t) (hn : .scalar '\n' ∉ t)
    {u : Nat} (hu : u ∈ encodeUnits t) : u ≠ 13 ∧ u ≠ 10 := by
  constructor
  · rintro rfl
    exact hr (mem_of_mem_encodeUnits (by decide) hu)
  · rintro rfl
    exact hn (mem_of_mem_encodeUnits (by decide) hu)

theorem lineStart?_append {us : List Nat} (h : ∀ u ∈ us, u ≠ 13 ∧ u ≠ 10) (n : Nat)
    (rest : List Nat) :
    lineStart? (n + 1) (us ++ rest) = (lineStart? (n + 1) rest).map (· + us.length) := by
  induction us with
  | nil => simp
  | cons u us ih =>
    have hu := h u List.mem_cons_self
    rw [List.cons_append, lineStart?, if_neg (by simp [hu]),
      ih fun v hv => h v (List.mem_cons_of_mem _ hv)]
    · simp [Function.comp_def, Nat.add_assoc]
    · intro _ he
      exact absurd he hu.1

theorem head?_encodeUnits_newline {t : List CodePoint} (h : (encodeUnits t).head? = some 10) :
    t.head? = some (.scalar '\n') := by
  cases t with
  | nil => simp [encodeUnits] at h
  | cons c t =>
    rw [encodeUnits_cons, codeUnits] at h
    split at h
    · have hc : c.toNat = (CodePoint.scalar '\n').toNat := Option.some.inj h
      rw [List.head?_cons, CodePoint.toNat_inj.1 hc]
    · have hc := Option.some.inj h
      omega

theorem lineStart?_encodeUnits (k : Nat) (t : List CodePoint) :
    lineStart? k (encodeUnits t) =
      (LittleMan.lineStart? k t).map fun start => unitLength (t.take start) := by
  fun_induction LittleMan.lineStart? k t with
  | case1 => simp [lineStart?, unitLength]
  | case2 n => simp [lineStart?, encodeUnits]
  | case3 n rest ih =>
    have hu : encodeUnits (.scalar '\r' :: .scalar '\n' :: rest) = 13 :: 10 :: encodeUnits rest := rfl
    have hwidth : unitWidth (.scalar '\r') = 1 ∧ unitWidth (.scalar '\n') = 1 := ⟨rfl, rfl⟩
    rw [hu, lineStart?, ih, Option.map_map, Option.map_map]
    refine Option.map_congr fun start _ => ?_
    simp only [Function.comp_apply, List.take_succ_cons, unitLength, hwidth]
    omega
  | case4 n c rest hne hc ih =>
    have hu : encodeUnits (c :: rest) = c.toNat :: encodeUnits rest := by
      rcases hc with rfl | rfl <;> rfl
    have hbreak : c.toNat = 13 ∨ c.toNat = 10 := by rcases hc with rfl | rfl <;> simp
    have hwidth : unitWidth c = 1 := by rcases hc with rfl | rfl <;> rfl
    rw [hu, lineStart?, if_pos hbreak, ih, Option.map_map, Option.map_map]
    · refine Option.map_congr fun start _ => ?_
      simp only [Function.comp_apply, List.take_succ_cons, unitLength, hwidth]
      omega
    · intro units hr he
      obtain ⟨tail, rfl⟩ := List.head?_eq_some_iff.1 (head?_encodeUnits_newline (by rw [he]; rfl))
      exact hne tail (CodePoint.toNat_inj.1 hr) rfl
  | case5 n c rest hne hc ih =>
    simp only [not_or] at hc
    have hunits : ∀ u ∈ codeUnits c, u ≠ 13 ∧ u ≠ 10 := by
      intro u hu
      refine not_break_of_mem_encodeUnits (t := [c]) ?_ ?_ (by simpa [encodeUnits] using hu)
      · simpa using Ne.symm hc.1
      · simpa using Ne.symm hc.2
    rw [encodeUnits_cons, lineStart?_append hunits, ih, length_codeUnits, Option.map_map,
      Option.map_map]
    refine Option.map_congr fun start _ => ?_
    simp only [Function.comp_apply, List.take_succ_cons, unitLength]
    omega

theorem head?_of_linesOf {t : List CodePoint} {lines : List (List CodePoint)} (h : linesOf t = [] :: lines) :
    ∀ c ∈ t.head?, c = '\r' ∨ c = '\n' := by
  cases t with
  | nil => simp
  | cons c t =>
    intro d hd
    obtain rfl : c = d := Option.some.inj hd
    by_cases hc : c = '\r' ∨ c = '\n'
    · exact hc
    · simp only [not_or] at hc
      obtain ⟨line, rest, -, he⟩ := linesOf_cons hc.1 hc.2 t
      exact absurd (List.cons.inj (h.symm.trans he)).1 (by simp)

variable {t pre line post : List CodePoint} {k : Nat}

theorem lineLength_of_lineAt (h : LineAt t k pre line post) :
    lineLength (encodeUnits (line ++ post)) = unitLength line := by
  have hline : ∀ u ∈ encodeUnits line, decide (u ≠ 13 ∧ u ≠ 10) = true := fun u hu =>
    decide_eq_true (not_break_of_mem_encodeUnits h.no_break.1 h.no_break.2 hu)
  have hpost : (encodeUnits post).takeWhile (fun u => u ≠ 13 ∧ u ≠ 10) = [] := by
    have hhead := head?_of_linesOf h.after
    cases post with
    | nil => rfl
    | cons c post =>
      rcases hhead c rfl with rfl | rfl <;> rfl
  rw [lineLength, encodeUnits_append, List.takeWhile_append_of_pos hline, hpost, List.append_nil,
    length_encodeUnits]

theorem offset?_of_lineAt (h : LineAt t k pre line post) {col : Nat} (hcol : col ≤ line.length) :
    offset? (encodeUnits t) k (unitColumn line col) =
      some (encodeUnits (pre ++ line.take col)).length := by
  have hunits : unitColumn line col = (unitLength (line.take col) : Nat) := by
    rw [unitColumn_natCast, Nat.sub_eq_zero_of_le hcol, Nat.add_zero]
  have hneg : ¬ ((k : Int) < 0 ∨ ((unitLength (line.take col) : Nat) : Int) < 0) := by omega
  have hstart : lineStart? k (encodeUnits t) = some (unitLength pre) := by
    rw [lineStart?_encodeUnits, h.start, Option.map_some, h.text_eq, List.take_left]
  have hdrop : (encodeUnits t).drop (unitLength pre) = encodeUnits (line ++ post) := by
    rw [h.text_eq, encodeUnits_append, ← length_encodeUnits, List.drop_left]
  have hle : unitLength (line.take col) ≤ unitLength line := by
    have happ := unitLength_append (line.take col) (line.drop col)
    rw [List.take_append_drop] at happ
    omega
  rw [hunits, offset?, if_neg hneg, Int.toNat_natCast, Int.toNat_natCast, hstart]
  simp only [Option.bind_eq_bind, Option.bind_some, Option.pure_def, hdrop, lineLength_of_lineAt h,
    Nat.min_eq_left hle, length_encodeUnits, unitLength_append]

theorem place?_written {s : Source} (h : LineAt s.text k pre line post) {col : Nat}
    (hcol : col ≤ line.length) :
    place? (encodeUnits s.text) (Position.written s ⟨k, col⟩ false) =
      some (encodeUnits (pre ++ line.take col)).length := by
  have htext : s.columnText k = line := by
    simp [Source.columnText, s.lines_eq, h.line?]
  simp only [place?, field?, Position.written, positionObject, lineJson, Bool.false_eq_true, if_false,
    Json.lookup, Text.ofString_inj, String.reduceEq, if_true, htext, offset?_of_lineAt h hcol]

end Client

/-- An edit of line `k`, from character `a` to character `b`. It brings no surrogates into a text that has
none. -/
structure Edit.IsOnLine (e : Edit) (s : Source) (k a b : Nat) : Prop where
  start : e.start = ⟨k, a⟩
  stop : e.stop = ⟨k, b⟩
  le : a ≤ b
  lt_length : k < s.lines.length
  le_length : b ≤ (s.columnText k).length
  lineAsTruth : e.lineAsTruth = false
  isEncodable : IsEncodable s.text → IsEncodable e.text

theorem Edit.IsOnLine.unitsAfter?_written {e : Edit} {s : Source} {k a b : Nat}
    (h : e.IsOnLine s k a b) :
    ∃ text, e.textAfter s = some text ∧
      Client.unitsAfter? (encodeUnits s.text) (e.written s) = some (encodeUnits text) ∧
      (IsEncodable s.text → IsEncodable text) := by
  obtain ⟨pre, line, post, hl⟩ := exists_lineAt (s.lines_eq ▸ h.lt_length)
  have htext : s.columnText k = line := by
    simp [Source.columnText, s.lines_eq, hl.line?]
  have hb : b ≤ line.length := htext ▸ h.le_length
  have ha : a ≤ line.length := Nat.le_trans h.le hb
  have hsplit : ∀ n, s.text = (pre ++ line.take n) ++ (line.drop n ++ post) := by
    intro n
    rw [hl.text_eq, List.append_assoc, ← List.append_assoc (line.take n), List.take_append_drop]
  refine ⟨_, Edit.textAfter_of_lineAt hl h.start h.stop h.le hb, ?_, fun hs => ?_⟩
  · have htake : (encodeUnits s.text).take (encodeUnits (pre ++ line.take a)).length =
        encodeUnits (pre ++ line.take a) := by
      rw [hsplit a, encodeUnits_append (pre ++ line.take a), List.take_left]
    have hdrop : (encodeUnits s.text).drop (encodeUnits (pre ++ line.take b)).length =
        encodeUnits (line.drop b ++ post) := by
      rw [hsplit b, encodeUnits_append (pre ++ line.take b), List.drop_left]
    have hle : (encodeUnits (pre ++ line.take a)).length ≤
        (encodeUnits (pre ++ line.take b)).length := by
      obtain ⟨n, rfl⟩ := Nat.exists_eq_add_of_le h.le
      simp only [List.take_add, encodeUnits_append, List.length_append]
      omega
    simp only [Client.unitsAfter?, Client.field?, Edit.written, Edit.object, rangeWritten, rangeObject,
      Json.lookup, if_true, Text.ofString_inj, String.reduceEq, if_false, h.start, h.stop, h.lineAsTruth,
      Client.place?_written hl ha, Client.place?_written hl hb, Option.bind_eq_bind, Option.bind_some,
      hle, htake, hdrop, ← encodeUnits_append, List.append_assoc]
  · have hbefore := (isEncodable_append.1 (hsplit a ▸ hs)).1
    have hafter := (isEncodable_append.1 (hsplit b ▸ hs)).2
    simp only [isEncodable_append] at hbefore hafter ⊢
    exact ⟨hbefore.1, ⟨⟨hbefore.2, h.isEncodable hs⟩, hafter.1⟩, hafter.2⟩

end LittleMan
