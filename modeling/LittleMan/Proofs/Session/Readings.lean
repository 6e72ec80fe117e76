import LittleMan.Proofs.Protocol.RoundTrip
import LittleMan.Proofs.Session.Stages

/-! How the values of a client can fail to be read. Most failures are refused, and the session goes on.
The others are told one by one: a value that is no object where a field of it may be missing, and numbers
that are too large. -/

namespace LittleMan

open Session

variable {α β : Type} {e : Fault}

/-- All failures are such that the message is refused. -/
def Mild (x : Except Fault α) : Prop := ∀ e, x = .error e → isInvalidParams e = true

/-- A failure that ends the session. -/
abbrev Grave (e : Fault) : Prop := isInvalidParams e = false

theorem mild_ok (a : α) : Mild (.ok a) := nofun

theorem mild_error (he : isInvalidParams e = true) : Mild (.error e : Except Fault α) := by
  rintro e' h
  rwa [← Except.error.inj h]

theorem Mild.ne_error {x : Except Fault α} (h : Mild x) (he : Grave e) : x ≠ .error e := by
  intro hx
  rw [Grave, h e hx] at he
  cases he

theorem Mild.bind {x : Except Fault α} {f : α → Except Fault β} (hx : Mild x)
    (hf : ∀ a, x = .ok a → Mild (f a)) : Mild (x >>= f) := by
  intro e he
  rcases bind_eq_error_iff.1 he with h | ⟨a, ha, h⟩
  · exact hx e h
  · exact hf a ha e h

theorem Mild.map {x : Except Fault α} (hx : Mild x) (f : α → β) : Mild (x.map f) := by
  cases x with
  | error e => exact mild_error (hx e rfl)
  | ok a => exact mild_ok _

theorem Mild.bind_eq_error_iff {x : Except Fault α} {f : α → Except Fault β} (hx : Mild x)
    (he : Grave e) : (x >>= f) = .error e ↔ ∃ a, x = .ok a ∧ f a = .error e := by
  rw [LittleMan.bind_eq_error_iff]
  exact or_iff_right (hx.ne_error he)

namespace Json

variable {v : Json} {key : Text}

theorem mild_field (v : Json) (key : Text) : Mild (v.field key) := by
  unfold field
  split
  · split
    · exact mild_ok _
    · exact mild_error rfl
  · exact mild_error rfl

theorem mild_number (v : Json) : Mild v.number := by
  unfold number
  split
  · exact mild_ok _
  · exact mild_error rfl

theorem mild_requireScalar (v : Json) : Mild v.requireScalar := by
  unfold requireScalar
  split
  · exact mild_ok _
  · exact mild_error rfl

theorem field?_eq_error_iff : v.field? key = .error e ↔ v.isObject = false ∧ e = .notAnObject := by
  cases v <;> simp [field?, isObject, eq_comm]

theorem isObject_of_field {x : Json} (h : v.field key = .ok x) : v.isObject = true := by
  cases v <;> first | rfl | cases h

theorem exists_of_isObject (h : v.isObject = true) : ∃ fields, v = .obj fields := by
  cases v with
  | obj fields => exact ⟨fields, rfl⟩
  | _ => cases h

theorem mild_field?_of_field {x : Json} {other : Text} (h : v.field other = .ok x) :
    Mild (v.field? key) := by
  intro e he
  have hno := (field?_eq_error_iff.1 he).1
  rw [isObject_of_field h] at hno
  cases hno

end Json

open Json

theorem mild_find? (server : Server) (uri : Json) : Mild (server.find? uri) :=
  (mild_requireScalar uri).map _

theorem nonneg_of_ofRealUnits {line : List CodePoint} {start : Nat} {units : Double} {col : Int}
    (h : ofRealUnits start line units = .whole col) : 0 ≤ col := by
  have hstop : ∀ {start : Nat} {units : Double},
      (if units.isNegative then .whole start else .real (units.add start)) = Number.whole col →
        0 ≤ col := by
    intro start units h
    split at h
    · obtain rfl := Number.whole.inj h
      exact Int.natCast_nonneg start
    · cases h
  induction line generalizing start units with
  | nil => exact hstop h
  | cons c line ih =>
    rw [ofRealUnits] at h
    split at h
    · exact hstop h
    · exact ih h

theorem nonneg_of_columnOf {line : List CodePoint} {units : Number} {col : Int}
    (h : columnOf line units = .whole col) : 0 ≤ col := by
  cases units with
  | whole n =>
    obtain rfl := Number.whole.inj h
    exact ofUnits_nonneg line n
  | real x => exact nonneg_of_ofRealUnits h

namespace Point

variable {s : Source} {v : Json} {p start stop : Point}

theorem mild_textOfLine (line : Number) : Mild (textOfLine s line) := by
  unfold textOfLine
  split
  · exact mild_ok _
  · split
    · exact mild_error rfl
    · exact mild_ok _

theorem mild_ofJson (v : Json) : Mild (ofJson s v) :=
  .bind (mild_field _ _) fun _ _ => .bind (mild_number _) fun _ _ =>
    .bind (mild_textOfLine _) fun _ _ => .bind (mild_field _ _) fun _ _ =>
      .bind (mild_number _) fun _ _ => mild_ok _

theorem mild_rangeOfJson (v : Json) : Mild (rangeOfJson s v) :=
  .bind (mild_field _ _) fun _ _ => .bind (mild_ofJson _) fun _ _ =>
    .bind (mild_field _ _) fun _ _ => .bind (mild_ofJson _) fun _ _ => mild_ok _

/-- What a point has that comes from a client. -/
structure IsGiven (p : Point) : Prop where
  col : ∀ col, p.col = .whole col → 0 ≤ col
  truth : p.lineAsTruth = true → p.line = .whole 0 ∨ p.line = .whole 1

theorem isGiven_of_ofJson (h : ofJson s v = .ok p) : p.IsGiven := by
  obtain ⟨given, -, h⟩ := bind_eq_ok_iff.1 h
  obtain ⟨line, hline, h⟩ := bind_eq_ok_iff.1 h
  obtain ⟨text, -, h⟩ := bind_eq_ok_iff.1 h
  obtain ⟨last, -, h⟩ := bind_eq_ok_iff.1 h
  obtain ⟨units, -, h⟩ := bind_eq_ok_iff.1 h
  obtain rfl := Except.ok.inj h
  refine ⟨fun col hcol => nonneg_of_columnOf hcol, fun htruth => ?_⟩
  cases given with
  | bool b =>
    obtain rfl := Except.ok.inj hline
    cases b with
    | false => exact Or.inl rfl
    | true => exact Or.inr rfl
  | _ => cases htruth

theorem isGiven_of_rangeOfJson (h : rangeOfJson s v = .ok (start, stop)) :
    start.IsGiven ∧ stop.IsGiven := by
  obtain ⟨first, -, h⟩ := bind_eq_ok_iff.1 h
  obtain ⟨start', hstart, h⟩ := bind_eq_ok_iff.1 h
  obtain ⟨last, -, h⟩ := bind_eq_ok_iff.1 h
  obtain ⟨stop', hstop, h⟩ := bind_eq_ok_iff.1 h
  obtain ⟨rfl, rfl⟩ := Prod.mk.inj (Except.ok.inj h)
  exact ⟨isGiven_of_ofJson hstart, isGiven_of_ofJson hstop⟩

/-- The range is part of one line, and of its columns one has a fraction and the other is larger than
any number with a fraction. -/
def TooFar (s : Source) (start stop : Point) : Prop :=
  ∃ line n x, start.line = .whole line ∧ stop.line = .whole line ∧ s.hasLine line = true ∧
    Double.tooLarge n = true ∧
    (start.col = .whole n ∧ stop.col = .real x ∨ start.col = .real x ∧ stop.col = .whole n)

end Point

namespace Diagnostic

variable {s : Source} {v : Json}

theorem rebuild_eq_error_iff {kind : Kind} {fields : List (Text × Json)} {start stop : Point}
    (he : Grave e) :
    rebuild s kind fields start stop = .error e ↔ e = .sizeOverflow ∧ Point.TooFar s start stop := by
  constructor
  · intro h
    have hlarge : ∀ n, (.error (if Double.tooLarge n = true then .sizeOverflow else .wrongShape) :
        Except Fault (Option Diagnostic)) = .error e →
          e = .sizeOverflow ∧ Double.tooLarge n = true := by
      intro n hn
      obtain rfl := Except.error.inj hn
      by_cases hl : Double.tooLarge n = true
      · exact ⟨if_pos hl, hl⟩
      · rw [if_neg hl] at he
        cases he
    unfold rebuild at h
    split at h
    · next line stopLine hs ht =>
      split at h
      · cases h
      · next hline =>
        have hhas : line = stopLine ∧ s.hasLine line = true := by simpa using hline
        obtain ⟨rfl, hhas⟩ := hhas
        split at h
        · cases h
        · next n x hc hd =>
          obtain ⟨hsize, hl⟩ := hlarge n h
          exact ⟨hsize, line, n, x, hs, ht, hhas, hl, Or.inl ⟨hc, hd⟩⟩
        · next x n hc hd =>
          obtain ⟨hsize, hl⟩ := hlarge n h
          exact ⟨hsize, line, n, x, hs, ht, hhas, hl, Or.inr ⟨hc, hd⟩⟩
        · obtain rfl := Except.error.inj h
          cases he
    · cases h
  · rintro ⟨rfl, line, n, x, hs, ht, hhas, hl, ⟨hc, hd⟩ | ⟨hc, hd⟩⟩
    · simp [rebuild, hs, ht, hhas, hc, hd, hl]
    · simp [rebuild, hs, ht, hhas, hc, hd, hl]

/-- A returned diagnostic that ends the session. -/
inductive Breaks (s : Source) (v : Json) : Fault → Prop
  | shape (h : v.isObject = false) : Breaks s v .notAnObject
  | size {fields : List (Text × Json)} {kind : Kind} {range : Json} {start stop : Point}
      (hv : v = .obj fields) (hk : kindOf? (lookup "code" fields) = some kind)
      (hr : v.field "range" = .ok range) (hp : Point.rangeOfJson s range = .ok (start, stop))
      (h : Point.TooFar s start stop) : Breaks s v .sizeOverflow

theorem ofJson?_eq_error_iff (he : Grave e) : ofJson? s v = .error e ↔ Breaks s v e := by
  cases v with
  | obj fields =>
    simp only [ofJson?]
    cases hk : kindOf? (lookup "code" fields) with
    | none =>
      refine ⟨by simp, fun h => ?_⟩
      cases h with
      | shape h => cases h
      | size hv hk' =>
        cases hv
        simp [hk] at hk'
    | some kind =>
      simp only [(mild_field _ _).bind_eq_error_iff he,
        (Point.mild_rangeOfJson _).bind_eq_error_iff he]
      constructor
      · rintro ⟨range, hr, ⟨start, stop⟩, hp, h⟩
        obtain ⟨rfl, hfar⟩ := (rebuild_eq_error_iff he).1 h
        exact .size rfl hk hr hp hfar
      · intro h
        cases h with
        | shape h => cases h
        | size hv hk' hr hp h =>
          cases hv
          exact ⟨_, hr, ⟨_, _⟩, hp, (rebuild_eq_error_iff he).2 ⟨rfl, h⟩⟩
  | _ =>
    simp only [ofJson?, Except.error.injEq]
    refine ⟨fun h => h ▸ .shape rfl, fun h => ?_⟩
    cases h with
    | shape => rfl
    | size hv => cases hv

theorem hasLine_of_rebuild {kind : Kind} {fields : List (Text × Json)} {start stop : Point}
    {d : Diagnostic} (h : rebuild s kind fields start stop = .ok (some d)) :
    s.hasLine d.span.line = true := by
  unfold rebuild at h
  split at h
  · split at h
    · cases h
    · next hline =>
      split at h
      · obtain rfl := Option.some.inj (Except.ok.inj h)
        simp only [not_or] at hline
        simpa using hline.2
      · cases h
      · cases h
      · cases h
  · cases h

variable {d : Diagnostic}

theorem returnable_of_rebuild {kind : Kind} {fields : List (Text × Json)} {start stop : Point}
    (hstart : start.IsGiven) (hstop : stop.IsGiven)
    (h : rebuild s kind fields start stop = .ok (some d)) : d.Returnable s := by
  have hline := hasLine_of_rebuild h
  unfold rebuild at h
  split at h
  · next line stopLine hl _ =>
    split at h
    · cases h
    · split at h
      · next col stopCol hcol hstopCol =>
        obtain rfl := Option.some.inj (Except.ok.inj h)
        have hsum : col + (stopCol - col) = stopCol := by omega
        refine ⟨hline, hstart.col _ hcol, ?_, fun htruth => ?_, ?_, rfl⟩
        · rw [Span.stopCol, hsum]
          exact hstop.col _ hstopCol
        · have hgiven := hstart.truth htruth
          rw [hl] at hgiven
          exact hgiven.imp Number.whole.inj Number.whole.inj
        · rw [Span.stopCol, hsum]
      · cases h
      · cases h
      · cases h
  · cases h

theorem returnable_of_ofJson? (h : ofJson? s v = .ok (some d)) : d.Returnable s := by
  cases v with
  | obj fields =>
    simp only [ofJson?] at h
    split at h
    · cases h
    · obtain ⟨range, -, h⟩ := bind_eq_ok_iff.1 h
      obtain ⟨ends, hends, h⟩ := bind_eq_ok_iff.1 h
      obtain ⟨hstart, hstop⟩ := Point.isGiven_of_rangeOfJson hends
      exact returnable_of_rebuild hstart hstop h
  | _ => cases h

end Diagnostic

namespace Session

theorem mild_openingOf (params : Json) : Mild (openingOf params) :=
  .bind (mild_field _ _) fun _ _ => .bind (mild_field _ _) fun _ huri =>
    .bind (mild_field _ _) fun _ _ => .bind (mild_field?_of_field huri) fun _ _ =>
      .bind (mild_requireScalar _) fun _ _ => mild_ok _

theorem mild_lastText {changes : Json} (h : changes.isEmpty = false) : Mild (lastText changes) := by
  cases changes with
  | arr items =>
    cases hl : items.getLast? with
    | none =>
      rw [List.getLast?_eq_none_iff.1 hl] at h
      cases h
    | some last =>
      simp only [lastText, hl]
      exact mild_field _ _
  | _ => exact mild_error rfl

theorem mild_revisionOf (server : Server) (params : Json) : Mild (revisionOf server params) := by
  refine .bind (mild_field _ _) fun item _ => .bind (mild_field _ _) fun uri huri => ?_
  refine .bind (mild_find? _ _) fun found _ => ?_
  cases found with
  | none => exact mild_ok _
  | some doc =>
    refine .bind (mild_field _ _) fun changes _ => ?_
    cases hc : changes.isEmpty with
    | true => exact mild_ok _
    | false =>
      exact .bind (mild_lastText hc) fun _ _ => .bind (mild_field?_of_field huri) fun _ _ => mild_ok _

theorem mild_closingOf (server : Server) (params : Json) : Mild (closingOf server params) := by
  refine .bind (mild_field _ _) fun item _ => .bind (mild_field _ _) fun uri _ => ?_
  split
  · exact .bind (mild_requireScalar _) fun _ _ => mild_ok _
  · exact mild_ok _

end Session

end LittleMan
