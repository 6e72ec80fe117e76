import Mathlib.Data.Nat.Digits.Defs
import LittleMan.Proofs.Text.Octets
import LittleMan.Proofs.Session.History

/-! Frames as they are sent. A header tells how many bytes of body follow, and exactly these are read. -/

namespace LittleMan

theorem dropWhile_of_blanks {before t : List CodePoint} (hb : ∀ c ∈ before, isBlank c = true)
    (hhead : ∀ c ∈ t.head?, isBlank c = false) : (before ++ t).dropWhile isBlank = t := by
  rw [List.dropWhile_append_of_pos hb]
  cases t with
  | nil => rfl
  | cons c t => rw [List.dropWhile_cons_of_neg (by simp [hhead c rfl])]

theorem strip_padded {before t after : List CodePoint} (hb : ∀ c ∈ before, isBlank c = true)
    (ha : ∀ c ∈ after, isBlank c = true) (hne : t ≠ []) (hhead : ∀ c ∈ t.head?, isBlank c = false)
    (hlast : ∀ c ∈ t.getLast?, isBlank c = false) : strip (before ++ t ++ after) = t := by
  have hfront : (before ++ (t ++ after)).dropWhile isBlank = t ++ after := by
    refine dropWhile_of_blanks hb fun c hc => hhead c ?_
    rwa [List.head?_append_of_ne_nil t hne] at hc
  have hback : (after.reverse ++ t.reverse).dropWhile isBlank = t.reverse := by
    refine dropWhile_of_blanks (fun c hc => ha c (List.mem_reverse.1 hc)) fun c hc => hlast c ?_
    rwa [List.head?_reverse] at hc
  rw [strip, List.append_assoc, hfront, List.reverse_append, hback, List.reverse_reverse]

namespace Frame

theorem groupedDigits?_of_digits {t : List CodePoint} (h : ∀ c ∈ t, c.isDigit = true) {digit : Bool}
    (hne : digit = true ∨ t ≠ []) : groupedDigits? digit t = some t := by
  induction t generalizing digit with
  | nil =>
    obtain rfl := hne.resolve_right (not_not.2 rfl)
    rfl
  | cons c t ih =>
    have hc := h c List.mem_cons_self
    rw [groupedDigits?, if_pos hc, ih (fun x hx => h x (List.mem_cons_of_mem _ hx)) (Or.inl rfl)]
    rfl

/-- A number as it stands in a header. -/
def digits (n : Nat) : List CodePoint := (Nat.toDigits 10 n).map .scalar

theorem digits_ne_nil (n : Nat) : digits n ≠ [] := by
  rw [digits, Ne, List.map_eq_nil_iff]
  exact Nat.toDigits_ne_nil

theorem isDigit_of_mem {n : Nat} {c : CodePoint} (h : c ∈ digits n) : c.isDigit = true := by
  obtain ⟨c, hc, rfl⟩ := List.mem_map.1 h
  have hdigit := Nat.isDigit_of_mem_toDigits (by decide) (by decide) hc
  rw [CodePoint.isDigit_iff, CodePoint.toNat_scalar]
  simpa [Char.isDigit, UInt32.le_iff_toNat_le] using hdigit

theorem value_digits (n : Nat) : Decimal.value (digits n) = n := by
  have hvalue : Decimal.value (digits n) = Nat.ofDigitChars 10 (Nat.toDigits 10 n) 0 := by
    rw [Decimal.value, digits, List.foldl_map]
    rfl
  rw [hvalue, Nat.ofDigitChars_ten_toDigits]

theorem integer?_digits {n : Nat} (h : n < 10 ^ Decimal.digitLimit) :
    integer? (digits n) = some (n : Int) := by
  have hlength : (digits n).length ≤ Decimal.digitLimit := by
    rw [digits, List.length_map]
    exact (Nat.length_toDigits_le_iff (by decide) (by decide)).2 h
  have hread : groupedDigits? false (digits n) = some (digits n) :=
    groupedDigits?_of_digits (fun c => isDigit_of_mem) (Or.inr (digits_ne_nil n))
  have hvalue := value_digits n
  have hdigit : ∀ c ∈ digits n, c.isDigit = true := fun c => isDigit_of_mem
  generalize digits n = t at *
  cases t with
  | nil => cases hread
  | cons c t =>
    have hc := hdigit c List.mem_cons_self
    have hminus : c ≠ '-' := by
      rintro rfl
      cases hc
    have hplus : c ≠ '+' := by
      rintro rfl
      cases hc
    have hsign : integer? (c :: t) = (groupedDigits? false (c :: t)).bind fun ds =>
        if Decimal.digitLimit < ds.length then none else some (Decimal.value ds : Int) := by
      unfold integer?
      split
      next negative digits heq =>
        split at heq
        · next h => exact absurd (List.cons.inj h).1 hminus
        · next h => exact absurd (List.cons.inj h).1 hplus
        · obtain ⟨rfl, rfl⟩ := Prod.mk.inj heq
          cases groupedDigits? false (c :: t) <;> rfl
    rw [hsign, hread, Option.bind_some, if_neg (Nat.not_lt.2 hlength), hvalue]

theorem takeLine_of_break {line rest : List UInt8} (h : (10 : UInt8) ∉ line) :
    takeLine (line ++ 10 :: rest) = (line ++ [10], rest) := by
  induction line with
  | nil => rfl
  | cons b line ih =>
    have hb : b ≠ 10 := fun heq => h (heq ▸ List.mem_cons_self)
    rw [List.cons_append, takeLine, if_neg hb, ih fun hm => h (List.mem_cons_of_mem _ hm)]
    rfl

theorem read_of_break {h : Header} {line rest : List UInt8} (hno : (10 : UInt8) ∉ line) :
    read h (line ++ 10 :: rest) =
      match h.next (line ++ [10]) with
      | .malformed why => (.malformed why, rest)
      | .body size => readBody size rest
      | .line h => read h rest := by
  have hline : takeLine (line ++ 10 :: rest) = _ := takeLine_of_break hno
  cases line with
  | nil =>
    rw [List.nil_append] at hline ⊢
    cases hhead : h.next ([] ++ [10]) <;> simp only [read, hline, hhead]
  | cons b line =>
    rw [List.cons_append] at hline ⊢
    cases hhead : h.next (b :: line ++ [10]) <;> simp only [read, hline, hhead]

/-- The header of a body of so many bytes. -/
def headerOf (n : Nat) : List UInt8 := octets ("Content-Length: " ++ toString n ++ "\r\n\r\n")

/-- The line of a header that tells the size, without its break. -/
def sizeLine (n : Nat) : List CodePoint := Text.toList "Content-Length: " ++ digits n ++ [.scalar '\r']

theorem octets_toString (n : Nat) : octets (toString n) = (digits n).map octet := by
  have hascii : ∀ c ∈ Nat.toDigits 10 n, c.toNat < 128 := by
    intro c hc
    have hdigit := isDigit_of_mem (List.mem_map_of_mem (f := CodePoint.scalar) hc)
    rw [CodePoint.isDigit_iff, CodePoint.toNat_scalar] at hdigit
    omega
  rw [Nat.toString_eq_ofList_toDigits, octets_of_ascii hascii, digits]

theorem headerOf_eq (n : Nat) : headerOf n = (sizeLine n).map octet ++ 10 :: ([13] ++ 10 :: []) := by
  have hname : octets "Content-Length: " = (Text.toList "Content-Length: ").map octet := by decide +kernel
  have hbreaks : octets "\r\n\r\n" = [13, 10, 13, 10] := by decide +kernel
  have hreturn : [CodePoint.scalar '\r'].map octet = [13] := rfl
  unfold headerOf sizeLine
  rw [octets_append, octets_append, octets_toString, hname, hbreaks, List.map_append,
    List.map_append, hreturn, List.append_assoc, List.append_assoc, List.append_assoc]
  rfl

theorem break_not_mem_map_octet {t : List CodePoint} (h : ∀ c ∈ t, c.toNat < 128 ∧ c ≠ '\n') :
    (10 : UInt8) ∉ t.map octet := by
  intro hm
  obtain ⟨c, hc, heq⟩ := List.mem_map.1 hm
  obtain ⟨hlt, hne⟩ := h c hc
  have hchar := ofNat_octet hlt
  rw [heq] at hchar
  exact hne hchar.symm

theorem sizeLine_ascii (n : Nat) : ∀ c ∈ sizeLine n, c.toNat < 128 ∧ c ≠ '\n' := by
  intro c hc
  unfold sizeLine at hc
  rw [List.append_assoc, List.mem_append, List.mem_append] at hc
  rcases hc with hc | hc | hc
  · have hname : (Text.toList "Content-Length: ").all (fun c => c.toNat < 128 ∧ c ≠ '\n') = true := by
      decide
    exact of_decide_eq_true (List.all_eq_true.1 hname c hc)
  · have hdigit := isDigit_of_mem hc
    rw [CodePoint.isDigit_iff] at hdigit
    refine ⟨by omega, ?_⟩
    rintro rfl
    simp at hdigit
  · obtain rfl := List.mem_singleton.1 hc
    decide

theorem readLine_map_octet {t : List CodePoint} (h : ∀ c ∈ t, c.toNat < 128) :
    HeaderLine.read (t.map octet) =
      if (strip t).isEmpty then .blank
      else if (strip t).contains (.scalar ':') then
        .field (((strip t).takeWhile (· != .scalar ':')).map CodePoint.toLower)
          (strip (((strip t).dropWhile (· != .scalar ':')).drop 1))
      else .malformed .noColon := by
  have hlow : ((t.map octet).any (127 < ·)) = false := by
    rw [List.any_eq_false]
    intro b hb
    obtain ⟨c, hc, rfl⟩ := List.mem_map.1 hb
    have hlt := h c hc
    have hbound : (127 : UInt8).toNat = 127 := rfl
    rw [octet, decide_eq_true_eq, UInt8.lt_iff_toNat_lt, UInt8.toNat_ofNat', hbound]
    omega
  have hback : (t.map octet).map (fun b => CodePoint.ofNat b.toNat) = t := by
    rw [List.map_map]
    exact (List.map_congr_left fun c hc => ofNat_octet (h c hc)).trans (List.map_id t)
  simp only [HeaderLine.read, hlow, hback, Bool.false_eq_true, if_false]

theorem not_isBlank_of_isDigit {c : CodePoint} (h : c.isDigit = true) : isBlank c = false := by
  rw [CodePoint.isDigit_iff] at h
  rw [Bool.eq_false_iff]
  intro hb
  simp only [isBlank, blankRanges, List.any_cons, List.any_nil, Bool.or_eq_true, Bool.and_eq_true,
    decide_eq_true_eq, Bool.false_eq_true, or_false] at hb
  omega

theorem readLine_sizeLine (n : Nat) : HeaderLine.read ((sizeLine n).map octet ++ [10]) =
    .field (Text.toList "content-length") (digits n) := by
  have hdigits : ∀ c ∈ digits n, isBlank c = false :=
    fun c hc => not_isBlank_of_isDigit (isDigit_of_mem hc)
  have hne : digits n ≠ [] := digits_ne_nil n
  have hline : (sizeLine n).map octet ++ [10] = (sizeLine n ++ [CodePoint.scalar '\n']).map octet := by
    rw [List.map_append]
    rfl
  have hascii : ∀ c ∈ sizeLine n ++ [.scalar '\n'], c.toNat < 128 := by
    intro c hc
    rcases List.mem_append.1 hc with hc | hc
    · exact (sizeLine_ascii n c hc).1
    · obtain rfl := List.mem_singleton.1 hc
      decide
  have hlast : ∀ c ∈ (digits n).getLast?, isBlank c = false :=
    fun c hc => hdigits c (List.mem_of_getLast? hc)
  have hstrip : strip (sizeLine n ++ [.scalar '\n']) = Text.toList "Content-Length: " ++ digits n := by
    have hbreak : sizeLine n ++ [.scalar '\n'] =
        [] ++ (Text.toList "Content-Length: " ++ digits n) ++ [.scalar '\r', .scalar '\n'] := by
      unfold sizeLine
      rw [List.append_assoc, List.nil_append]
      rfl
    rw [hbreak]
    refine strip_padded (by simp) (List.all_eq_true.1 (by decide))
      (List.append_ne_nil_of_right_ne_nil _ hne) ?_ ?_
    · intro c hc
      obtain rfl := Option.some.inj hc
      decide
    · rw [List.getLast?_append_of_ne_nil _ hne]
      exact hlast
  have hvalue : strip (.scalar ' ' :: digits n) = digits n := by
    have hpadded : strip ([.scalar ' '] ++ digits n ++ []) = digits n :=
      strip_padded (List.all_eq_true.1 (by decide)) (by simp) hne
        (fun c hc => hdigits c (List.mem_of_mem_head? hc)) hlast
    rwa [List.append_nil] at hpadded
  have hsplit : Text.toList "Content-Length: " ++ digits n =
      Text.toList "Content-Length" ++ .scalar ':' :: .scalar ' ' :: digits n := rfl
  have hname : ∀ c ∈ Text.toList "Content-Length", (c != ':') = true := List.all_eq_true.1 (by decide)
  have hlower : (Text.toList "Content-Length").map CodePoint.toLower = Text.toList "content-length" := by
    decide
  have htake : (Text.toList "Content-Length" ++ .scalar ':' :: .scalar ' ' :: digits n).takeWhile
      (· != .scalar ':') = Text.toList "Content-Length" := by
    rw [List.takeWhile_append_of_pos hname]
    exact List.append_nil _
  have hdrop : (Text.toList "Content-Length" ++ .scalar ':' :: .scalar ' ' :: digits n).dropWhile
      (· != .scalar ':') = .scalar ':' :: .scalar ' ' :: digits n := by
    rw [List.dropWhile_append_of_pos hname]
    rfl
  rw [hline, readLine_map_octet hascii, hstrip, hsplit, htake, hdrop, hlower, if_neg (by simp),
    if_pos (by simp), List.drop_one, List.tail_cons, hvalue]

theorem bodySize_of_digits {n : Nat} (hn : n < 2 ^ 63) :
    ({ started := true, size := some (digits n) } : Header).bodySize = .bytes n := by
  have hlimit : 2 ^ 63 ≤ 10 ^ Decimal.digitLimit :=
    calc 2 ^ 63 ≤ 10 ^ 63 := Nat.pow_le_pow_left (by decide) 63
      _ ≤ 10 ^ Decimal.digitLimit := Nat.pow_le_pow_right (by decide) (by decide)
  have hsmall : ¬ (Int.pow 2 63 ≤ (n : Int) ∨ (n : Int) < -Int.pow 2 63) := by
    have hpow : Int.pow 2 63 = ((2 ^ 63 : Nat) : Int) := rfl
    omega
  have hnatural : ¬ (n : Int) < 0 := by omega
  simp only [Header.bodySize, integer?_digits (Nat.lt_of_lt_of_le hn hlimit), if_neg hsmall, if_neg hnatural,
    Int.toNat_natCast]

theorem next_sizeLine (h : Header) (n : Nat) :
    h.next ((sizeLine n).map octet ++ [10]) = .line { started := true, size := some (digits n) } := by
  rw [Header.next, readLine_sizeLine]
  rfl

theorem read_headerOf {n : Nat} (hn : n < 2 ^ 63) (rest : List UInt8) :
    read {} (headerOf n ++ rest) = (ofBody (rest.take n), rest.drop n) := by
  have hno : (10 : UInt8) ∉ (sizeLine n).map octet := break_not_mem_map_octet (sizeLine_ascii n)
  have hblank : HeaderLine.read ([13] ++ [10]) = .blank := by decide
  rw [headerOf_eq, List.append_assoc, List.cons_append, read_of_break hno, next_sizeLine]
  show read { started := true, size := some (digits n) } ([13] ++ 10 :: rest) = _
  rw [read_of_break (by decide), Header.next, hblank]
  simp only [if_true, readBody, bodySize_of_digits hn]

theorem encode_eq (v : Json) :
    encode v = headerOf (octets (String.ofList v.print)).length ++ octets (String.ofList v.print) := by
  rw [length_octets]
  exact octets_append _ _

theorem read_encode {v : Json} (hn : (String.ofList v.print).utf8ByteSize < 2 ^ 63)
    (rest : List UInt8) :
    read {} (encode v ++ rest) = (ofBody (octets (String.ofList v.print)), rest) := by
  rw [← length_octets] at hn
  rw [encode_eq, List.append_assoc, read_headerOf hn, List.take_left, List.drop_left]

theorem ofBody_octets {v : Json} {fields : List (Text × Json)}
    (hread : Json.read Json.depthLimit v.print = .ok (.obj fields))
    (hversion : Json.lookup "jsonrpc" fields = some (.str "2.0")) :
    ofBody (octets (String.ofList v.print)) = .message fields := by
  simp only [ofBody, fromUTF8?_octets, String.toList_ofList, hread, hversion, if_true]

/-- What is written for a message is read back as the message. -/
def ReadsBack (fields : List (Text × Json)) : Prop :=
  Json.read Json.depthLimit (Json.obj fields).print = .ok (.obj fields) ∧
    Json.lookup "jsonrpc" fields = some (.str "2.0") ∧
    (String.ofList (Json.obj fields).print).utf8ByteSize < 2 ^ 63

instance : DecidablePred ReadsBack := fun _ => inferInstanceAs (Decidable (_ ∧ _ ∧ _))

theorem all_flatMap_encode {messages : List (List (Text × Json))}
    (h : ∀ fields ∈ messages, ReadsBack fields) :
    all ((messages.map .obj).flatMap encode) = messages.map .message := by
  induction messages with
  | nil => rw [List.map_nil, List.flatMap_nil, all]; rfl
  | cons fields messages ih =>
    obtain ⟨hread, hversion, hlength⟩ := h fields List.mem_cons_self
    have hframe := read_encode hlength ((messages.map .obj).flatMap encode)
    rw [ofBody_octets hread hversion] at hframe
    rw [List.map_cons, List.flatMap_cons, all_of_read hframe (by simp),
      ih fun x hx => h x (List.mem_cons_of_mem _ hx)]
    rfl

theorem mem_of_mem_strip {t : List CodePoint} {c : CodePoint} (h : c ∈ strip t) : c ∈ t := by
  rw [strip, List.mem_reverse] at h
  have hfront := (List.dropWhile_suffix isBlank).subset h
  exact (List.dropWhile_suffix isBlank).subset (List.mem_reverse.1 hfront)

theorem eq_of_ofNat_eq {b : UInt8} {c : CodePoint} (h : CodePoint.ofNat b.toNat = c) : b.toNat = c.toNat := by
  have hlt := b.toNat_lt
  have hvalid : b.toNat.isValidChar := Or.inl (Nat.lt_trans hlt (by decide))
  rw [← h, CodePoint.ofNat, dif_neg (by omega), CodePoint.toNat_scalar, Char.ofNat, dif_pos hvalid]
  rfl

theorem readLine_of_stray {line : List UInt8} (h : (58 : UInt8) ∉ line) :
    (∃ why, HeaderLine.read (line ++ [10]) = .malformed why) ∨
      HeaderLine.read (line ++ [10]) = .blank := by
  have hno : ¬ (strip ((line ++ [10]).map fun b : UInt8 => CodePoint.ofNat b.toNat)).contains
      (.scalar ':') = true := by
    intro hm
    obtain ⟨b, hb, heq⟩ := List.mem_map.1 (mem_of_mem_strip (List.contains_iff_mem.1 hm))
    obtain rfl : b = 58 := UInt8.toNat_inj.1 (eq_of_ofNat_eq heq)
    simp [h] at hb
  simp only [HeaderLine.read, if_neg hno]
  split
  · exact Or.inl ⟨_, rfl⟩
  · split
    · exact Or.inr rfl
    · exact Or.inl ⟨_, rfl⟩

theorem read_stray {line : List UInt8} (hcolon : (58 : UInt8) ∉ line) (hbreak : (10 : UInt8) ∉ line)
    (rest : List UInt8) :
    (∃ why, read {} (line ++ 10 :: rest) = (.malformed why, rest)) ∨
      read {} (line ++ 10 :: rest) = read {} rest := by
  rw [read_of_break hbreak, Header.next]
  rcases readLine_of_stray hcolon with ⟨why, h⟩ | h
  · exact Or.inl ⟨why, by rw [h]⟩
  · exact Or.inr (by rw [h]; rfl)

end Frame

end LittleMan
