import LittleMan.Json.Printer
import LittleMan.Json.Reader
import LittleMan.Text.Blank

/-! Messages in a stream of bytes. A message is a block of header lines, an empty line, and as many
bytes of JSON text as the header says. What is malformed is skipped up to where reading stopped. -/

namespace LittleMan

inductive Malformation where
  | notAscii
  | noColon
  | noSize
  /-- A number, be it the size or one in the body, is not read. -/
  | badNumber
  | notUtf8
  | notJson
  /-- The body is no object that tells the version of the protocol. -/
  | notMessage
  deriving DecidableEq, Repr

/-- The exception that the log names. How the interpreter words what it finds wrong in a text is left
out. -/
def Malformation.account : Malformation → Text
  | notAscii | notUtf8 => "UnicodeDecodeError"
  | noColon => "ValueError('substring not found')"
  | noSize => "KeyError('content-length')"
  | badNumber => "ValueError"
  | notJson => "JSONDecodeError"
  | notMessage => "ValueError('Not a JSON-RPC 2.0 message')"

inductive Frame where
  /-- The stream ends, be it within a header. -/
  | ended
  | message (fields : List (Text × Json))
  | malformed (why : Malformation)
  /-- A message of a size that no memory holds. -/
  | tooLarge
  /-- A message that is nested deeper than there is room for. -/
  | tooDeep
  deriving DecidableEq, Repr

namespace Frame

def takeLine : List UInt8 → List UInt8 × List UInt8
  | [] => ([], [])
  | b :: rest => if b = 10 then ([b], rest) else (b :: (takeLine rest).1, (takeLine rest).2)

theorem takeLine_append (bytes : List UInt8) : (takeLine bytes).1 ++ (takeLine bytes).2 = bytes := by
  induction bytes with
  | nil => rfl
  | cons b rest ih => by_cases h : b = 10 <;> simp [takeLine, h, ih]

theorem length_takeLine_rest_lt (b : UInt8) (rest : List UInt8) :
    (takeLine (b :: rest)).2.length < (b :: rest).length := by
  have h := congrArg List.length (takeLine_append rest)
  rw [List.length_append] at h
  by_cases hb : b = 10 <;> simp [takeLine, hb]
  omega

inductive HeaderLine where
  | blank
  | field (name value : List CodePoint)
  | malformed (why : Malformation)
  deriving DecidableEq, Repr

def HeaderLine.read (line : List UInt8) : HeaderLine :=
  if line.any (127 < ·) then .malformed .notAscii
  else
    let text := strip (line.map fun b => CodePoint.ofNat b.toNat)
    if text.isEmpty then .blank
    else if text.contains ':' then
      .field ((text.takeWhile (· != .scalar ':')).map CodePoint.toLower)
        (strip ((text.dropWhile (· != .scalar ':')).drop 1))
    else .malformed .noColon

structure Header where
  /-- There was a field. -/
  started : Bool := false
  /-- The last size that was given. -/
  size : Option (List CodePoint) := none
  deriving DecidableEq, Repr

def Header.add (h : Header) (name value : List CodePoint) : Header :=
  { started := true, size := if name = Text.toList "content-length" then some value else h.size }

/-- Decimal digits without the underscores between them. `digit` tells that one stands before. -/
def groupedDigits? (digit : Bool) : List CodePoint → Option (List CodePoint)
  | [] => if digit then some [] else none
  | c :: rest =>
    if c.isDigit then (groupedDigits? true rest).map (c :: ·)
    else if c = '_' ∧ digit then groupedDigits? false rest
    else none

def integer? (t : List CodePoint) : Option Int :=
  let (negative, digits) :=
    match t with
    | .scalar '-' :: rest => (true, rest)
    | .scalar '+' :: rest => (false, rest)
    | _ => (false, t)
  match groupedDigits? false digits with
  | some ds =>
    if Decimal.digitLimit < ds.length then none
    else
      let n : Int := Decimal.value ds
      some (if negative then -n else n)
  | none => none

/-- The message that a body holds: an object that tells the version of the protocol. -/
def ofBody (body : List UInt8) : Frame :=
  match String.fromUTF8? ⟨body.toArray⟩ with
  | some text =>
    match Json.read Json.depthLimit text.toList with
    | .ok (.obj fields) =>
      if Json.lookup "jsonrpc" fields = some (.str "2.0") then .message fields
      else .malformed .notMessage
    | .ok _ => .malformed .notMessage
    | .error .malformed => .malformed .notJson
    | .error .tooManyDigits => .malformed .badNumber
    | .error .tooDeep => .tooDeep
  | none => .malformed .notUtf8

inductive BodySize where
  | missing (why : Malformation)
  | tooLarge
  /-- A negative size stands for all that is left. -/
  | rest
  | bytes (n : Nat)
  deriving DecidableEq, Repr

def Header.bodySize (h : Header) : BodySize :=
  match h.size with
  | none => .missing .noSize
  | some size =>
    match integer? size with
    | none => .missing .badNumber
    | some n =>
      if Int.pow 2 63 ≤ n ∨ n < -Int.pow 2 63 then .tooLarge
      else if n < 0 then .rest
      else .bytes n.toNat

inductive Next where
  | line (h : Header)
  | body (size : BodySize)
  | malformed (why : Malformation)
  deriving DecidableEq, Repr

def Header.next (h : Header) (line : List UInt8) : Next :=
  match HeaderLine.read line with
  | .malformed why => .malformed why
  | .blank => if h.started then .body h.bodySize else .line h
  | .field name value => .line (h.add name value)

/-- The body after a header. It may be shorter than announced. -/
def readBody (size : BodySize) (bytes : List UInt8) : Frame × List UInt8 :=
  match size with
  | .missing why => (.malformed why, bytes)
  | .tooLarge => (.tooLarge, bytes)
  | .rest => (ofBody bytes, [])
  | .bytes n => (ofBody (bytes.take n), bytes.drop n)

/-- The first frame of a stream, and what follows it, when some header lines have been read. -/
def read (h : Header) (bytes : List UInt8) : Frame × List UInt8 :=
  match bytes with
  | [] => (.ended, [])
  | b :: rest =>
    match h.next (takeLine (b :: rest)).1 with
    | .malformed why => (.malformed why, (takeLine (b :: rest)).2)
    | .body size => readBody size (takeLine (b :: rest)).2
    | .line h => read h (takeLine (b :: rest)).2
termination_by bytes.length
decreasing_by exact length_takeLine_rest_lt b rest

theorem length_readBody_le (size : BodySize) (bytes : List UInt8) :
    (readBody size bytes).2.length ≤ bytes.length := by
  unfold readBody
  split <;> simp

theorem length_read_le (h : Header) (bytes : List UInt8) :
    (read h bytes).2.length ≤ bytes.length - 1 := by
  fun_induction read h bytes with
  | case1 => simp
  | case2 h b rest why hn => exact Nat.le_sub_one_of_lt (length_takeLine_rest_lt b rest)
  | case3 h b rest size hn =>
    exact Nat.le_trans (length_readBody_le size _)
      (Nat.le_sub_one_of_lt (length_takeLine_rest_lt b rest))
  | case4 h b rest next hn ih =>
    have := length_takeLine_rest_lt b rest
    omega

/-- Reading a frame off a stream uses up a byte at least. -/
theorem length_read_lt (h : Header) {bytes : List UInt8} (hne : bytes ≠ []) :
    (read h bytes).2.length < bytes.length := by
  have := length_read_le h bytes
  have := List.length_pos_iff.2 hne
  omega

def text (message : Json) : String :=
  let body := String.ofList message.print
  "Content-Length: " ++ toString body.utf8ByteSize ++ "\r\n\r\n" ++ body

def encode (message : Json) : List UInt8 := (text message).toUTF8.toList

end Frame

end LittleMan
