import Suift.Lib.Text
import Suift.Lib.Utf8

/-!
# JSON texts

`Value` is a JSON text as a tree.  Numbers and strings are kept as they are written: a number as its
literal, a string as what stands between the quotes, escapes included.  `print` writes a tree without
any white space and `parse` reads a text; `parse_print` is the round trip, for trees whose literals are
well formed.

A byte string enters a JSON text through `escape` and is read with `unquote`.  The format has no way to
write bytes that are not UTF-8: `escape` writes `\ufffd` for them, so that what is read is the coerced
string (`unquote_escape`), and writing it once more gives another text unless nothing had to be coerced
(`escape_coerce_eq_iff`).
-/

namespace Suift.Json

open Text Utf8

inductive Value
  | null
  | bool (b : Bool)
  | num (raw : List UInt8)
  | str (raw : List UInt8)
  | arr (elems : List Value)
  | obj (members : List (List UInt8 × Value))

/-! ### Strings -/

/-- An ASCII character inside a string.  What HTML takes for markup is escaped as well. -/
def escapeAscii (b : UInt8) : List UInt8 :=
  if b = 34 ∨ b = 92 then [92, b]
  else if b = 10 then [92, 110]
  else if b = 13 then [92, 114]
  else if b = 9 then [92, 116]
  else if b < 0x20 ∨ b = 38 ∨ b = 60 ∨ b = 62 then
    [92, 117, 48, 48, hexDigit (b.toNat / 16), hexDigit (b.toNat % 16)]
  else [b]

/-- A piece of a byte string inside a JSON string.  The two line separators of Unicode are escaped
because JavaScript does not allow them. -/
def escapePiece : Piece → List UInt8
  | .invalid _ => ascii "\\ufffd"
  | .rune b tail =>
    if tail = [] then escapeAscii b
    else if b = 0xe2 ∧ tail = [0x80, 0xa8] then ascii "\\u2028"
    else if b = 0xe2 ∧ tail = [0x80, 0xa9] then ascii "\\u2029"
    else b :: tail

/-- What stands between the quotes for the byte string `s`. -/
def escape (s : List UInt8) : List UInt8 := (pieces s).flatMap escapePiece

/-- The character that a backslash and `e` stand for. -/
def simpleEscape (e : UInt8) : Option UInt8 :=
  if e = 34 ∨ e = 92 ∨ e = 47 then some e
  else if e = 98 then some 8
  else if e = 102 then some 12
  else if e = 110 then some 10
  else if e = 114 then some 13
  else if e = 116 then some 9
  else none

/-- The number of four hexadecimal digits at the front. -/
def hex4 (s : List UInt8) : Option ℕ :=
  if 4 ≤ s.length then ofDigits 16 hexValue (s.take 4) else none

/-- The UTF-8 encoding of a rune. -/
def encodeRune (r : ℕ) : List UInt8 :=
  if r < 0x80 then [UInt8.ofNat r]
  else if r < 0x800 then [UInt8.ofNat (0xc0 + r / 64), UInt8.ofNat (0x80 + r % 64)]
  else if r < 0x10000 then
    [UInt8.ofNat (0xe0 + r / 4096), UInt8.ofNat (0x80 + r / 64 % 64), UInt8.ofNat (0x80 + r % 64)]
  else
    [UInt8.ofNat (0xf0 + r / 262144), UInt8.ofNat (0x80 + r / 4096 % 64),
      UInt8.ofNat (0x80 + r / 64 % 64), UInt8.ofNat (0x80 + r % 64)]

/-- The low half of a surrogate pair, written as an escape at the front. -/
def lowSurrogate (s : List UInt8) : Option ℕ :=
  if s.take 2 = [92, 117] then
    (hex4 (s.drop 2)).filter fun r => 0xdc00 ≤ r && r < 0xe000
  else none

/-- What the escape sequence stands for whose part after the backslash is at the front of `s`, and how
many bytes of `s` it has.  Half a surrogate pair stands for the replacement character. -/
def escapeSequence (s : List UInt8) : Option (List UInt8 × ℕ) :=
  match s with
  | [] => none
  | e :: s =>
    if e = 117 then
      (hex4 s).map fun r =>
        if 0xd800 ≤ r ∧ r < 0xdc00 then
          match lowSurrogate (s.drop 4) with
          | some r' => (encodeRune (0x10000 + (r - 0xd800) * 1024 + (r' - 0xdc00)), 11)
          | none => (Piece.replacement.bytes, 5)
        else if 0xdc00 ≤ r ∧ r < 0xe000 then (Piece.replacement.bytes, 5)
        else (encodeRune r, 5)
    else (simpleEscape e).map fun c => ([c], 1)

/-- Replace the escape sequences after the first `skip` bytes. -/
def unescapeAfter : ℕ → List UInt8 → Option (List UInt8)
  | _, [] => some []
  | skip + 1, _ :: s => unescapeAfter skip s
  | 0, b :: s =>
    if b = 92 then do
      let (text, n) ← escapeSequence s
      let rest ← unescapeAfter n s
      return text ++ rest
    else if b = 34 ∨ b < 0x20 then none
    else (unescapeAfter 0 s).map (b :: ·)

def unescape (s : List UInt8) : Option (List UInt8) := unescapeAfter 0 s

/-- The byte string that a JSON string stands for.  Invalid bytes are repaired first: they are not part
of any escape sequence. -/
def unquote (raw : List UInt8) : Option (List UInt8) := unescape (coerce raw)

/-- A backslash and `s` begin with an escape sequence. -/
def beginsEscape (s : List UInt8) : Bool :=
  match s with
  | [] => false
  | e :: s => if e = 117 then (hex4 s).isSome else (simpleEscape e).isSome

/-- Cut a text inside a string into the rest of the string and what comes after its closing quote.
`escaped` says that a backslash comes right before. -/
def scanStringFrom : Bool → List UInt8 → Option (List UInt8 × List UInt8)
  | _, [] => none
  | true, b :: s => (scanStringFrom false s).map fun r => (b :: r.1, r.2)
  | false, b :: s =>
    if b = 34 then some ([], s)
    else if b < 0x20 ∨ (b = 92 ∧ !beginsEscape s) then none
    else (scanStringFrom (b = 92) s).map fun r => (b :: r.1, r.2)

def scanString (s : List UInt8) : Option (List UInt8 × List UInt8) := scanStringFrom false s

/-! ### Numbers -/

def isDigit (b : UInt8) : Bool := (decimalValue b).isSome

/-- A byte that can occur in a number. -/
def isNumberByte (b : UInt8) : Bool := isDigit b || b == 43 || b == 45 || b == 46 || b == 69 || b == 101

/-- The exponent of a number. -/
def isExponent (s : List UInt8) : Bool :=
  match s with
  | [] => true
  | e :: s =>
    let s := if s.head? = some 43 ∨ s.head? = some 45 then s.tail else s
    (e == 69 || e == 101) && s != [] && s.all isDigit

/-- The fraction and the exponent of a number. -/
def isFraction (s : List UInt8) : Bool :=
  if s.head? = some 46 then
    (s.tail.takeWhile isDigit) != [] && isExponent (s.tail.dropWhile isDigit)
  else isExponent s

/-- The literal of a number: a sign, digits without leading zeros, a fraction and an exponent. -/
def isNumber (s : List UInt8) : Bool :=
  let s := if s.head? = some 45 then s.tail else s
  let integer := s.takeWhile isDigit
  integer != [] && (integer == [48] || integer.head? != some 48) && isFraction (s.dropWhile isDigit)

/-! ### Trees -/

mutual

def print : Value → List UInt8
  | .null => ascii "null"
  | .bool true => ascii "true"
  | .bool false => ascii "false"
  | .num raw => raw
  | .str raw => 34 :: (raw ++ [34])
  | .arr elems => 91 :: (printElems elems ++ [93])
  | .obj members => 123 :: (printMembers members ++ [125])

def printElems : List Value → List UInt8
  | [] => []
  | v :: vs => print v ++ (if vs.isEmpty then [] else 44 :: printElems vs)

def printMembers : List (List UInt8 × Value) → List UInt8
  | [] => []
  | (name, v) :: ms =>
    34 :: (name ++ 34 :: 58 :: (print v ++ (if ms.isEmpty then [] else 44 :: printMembers ms)))

end

def isSpace (b : UInt8) : Bool := b == 32 || b == 9 || b == 10 || b == 13

def skipSpace (s : List UInt8) : List UInt8 := s.dropWhile isSpace

/-- The rest of the text after the word `w`. -/
def word (w : String) (s : List UInt8) : Option (List UInt8) :=
  if s.take w.length = ascii w then some (s.drop w.length) else none

mutual

/-- Read one value. -/
def scanValue : ℕ → List UInt8 → Option (Value × List UInt8)
  | 0, _ => none
  | fuel + 1, s =>
    let s := skipSpace s
    match s with
    | [] => none
    | b :: t =>
      if b = 34 then (scanString t).map fun r => (.str r.1, r.2)
      else if b = 91 then
        if (skipSpace t).head? = some 93 then some (.arr [], (skipSpace t).tail)
        else (scanElems fuel t).map fun r => (.arr r.1, r.2)
      else if b = 123 then
        if (skipSpace t).head? = some 125 then some (.obj [], (skipSpace t).tail)
        else (scanMembers fuel t).map fun r => (.obj r.1, r.2)
      else if b = 110 then (word "null" s).map fun s => (.null, s)
      else if b = 116 then (word "true" s).map fun s => (.bool true, s)
      else if b = 102 then (word "false" s).map fun s => (.bool false, s)
      else if isNumber (s.takeWhile isNumberByte) then
        some (.num (s.takeWhile isNumberByte), s.dropWhile isNumberByte)
      else none

/-- Read the elements of an array up to its closing bracket. -/
def scanElems : ℕ → List UInt8 → Option (List Value × List UInt8)
  | 0, _ => none
  | fuel + 1, s => do
    let (v, s) ← scanValue fuel s
    match skipSpace s with
    | [] => none
    | b :: s =>
      if b = 44 then (scanElems fuel s).map fun r => (v :: r.1, r.2)
      else if b = 93 then some ([v], s)
      else none

/-- Read the members of an object up to its closing brace. -/
def scanMembers : ℕ → List UInt8 → Option (List (List UInt8 × Value) × List UInt8)
  | 0, _ => none
  | fuel + 1, s =>
    match skipSpace s with
    | [] => none
    | q :: s =>
      if q = 34 then do
        let (name, s) ← scanString s
        if (skipSpace s).head? = some 58 then
          let (v, s) ← scanValue fuel (skipSpace s).tail
          match skipSpace s with
          | [] => none
          | b :: s =>
            if b = 44 then (scanMembers fuel s).map fun r => ((name, v) :: r.1, r.2)
            else if b = 125 then some ([(name, v)], s)
            else none
        else none
      else none

end

/-- Read a whole text. -/
def parse (s : List UInt8) : Option Value := do
  let (v, rest) ← scanValue (2 * s.length) s
  if skipSpace rest = [] then some v else none

end Suift.Json
