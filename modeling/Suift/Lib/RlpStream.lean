import Suift.Lib.Rlp
import Suift.Lib.Text

/-!
# Reading recursive length prefix encoding

The decoder reads a `Stream` that knows how much of every open list is left.  `kind` reads the tag in
front of a value and remembers it, so that a decoder may look at the value ahead before it hands on to
another.

What is decoded is described by a `Schema`, which stands for a type of the program: integers, byte
strings, byte arrays, pointers that the empty string makes `nil`, and structs.  `Schema.item` is what a
value is encoded as and `Schema.decode` is its decoder.

The sizes are unsigned machine words and their differences wrap around: the size of a list is taken
off the limit of the enclosing one without a test.
-/

namespace Suift.Rlp

open Text

inductive Kind
  | byte | string | list
  deriving DecidableEq, Repr

def Kind.text : Kind → String
  | .byte => "Byte"
  | .string => "String"
  | .list => "List"

/-- Why nothing could be decoded.  The errors with a type also say where in it, innermost first. -/
inductive DecodeError
  | eol
  | eof
  | expectedString
  | expectedList
  | canonInt
  | canonSize
  | elemTooLarge
  | valueTooLarge
  | moreThanOneValue
  | notInList
  | notAtEOL
  | uintOverflow
  | typed (msg typ : String) (ctx : List String)
  deriving DecidableEq, Repr

namespace DecodeError

def text : DecodeError → List UInt8
  | eol => ascii "rlp: end of list"
  | eof => ascii "EOF"
  | expectedString => ascii "rlp: expected String or Byte"
  | expectedList => ascii "rlp: expected List"
  | canonInt => ascii "rlp: non-canonical integer format"
  | canonSize => ascii "rlp: non-canonical size information"
  | elemTooLarge => ascii "rlp: element is larger than containing list"
  | valueTooLarge => ascii "rlp: value size exceeds available input length"
  | moreThanOneValue => ascii "rlp: input contains more than one value"
  | notInList => ascii "rlp: call of ListEnd outside of any list"
  | notAtEOL => ascii "rlp: call of ListEnd not positioned at EOL"
  | uintOverflow => ascii "rlp: uint overflow"
  | typed msg typ ctx =>
    ascii "rlp: " ++ ascii msg ++ ascii " for " ++ ascii typ ++
      (if ctx = [] then [] else ascii ", decoding into " ++ ctx.reverse.flatMap ascii)

/-- `wrapStreamError`. -/
def wrap (typ : String) : DecodeError → DecodeError
  | canonInt => typed "non-canonical integer (leading zero bytes)" typ []
  | canonSize => typed "non-canonical size information" typ []
  | expectedList => typed "expected input list" typ []
  | expectedString => typed "expected input string or byte" typ []
  | uintOverflow => typed "input string too long" typ []
  | notAtEOL => typed "input list has too many elements" typ []
  | err => err

/-- `addErrorContext`. -/
def addContext (ctx : String) : DecodeError → DecodeError
  | typed msg typ outer => typed msg typ (outer ++ [ctx])
  | err => err

/-- The type that is decoded comes last in the context, if there is any. -/
def addTarget (typ : String) : DecodeError → DecodeError
  | typed msg t [] => typed msg t []
  | err => err.addContext ("(" ++ typ ++ ")")

end DecodeError

/-- What stands in front of a value: its kind and the size of what follows, or the byte itself. -/
structure Tag where
  kind : Kind
  size : UInt64
  byteval : UInt8
  deriving DecidableEq, Repr

/-- The input that remains, what is left of the open lists, innermost first, and the tag that has been
read, if the value behind it has not. -/
@[ext]
structure Stream where
  input : List UInt8
  stack : List UInt64
  ahead : Option Tag
  deriving DecidableEq, Repr

/-- A decoder takes its value from the front of the stream. -/
abbrev Decoder (α : Type) := StateT Stream (Except DecodeError) α

/-- The stream once `n` more bytes have been read. -/
def Stream.advance (s : Stream) (n : ℕ) : Stream where
  input := s.input.drop n
  stack := s.stack.modifyHead (· - UInt64.ofNat n)
  ahead := none

/-- The stream inside a list of the given size, which is taken off the enclosing list. -/
def Stream.enter (s : Stream) (size : UInt64) : Stream where
  input := s.input
  stack := size :: s.stack.modifyHead (· - size)
  ahead := none

namespace Decoder

/-- Rename the errors. -/
def mapError {α : Type} (f : DecodeError → DecodeError) (dec : Decoder α) : Decoder α :=
  fun s => (dec s).mapError f

/-- Forget the tag that was read. -/
def rearm : Decoder Unit := modify fun s => { s with ahead := none }

/-- Read `n` bytes, which have to fit into the innermost list and into the input. -/
def readFull (n : UInt64) : Decoder (List UInt8) := fun s => do
  if s.stack.head?.any (· < n) then
    throw .elemTooLarge
  if s.input.length < n.toNat then
    throw .valueTooLarge
  return (s.input.take n.toNat, s.advance n.toNat)

def readByte : Decoder UInt8 := do
  return (← readFull 1).headD 0

/-- An unsigned number of `size` bytes without leading zeros. -/
def readUint : ℕ → Decoder UInt64
  | 0 => do
    rearm
    return 0
  | 1 => do
    return (← readByte).toUInt64
  | size => do
    let buffer ← readFull (UInt64.ofNat size)
    if buffer.head? = some 0 then
      throw .canonSize
    return UInt64.ofNat (ofBigEndian buffer)

/-- The size that follows the tag of a long value. -/
def longSize (n : ℕ) : Decoder UInt64 := do
  let size ← readUint n
  if size < 56 then
    throw .canonSize
  return size

/-- The first byte of a value.  Outside of all lists the end of the input is not an error of the
format. -/
def readTagByte : Decoder UInt8 := fun s =>
  (readByte s).mapError fun err => if s.stack = [] ∧ err = .valueTooLarge then .eof else err

def readKind : Decoder Tag := do
  let b ← readTagByte
  if b < 0x80 then
    return { kind := .byte, size := 0, byteval := b }
  else if b < 0xb8 then
    return { kind := .string, size := (b - 0x80).toUInt64, byteval := 0 }
  else if b < 0xc0 then
    return { kind := .string, size := ← longSize (b - 0xb7).toNat, byteval := 0 }
  else if b < 0xf8 then
    return { kind := .list, size := (b - 0xc0).toUInt64, byteval := 0 }
  else
    return { kind := .list, size := ← longSize (b - 0xf7).toNat, byteval := 0 }

/-- The tag of the value ahead.  Its size is compared with what was left of the list in front of the
tag, not behind it. -/
def kind : Decoder Tag := fun s =>
  match s.ahead with
  | some tag => .ok (tag, s)
  | none =>
    if s.stack.head? = some 0 then .error .eol
    else do
      let (tag, s') ← readKind s
      if s.stack.head?.any (· < tag.size) then
        throw .elemTooLarge
      if s'.input.length < tag.size.toNat then
        throw .valueTooLarge
      return (tag, { s' with ahead := some tag })

/-! ### Values -/

/-- The byte string behind a tag. -/
def payload (tag : Tag) : Decoder (List UInt8) :=
  match tag.kind with
  | .byte => do
    rearm
    return [tag.byteval]
  | .string => do
    let b ← readFull tag.size
    if tag.size = 1 ∧ b.headD 0 < 128 then
      throw .canonSize
    return b
  | .list => throw .expectedString

def bytes : Decoder (List UInt8) := do
  payload (← kind)

def uint (maxbits : ℕ) : Decoder UInt64 := do
  let tag ← kind
  match tag.kind with
  | .byte =>
    if tag.byteval = 0 then
      throw .canonInt
    rearm
    return tag.byteval.toUInt64
  | .string =>
    if maxbits / 8 < tag.size.toNat then
      throw .uintOverflow
    let v ← (readUint tag.size.toNat).mapError fun err => if err = .canonSize then .canonInt else err
    if 0 < tag.size ∧ v < 128 then
      throw .canonSize
    return v
  | .list => throw .expectedString

/-- The bytes of an integer of any size. -/
def bigIntBytes (tag : Tag) : Decoder (List UInt8) :=
  match tag.kind with
  | .list => throw .expectedString
  | .byte => do
    rearm
    return [tag.byteval]
  | .string =>
    if tag.size = 0 then do
      rearm
      return []
    else if tag.size ≤ 32 then do
      let buffer ← readFull tag.size
      if tag.size = 1 ∧ buffer.headD 0 < 128 then
        throw .canonSize
      return buffer
    else readFull tag.size

def bigInt : Decoder ℕ := do
  let tag ← kind
  let buffer ← bigIntBytes tag
  if buffer.head? = some 0 then
    throw .canonInt
  return ofBigEndian buffer

/-- An array of `n` bytes. -/
def byteArray (typ : String) (n : ℕ) : Decoder (BitVec (8 * n)) := do
  let tag ← kind
  match tag.kind with
  | .byte =>
    if n = 0 then
      throw (.typed "input string too long" typ [])
    if 1 < n then
      throw (.typed "input string too short" typ [])
    rearm
    return BitVec.ofNat (8 * n) tag.byteval.toNat
  | .string =>
    if n < tag.size.toNat then
      throw (.typed "input string too long" typ [])
    if tag.size.toNat < n then
      throw (.typed "input string too short" typ [])
    let b ← readFull tag.size
    if tag.size = 1 ∧ b.headD 0 < 128 then
      throw (DecodeError.canonSize.wrap typ)
    return BitVec.ofNat (8 * n) (ofBigEndian b)
  | .list => throw (DecodeError.expectedString.wrap typ)

/-- A pointer to an array, `nil` for the empty string. -/
def nilPtr (typ : String) (n : ℕ) : Decoder (Option (BitVec (8 * n))) := do
  let tag ← kind.mapError (.wrap ("*" ++ typ))
  if tag.kind ≠ .byte ∧ tag.size = 0 then
    if tag.kind ≠ .string then
      throw (.typed ("wrong kind of empty value (got " ++ tag.kind.text ++ ", want String)") ("*" ++ typ) [])
    rearm
    return none
  return some (← byteArray typ n)

/-! ### Structs -/

/-- Open a list. -/
def list : Decoder UInt64 := do
  let tag ← kind
  if tag.kind ≠ .list then
    throw .expectedList
  modify fun s => s.enter tag.size
  return tag.size

/-- Close the innermost list, which has to be at its end. -/
def listEnd : Decoder Unit := fun s =>
  match s.stack with
  | [] => .error .notInList
  | limit :: outer =>
    if 0 < limit then .error .notAtEOL
    else .ok ((), { s with stack := outer, ahead := none })

/-- A field of the struct `typ`. -/
def field {α : Type} (typ name : String) (dec : Decoder α) : Decoder α :=
  dec.mapError fun err =>
    if err = .eol then .typed "too few elements" typ [] else err.addContext ("." ++ name)

/-- The struct `typ` with the given fields. -/
def struct {α : Type} (typ : String) (fields : Decoder α) : Decoder α := do
  let _ ← list.mapError (.wrap typ)
  let v ← fields
  listEnd.mapError (.wrap typ)
  return v

/-- A field of the struct `typ` and those behind it. -/
def andFields {α β : Type} (typ name : String) (dec : Decoder α) (rest : Decoder β) : Decoder (α × β) := do
  let v ← field typ name dec
  let vs ← rest
  return (v, vs)

end Decoder

mutual

/-- The types that are encoded. -/
inductive Schema
  | uint64
  | bigInt
  | bytes
  | array (typ : String) (n : ℕ)
  | nilPtr (typ : String) (n : ℕ) (pos : 0 < n)
  | struct (typ : String) (fields : Fields)

/-- The fields of a struct, with their names. -/
inductive Fields
  | nil
  | cons (name : String) (type : Schema) (rest : Fields)

end

mutual

/-- The values of a type. -/
def Schema.Val : Schema → Type
  | .uint64 => UInt64
  | .bigInt => ℕ
  | .bytes => List UInt8
  | .array _ n => BitVec (8 * n)
  | .nilPtr _ n _ => Option (BitVec (8 * n))
  | .struct _ fields => fields.Val

/-- The values of the fields of a struct. -/
def Fields.Val : Fields → Type
  | .nil => Unit
  | .cons _ type rest => type.Val × rest.Val

end

mutual

def Schema.item : (type : Schema) → type.Val → Item
  | .uint64, v => .nat v.toNat
  | .bigInt, n => .nat n
  | .bytes, b => .bytes b
  | .array _ n, a => .word n a.toNat
  | .nilPtr _ _ _, none => .bytes []
  | .nilPtr _ n _, some a => .word n a.toNat
  | .struct _ fields, v => .list (fields.items v)

def Fields.items : (fields : Fields) → fields.Val → List Item
  | .nil, _ => []
  | .cons _ type rest, (v, vs) => type.item v :: rest.items vs

end

mutual

def Schema.decode : (type : Schema) → Decoder type.Val
  | .uint64 => (Decoder.uint 64).mapError (.wrap "uint64")
  | .bigInt => Decoder.bigInt.mapError (.wrap "*big.Int")
  | .bytes => Decoder.bytes.mapError (.wrap "[]uint8")
  | .array typ n => Decoder.byteArray typ n
  | .nilPtr typ n _ => Decoder.nilPtr typ n
  | .struct typ fields => Decoder.struct typ (fields.decode typ)

/-- The fields of the struct `typ`, one after the other. -/
def Fields.decode (typ : String) : (fields : Fields) → Decoder fields.Val
  | .nil => pure ()
  | .cons name type rest => Decoder.andFields typ name type.decode (rest.decode typ)

end

/-- `DecodeBytes`: the input is one value of the type `typ` and nothing else. -/
def Decoder.decodeBytes {α : Type} (typ : String) (dec : Decoder α) (b : List UInt8) :
    Except DecodeError α := do
  let (v, s) ← (dec { input := b, stack := [], ahead := none }).mapError (.addTarget typ)
  if s.input ≠ [] then
    throw .moreThanOneValue
  return v

end Suift.Rlp
