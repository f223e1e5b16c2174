import Suift.Lib.Rlp
import Suift.Lib.Text

/-!
# The contract ABI

Values are laid out in words of 32 bytes.  A value of static type stands where it belongs; in the place of a
value of dynamic type stands an offset, and the value itself follows behind all places (`headTail`).

The decoder reads the value of type `t` whose place is at `index` (`toGoType`).  It follows the offsets that
it finds, so they are checked against the length of what there is.  An expression such as `output[a:b]` stops
the program if the bounds are not in order; `sliceBounds` is the error for that.

A tuple has at least one component.
-/

namespace Suift.Abi

open Rlp Text

/-! ### Types and values -/

/-- The sizes of unsigned integers that have a type of their own, and all others. -/
inductive UintSize
  | u8 | u16 | u32 | u64 | big
  deriving DecidableEq, Repr

def UintSize.bits : UintSize → ℕ
  | u8 => 8
  | u16 => 16
  | u32 => 32
  | u64 => 64
  | big => 256

mutual

inductive Typ
  | uint (size : UintSize)
  | address
  | fixedBytes (size : Fin 33)
  | bytes
  | string
  | slice (elem : Typ)
  | tuple (first : Typ) (others : Fields)

/-- Arguments, or the components of a tuple. -/
inductive Fields
  | nil
  | cons (first : Typ) (others : Fields)

end

mutual

def Typ.Val : Typ → Type
  | .uint size => BitVec size.bits
  | .address => BitVec 160
  | .fixedBytes size => BitVec (8 * size.val)
  | .bytes => List UInt8
  | .string => List UInt8
  | .slice elem => List elem.Val
  | .tuple first others => first.Val × others.Val

def Fields.Val : Fields → Type
  | .nil => Unit
  | .cons first others => first.Val × others.Val

end

mutual

def isDynamicType : Typ → Bool
  | .uint _ | .address | .fixedBytes _ => false
  | .bytes | .string | .slice _ => true
  | .tuple first others => isDynamicType first || anyDynamic others

def anyDynamic : Fields → Bool
  | .nil => false
  | .cons first others => isDynamicType first || anyDynamic others

end

mutual

/-- How many bytes the place of a value takes. -/
def getTypeSize : Typ → ℕ
  | .tuple first others =>
    if isDynamicType first || anyDynamic others then 32 else getTypeSize first + sizeOfFields others
  | _ => 32

def sizeOfFields : Fields → ℕ
  | .nil => 0
  | .cons first others => getTypeSize first + sizeOfFields others

end

/-! ### Packing -/

/-- A number as a word. -/
def packNum (n : ℕ) : List UInt8 := bigEndian 32 n

def rightPadBytes (b : List UInt8) (l : ℕ) : List UInt8 := b ++ List.replicate (l - b.length) 0

def packBytesSlice (b : List UInt8) : List UInt8 :=
  packNum b.length ++ rightPadBytes b ((b.length + 31) / 32 * 32)

/-- A packed value, and whether an offset stands in its place. -/
structure Part where
  isDynamic : Bool
  packed : List UInt8

/-- The places of the parts, if the first value that is not in its place is at `offset`. -/
def heads (offset : ℕ) : List Part → List UInt8
  | [] => []
  | part :: parts =>
    if part.isDynamic then packNum offset ++ heads (offset + part.packed.length) parts
    else part.packed ++ heads offset parts

/-- The values that are not in their places. -/
def tails : List Part → List UInt8
  | [] => []
  | part :: parts => (if part.isDynamic then part.packed else []) ++ tails parts

/-- The places, which take `size` bytes, and behind them the values that are not there. -/
def headTail (size : ℕ) (parts : List Part) : List UInt8 := heads size parts ++ tails parts

mutual

def pack : (t : Typ) → t.Val → List UInt8
  | .uint _, n => packNum n.toNat
  | .address, a => packNum a.toNat
  | .fixedBytes size, b => rightPadBytes (bigEndian size b.toNat) 32
  | .bytes, b => packBytesSlice b
  | .string, s => packBytesSlice s
  | .slice elem, vs =>
    packNum vs.length ++ headTail (getTypeSize elem * vs.length) (vs.map fun v => ⟨isDynamicType elem, pack elem v⟩)
  | .tuple first others, (v, vs) =>
    headTail (getTypeSize first + sizeOfFields others) (⟨isDynamicType first, pack first v⟩ :: packParts others vs)

def packParts : (ts : Fields) → ts.Val → List Part
  | .nil, () => []
  | .cons first others, (v, vs) => ⟨isDynamicType first, pack first v⟩ :: packParts others vs

end

/-- `Arguments.Pack`. -/
def Fields.pack (ts : Fields) (vs : ts.Val) : List UInt8 := headTail (sizeOfFields ts) (packParts ts vs)

/-! ### Unpacking -/

inductive Error
  | error (text : List UInt8)
  | sliceBounds (low high : ℕ)
  deriving DecidableEq, Repr

/-- `b[low:high]`. -/
def subslice (b : List UInt8) (low high : ℕ) : Except Error (List UInt8) :=
  if low ≤ high ∧ high ≤ b.length then .ok ((b.drop low).take (high - low)) else .error (.sliceBounds low high)

/-- A number of at most 64 bits must not be larger than its type. -/
def readInteger (size : UintSize) (word : List UInt8) : Except Error (BitVec size.bits) :=
  let ret := ofBigEndian word
  if 2 ^ size.bits ≤ ret ∧ size ≠ .big then
    .error (.error (ascii "abi: improperly encoded uint" ++ decimal size.bits ++ ascii " value"))
  else .ok (BitVec.ofNat _ ret)

def readFixedBytes (size : Fin 33) (word : List UInt8) : Except Error (BitVec (8 * size.val)) := do
  return BitVec.ofNat _ (ofBigEndian (← subslice word 0 size))

/-- Where the contents of a value with a length start, and the length. -/
def lengthPrefixPointsTo (index : ℕ) (output : List UInt8) : Except Error (ℕ × ℕ) := do
  let offsetEnd := ofBigEndian (← subslice output index (index + 32)) + 32
  if output.length < offsetEnd then
    throw (.error (ascii "abi: cannot marshal in to go slice: offset " ++ decimal offsetEnd ++
      ascii " would go over slice boundary (len=" ++ decimal output.length ++ ascii ")"))
  if 2 ^ 63 ≤ offsetEnd then
    throw (.error (ascii "abi offset larger than int64: " ++ decimal offsetEnd))
  let length := ofBigEndian (← subslice output (offsetEnd - 32) offsetEnd)
  let totalSize := offsetEnd + length
  if 2 ^ 63 ≤ totalSize then
    throw (.error (ascii "abi: length larger than int64: " ++ decimal totalSize))
  if output.length < totalSize then
    throw (.error (ascii "abi: cannot marshal in to go type: length insufficient " ++
      decimal output.length ++ ascii " require " ++ decimal totalSize))
  return (offsetEnd, length)

/-- Where the components of a dynamic tuple start. -/
def tuplePointsTo (index : ℕ) (output : List UInt8) : Except Error ℕ := do
  let offset := ofBigEndian (← subslice output index (index + 32))
  if output.length < offset then
    throw (.error (ascii "abi: cannot marshal in to go slice: offset " ++ decimal offset ++
      ascii " would go over slice boundary (len=" ++ decimal output.length ++ ascii ")"))
  if 2 ^ 63 ≤ offset then
    throw (.error (ascii "abi offset larger than int64: " ++ decimal offset))
  return offset

/-- The loop of `forEachUnpack`: `size` elements, the places of which are `elemSize` bytes apart. -/
def unpackElems {α : Type} (read : ℕ → Except Error α) (elemSize : ℕ) : ℕ → ℕ → Except Error (List α)
  | _, 0 => .ok []
  | i, size + 1 => do
    let v ← read i
    let vs ← unpackElems read elemSize (i + elemSize) size
    return v :: vs

def forEachUnpack {α : Type} (read : ℕ → List UInt8 → Except Error α) (elemSize : ℕ) (output : List UInt8)
    (size : ℕ) : Except Error (List α) := do
  if output.length < 32 * size then
    throw (.error (ascii "abi: cannot marshal into go array: offset " ++ decimal output.length ++
      ascii " would go over slice boundary (len=" ++ decimal (32 * size) ++ ascii ")"))
  unpackElems (fun i => read i output) elemSize 0 size

/-- The test at the start of `toGoType`: there is a word at `index`. -/
def requireWord (index : ℕ) (output : List UInt8) : Except Error Unit :=
  if output.length < index + 32 then
    .error (.error (ascii "abi: cannot marshal in to go type: length insufficient " ++
      decimal output.length ++ ascii " require " ++ decimal (index + 32)))
  else .ok ()

mutual

/-- The value of type `t` whose place is at `index`. -/
def toGoType : (t : Typ) → ℕ → List UInt8 → Except Error t.Val
  | .uint size, index, output => do
    requireWord index output
    readInteger size (← subslice output index (index + 32))
  | .address, index, output => do
    requireWord index output
    -- the bytes before the last 20 are dropped
    return BitVec.ofNat 160 (ofBigEndian (← subslice output index (index + 32)))
  | .fixedBytes size, index, output => do
    requireWord index output
    readFixedBytes size (← subslice output index (index + 32))
  | .bytes, index, output => do
    requireWord index output
    let (start, length) ← lengthPrefixPointsTo index output
    subslice output start (start + length)
  | .string, index, output => do
    requireWord index output
    let (start, length) ← lengthPrefixPointsTo index output
    subslice output start (start + length)
  | .slice elem, index, output => do
    requireWord index output
    let (start, length) ← lengthPrefixPointsTo index output
    forEachUnpack (toGoType elem) (getTypeSize elem) (← subslice output start output.length) length
  | .tuple first others, index, output => do
    requireWord index output
    let start ← if isDynamicType first || anyDynamic others then tuplePointsTo index output else pure index
    let output ← subslice output start output.length
    let v ← toGoType first 0 output
    let vs ← unpackFields others (getTypeSize first) output
    return (v, vs)

/-- The values whose places follow each other from `index` on.  The places before `index` take more words
than there are values before it if some of these are static tuples. -/
def unpackFields : (ts : Fields) → ℕ → List UInt8 → Except Error ts.Val
  | .nil, _, _ => .ok ()
  | .cons first others, index, output => do
    let v ← toGoType first index output
    let vs ← unpackFields others (index + getTypeSize first) output
    return (v, vs)

end

/-- `Arguments.Unpack`. -/
def Fields.unpack (ts : Fields) (data : List UInt8) : Except Error ts.Val :=
  match ts, data with
  | .nil, [] => .ok ()
  | .cons _ _, [] =>
    .error (.error (ascii "abi: attempting to unmarshall an empty string while arguments are expected"))
  | ts, data => unpackFields ts 0 data

end Suift.Abi
