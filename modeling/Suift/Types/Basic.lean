import Suift.Lib.Text
import Mathlib.Data.BitVec

/-!
# The values that all layers share

Addresses, hashes and ids are the fixed-size byte arrays of the source, read as big-endian bit
vectors.  Go strings and byte slices are lists of bytes.  A slice whose `nil`-ness is observable
(it is encoded as JSON) is a `Slice`.

A Go function that may fail returns `Except GoError`; one that also changes its receiver is an
`EStateM GoError` computation, which keeps the changes made before an error as Go does.  A run-time
panic is a `GoError` of its own kind.
-/

namespace Suift

open Text

/-- `[]byte`. -/
abbrev Bytes := List UInt8

/-- A Go `string`: any bytes, not necessarily valid UTF-8. -/
abbrev GoString := List UInt8

/-- `common.Address`, twenty bytes. -/
abbrev Address := BitVec 160

/-- `common.Hash`, thirty-two bytes. -/
abbrev Hash := BitVec 256

/-- `types.BidId`, sixteen bytes. -/
abbrev BidId := BitVec 128

/-- `uuid.UUID`, sixteen bytes. -/
abbrev UUID := BitVec 128

instance : LawfulBEq Address := inferInstance

instance : LawfulBEq BidId := inferInstance

/-- A Go slice: `none` is `nil`. -/
abbrev Slice (α : Type) := Option (List α)

namespace Slice

variable {α : Type}

/-- The elements of a slice; `nil` has none. -/
def elems (s : Slice α) : List α := s.getD []

/-- `append(s, xs...)`: appending nothing to `nil` is still `nil`. -/
def append (s : Slice α) (xs : List α) : Slice α :=
  match s, xs with
  | none, [] => none
  | s, xs => some (s.elems ++ xs)

theorem elems_append (s : Slice α) (xs : List α) : (s.append xs).elems = s.elems ++ xs := by
  cases s <;> cases xs <;> rfl

end Slice

/-- The error values of the source that callers recognise with `errors.Is`. -/
inductive Sentinel
  | bidAlreadyPresent
  | bidNotFound
  | unsignedFinalize
  | invalidSig
  | invalidChainId
  deriving DecidableEq, Repr

/-- How a Go call goes wrong: it returns an `error`, with the sentinel it wraps if any, or it
panics. -/
inductive GoError
  | error (text : GoString) (wraps : Option Sentinel)
  | panic (text : GoString)
  deriving DecidableEq, Repr

namespace GoError

/-- `errors.New(text)`. -/
def new (text : String) : GoError := .error (ascii text) none

/-- `fmt.Errorf(pre + "%w", err)`: the text grows, the wrapped sentinel stays.  A panic passes
through. -/
def wrap (pre : GoString) : GoError → GoError
  | .error text w => .error (pre ++ text) w
  | .panic text => .panic text

/-- `fmt.Errorf("%w" + post, err)`: text after the wrapped error. -/
def followedBy (post : GoString) : GoError → GoError
  | .error text w => .error (text ++ post) w
  | .panic text => .panic text

/-- Another error is returned in the place of `err`.  A panic passes through. -/
def replaceWith (other : GoError) : GoError → GoError
  | .error _ _ => other
  | .panic text => .panic text

/-- `errors.Is(err, s)`. -/
def is (err : GoError) (s : Sentinel) : Bool :=
  match err with
  | .error _ w => w == some s
  | .panic _ => false

end GoError

def nilDereference : GoError :=
  .panic (ascii "runtime error: invalid memory address or nil pointer dereference")

/-- `suave.ErrBidAlreadyPresent`. -/
def errBidAlreadyPresent : GoError := .error (ascii "bid already present") (some .bidAlreadyPresent)

/-- `suave.ErrBidNotFound`. -/
def errBidNotFound : GoError := .error (ascii "bid not found") (some .bidNotFound)

/-- `suave.ErrUnsignedFinalize`. -/
def errUnsignedFinalize : GoError :=
  .error (ascii "finalize called with unsigned transaction, refusing to propagate")
    (some .unsignedFinalize)

/-- `suave.AllowedPeekerAny`, the wildcard "*". -/
def allowedPeekerAny : Address := 0xC8df3686b4Afb2BB53e60EAe97EF043FE03Fb829

/-- `%x` on an address. -/
def hexAddress (a : Address) : GoString := hexDigits 40 a.toNat

/-- `%x` on a bid id. -/
def hexBidId (id : BidId) : GoString := hexDigits 32 id.toNat

/-- A hexadecimal bid id in front of a string can be cut off again. -/
theorem hexBidId_append_inj {i j : BidId} {s t : GoString}
    (h : hexBidId i ++ s = hexBidId j ++ t) : i = j ∧ s = t := by
  obtain ⟨hn, hst⟩ := hexDigits_append_inj (by simpa using i.isLt) (by simpa using j.isLt) h
  exact ⟨BitVec.eq_of_toNat_eq hn, hst⟩

end Suift
