import Suift.CStore.Bid
import Suift.Types.SBundle

/-!
# What a precompile sees

A SUAVE precompile runs with the confidential store of the transaction and with the caller stack, the
code addresses of the active call frames, outermost first.  `checkIsPrecompileCallAllowed` is the
access check of `core/vm/suave.go`.

`ConfidentialStore` is the reading part of the interface of the same name.  Its two laws say what
every store behind it guarantees: a bid is found under its own id, and `Retrieve` refuses a caller
whom the bid does not allow.  The Go libraries that the precompiles use on the values are the
parameters in `Externals`.
-/

namespace Suift

open Text

structure ConfidentialStore where
  fetchBidById : BidId → Except GoError Bid
  fetchBidsByProtocolAndBlock : UInt64 → GoString → List Bid
  retrieve : BidId → Address → GoString → Except GoError Bytes
  id_eq : ∀ id bid, fetchBidById id = .ok bid → bid.id = id
  allows_of_retrieve : ∀ id caller key data, retrieve id caller key = .ok data →
    ∃ bid, fetchBidById id = .ok bid ∧ bid.allows caller

structure SuaveContext where
  confidentialStore : ConfidentialStore
  callerStack : List (Option Address)

/-- ABI and JSON coding, and the texts that `fmt` and the generated artifacts give. -/
structure Externals where
  precompileAddressToName : Address → GoString
  unpackBidIds : Bytes → Except GoError (List BidId)
  unmarshalSBundle : Bytes → Except GoError SBundle
  marshalBinary : Transaction → Except GoError Bytes
  marshalShareBundle : RPCMevShareBundle → Except GoError Bytes
  formatInnerBid : InnerBid → GoString
  formatBid : Bid → GoString

def confStoreAddress : Address := 0x42020000

def confRetrieveAddress : Address := 0x42020001

def buildEthBlockAddress : Address := 0x42100001

def fillMevShareBundleAddress : Address := 0x43200001

/-- The innermost entry of a caller stack that is not `nil` and satisfies `p`. -/
def innermost (callerStack : List (Option Address)) (p : Address → Bool) : Option Address :=
  callerStack.reverse.findSome? (Option.filter p)

/-- The address on whose behalf `precompile` may use `bid`. -/
def checkIsPrecompileCallAllowed (X : Externals) (ctx : SuaveContext) (precompile : Address)
    (bid : Bid) : Except GoError Address :=
  let allowedPeekers := bid.allowedPeekers.elems
  if allowedPeekers.contains allowedPeekerAny then
    .ok ((innermost ctx.callerStack fun caller => caller ≠ precompile).getD precompile)
  else if !allowedPeekers.contains precompile && precompile ≠ confStoreAddress &&
      precompile ≠ confRetrieveAddress then
    .error (.error (ascii "precompile " ++ X.precompileAddressToName precompile ++ ascii " (" ++
      hexAddress precompile ++ ascii ") not allowed on " ++ hexBidId bid.id) none)
  else
    match innermost ctx.callerStack fun caller =>
        caller ≠ precompile && allowedPeekers.contains caller with
    | some caller => .ok caller
    | none =>
      .error (.error (ascii "no caller of " ++ X.precompileAddressToName precompile ++ ascii " (" ++
        hexAddress precompile ++ ascii ") is allowed on " ++ hexBidId bid.id) none)

/-- `confRetrieve.runImpl`. -/
def confRetrieve (X : Externals) (ctx : SuaveContext) (bidId : BidId) (key : GoString) :
    Except GoError Bytes := do
  let bid ← (ctx.confidentialStore.fetchBidById bidId).mapError (GoError.replaceWith errBidNotFound)
  let caller ← checkIsPrecompileCallAllowed X ctx confRetrieveAddress bid
  ctx.confidentialStore.retrieve bidId caller key

end Suift
