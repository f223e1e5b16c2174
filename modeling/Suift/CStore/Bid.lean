import Suift.Types.Transaction

/-!
# Bids, writes and messages of the confidential store

`InnerBid` is `types.Bid`, what a user submits and what the id of a bid commits to; `Bid` is
`suave.Bid`, what the stores keep, with the transaction that created it and the creating node's
signature.  A `DAMessage` carries the writes of one transaction to the other stores.

`encoding/json` and the SHA-1 of UUID version 5 are parameters (`Encoding`).
-/

namespace Suift

open Text

structure InnerBid where
  id : BidId
  salt : BidId
  decryptionCondition : UInt64
  allowedPeekers : Slice Address
  allowedStores : Slice Address
  version : GoString
  deriving DecidableEq, Repr

structure Bid where
  id : BidId
  salt : BidId
  decryptionCondition : UInt64
  allowedPeekers : Slice Address
  allowedStores : Slice Address
  version : GoString
  creationTx : Option Transaction
  signature : Bytes
  deriving DecidableEq, Repr

def Bid.toInnerBid (b : Bid) : InnerBid where
  id := b.id
  salt := b.salt
  decryptionCondition := b.decryptionCondition
  allowedPeekers := b.allowedPeekers
  allowedStores := b.allowedStores
  version := b.version

/-- The test made before every read and write of a bid's data: the caller is one of the allowed
peekers, or everybody is. -/
def Bid.allows (b : Bid) (caller : Address) : Bool :=
  b.allowedPeekers.elems.contains caller || b.allowedPeekers.elems.contains allowedPeekerAny

structure StoreWrite where
  bid : Bid
  caller : Address
  key : GoString
  value : Bytes
  deriving DecidableEq, Repr

structure DAMessage where
  sourceTx : Option Transaction
  storeWrites : Slice StoreWrite
  storeUUID : UUID
  signature : Bytes
  deriving DecidableEq, Repr

/-- `json.Marshal` on the three types that are marshalled, and `uuid.NewSHA1`. -/
structure Encoding where
  marshalInnerBid : InnerBid → Except GoError Bytes
  marshalBid : Bid → Except GoError Bytes
  marshalMessage : DAMessage → Except GoError Bytes
  newSHA1 : UUID → Bytes → UUID

def emptyId : BidId := 0

/-- `uuid.UUID{0x42}`: the first byte is the most significant one. -/
def bidUuidSpace : UUID := 0x42 <<< 120

/-- The id of a bid, calculated from its other fields. -/
def calculateBidId (J : Encoding) (bid : InnerBid) : Except GoError BidId := do
  let body ← (J.marshalInnerBid { bid with id := emptyId }).mapError
    (GoError.wrap (ascii "could not marshal bid to calculate its id: "))
  return J.newSHA1 bidUuidSpace body

/-- Frame the JSON of a bid or a message for signing. -/
def signedMessage (body : Bytes) : Bytes :=
  0x19 :: ascii "Suave Signed Message:\n" ++ decimal body.length ++ body

/-- The bytes a bid is signed over: all of it but the signature. -/
def serializeBidForSigning (J : Encoding) (bid : Bid) : Except GoError Bytes := do
  return signedMessage (← J.marshalBid { bid with signature := [] })

/-- The bytes a message is signed over: all of it but the signature. -/
def serializeMessageForSigning (J : Encoding) (message : DAMessage) : Except GoError Bytes := do
  return signedMessage (← J.marshalMessage { message with signature := [] })

/-- The node named by a confidential transaction.  The cast reads `tx.inner`, so it panics on a
`nil` transaction. -/
def executionNodeFromTransaction : Option Transaction → Except GoError Address
  | none => .error nilDereference
  | some (.suave tx) => .ok tx.executionNode
  | some (.request tx) => .ok tx.confidentialComputeRecord.executionNode
  | some (.record _) | some (.ethereum _) =>
    .error (GoError.new "transaction is not of confidential type")

end Suift
