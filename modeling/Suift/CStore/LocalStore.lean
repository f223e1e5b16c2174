import Suift.CStore.Bid
import Mathlib.Logic.Function.Basic

/-!
# Storage backends and the local one

`ConfidentialStorageBackend` is the interface every storage backend implements, over the state `σ`
it keeps.  `LocalConfidentialStore` keeps three Go maps: the bids, the values under a key formatted
from the bid's id and the user's key, and the index from a formatted (version, block) pair to the
ids of the bids.
-/

namespace Suift

open Text

/-- The operations that write go through the state `σ`; those that only read take it. -/
structure ConfidentialStorageBackend (σ : Type) where
  initializeBid : Bid → EStateM GoError σ Unit
  store : Bid → Address → GoString → Bytes → EStateM GoError σ Bid
  retrieve : σ → Bid → Address → GoString → Except GoError Bytes
  fetchBidById : σ → BidId → Except GoError Bid
  fetchBidsByProtocolAndBlock : σ → UInt64 → GoString → List Bid

/-- `Store` with the arguments taken from a write; the returned bid is not used. -/
def ConfidentialStorageBackend.storeWrite {σ : Type} (B : ConfidentialStorageBackend σ)
    (sw : StoreWrite) : EStateM GoError σ Unit := do
  let _ ← B.store sw.bid sw.caller sw.key sw.value

@[ext]
structure LocalConfidentialStore where
  bids : BidId → Option Bid
  dataMap : GoString → Option Bytes
  index : GoString → Option (List BidId)

namespace LocalConfidentialStore

/-- `NewLocalConfidentialStore`. -/
def empty : LocalConfidentialStore where
  bids _ := none
  dataMap _ := none
  index _ := none

/-- `fmt.Sprintf("%x-%s", id, key)`. -/
def dataKey (id : BidId) (key : GoString) : GoString := hexBidId id ++ (ascii "-" ++ key)

/-- `fmt.Sprintf("protocol-%s-bn-%d", version, blockNumber)`. -/
def indexKey (version : GoString) (blockNumber : UInt64) : GoString :=
  ascii "protocol-" ++ version ++ ascii "-bn-" ++ decimal blockNumber.toNat

/-- The maps after a new bid has been put in. -/
def insertBid (l : LocalConfidentialStore) (bid : Bid) : LocalConfidentialStore :=
  let key := indexKey bid.version bid.decryptionCondition
  { l with
    bids := Function.update l.bids bid.id (some bid)
    index := Function.update l.index key (some ((l.index key).getD [] ++ [bid.id])) }

/-- The maps after a value has been put in. -/
def insertValue (l : LocalConfidentialStore) (id : BidId) (key : GoString) (value : Bytes) :
    LocalConfidentialStore :=
  { l with dataMap := Function.update l.dataMap (dataKey id key) (some value) }

def initializeBid (bid : Bid) : EStateM GoError LocalConfidentialStore Unit := do
  let l ← get
  if (l.bids bid.id).isSome then
    throw errBidAlreadyPresent
  set (l.insertBid bid)

def store (bid : Bid) (_caller : Address) (key : GoString) (value : Bytes) :
    EStateM GoError LocalConfidentialStore Bid := do
  modify fun l => l.insertValue bid.id key value
  return bid

def retrieve (l : LocalConfidentialStore) (bid : Bid) (_caller : Address) (key : GoString) :
    Except GoError Bytes :=
  match l.dataMap (dataKey bid.id key) with
  | none => .error (.error (ascii "data for key " ++ key ++ ascii " not found") none)
  | some data => .ok data

def fetchBidById (l : LocalConfidentialStore) (bidId : BidId) : Except GoError Bid :=
  match l.bids bidId with
  | none => .error (GoError.new "bid not found")
  | some bid => .ok bid

def fetchBidsByProtocolAndBlock (l : LocalConfidentialStore) (blockNumber : UInt64)
    (namespace_ : GoString) : List Bid :=
  match l.index (indexKey namespace_ blockNumber) with
  | none => []
  | some bidIDs => bidIDs.filterMap l.bids

def backend : ConfidentialStorageBackend LocalConfidentialStore where
  initializeBid := initializeBid
  store := store
  retrieve := retrieve
  fetchBidById := fetchBidById
  fetchBidsByProtocolAndBlock := fetchBidsByProtocolAndBlock

end LocalConfidentialStore

end Suift
