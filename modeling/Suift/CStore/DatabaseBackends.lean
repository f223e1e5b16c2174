import Suift.CStore.Json
import Suift.CStore.LocalStore
import Suift.Lib.Database

/-!
# The Redis and the Pebble backend

Two storage backends keep everything in one key-value database: `redis_store_backend.go` and
`pebble_store_backend.go`.  Their operations are programs of get and set requests, so that they can be
run one after the other or interleaved.  A request itself does not fail, and nothing expires.

A bid is stored as JSON under the key `bid-<id>`, a value as it is under `bid-data-<id>-<key>`.  The index
from a version and a block number to the ids of the bids is a JSON list.  Pebble has keys of its own for
it; Redis keeps it in values of a reserved bid, which it initializes when it starts.
-/

namespace Suift

open Text Json Database

/-- `encoding/json` as the backends use it. -/
structure StoreCodec where
  crypto : Crypto
  eth : EthCodec
  /-- What is wrong with a text that cannot be read. -/
  errorText : Bytes → GoString

def marshalIds (ids : List BidId) : Bytes := print (.arr (ids.map idJson))

namespace StoreCodec

variable (J : StoreCodec)

def marshalBid (bid : Bid) : Bytes := print (bidJson J.crypto J.eth bid)

def unmarshalBid (data : Bytes) : Except GoError Bid :=
  match (parse data).bind ((bidFormat J.eth).decode emptyBid) with
  | some bid => .ok bid
  | none => .error (.error (J.errorText data) none)

/-- `json.Unmarshal` into an empty list of ids. -/
def unmarshalIds (data : Bytes) : Except GoError (List BidId) :=
  match (parse data).bind (decodeSlice 0 decodeId none) with
  | some ids => .ok (ids.getD [])
  | none => .error (.error (J.errorText data) none)

/-- `suave.MustDecode` on a list of ids. -/
def mustDecodeIds (data : Bytes) : Except GoError (List BidId) :=
  (J.unmarshalIds data).mapError fun
    | .error text _ => .panic text
    | .panic text => .panic text

end StoreCodec

/-- What the backends keep. -/
abbrev ByteMap := GoString → Option Bytes

/-- An operation of a backend. -/
abbrev Request (α : Type) := ExceptT GoError (Program GoString Bytes) α

/-- What `x` returns, or `none` if it returns an error.  A panic goes on. -/
def attempt {α : Type} (x : Request α) : Request (Option α) := do
  match ← ExceptT.lift x.run with
  | .ok a => return some a
  | .error (.error _ _) => return none
  | .error (.panic text) => throw (.panic text)

/-- The bids that can be fetched, the others are left out. -/
def fetchEach (fetchBidById : BidId → Request Bid) : List BidId → Request (List Bid)
  | [] => return []
  | id :: ids => do
    let found ← attempt (fetchBidById id)
    return found.toList ++ (← fetchEach fetchBidById ids)

structure DatabaseBackend where
  initializeBid : Bid → Request Unit
  store : Bid → Address → GoString → Bytes → Request Bid
  retrieve : Bid → Address → GoString → Request Bytes
  fetchBidById : BidId → Request Bid
  fetchBidsByProtocolAndBlock : UInt64 → GoString → Request (List Bid)
  /-- What is done to the database when the backend starts. -/
  start : Request Unit

def formatRedisBidKey (bidId : BidId) : GoString := ascii "bid-" ++ hexBidId bidId

def formatRedisBidValueKey (bidId : BidId) (key : GoString) : GoString :=
  ascii "bid-data-" ++ (hexBidId bidId ++ (ascii "-" ++ key))

namespace RedisStoreBackend

variable (J : StoreCodec)

def store (bid : Bid) (_caller : Address) (key : GoString) (value : Bytes) : Request Bid := do
  write (formatRedisBidValueKey bid.id key) value
  return bid

/-- The error goes on with a list of all keys of the database, which is left out here. -/
def retrieve (bid : Bid) (_caller : Address) (key : GoString) : Request Bytes := do
  let storeKey := formatRedisBidValueKey bid.id key
  match ← read storeKey with
  | some data => return data
  | none => throw (.error (ascii "unexpected redis error: redis: nil, " ++ storeKey ++ ascii ", ") none)

def fetchBidById (bidId : BidId) : Request Bid := do
  match ← read (formatRedisBidKey bidId) with
  | some data => ExceptT.mk (pure (J.unmarshalBid data))
  | none => throw (GoError.new "redis: nil")

def mempoolConfStoreId : BidId := 0x39 <<< 120

def mempoolConfStoreAddr : Address := 0x39

/-- The reserved bid, whose values are the index. -/
def mempoolConfidentialStoreBid : Bid :=
  { emptyBid with id := mempoolConfStoreId, allowedPeekers := some [mempoolConfStoreAddr] }

/-- `fmt.Sprintf("protocol-%s-bn-%d", version, blockNumber)`, as in the local store. -/
def indexKey (version : GoString) (blockNumber : UInt64) : GoString :=
  LocalConfidentialStore.indexKey version blockNumber

def indexBid (bid : Bid) : Request Unit := do
  let key := indexKey bid.version bid.decryptionCondition
  let bids ← match ← attempt (retrieve mempoolConfidentialStoreBid mempoolConfStoreAddr key) with
    | some data => ExceptT.mk (pure (J.mustDecodeIds data))
    | none => pure []
  -- an error of `Store` is ignored
  let _ ← attempt (store mempoolConfidentialStoreBid mempoolConfStoreAddr key
    (marshalIds (bids ++ [bid.id])))

def initializeBid (bid : Bid) : Request Unit := do
  let key := formatRedisBidKey bid.id
  if (← read key).isSome then
    throw errBidAlreadyPresent
  write key (J.marshalBid bid)
  indexBid J bid

def fetchBidsByProtocolAndBlock (blockNumber : UInt64) (namespace_ : GoString) : Request (List Bid) := do
  let key := indexKey namespace_ blockNumber
  match ← attempt (retrieve mempoolConfidentialStoreBid mempoolConfStoreAddr key) with
  | none => return []
  | some data =>
    let bidIDs ← ExceptT.mk (pure (J.mustDecodeIds data))
    fetchEach (fetchBidById J) bidIDs

/-- A reserved bid that is already there is fine. -/
def start : Request Unit := do
  match ← ExceptT.lift (initializeBid J mempoolConfidentialStoreBid).run with
  | .ok () => return ()
  | .error err =>
    if !err.is .bidAlreadyPresent then
      throw (err.wrap (ascii "mempool: could not initialize: "))

def backend : DatabaseBackend where
  initializeBid := initializeBid J
  store := store
  retrieve := retrieve
  fetchBidById := fetchBidById J
  fetchBidsByProtocolAndBlock := fetchBidsByProtocolAndBlock J
  start := start J

end RedisStoreBackend

namespace PebbleStoreBackend

variable (J : StoreCodec)

def formatPebbleBidKey : BidId → GoString := formatRedisBidKey

def formatPebbleBidValueKey : BidId → GoString → GoString := formatRedisBidValueKey

def bidByBlockAndProtocolIndexDbKey (blockNumber : UInt64) (namespace_ : GoString) : GoString :=
  ascii "bids-block-" ++ (decimal blockNumber.toNat ++ (ascii "-ns-" ++ namespace_))

def initializeBid (bid : Bid) : Request Unit := do
  let key := formatPebbleBidKey bid.id
  if (← read key).isSome then
    throw errBidAlreadyPresent
  write key (J.marshalBid bid)
  -- index update
  let indexKey := bidByBlockAndProtocolIndexDbKey bid.decryptionCondition bid.version
  let currentValues ← match ← read indexKey with
    | some rawCurrentValues => ExceptT.mk (pure (J.unmarshalIds rawCurrentValues))
    | none => pure []
  write indexKey (marshalIds (currentValues ++ [bid.id]))

def fetchBidById (bidId : BidId) : Request Bid := do
  match ← read (formatPebbleBidKey bidId) with
  | some bidData =>
    ExceptT.mk (pure ((J.unmarshalBid bidData).mapError
      (GoError.wrap (ascii "could not unmarshal stored bid: "))))
  | none =>
    throw (.error (ascii "bid " ++ hexBidId bidId ++ ascii " not found: pebble: not found") none)

def store (bid : Bid) (_caller : Address) (key : GoString) (value : Bytes) : Request Bid := do
  write (formatPebbleBidValueKey bid.id key) value
  return bid

def retrieve (bid : Bid) (_caller : Address) (key : GoString) : Request Bytes := do
  match ← read (formatPebbleBidValueKey bid.id key) with
  | some data => return data
  | none =>
    throw (.error (ascii "could not fetch data for bid " ++ hexBidId bid.id ++ ascii " and key " ++ key ++
      ascii ": pebble: not found") none)

def fetchBidsByProtocolAndBlock (blockNumber : UInt64) (namespace_ : GoString) : Request (List Bid) := do
  match ← read (bidByBlockAndProtocolIndexDbKey blockNumber namespace_) with
  | none => return []
  | some rawCurrentValues =>
    match J.unmarshalIds rawCurrentValues with
    | .ok currentBidIds => fetchEach (fetchBidById J) currentBidIds
    | .error _ => return []

def backend : DatabaseBackend where
  initializeBid := initializeBid J
  store := store
  retrieve := retrieve
  fetchBidById := fetchBidById J
  fetchBidsByProtocolAndBlock := fetchBidsByProtocolAndBlock J
  start := pure ()

end PebbleStoreBackend

/-- The two databases. -/
inductive DatabaseKind
  | redis
  | pebble
  deriving DecidableEq, Repr

def DatabaseKind.backend (J : StoreCodec) : DatabaseKind → DatabaseBackend
  | redis => RedisStoreBackend.backend J
  | pebble => PebbleStoreBackend.backend J

end Suift
