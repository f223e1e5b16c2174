import Suift.CStore.Engine

/-!
# Transactional stores

A `TransactionalStore` collects the bids and writes of one confidential execution on top of the
engine, until `Finalize` commits them.

The pending bids are a Go map keyed by the bids' own ids; here they are listed in the order of their
insertion, with the proof that no id occurs twice.  The order in which `Finalize` visits the map is
up to the Go runtime, so `finalize` takes it as an argument.
-/

namespace Suift

open Text

structure TransactionalStore where
  sourceTx : Option Transaction
  pendingBids : List Bid
  pendingWrites : Slice StoreWrite
  nodup : (pendingBids.map Bid.id).Nodup
  deriving DecidableEq

namespace TransactionalStore

/-- `NewTransactionalStore`. -/
def new (sourceTx : Option Transaction) : TransactionalStore where
  sourceTx := sourceTx
  pendingBids := []
  pendingWrites := none
  nodup := List.nodup_nil

/-- `s.pendingBids[bidId]`. -/
def pendingBid (t : TransactionalStore) (bidId : BidId) : Option Bid :=
  t.pendingBids.find? fun bid => bid.id = bidId

/-- `s.pendingBids[bid.Id] = bid` for an id that is not there yet. -/
def addBid (t : TransactionalStore) (bid : Bid) (h : bid.id ∉ t.pendingBids.map Bid.id) :
    TransactionalStore where
  sourceTx := t.sourceTx
  pendingBids := t.pendingBids ++ [bid]
  pendingWrites := t.pendingWrites
  nodup := by
    rw [List.map_append, List.nodup_append]
    refine ⟨t.nodup, by simp, ?_⟩
    intro a ha b hb hab
    obtain rfl : b = bid.id := by simpa using hb
    exact h (hab ▸ ha)

/-- `s.pendingWrites = append(s.pendingWrites, sw)`. -/
def addWrite (t : TransactionalStore) (sw : StoreWrite) : TransactionalStore :=
  { t with pendingWrites := t.pendingWrites.append [sw] }

variable {σ : Type} (E : ConfidentialStoreEngine σ)

def fetchBidById (t : TransactionalStore) (s : σ) (bidId : BidId) : Except GoError Bid :=
  match t.pendingBid bidId with
  | some bid => .ok bid
  | none => E.fetchBidById s bidId

def fetchBidsByProtocolAndBlock (t : TransactionalStore) (s : σ) (blockNumber : UInt64)
    (namespace_ : GoString) : List Bid :=
  E.fetchBidsByProtocolAndBlock s blockNumber namespace_ ++
    t.pendingBids.filter fun bid =>
      bid.version = namespace_ ∧ bid.decryptionCondition = blockNumber

def store (t : TransactionalStore) (s : σ) (bidId : BidId) (caller : Address) (key : GoString)
    (value : Bytes) : Except GoError (TransactionalStore × Bid) := do
  let bid ← t.fetchBidById E s bidId
  if !bid.allows caller then
    throw (.error (ascii "confidential store transaction: " ++ hexAddress caller ++
      ascii " not allowed to store " ++ key ++ ascii " on " ++ hexBidId bidId) none)
  return (t.addWrite { bid := bid, caller := caller, key := key, value := value }, bid)

/-- The pending writes are scanned from the front; the first one to the same bid and key wins. -/
def retrieve (t : TransactionalStore) (s : σ) (bidId : BidId) (caller : Address) (key : GoString) :
    Except GoError Bytes := do
  let bid ← t.fetchBidById E s bidId
  if !bid.allows caller then
    throw (.error (ascii "confidential store transaction: " ++ hexAddress caller ++
      ascii " not allowed to retrieve " ++ key ++ ascii " on " ++ hexBidId bidId) none)
  match t.pendingWrites.elems.find? fun sw => sw.bid.id = bid.id ∧ sw.key = key with
  | some sw => return sw.value
  | none => E.retrieve s bidId caller key

def initializeBid (t : TransactionalStore) (rawBid : InnerBid) :
    Except GoError (TransactionalStore × InnerBid) := do
  let bid ← E.initializeBid rawBid t.sourceTx
  if h : bid.id ∈ t.pendingBids.map Bid.id then
    throw (GoError.new "bid with this id already exists")
  else
    return (t.addBid bid h, bid.toInnerBid)

/-- `order` is the order in which the runtime visits the pending bids. -/
def finalize (t : TransactionalStore) (order : List Bid) : EStateM GoError (EngineState σ) Unit :=
  E.finalize t.sourceTx order t.pendingWrites

/-- An operation that adds to a transaction. -/
inductive Op
  | initializeBid (rawBid : InnerBid)
  | store (bidId : BidId) (caller : Address) (key : GoString) (value : Bytes)

def apply (s : σ) (t : TransactionalStore) : Op → Except GoError TransactionalStore
  | .initializeBid rawBid => return (← t.initializeBid E rawBid).1
  | .store bidId caller key value => return (← t.store E s bidId caller key value).1

/-- Operations that are all accepted, one after the other, while the engine's storage is `s`. -/
def applyAll (s : σ) : TransactionalStore → List Op → Except GoError TransactionalStore
  | t, [] => .ok t
  | t, op :: ops => do applyAll s (← t.apply E s op) ops

/-- The values that the operations store, with the bid and key they store them under. -/
def stored (ops : List Op) : List ((BidId × GoString) × Bytes) :=
  ops.filterMap fun
    | .initializeBid _ => none
    | .store bidId _ key value => some ((bidId, key), value)

end TransactionalStore

end Suift
