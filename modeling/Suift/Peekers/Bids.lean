import Suift.Lib.Rlp
import Suift.VM.EthBackend
import Suift.VM.Precompiles

/-!
# The contract that builds blocks from bids

`EthBlockBidContract` of `suave/sol/standard_peekers/bids.sol`, up to the call of `buildAndEmit`, which
contracts override.

`Suave` is what the library of that name returns to the contract.  The confidential store may change while
the contract runs, since other transactions are finalized and messages arrive, so that each `Read` of it
may find something else.  `Suave.onStore` is the library on a transaction of a node.
-/

namespace Suift.Peekers

open Text

/-- Why a call is rolled back. -/
inductive Revert
  /-- `require` without a reason, or data that `abi.decode` does not accept. -/
  | empty
  | panic (code : ℕ)
  | peekerReverted (addr : Address) (data : Bytes)
  deriving DecidableEq, Repr

def require (p : Bool) : Except Revert Unit :=
  if p then pure () else throw .empty

def checkedSub (a b : ℕ) : Except Revert ℕ :=
  if b ≤ a then pure (a - b) else throw (.panic 0x11)

/-- `xs[i]` -/
def index {α : Type} (xs : List α) (i : ℕ) : Except Revert α :=
  match xs[i]? with
  | some x => pure x
  | none => throw (.panic 0x32)

/-- The reads of the confidential store in one call: of the bids that the `j`-th match bid merges, for the
`i`-th user bid, and of the simulation results of the `i`-th bid. -/
inductive Read
  | mergedBids (i j : ℕ)
  | simResults (i : ℕ)
  deriving DecidableEq, Repr

structure Suave where
  isConfidential : Except Revert Bool
  fetchBids (cond : UInt64) (namespace_ : GoString) : Except Revert (List InnerBid)
  confidentialRetrieve (read : Read) (bidId : BidId) (key : GoString) : Except Revert Bytes
  /-- `abi.decode(data, (uint64))` -/
  decodeUint64 (data : Bytes) : Except Revert UInt64
  /-- `abi.decode(data, (Suave.BidId[]))` -/
  decodeBidIds (data : Bytes) : Except Revert (List BidId)

structure EgpBidPair where
  egp : UInt64
  bidId : BidId
  deriving DecidableEq, Repr

/-! ### The parts of the two functions -/

/-- The loop of `idsEqual` over the packed ids. -/
def bytesEqual : Bytes → Bytes → Except Revert Bool
  | [], _ => pure true
  | _ :: _, [] => throw (.panic 0x32)
  | b :: l, c :: r => if b ≠ c then pure false else bytesEqual l r

def idsEqual (l r : BidId) : Except Revert Bool :=
  bytesEqual (Rlp.bigEndian 16 l.toNat) (Rlp.bigEndian 16 r.toNat)

/-- The inner loop of `buildMevShare`, over the match bids from index `j` on: `bidToInsert`. -/
def bidToInsert (S : Suave) (i : ℕ) (userBid : InnerBid) : ℕ → List InnerBid → Except Revert InnerBid
  | _, [] => pure userBid
  | j, matchBid :: matchBids => do
    let data ← S.confidentialRetrieve (.mergedBids i j) matchBid.id (ascii "mevshare:v0:mergedBids")
    let mergedBidIds ← S.decodeBidIds data
    let first ← index mergedBidIds 0
    if ← idsEqual first userBid.id then return matchBid
    else bidToInsert S i userBid (j + 1) matchBids

/-- One entry of `bidsByEGP`. -/
def egpBidPair (S : Suave) (key : GoString) (i : ℕ) (bid : InnerBid) : Except Revert EgpBidPair := do
  let simResults ← S.confidentialRetrieve (.simResults i) bid.id key
  let egp ← S.decodeUint64 simResults
  return { egp := egp, bidId := bid.id }

/-- The body of the loops that sort: the entries at `i` and `j` are exchanged if they are out of order. -/
def exchange (i : ℕ) (bidsByEGP : List EgpBidPair) (j : ℕ) : Except Revert (List EgpBidPair) := do
  let x ← index bidsByEGP i
  let y ← index bidsByEGP j
  if x.egp < y.egp then return (bidsByEGP.set i y).set j x
  else return bidsByEGP

/-- `for (uint j = i + 1; j < n; j++)` -/
def exchangeLater (n : ℕ) (bidsByEGP : List EgpBidPair) (i : ℕ) : Except Revert (List EgpBidPair) :=
  (List.range' (i + 1) (n - (i + 1))).foldlM (exchange i) bidsByEGP

/-- `for (uint i = 0; i < n - 1; i++)` -/
def sortByEGP (bidsByEGP : List EgpBidPair) : Except Revert (List EgpBidPair) := do
  let n := bidsByEGP.length
  let last ← checkedSub n 1
  (List.range last).foldlM (exchangeLater n) bidsByEGP

/-- What the two functions end with: the ids of the bids, in the order of their simulation results. -/
def allBidIds (S : Suave) (key : GoString) (allBids : List InnerBid) : Except Revert (List BidId) := do
  let bidsByEGP ← Fallible.mapIdxFrom (egpBidPair S key) 0 allBids
  let bidsByEGP ← sortByEGP bidsByEGP
  return bidsByEGP.map EgpBidPair.bidId

/-! ### The functions -/

/-- A version of `buildAndEmit`. -/
abbrev BuildAndEmit : Type :=
  EthBackend.BuildBlockArgs → UInt64 → List BidId → GoString → Except Revert Bytes

section

variable (S : Suave) (this : Address) (buildAndEmit : BuildAndEmit)
  (blockArgs : EthBackend.BuildBlockArgs) (blockHeight : UInt64)

def buildMevShare : Except Revert Bytes := do
  require (← S.isConfidential)
  let allShareMatchBids ← S.fetchBids blockHeight (ascii "mevshare:v0:matchBids")
  let allShareUserBids ← S.fetchBids blockHeight (ascii "mevshare:v0:unmatchedBundles")
  if allShareUserBids.length = 0 then
    throw (.peekerReverted this (ascii "no bids"))
  let allBids ← Fallible.mapIdxFrom (fun i userBid => bidToInsert S i userBid 0 allShareMatchBids) 0
    allShareUserBids
  let ids ← allBidIds S (ascii "mevshare:v0:ethBundleSimResults") allBids
  buildAndEmit blockArgs blockHeight ids (ascii "mevshare:v0")

def buildFromPool : Except Revert Bytes := do
  require (← S.isConfidential)
  let allBids ← S.fetchBids blockHeight (ascii "default:v0:ethBundles")
  if allBids.length = 0 then
    throw (.peekerReverted this (ascii "no bids"))
  let ids ← allBidIds S (ascii "default:v0:ethBundleSimResults") allBids
  buildAndEmit blockArgs blockHeight ids []

end

/-- The library in a confidential execution, on the store of the transaction `t`: `fetching` is when the
bids are fetched, and `reading` when each value is read.  `message` is what a failed precompile returns. -/
def Suave.onStore {σ : Type} {E : ConfidentialStoreEngine σ} (X : Externals) (t : TransactionalStore)
    (callerStack : List (Option Address)) (fetching : Moment E) (reading : Read → Moment E)
    (message : GoError → Bytes) (decodeUint64 : Bytes → Except Revert UInt64)
    (decodeBidIds : Bytes → Except Revert (List BidId)) : Suave where
  isConfidential := .ok true
  fetchBids cond namespace_ :=
    .ok ((t.fetchBidsByProtocolAndBlock E fetching.storage cond namespace_).map Bid.toInnerBid)
  confidentialRetrieve read bidId key :=
    (confRetrieve X ⟨(reading read).confidentialStore t, callerStack ++ [some confRetrieveAddress]⟩ bidId
      key).mapError fun err => .peekerReverted confRetrieveAddress (message err)
  decodeUint64 := decodeUint64
  decodeBidIds := decodeBidIds

end Suift.Peekers
