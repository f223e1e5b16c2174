import Suift.CStore.TransactionalStore
import Suift.Lib.Fallible
import Suift.VM.SuaveContext

/-!
# The SUAVE precompiles in a confidential EVM

`SuavePrecompiledContractWrapper.Run` decodes the input and hands it to the precompile's `runImpl`
(`core/vm/contracts_suave_runtime_adapter.go`).  Two precompiles change the transaction's confidential
store: `confidentialStore` writes a value and `newBid` initializes a bid.  All others only read it, so that
what they return is a parameter here.

The storage below the transaction may change between two precompile calls, since other transactions are
finalized and messages arrive.  A precompile therefore runs at a `Moment`.
-/

namespace Suift

open Fallible Text

/-- `PrecompiledContractsSuave`. -/
inductive SuavePrecompile
  | isConfidential
  | confidentialInputs
  | confidentialStore
  | confidentialRetrieve
  | newBid
  | fetchBids
  | extractHint
  | signEthTransaction
  | simulateBundle
  | buildEthBlock
  | submitEthBlockBidToRelay
  | submitBundleJsonRPC
  | fillMevShareBundle
  | ethcall
  deriving DecidableEq, Repr

namespace SuavePrecompile

def address : SuavePrecompile → Address
  | isConfidential => 0x42010000
  | confidentialInputs => 0x42010001
  | confidentialStore => confStoreAddress
  | confidentialRetrieve => confRetrieveAddress
  | newBid => 0x42030000
  | fetchBids => 0x42030001
  | extractHint => 0x42100037
  | signEthTransaction => 0x40100001
  | simulateBundle => 0x42100000
  | buildEthBlock => buildEthBlockAddress
  | submitEthBlockBidToRelay => 0x42100002
  | submitBundleJsonRPC => 0x43000001
  | fillMevShareBundle => fillMevShareBundleAddress
  | ethcall => 0x42100003

def all : List SuavePrecompile :=
  [isConfidential, confidentialInputs, confidentialStore, confidentialRetrieve, newBid, fetchBids,
    extractHint, signEthTransaction, simulateBundle, buildEthBlock, submitEthBlockBidToRelay,
    submitBundleJsonRPC, fillMevShareBundle, ethcall]

/-- `PrecompiledContractsSuave[addr]`. -/
def ofAddress (addr : Address) : Option SuavePrecompile := all.find? fun p => p.address = addr

def requiredGas (input : Bytes) : SuavePrecompile → ℕ
  | isConfidential | confidentialInputs => 0
  | confidentialStore => 100 * input.length
  | confidentialRetrieve => 100
  | newBid | fetchBids | signEthTransaction | submitEthBlockBidToRelay | submitBundleJsonRPC
  | fillMevShareBundle => 1000
  | extractHint | simulateBundle | buildEthBlock | ethcall => 10000

end SuavePrecompile

/-- When a precompile runs: the storage of the engine `E`, and the id that `suave.RandomBidId` draws. -/
structure Moment {σ : Type} (E : ConfidentialStoreEngine σ) where
  storage : σ
  id_eq : ∀ id bid, E.fetchBidById storage id = .ok bid → bid.id = id
  randomBidId : BidId

/-- A transaction's store as the precompiles read it. -/
def Moment.confidentialStore {σ : Type} {E : ConfidentialStoreEngine σ} (m : Moment E)
    (t : TransactionalStore) : ConfidentialStore where
  fetchBidById := t.fetchBidById E m.storage
  fetchBidsByProtocolAndBlock := t.fetchBidsByProtocolAndBlock E m.storage
  retrieve := t.retrieve E m.storage
  id_eq id bid h := by
    unfold TransactionalStore.fetchBidById at h
    cases hpending : t.pendingBid id with
    | none =>
      rw [hpending] at h
      exact m.id_eq id bid h
    | some pending =>
      rw [hpending] at h
      obtain rfl := Except.ok.inj h
      simpa using List.find?_some hpending
  allows_of_retrieve id caller key data h := by
    simp only [TransactionalStore.retrieve, bind_eq_ok_iff, ite_throw_eq_ok_iff] at h
    obtain ⟨bid, hbid, hallows, -⟩ := h
    exact ⟨bid, hbid, by simpa using hallows⟩

/-- What the precompiles use: ABI coding, the transaction that is executed, and the results of those that
only read the store. -/
structure SuaveRuntime {σ : Type} (E : ConfidentialStoreEngine σ) where
  externals : Externals
  /-- The arguments of `confidentialStore`, if the input can be decoded. -/
  unpackStore : Bytes → Option (BidId × GoString × Bytes)
  /-- The arguments of `newBid`: condition, peekers, stores and bid type. -/
  unpackNewBid : Bytes → Option (UInt64 × List Address × List Address × GoString)
  packBid : InnerBid → Option Bytes
  confidentialComputeRequestTx : Option Transaction
  read : SuavePrecompile → SuaveContext → Bytes → Except GoError Bytes

namespace SuaveRuntime

variable {σ : Type} {E : ConfidentialStoreEngine σ} (R : SuaveRuntime E)

/-- `confStore.runImpl`. -/
def confStore (callerStack : List (Option Address)) (m : Moment E) (t : TransactionalStore)
    (bidId : BidId) (key : GoString) (data : Bytes) : Except GoError TransactionalStore := do
  let bid ← (t.fetchBidById E m.storage bidId).mapError (GoError.replaceWith errBidNotFound)
  let caller ← checkIsPrecompileCallAllowed R.externals ⟨m.confidentialStore t, callerStack⟩
    confStoreAddress bid
  let (t, _) ← t.store E m.storage bidId caller key data
  return t

/-- `newBid.runImpl`. -/
def newBid (m : Moment E) (t : TransactionalStore) (version : GoString) (decryptionCondition : UInt64)
    (allowedPeekers allowedStores : List Address) : Except GoError (TransactionalStore × InnerBid) := do
  if R.confidentialComputeRequestTx.isNone then
    throw (.panic (ascii "newBid: source transaction not present"))
  t.initializeBid E
    { id := emptyId, salt := m.randomBidId, decryptionCondition := decryptionCondition,
      allowedPeekers := some allowedPeekers, allowedStores := some allowedStores, version := version }

/-- `SuaveRuntimeAdapter.confidentialStore`. -/
def runStore (callerStack : List (Option Address)) (m : Moment E) (input : Bytes) :
    EStateM GoError TransactionalStore Bytes := do
  let some (bidId, key, data) := R.unpackStore input
    | throw (GoError.new "failed to decode input")
  let t ← MonadExcept.ofExcept (R.confStore callerStack m (← get) bidId key data)
  set t
  return []

/-- `SuaveRuntimeAdapter.newBid`.  The output is packed after the bid has got into the store. -/
def runNewBid (m : Moment E) (input : Bytes) : EStateM GoError TransactionalStore Bytes := do
  let some (decryptionCondition, allowedPeekers, allowedStores, bidType) := R.unpackNewBid input
    | throw (GoError.new "failed to decode input")
  let (t, bid) ← MonadExcept.ofExcept
    (R.newBid m (← get) bidType decryptionCondition allowedPeekers allowedStores)
  set t
  match R.packBid bid with
  | some output => return output
  | none => throw (GoError.new "failed to encode output")

/-- `SuavePrecompiledContractWrapper.Run`. -/
def run (p : SuavePrecompile) (callerStack : List (Option Address)) (m : Moment E) (input : Bytes) :
    EStateM GoError TransactionalStore Bytes :=
  match p with
  | .isConfidential => if input.length ≠ 0 then throw (GoError.new "invalid input length") else return [1]
  | .confidentialStore => R.runStore callerStack m input
  | .newBid => R.runNewBid m input
  | p => do MonadExcept.ofExcept (R.read p ⟨m.confidentialStore (← get), callerStack⟩ input)

/-- The store accepts what the precompile asks of it: a write that is allowed, or a bid that is new. -/
def accepts (p : SuavePrecompile) (callerStack : List (Option Address)) (m : Moment E)
    (t : TransactionalStore) (input : Bytes) : Bool :=
  match p with
  | .confidentialStore =>
    (R.unpackStore input).any fun (bidId, key, data) => (R.confStore callerStack m t bidId key data).isOk
  | .newBid =>
    (R.unpackNewBid input).any fun (decryptionCondition, allowedPeekers, allowedStores, bidType) =>
      (R.newBid m t bidType decryptionCondition allowedPeekers allowedStores).isOk
  | _ => false

end SuaveRuntime

end Suift
