import Suift.CStore.LocalStore
import Suift.Lib.Stateful

/-!
# The confidential store engine

`ConfidentialStoreEngine` of `suave/cstore/engine.go`, over any storage backend.  `finalize` commits
the bids and writes of a local transaction and publishes them; `newMessage` takes in what another
store has published.

The engine's state is that of its backend together with the messages handed to the transport so
far.  `go Publish(msg)` appends to them: the transport itself is outside.  The two signers are
parameters; what they can do is up to the account manager and to `core/types`.
-/

namespace Suift

open Text

structure DASigner where
  sign : Address → Bytes → Except GoError Bytes
  sender : Bytes → Bytes → Except GoError Address
  localAddresses : List Address

/-- What an engine is set up with, apart from its storage.  `localAddresses` are those the signer had
at construction. -/
structure EngineConfig where
  json : Encoding
  daSigner : DASigner
  chainSender : Option Transaction → Except GoError Address
  storeUUID : UUID
  localAddresses : List Address

structure ConfidentialStoreEngine (σ : Type) extends EngineConfig where
  storage : ConfidentialStorageBackend σ

/-- The engine with this configuration over the backend `B`. -/
def EngineConfig.engine {σ : Type} (C : EngineConfig) (B : ConfidentialStorageBackend σ) :
    ConfidentialStoreEngine σ where
  toEngineConfig := C
  storage := B

@[simp]
theorem EngineConfig.engine_storage {σ : Type} (C : EngineConfig) (B : ConfidentialStorageBackend σ) :
    (C.engine B).storage = B := rfl

@[simp]
theorem EngineConfig.engine_toEngineConfig {σ : Type} (C : EngineConfig)
    (B : ConfidentialStorageBackend σ) : (C.engine B).toEngineConfig = C := rfl

@[ext]
structure EngineState (σ : Type) where
  storage : σ
  published : List DAMessage

/-- The engine's state with its storage mapped. -/
def EngineState.map {σ τ : Type} (f : σ → τ) (st : EngineState σ) : EngineState τ where
  storage := f st.storage
  published := st.published

namespace EngineConfig

variable (C : EngineConfig)

/-- Complete and sign a bid that a local transaction creates.  Nothing is stored yet. -/
def initializeBid (bid : InnerBid) (creationTx : Option Transaction) : Except GoError Bid := do
  -- share with all stores this node trusts
  let bid := { bid with allowedStores := bid.allowedStores.append C.daSigner.localAddresses }
  let expectedId ← (calculateBidId C.json bid).mapError
    (GoError.wrap (ascii "confidential engine: could not initialize new bid: "))
  if bid.id ≠ emptyId ∧ bid.id ≠ expectedId then
    throw (GoError.new "confidential engine:incorrect bid id passed")
  let initializedBid : Bid :=
    { id := expectedId, salt := bid.salt, decryptionCondition := bid.decryptionCondition,
      allowedPeekers := bid.allowedPeekers, allowedStores := bid.allowedStores,
      version := bid.version, creationTx := creationTx, signature := [] }
  let bidBytes ← (serializeBidForSigning C.json initializedBid).mapError
    (GoError.wrap (ascii "confidential engine: could not hash bid for signing: "))
  let signingAccount ← (executionNodeFromTransaction creationTx).mapError
    (GoError.wrap
      (ascii "confidential engine: could not recover execution node from creation transaction: "))
  let signature ← (C.daSigner.sign signingAccount bidBytes).mapError
    (GoError.wrap (ascii "confidential engine: could not sign initialized bid: "))
  return { initializedBid with signature := signature }

/-- The message that tells the other stores about the writes of `tx`, signed by its execution
node. -/
def signMessage (tx : Option Transaction) (stores : Slice StoreWrite) : Except GoError DAMessage := do
  let pwMsg : DAMessage :=
    { sourceTx := tx, storeWrites := stores, storeUUID := C.storeUUID, signature := [] }
  -- the refusal is logged with `tx.Hash()`, so that it panics without a transaction
  let _ ← (C.chainSender tx).mapError
    (GoError.replaceWith (if tx.isSome then errUnsignedFinalize else nilDereference))
  let msgBytes ← (serializeMessageForSigning C.json pwMsg).mapError
    (GoError.wrap (ascii "confidential engine: could not hash message for signing: "))
  let signingAccount ← (executionNodeFromTransaction tx).mapError
    (GoError.wrap
      (ascii "confidential engine: could not recover execution node from source transaction: "))
  let signature ← (C.daSigner.sign signingAccount msgBytes).mapError
    (GoError.wrap (ascii "confidential engine: could not sign message: "))
  return { pwMsg with signature := signature }

/-! ### Validating a message -/

/-- Message-level validation: the account that signed the message, which has to be the execution
node of its source transaction. -/
def messageSigner (message : DAMessage) : Except GoError Address := do
  let msgBytes ← (serializeMessageForSigning C.json message).mapError
    (GoError.wrap (ascii "confidential engine: could not hash received message: "))
  let recoveredMessageSigner ← (C.daSigner.sender msgBytes message.signature).mapError
    (GoError.wrap (ascii "confidential engine: incorrect message signature: "))
  let expectedMessageSigner ← (executionNodeFromTransaction message.sourceTx).mapError
    (GoError.wrap (ascii "confidential engine: could not recover signer from message: "))
  if recoveredMessageSigner ≠ expectedMessageSigner then
    throw (.error (ascii "confidential engine: message signer " ++
      hexAddress recoveredMessageSigner ++ ascii ", expected " ++
      hexAddress expectedMessageSigner) none)
  return recoveredMessageSigner

/-- Bid-level validation of one write.  The permissions are those of the copy of the bid that the
message carries. -/
def validateWrite (recoveredMessageSigner : Address) (sw : StoreWrite) : Except GoError Unit := do
  let expectedId ← (calculateBidId C.json sw.bid.toInnerBid).mapError
    (GoError.wrap (ascii "confidential engine: could not calculate received bids id: "))
  if expectedId ≠ sw.bid.id then
    throw (.error (ascii "confidential engine: received bids id (" ++ hexBidId sw.bid.id ++
      ascii ") does not match the expected (" ++ hexBidId expectedId ++ ascii ")") none)
  let bidBytes ← (serializeBidForSigning C.json sw.bid).mapError
    (GoError.wrap (ascii "confidential engine: could not hash received bid: "))
  let recoveredBidSigner ← (C.daSigner.sender bidBytes sw.bid.signature).mapError
    (GoError.wrap (ascii "confidential engine: incorrect bid signature: "))
  let expectedBidSigner ← (executionNodeFromTransaction sw.bid.creationTx).mapError
    (GoError.wrap (ascii "confidential engine: could not recover signer from bid: "))
  if recoveredBidSigner ≠ expectedBidSigner then
    throw (.error (ascii "confidential engine: bid signer " ++ hexAddress recoveredBidSigner ++
      ascii ", expected " ++ hexAddress expectedBidSigner) none)
  if !sw.bid.allowedStores.elems.contains recoveredMessageSigner then
    throw (.error (ascii "confidential engine: sw signer " ++ hexAddress recoveredMessageSigner ++
      ascii " not allowed to store on bid " ++ hexBidId sw.bid.id) none)
  if !sw.bid.allows sw.caller then
    throw (.error (ascii "confidential engine: caller " ++ hexAddress sw.caller ++
      ascii " not allowed on bid " ++ hexBidId sw.bid.id) none)
  let _ ← (C.chainSender sw.bid.creationTx).mapError
    (GoError.wrap (ascii "confidential engine: creation tx for bid id " ++ hexBidId sw.bid.id ++
      ascii " is not signed properly: "))

/-- Everything `NewMessage` checks before it writes.  `false` means that the message is this
engine's own and is dropped. -/
def validateMessage (message : DAMessage) : Except GoError Bool := do
  let recoveredMessageSigner ← C.messageSigner message
  if message.storeUUID = C.storeUUID ∧ recoveredMessageSigner ∈ C.localAddresses then
    return false
  let _ ← (C.chainSender message.sourceTx).mapError
    (GoError.wrap (ascii "confidential engine: source tx for message is not signed properly: "))
  forM message.storeWrites.elems (C.validateWrite recoveredMessageSigner)
  return true

end EngineConfig

namespace ConfidentialStoreEngine

variable {σ : Type} (E : ConfidentialStoreEngine σ)

def fetchBidById (s : σ) (bidId : BidId) : Except GoError Bid := E.storage.fetchBidById s bidId

def fetchBidsByProtocolAndBlock (s : σ) (blockNumber : UInt64) (namespace_ : GoString) : List Bid :=
  E.storage.fetchBidsByProtocolAndBlock s blockNumber namespace_

def retrieve (s : σ) (bidId : BidId) (caller : Address) (key : GoString) : Except GoError Bytes := do
  let bid ← (E.storage.fetchBidById s bidId).mapError
    (GoError.wrap (ascii "confidential engine: could not fetch bid " ++ hexBidId bidId ++
      ascii " while retrieving: "))
  if !bid.allows caller then
    throw (.error (ascii "confidential engine: " ++ hexAddress caller ++
      ascii " not allowed to retrieve " ++ key ++ ascii " on " ++ hexBidId bidId) none)
  E.storage.retrieve s bid caller key

/-! ### Writing to the storage -/

/-- Run an operation of the backend; an error wraps the backend's. -/
def onStorage {α : Type} (pre : String) (x : EStateM GoError σ α) :
    EStateM GoError (EngineState σ) α :=
  Stateful.zoom EngineState.storage (fun st s => { st with storage := s }) (GoError.wrap (ascii pre)) x

/-- The first half of `Finalize`: `newBids` are the values of the Go map in the order in which this
call happens to visit them. -/
def storePending (newBids : List Bid) (stores : List StoreWrite) :
    EStateM GoError (EngineState σ) Unit := do
  forM newBids fun bid =>
    onStorage "confidential engine: store backend failed to initialize bid: "
      (E.storage.initializeBid bid)
  forM stores fun sw =>
    onStorage "failed to store data: " (E.storage.storeWrite sw)

/-- `ConfidentialStoreEngine.Finalize`. -/
def finalize (tx : Option Transaction) (newBids : List Bid) (stores : Slice StoreWrite) :
    EStateM GoError (EngineState σ) Unit := do
  E.storePending newBids stores.elems
  let pwMsg ← MonadExcept.ofExcept (E.signMessage tx stores)
  modify fun st => { st with published := st.published ++ [pwMsg] }

/-- Log an error and carry on; a panic is not caught. -/
def logged (x : EStateM GoError σ Unit) : EStateM GoError σ Unit :=
  tryCatch x fun
    | .error _ _ => pure ()
    | .panic text => throw (.panic text)

/-- One round of the loop that applies a message: a bid that is already there is fine, any other
failure of the backend skips the write. -/
def applyWrite (sw : StoreWrite) : EStateM GoError σ Unit :=
  logged do
    tryCatch (E.storage.initializeBid sw.bid) fun err =>
      if err.is .bidAlreadyPresent then pure () else throw err
    E.storage.storeWrite sw

/-- `ConfidentialStoreEngine.NewMessage`. -/
def newMessage (message : DAMessage) : EStateM GoError (EngineState σ) Unit := do
  let proceed ← MonadExcept.ofExcept (E.validateMessage message)
  if proceed then
    forM message.storeWrites.elems fun sw => onStorage "" (E.applyWrite sw)

end ConfidentialStoreEngine

end Suift
