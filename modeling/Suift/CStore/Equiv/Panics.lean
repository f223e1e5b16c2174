import Suift.CStore.Equiv.Engine
import Suift.CStore.Equiv.Validation
import Suift.CStore.Mock

/-!
# When `NewMessage` panics

`ExecutionNodeFromTransaction` reads through the pointer to its transaction, and `NewMessage` calls it
before anything has looked whether the pointer is `nil`: for the source transaction once the signature
of the message has been recovered, for the creation transaction of a bid once that of the bid has.

Nothing else in `NewMessage` can panic, as long as the signers and the storage do not
(`newMessage_panics_iff`).
-/

namespace Suift

open Fallible Hexutil Stateful Text

def GoError.IsPanic : GoError → Prop
  | .error _ _ => False
  | .panic _ => True

@[simp]
theorem GoError.isPanic_error (text : GoString) (w : Option Sentinel) :
    ¬ (GoError.error text w).IsPanic := id

@[simp]
theorem GoError.isPanic_wrap (pre : GoString) (err : GoError) : (err.wrap pre).IsPanic ↔ err.IsPanic := by
  cases err <;> rfl

/-- The call panics. -/
abbrev Panics {α : Type} (x : Except GoError α) : Prop := Fails GoError.IsPanic x

/-- The JSON encoder and the signers return normally, on a transaction that is there. -/
structure EngineConfig.Total (C : EngineConfig) : Prop where
  marshalInnerBid : ∀ bid, ¬ Panics (C.json.marshalInnerBid bid)
  marshalBid : ∀ bid, ¬ Panics (C.json.marshalBid bid)
  marshalMessage : ∀ message, ¬ Panics (C.json.marshalMessage message)
  sender : ∀ data signature, ¬ Panics (C.daSigner.sender data signature)
  chainSender : ∀ tx, ¬ Panics (C.chainSender (some tx))

/-- The writing operations of the storage return normally. -/
structure ConfidentialStorageBackend.Total {σ : Type} (B : ConfidentialStorageBackend σ) : Prop where
  initializeBid : ∀ bid, FailsOnly (fun err => ¬ err.IsPanic) (B.initializeBid bid)
  storeWrite : ∀ sw, FailsOnly (fun err => ¬ err.IsPanic) (B.storeWrite sw)

theorem LocalConfidentialStore.total_backend : LocalConfidentialStore.backend.Total where
  initializeBid bid := by
    intro l err l' h
    rw [atomic.run_initializeBid] at h
    split_ifs at h
    cases h
    exact id
  storeWrite sw := by
    intro l err l' h
    rw [atomic.storeWrite_eq_guarded, run_guarded] at h
    cases h

theorem panics_executionNodeFromTransaction_iff {tx : Option Transaction} :
    Panics (executionNodeFromTransaction tx) ↔ tx = none := by
  match tx with
  | none => exact ⟨fun _ => rfl, fun _ => ⟨_, rfl, trivial⟩⟩
  | some (.suave _) | some (.request _) | some (.record _) | some (.ethereum _) =>
    simp [Fails, executionNodeFromTransaction, GoError.new, GoError.IsPanic]

namespace EngineConfig

variable {C : EngineConfig}

theorem not_panics_serializeMessageForSigning (hC : C.Total) (message : DAMessage) :
    ¬ Panics (serializeMessageForSigning C.json message) := by
  simp [Panics, serializeMessageForSigning, hC.marshalMessage]

theorem not_panics_serializeBidForSigning (hC : C.Total) (bid : Bid) :
    ¬ Panics (serializeBidForSigning C.json bid) := by
  simp [Panics, serializeBidForSigning, hC.marshalBid]

theorem not_panics_calculateBidId (hC : C.Total) (bid : InnerBid) :
    ¬ Panics (calculateBidId C.json bid) := by
  simp [Panics, calculateBidId, hC.marshalInnerBid]

/-- The signature of the message recovers to an account, whichever that is. -/
def RecoversMessage (C : EngineConfig) (message : DAMessage) : Prop :=
  ∃ bytes account, serializeMessageForSigning C.json message = .ok bytes ∧
    C.daSigner.sender bytes message.signature = .ok account

/-- The id of the bid is the right one and its signature recovers to an account. -/
def RecoversBid (C : EngineConfig) (bid : Bid) : Prop :=
  calculateBidId C.json bid.toInnerBid = .ok bid.id ∧
    ∃ bytes account, serializeBidForSigning C.json bid = .ok bytes ∧
      C.daSigner.sender bytes bid.signature = .ok account

/-- The chain's signer is asked only after the execution node has been found. -/
theorem not_panics_chainSender (hC : C.Total) {tx : Option Transaction} {node : Address}
    (h : executionNodeFromTransaction tx = .ok node) : ¬ Panics (C.chainSender tx) := by
  cases tx with
  | none => cases h
  | some tx => exact hC.chainSender tx

theorem panics_messageSigner_iff (hC : C.Total) (message : DAMessage) :
    Panics (C.messageSigner message) ↔ message.sourceTx = none ∧ C.RecoversMessage message := by
  have hserialize := not_panics_serializeMessageForSigning hC message
  have hsender := hC.sender
  unfold messageSigner RecoversMessage
  simp only [fails_bind_iff, fails_mapError_iff, GoError.isPanic_wrap, mapError_eq_ok_iff,
    fails_ite_throw_iff, GoError.isPanic_error, not_fails_pure, hserialize, hsender,
    panics_executionNodeFromTransaction_iff, false_or, and_false, or_false, exists_false]
  constructor
  · rintro ⟨bytes, hbytes, account, haccount, hnil⟩
    exact ⟨hnil, bytes, account, hbytes, haccount⟩
  · rintro ⟨hnil, bytes, account, hbytes, haccount⟩
    exact ⟨bytes, hbytes, account, haccount, hnil⟩

theorem panics_validateWrite_iff (hC : C.Total) (signer : Address) (sw : StoreWrite) :
    Panics (C.validateWrite signer sw) ↔ sw.bid.creationTx = none ∧ C.RecoversBid sw.bid := by
  have hid := not_panics_calculateBidId hC sw.bid.toInnerBid
  have hserialize := not_panics_serializeBidForSigning hC sw.bid
  have hsender := hC.sender
  unfold validateWrite RecoversBid
  simp only [fails_bind_iff, fails_mapError_iff, GoError.isPanic_wrap, mapError_eq_ok_iff,
    fails_ite_throw_iff, GoError.isPanic_error, not_fails_pure, hid, hserialize, hsender,
    panics_executionNodeFromTransaction_iff, false_or, and_false, or_false, exists_false]
  constructor
  · rintro ⟨_, hcalculate, hmatch, bytes, hbytes, account, haccount, hnil | hlater⟩
    · rw [not_not] at hmatch
      exact ⟨hnil, hmatch ▸ hcalculate, bytes, account, hbytes, haccount⟩
    · obtain ⟨node, hnode, -, -, -, hchain⟩ := hlater
      exact absurd hchain (not_panics_chainSender hC hnode)
  · rintro ⟨hnil, hcalculate, bytes, account, hbytes, haccount⟩
    exact ⟨_, hcalculate, not_not.mpr rfl, bytes, hbytes, account, haccount, .inl hnil⟩

/-- The validation panics on a missing source transaction, or on the first write whose bid has no
creation transaction if all before it are valid. -/
theorem panics_validateMessage_iff (hC : C.Total) (message : DAMessage) :
    Panics (C.validateMessage message) ↔
      (message.sourceTx = none ∧ C.RecoversMessage message) ∨
      ∃ signer, C.messageSigner message = .ok signer ∧
        ¬ (message.storeUUID = C.storeUUID ∧ signer ∈ C.localAddresses) ∧
        (∃ sender, C.chainSender message.sourceTx = .ok sender) ∧
        ∃ valid sw rest, message.storeWrites.elems = valid ++ sw :: rest ∧
          (∀ sw' ∈ valid, C.validateWrite signer sw' = .ok ()) ∧
          sw.bid.creationTx = none ∧ C.RecoversBid sw.bid := by
  unfold validateMessage
  rw [Panics, fails_bind_iff]
  apply or_congr (panics_messageSigner_iff hC message)
  apply exists_congr
  intro signer
  apply and_congr_right
  intro hsigner
  obtain ⟨_, -, -, hnode⟩ := messageSigner_eq_ok_iff.mp hsigner
  have hchain := not_panics_chainSender hC hnode
  by_cases hown : message.storeUUID = C.storeUUID ∧ signer ∈ C.localAddresses
  · simp [hown]
  · simp only [hown, if_false, not_false_eq_true, true_and, fails_bind_iff, fails_mapError_iff,
      GoError.isPanic_wrap, mapError_eq_ok_iff, hchain, false_or, fails_forM_iff,
      panics_validateWrite_iff hC, not_fails_pure, and_false, exists_false, or_false, exists_and_right]

end EngineConfig

namespace ConfidentialStoreEngine

variable {σ : Type} {C : EngineConfig} {B : ConfidentialStorageBackend σ}

/-- The loop that applies a message returns normally. -/
theorem failsOnly_applyWrite (hB : B.Total) (sw : StoreWrite) :
    FailsOnly (fun err => ¬ err.IsPanic) ((C.engine B).applyWrite sw) := by
  unfold applyWrite logged
  refine FailsOnly.tryCatch (q := fun err => ¬ err.IsPanic) ?_ ?_
  · refine FailsOnly.bind ?_ ?_
    · refine FailsOnly.tryCatch (hB.initializeBid sw.bid) ?_
      intro err herr
      split_ifs
      · exact FailsOnly.pure _
      · intro s e s' h
        cases h
        exact herr
    · exact fun _ => hB.storeWrite sw
  · intro err herr
    cases err with
    | error text w => exact FailsOnly.pure _
    | panic text => exact absurd trivial herr

/-- **`NewMessage` panics** exactly if the signature of the message recovers to an account and its
source transaction is missing, or if all is in order up to a write whose bid has the right id and a
signature that recovers to an account but no creation transaction. -/
theorem newMessage_panics_iff (hC : C.Total) (hB : B.Total) (message : DAMessage) (st : EngineState σ) :
    (∃ text st', ((C.engine B).newMessage message).run st = .error (.panic text) st') ↔
      (message.sourceTx = none ∧ C.RecoversMessage message) ∨
      ∃ signer, C.messageSigner message = .ok signer ∧
        ¬ (message.storeUUID = C.storeUUID ∧ signer ∈ C.localAddresses) ∧
        (∃ sender, C.chainSender message.sourceTx = .ok sender) ∧
        ∃ valid sw rest, message.storeWrites.elems = valid ++ sw :: rest ∧
          (∀ sw' ∈ valid, C.validateWrite signer sw' = .ok ()) ∧
          sw.bid.creationTx = none ∧ C.RecoversBid sw.bid := by
  rw [← EngineConfig.panics_validateMessage_iff hC]
  have hloop : ∀ proceed : Bool, FailsOnly (fun err => ¬ err.IsPanic)
      (if proceed then forM message.storeWrites.elems fun sw => onStorage "" ((C.engine B).applyWrite sw)
        else pure () : EStateM GoError (EngineState σ) Unit) := by
    intro proceed
    cases proceed with
    | false => exact FailsOnly.pure _
    | true =>
      refine FailsOnly.forM ?_ _
      intro sw
      refine FailsOnly.zoom ?_ ?_
      · intro err herr
        rwa [GoError.isPanic_wrap]
      · exact failsOnly_applyWrite hB sw
  unfold newMessage
  simp only [run_bind_eq_error_iff, ofExcept_apply, C.engine_toEngineConfig]
  cases hvalidate : C.validateMessage message with
  | ok proceed =>
    -- whatever goes wrong in the loop is logged
    constructor
    · rintro ⟨text, st', herr | ⟨_, _, -, hrun⟩⟩
      · cases herr
      · exact absurd trivial (hloop _ _ _ _ hrun)
    · rintro ⟨err, herr, -⟩
      cases herr
  | error err =>
    constructor
    · rintro ⟨text, st', herr | ⟨_, _, hok, -⟩⟩
      · cases herr
        exact ⟨_, rfl, trivial⟩
      · cases hok
    · rintro ⟨_, herr, hpanic⟩
      cases herr
      cases err with
      | error text w => exact absurd hpanic id
      | panic text => exact ⟨text, st, .inl rfl⟩

end ConfidentialStoreEngine

/-! ### A message without transactions -/

/-- The signer of confidential transactions returns normally, if what it is built on does. -/
theorem SuaveSigner.not_panics_sender {crypto : Crypto}
    (hrecover : ∀ h sig, ¬ Panics (crypto.ecrecover h sig))
    (hlondon : ∀ chainId tx, ¬ Panics (crypto.londonSender chainId tx)) (chainId : ℕ) (tx : Transaction) :
    ¬ Panics (sender crypto chainId tx) := by
  have hplain : ∀ h r s v homestead, ¬ Panics (recoverPlain crypto h r s v homestead) := by
    intro h r s v homestead
    simp only [recoverPlain, Panics, fails_ite_throw_iff, fails_bind_iff, hrecover, errInvalidSig,
      GoError.isPanic_error, and_false, false_or]
    rintro ⟨-, -, pub, -, hpub⟩
    split at hpub
    · exact not_fails_pure _ hpub
    · exact fails_throw_iff.mp hpub
  have hrecord : ∀ ccr, ¬ Panics (recordSender crypto chainId ccr) := by
    intro ccr
    simp only [recordSender, Panics, fails_ite_throw_iff, hplain, errInvalidChainId,
      GoError.isPanic_error, and_false, or_self, not_false_eq_true]
  cases tx with
  | ethereum tx => exact hlondon chainId tx
  | record tx => exact hrecord tx
  | request tx =>
    simp only [sender, Panics, fails_ite_throw_iff, hrecord, GoError.new, GoError.isPanic_error,
      and_false, or_self, not_false_eq_true]
  | suave tx =>
    simp only [sender, Panics, fails_ite_throw_iff, fails_bind_iff, resultSigner, hplain, hrecord,
      errInvalidChainId, GoError.isPanic_error, and_false, or_self, exists_false, not_false_eq_true]

namespace ConfidentialStoreEngine

theorem total_mockJsonConfig : mockJsonConfig.Total where
  marshalInnerBid _ := not_fails_pure _
  marshalBid _ := not_fails_pure _
  marshalMessage _ := not_fails_pure _
  sender _ _ := not_fails_pure _
  chainSender tx := by
    apply SuaveSigner.not_panics_sender
    · intro h sig
      unfold SuaveSigner.sampleCrypto
      dsimp only
      split_ifs
      · exact not_fails_pure _
      · exact fails_throw_iff.not.mpr id
    · intro chainId tx
      exact fails_throw_iff.not.mpr id

theorem newMessage_panics_iff_emptyMessage :
    (∃ text st', ((mockJsonConfig.engine LocalConfidentialStore.backend).newMessage emptyMessage).run
        ⟨LocalConfidentialStore.empty, []⟩ = .error (.panic text) st') ↔
      (emptyMessage.sourceTx = none ∧ mockJsonConfig.RecoversMessage emptyMessage) ∨
      ∃ signer, mockJsonConfig.messageSigner emptyMessage = .ok signer ∧
        ¬ (emptyMessage.storeUUID = mockJsonConfig.storeUUID ∧ signer ∈ mockJsonConfig.localAddresses) ∧
        (∃ sender, mockJsonConfig.chainSender emptyMessage.sourceTx = .ok sender) ∧
        ∃ valid sw rest, emptyMessage.storeWrites.elems = valid ++ sw :: rest ∧
          (∀ sw' ∈ valid, mockJsonConfig.validateWrite signer sw' = .ok ()) ∧
          sw.bid.creationTx = none ∧ mockJsonConfig.RecoversBid sw.bid :=
  newMessage_panics_iff total_mockJsonConfig LocalConfidentialStore.total_backend emptyMessage _

/-- What a peer may send: a message with a signature and nothing else. -/
def signatureOnly : GoString := hexBytes (ascii "\x7b\"signature\":\"0x01\"\x7d")

/-- A message that the transport delivers and on which `NewMessage` panics. -/
theorem exists_newMessage_panics :
    ∃ message, subscribe mockCodec signatureOnly = some message ∧
      ((mockJsonConfig.engine LocalConfidentialStore.backend).newMessage message).run
        ⟨LocalConfidentialStore.empty, []⟩ = .error nilDereference ⟨LocalConfidentialStore.empty, []⟩ := by
  refine ⟨{ emptyMessage with signature := [1] }, by decide +kernel, ?_⟩
  rfl

end ConfidentialStoreEngine

end Suift
