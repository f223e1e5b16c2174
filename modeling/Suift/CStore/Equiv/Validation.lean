import Suift.CStore.Engine
import Suift.Lib.Fallible

/-!
# What the validation of a message accepts

`NewMessage` recovers the signer of a message, and of each bid in it, and compares it with the execution
node of the transaction.  Each check of the validation is one condition here
(`validateWrite_eq_ok_iff`, `validateMessage_eq_true_iff`, `validateMessage_eq_false_iff`).
-/

namespace Suift

open Fallible

/-- The bid carries the id of its contents. -/
def Bid.Authentic (J : Encoding) (bid : Bid) : Prop :=
  calculateBidId J bid.toInnerBid = .ok bid.id

/-- The write is on an authentic bid, by somebody whom that bid allows. -/
def StoreWrite.Authentic (J : Encoding) (w : StoreWrite) : Prop :=
  w.bid.Authentic J ∧ w.bid.allows w.caller

/-- The signature of the bid recovers to the execution node of its creation transaction. -/
def Bid.Signed (J : Encoding) (sender : Bytes → Bytes → Except GoError Address) (bid : Bid) : Prop :=
  ∃ bytes node, serializeBidForSigning J bid = .ok bytes ∧ sender bytes bid.signature = .ok node ∧
    executionNodeFromTransaction bid.creationTx = .ok node

/-- The signature of the message recovers to `node`, the execution node of its source transaction. -/
def DAMessage.SignedBy (J : Encoding) (sender : Bytes → Bytes → Except GoError Address)
    (message : DAMessage) (node : Address) : Prop :=
  ∃ bytes, serializeMessageForSigning J message = .ok bytes ∧
    sender bytes message.signature = .ok node ∧
    executionNodeFromTransaction message.sourceTx = .ok node

namespace EngineConfig

variable {C : EngineConfig}

theorem messageSigner_eq_ok_iff {message : DAMessage} {node : Address} :
    C.messageSigner message = .ok node ↔ message.SignedBy C.json C.daSigner.sender node := by
  unfold messageSigner DAMessage.SignedBy
  simp only [bind_eq_ok_iff, mapError_eq_ok_iff, ite_throw_eq_ok_iff, pure_eq_ok_iff, ne_eq, not_not]
  constructor
  · rintro ⟨bytes, hbytes, _, hsender, _, hnode, rfl, rfl⟩
    exact ⟨bytes, hbytes, hsender, hnode⟩
  · rintro ⟨bytes, hbytes, hsender, hnode⟩
    exact ⟨bytes, hbytes, node, hsender, node, hnode, rfl, rfl⟩

/-- A message whose signature recovers to another account than its execution node is refused. -/
theorem validateMessage_eq_error_of_sender_ne {message : DAMessage} {bytes : Bytes}
    {signer node : Address} (hbytes : serializeMessageForSigning C.json message = .ok bytes)
    (hsender : C.daSigner.sender bytes message.signature = .ok signer)
    (hnode : executionNodeFromTransaction message.sourceTx = .ok node) (hne : signer ≠ node) :
    C.validateMessage message =
      .error (.error (Text.ascii "confidential engine: message signer " ++ hexAddress signer ++
        Text.ascii ", expected " ++ hexAddress node) none) := by
  unfold validateMessage messageSigner
  simp only [hbytes, hsender, hnode, Except.mapError, bind, Except.bind, if_pos hne]
  rfl

theorem validateWrite_eq_ok_iff {signer : Address} {sw : StoreWrite} :
    C.validateWrite signer sw = .ok () ↔
      sw.Authentic C.json ∧ sw.bid.Signed C.json C.daSigner.sender ∧
        signer ∈ sw.bid.allowedStores.elems ∧ ∃ account, C.chainSender sw.bid.creationTx = .ok account := by
  unfold validateWrite StoreWrite.Authentic Bid.Authentic Bid.Signed
  simp only [bind_eq_ok_iff, mapError_eq_ok_iff, ite_throw_eq_ok_iff, pure_eq_ok_iff, ne_eq, not_not,
    Bool.not_eq_true', Bool.not_eq_false, List.contains_iff_mem]
  constructor
  · rintro ⟨_, hid, rfl, bytes, hbytes, node, hsender, _, hnode, rfl, hstores, hallows, account, hchain, -⟩
    exact ⟨⟨hid, hallows⟩, ⟨bytes, node, hbytes, hsender, hnode⟩, hstores, account, hchain⟩
  · rintro ⟨⟨hid, hallows⟩, ⟨bytes, node, hbytes, hsender, hnode⟩, hstores, account, hchain⟩
    exact ⟨_, hid, rfl, bytes, hbytes, node, hsender, node, hnode, rfl, hstores, hallows, account, hchain, trivial⟩

/-- A message is taken in if it is signed properly, is not the engine's own, and all writes are valid. -/
theorem validateMessage_eq_true_iff {message : DAMessage} :
    C.validateMessage message = .ok true ↔
      ∃ node, message.SignedBy C.json C.daSigner.sender node ∧
        ¬ (message.storeUUID = C.storeUUID ∧ node ∈ C.localAddresses) ∧
        (∃ account, C.chainSender message.sourceTx = .ok account) ∧
        ∀ sw ∈ message.storeWrites.elems, C.validateWrite node sw = .ok () := by
  unfold validateMessage
  rw [bind_eq_ok_iff]
  apply exists_congr
  intro node
  rw [messageSigner_eq_ok_iff]
  apply and_congr_right
  intro _
  split_ifs with hown
  · simp [hown]
  · simp only [hown, not_false_eq_true, true_and, bind_eq_ok_iff, mapError_eq_ok_iff, forM_eq_ok_iff,
      pure_eq_ok_iff, and_true]
    constructor
    · rintro ⟨account, hchain, ⟨⟩, hwrites⟩
      exact ⟨⟨account, hchain⟩, hwrites⟩
    · rintro ⟨⟨account, hchain⟩, hwrites⟩
      exact ⟨account, hchain, (), hwrites⟩

/-- It is dropped if it is signed properly and the engine's own. -/
theorem validateMessage_eq_false_iff {message : DAMessage} :
    C.validateMessage message = .ok false ↔
      ∃ node, message.SignedBy C.json C.daSigner.sender node ∧
        message.storeUUID = C.storeUUID ∧ node ∈ C.localAddresses := by
  unfold validateMessage
  rw [bind_eq_ok_iff]
  apply exists_congr
  intro node
  rw [messageSigner_eq_ok_iff]
  apply and_congr_right
  intro _
  split_ifs with hown
  · simp [hown]
  · simp [hown]

theorem authentic_of_validateMessage {message : DAMessage} (h : C.validateMessage message = .ok true) :
    ∀ w ∈ message.storeWrites.elems, w.Authentic C.json := by
  obtain ⟨node, -, -, -, hwrites⟩ := validateMessage_eq_true_iff.mp h
  intro w hw
  exact (validateWrite_eq_ok_iff.mp (hwrites w hw)).1

end EngineConfig

end Suift
