import Suift.CStore.Equiv.Json
import Suift.CStore.Equiv.LocalStore
import Suift.CStore.Equiv.OwnMessages
import Suift.CStore.Equiv.TransactionalStore

/-!
# A node's own messages coming back

The transport delivers a message also to the node that published it.  The engine drops it if the signer
is among the addresses it has copied at construction.  The signing itself goes by the accounts of the
moment, so a message signed by an account that was added later is taken in like one from elsewhere, and
its writes are performed a second time (`storage_after_own_message_iff`).

A message that has to be coerced to UTF-8 on its way does not arrive with a valid signature.  That the
signature is over one of two texts and not over the other is assumed of these two texts only.
-/

namespace Suift

open WriteLog Stateful LocalConfidentialStore Json Text Fallible Rlp

/-! ### The text that is signed -/

/-- The signature does not recover to the same account for two different texts `data` and `data'`. -/
def BindsOn (sender : Bytes → Bytes → Except GoError Address) (signature data data' : Bytes) : Prop :=
  ∀ account, sender data signature = .ok account → sender data' signature = .ok account → data = data'

/-- The text that the signature of a message is over. -/
def DAMessage.signedText (C : Crypto) (E : EthCodec) (message : DAMessage) : Bytes :=
  signedMessage (print (messageJson C E { message with signature := [] }))

/-- The length in front of a text is part of the total length, so nothing can be shifted between the
two. -/
theorem signedMessage_inj {body body' : Bytes} (h : signedMessage body = signedMessage body') :
    body = body' := by
  have hmono : ∀ n m, n ≤ m → (decimal n).length ≤ (decimal m).length := by
    intro n m hnm
    have hlt : m < 10 ^ (decimal m).length := lt_pow_length_digits (by norm_num) m
    have hpos : (decimal m).length ≠ 0 := by
      intro hzero
      rw [hzero, pow_zero, Nat.lt_one_iff] at hlt
      subst hlt
      exact absurd hzero (by decide)
    obtain ⟨k, hk⟩ := Nat.exists_eq_succ_of_ne_zero hpos
    rw [hk] at hlt ⊢
    exact length_digits_le (by norm_num) (by omega)
  have hframe : decimal body.length ++ body = decimal body'.length ++ body' := by
    simpa only [signedMessage, List.append_assoc, List.cons_append, List.cons.injEq, true_and,
      List.append_cancel_left_eq] using h
  have htotal : (decimal body.length).length + body.length =
      (decimal body'.length).length + body'.length := by
    simpa only [List.length_append] using congrArg List.length hframe
  have hlength : body.length = body'.length := by
    rcases le_total body.length body'.length with hle | hle
    · have := hmono _ _ hle
      omega
    · have := hmono _ _ hle
      omega
  rw [hlength] at hframe
  exact List.append_cancel_left hframe

/-- The signature itself is not part of what is signed. -/
theorem DAMessage.valid_of_signedText_coerced_eq {C : Crypto} {E : EthCodec} {message : DAMessage}
    (h : message.coerced.signedText C E = message.signedText C E) : message.Valid := by
  have hvalid : DAMessage.Valid { message with signature := [] } :=
    print_messageJson_coerced_eq_iff.mp (signedMessage_inj h)
  exact hvalid

/-- The message that arrives is signed by the same node only if it is encoded as the one that was sent. -/
theorem DAMessage.SignedBy.valid_of_coerced {C : Crypto} {E : EthCodec} {newSHA1 : UUID → Bytes → UUID}
    {sender : Bytes → Bytes → Except GoError Address} {message : DAMessage} {node node' : Address}
    (hbinding : BindsOn sender message.signature (message.signedText C E)
      (message.coerced.signedText C E))
    (h : message.SignedBy (jsonEncoding C E newSHA1) sender node)
    (h' : message.coerced.SignedBy (jsonEncoding C E newSHA1) sender node') : message.Valid := by
  obtain ⟨bytes, hbytes, hsender, hnode⟩ := h
  obtain ⟨bytes', hbytes', hsender', hnode'⟩ := h'
  obtain rfl : node = node' := Except.ok.inj (hnode.symm.trans hnode')
  obtain rfl : message.signedText C E = bytes := Except.ok.inj hbytes
  obtain rfl : message.coerced.signedText C E = bytes' := Except.ok.inj hbytes'
  exact valid_of_signedText_coerced_eq (hbinding node hsender hsender').symm

theorem DAMessage.Published.confidential {S : EngineSetup} {known : Set BidId} {message : DAMessage}
    (h : message.Published S known) : message.Confidential where
  sourceTx := by
    obtain ⟨node, _, -, -, hnode⟩ := h.signed
    exact ⟨node, hnode⟩
  creationTx w hw := by
    obtain ⟨-, ⟨_, node, -, -, hnode⟩, -⟩ := h.writes w hw
    exact ⟨node, hnode⟩

/-! ### The values of a storage -/

/-- `value` is all that a write can change: to perform writes changes nothing exactly if every key holds
the last value that is written to it. -/
def AtomicBackend.Observes {σ : Type} {B : ConfidentialStorageBackend σ} (A : AtomicBackend B)
    (value : σ → BidId × GoString → Option Bytes) : Prop :=
  ∀ s writes, A.insertValues s writes = s ↔
    ∀ k v, (writesTo (entries writes) k).getLast? = some v → value s k = some v

theorem LocalConfidentialStore.observes_value : atomic.Observes value := fun _ _ =>
  insertValues_eq_self_iff

namespace ManagedNode

section

variable {σ : Type} {B : ConfidentialStorageBackend σ} {A : AtomicBackend B} {S : EngineSetup}
  {as : List (ManagedAction S)} {n : ManagedNode S σ} {message : DAMessage} {signer : Address}

/-- A published message is signed by the execution node of its transaction. -/
theorem signedBy_of_published {known : Set BidId} (hpublished : message.Published S known)
    (hsigner : executionNodeFromTransaction message.sourceTx = .ok signer) :
    message.SignedBy S.json S.sender signer := by
  obtain ⟨node, hnode⟩ := hpublished.signed
  obtain rfl : node = signer := by
    obtain ⟨_, -, -, hexecution⟩ := hnode
    exact Except.ok.inj (hexecution.symm.trans hsigner)
  exact hnode

/-- A message that arrives coerced is refused. -/
theorem validateMessage_coerced_ne {known : Set BidId} (hpublished : message.Published S known) {C : Crypto}
    {E : EthCodec} {newSHA1 : UUID → Bytes → UUID} (hjson : S.json = jsonEncoding C E newSHA1)
    (hbinding : BindsOn S.sender message.signature (message.signedText C E) (message.coerced.signedText C E))
    (hinvalid : ¬ message.Valid) (manager : AccountManager S.sender) :
    (S.config manager).validateMessage message.coerced ≠ .ok true := by
  intro hok
  obtain ⟨node, hnode⟩ := hpublished.signed
  obtain ⟨node', hnode', -⟩ := EngineConfig.validateMessage_eq_true_iff.mp hok
  replace hnode' : message.coerced.SignedBy S.json S.sender node' := hnode'
  rw [hjson] at hnode hnode'
  exact hinvalid (DAMessage.SignedBy.valid_of_coerced hbinding hnode hnode')

/-- The message as it was published, delivered back. -/
theorem storage_after_newMessage_iff (hA : ∀ w, A.refuses w = none)
    {value : σ → BidId × GoString → Option Bytes} (hvalue : A.Observes value)
    (hpublished : message.Published S { id | (A.bids n.node.engine.storage id).isSome })
    (hsigner : executionNodeFromTransaction message.sourceTx = .ok signer) :
    (after ((n.engine B).newMessage message) n.node.engine).storage = n.node.engine.storage ↔
      signer ∈ S.manager.accounts ∨ ¬ message.Admissible S signer ∨
        ∀ k v, (writesTo (entries message.storeWrites.elems) k).getLast? = some v →
          value n.node.engine.storage k = some v := by
  have hvalid := hpublished.validateMessage_eq_true_iff (S.agrees_config n.manager)
    (signedBy_of_published hpublished hsigner)
  have hown : S.storeUUID = (S.config n.manager).storeUUID ∧ signer ∈ (S.config n.manager).localAddresses ↔
      signer ∈ S.manager.accounts := and_iff_right rfl
  rw [hown] at hvalid
  unfold ManagedNode.engine
  by_cases h : (S.config n.manager).validateMessage message = .ok true
  · -- the bids are known, so that only values are written
    obtain ⟨hforeign, hadmissible⟩ := hvalid.mp h
    have hknown : ∀ w ∈ message.storeWrites.elems,
        (A.bids n.node.engine.storage w.bid.id).isSome := fun w hw => (hpublished.writes w hw).2.2
    rw [ConfidentialStoreEngine.after_newMessage_of_valid A hA h]
    show A.takeWrites n.node.engine.storage message.storeWrites.elems = _ ↔ _
    rw [A.takeWrites_eq_insertValues hknown, hvalue]
    simp only [hforeign, hadmissible, not_true_eq_false, false_or]
  · rw [ConfidentialStoreEngine.after_newMessage_of_not_valid A hA h]
    have hrefused : signer ∈ S.manager.accounts ∨ ¬ message.Admissible S signer := by
      by_contra hcontra
      rw [not_or, not_not] at hcontra
      exact h (hvalid.mpr hcontra)
    simp only [true_iff]
    exact hrefused.imp_right .inl

/-- **The node's own message, delivered back**, to a node on any storage that takes every write.  It leaves
the storage unchanged exactly if its signer was an account when the engine was made, or the engine refuses
it, or everything it writes is still there.  If it comes by way of the transport, the engine also refuses it
if one of its strings is not UTF-8. -/
theorem storage_after_own_message_iff (hA : ∀ w, A.refuses w = none)
    {value : σ → BidId × GoString → Option Bytes} (hvalue : A.Observes value) {s : σ}
    (hempty : ∀ id, A.bids s id = none) (hrun : (init S s).run B as = some n)
    (hm : message ∈ n.node.engine.published)
    (hsigner : executionNodeFromTransaction message.sourceTx = .ok signer) :
    ((after ((n.engine B).newMessage message) n.node.engine).storage = n.node.engine.storage ↔
      signer ∈ S.manager.accounts ∨ ¬ message.Admissible S signer ∨
        ∀ k v, (writesTo (entries message.storeWrites.elems) k).getLast? = some v →
          value n.node.engine.storage k = some v) ∧
    ∀ C E newSHA1 message', subscribe E (publish C E message) = some message' →
      (¬ message.Valid → S.json = jsonEncoding C E newSHA1 ∧
        BindsOn S.sender message.signature (message.signedText C E) (message.coerced.signedText C E)) →
      ((after ((n.engine B).newMessage message') n.node.engine).storage = n.node.engine.storage ↔
        signer ∈ S.manager.accounts ∨ ¬ message.Admissible S signer ∨ ¬ message.Valid ∨
          ∀ k v, (writesTo (entries message.storeWrites.elems) k).getLast? = some v →
            value n.node.engine.storage k = some v) := by
  have hpublished := (honest_of_run hA (Node.honest_init hempty) hrun).published message hm
  have hdirect := storage_after_newMessage_iff hA hvalue hpublished hsigner
  refine ⟨hdirect, ?_⟩
  intro C E newSHA1 message' hread hbinds
  obtain ⟨-, rfl⟩ := (subscribe_publish_eq_some_iff hpublished.confidential).mp hread
  by_cases hutf8 : message.Valid
  · rw [DAMessage.coerced_of_valid hutf8, hdirect]
    simp only [hutf8, not_true_eq_false, false_or]
  · obtain ⟨hjson, hbinding⟩ := hbinds hutf8
    have hrefused := validateMessage_coerced_ne hpublished hjson hbinding hutf8 n.manager
    unfold ManagedNode.engine
    rw [ConfidentialStoreEngine.after_newMessage_of_not_valid A hA hrefused]
    simp only [hutf8, not_false_eq_true, true_or, or_true]

end

variable {S : EngineSetup} {as : List (ManagedAction S)} {n : ManagedNode S LocalConfidentialStore}

theorem honest_of_run_empty (hrun : (init S empty).run backend as = some n) : n.node.Honest atomic S :=
  honest_of_run (fun _ => rfl) (Node.honest_init fun _ => rfl) hrun

/-! ### An account that is added after construction -/

theorem jsonSafe_mockRequest : JsonSafe (some mockRequest) := by
  refine ⟨?_, by decide +kernel⟩
  unfold ConfidentialComputeRecord.Fits
  decide +kernel

theorem executionNode_mockRequest :
    executionNodeFromTransaction (some mockRequest) = .ok (SuaveSigner.sampleAddress 2) := by
  decide +kernel

def lateManager : AccountManager ideal := idealManager [SuaveSigner.sampleAddress 2]

/-- The public bid as the engine completes it when the account is there. -/
def lateBid : Bid :=
  match (mockSetup.config lateManager).initializeBid TransactionalStore.publicBid (some mockRequest) with
  | .ok bid => bid
  | .error _ => emptyBid

/-- The account is added; then one transaction creates the bid and stores `1`, and a second one
overwrites that with `2`. -/
def lateRun : List (ManagedAction mockSetup) :=
  [.setManager lateManager,
    .node (.newTransactionalStore (some mockRequest)),
    .node (.apply 0 (.initializeBid TransactionalStore.publicBid)),
    .node (.apply 0 (.store lateBid.id 0 [] [1])),
    .node (.finalize 0 [lateBid]),
    .node (.newTransactionalStore (some mockRequest)),
    .node (.apply 1 (.store lateBid.id 0 [] [2])),
    .node (.finalize 1 [])]

theorem isSome_run_lateRun : ((init mockSetup empty).run backend lateRun).isSome := by decide +kernel

/-- The node after that. -/
def lateNode : ManagedNode mockSetup LocalConfidentialStore :=
  ((init mockSetup empty).run backend lateRun).get isSome_run_lateRun

/-- The message of the first transaction. -/
def lateMessage : DAMessage := lateNode.node.engine.published.headD emptyMessage

theorem run_lateRun : (init mockSetup empty).run backend lateRun = some lateNode :=
  (Option.some_get isSome_run_lateRun).symm

/-- The message, the value that the node holds, and the value after the message has come back. -/
theorem lateNode_spec :
    lateMessage ∈ lateNode.node.engine.published ∧
      (lateMessage.sourceTx = some mockRequest ∧
        ∀ w ∈ lateMessage.storeWrites.elems, w.bid.creationTx = some mockRequest ∧
          Utf8.Valid w.key ∧ Utf8.Valid w.bid.version) ∧
      lateNode.node.engine.storage.value (lateBid.id, []) = some [2] ∧
      (after ((lateNode.engine backend).newMessage lateMessage) lateNode.node.engine).storage.value
        (lateBid.id, []) = some [1] := by
  decide +kernel

theorem subscribe_publish_lateMessage :
    subscribe mockCodec (publish SuaveSigner.sampleCrypto mockCodec lateMessage) = some lateMessage := by
  obtain ⟨-, ⟨hsource, hwrites⟩, -⟩ := lateNode_spec
  apply subscribe_publish_of_valid
  · constructor
    · rw [hsource]
      exact jsonSafe_mockRequest
    · intro w hw
      rw [(hwrites w hw).1]
      exact jsonSafe_mockRequest
  · exact fun w hw => (hwrites w hw).2

theorem storage_after_own_message_iff_lateMessage :
    subscribe mockCodec (publish SuaveSigner.sampleCrypto mockCodec lateMessage) = some lateMessage ∧
      ((after ((lateNode.engine backend).newMessage lateMessage) lateNode.node.engine).storage =
          lateNode.node.engine.storage ↔
        SuaveSigner.sampleAddress 2 ∈ mockSetup.manager.accounts ∨
          ¬ lateMessage.Admissible mockSetup (SuaveSigner.sampleAddress 2) ∨ ¬ lateMessage.Valid ∨
          ∀ k v, (writesTo (entries lateMessage.storeWrites.elems) k).getLast? = some v →
            lateNode.node.engine.storage.value k = some v) := by
  have hsigner : executionNodeFromTransaction lateMessage.sourceTx = .ok (SuaveSigner.sampleAddress 2) := by
    rw [lateNode_spec.2.1.1, executionNode_mockRequest]
  have hvalid : lateMessage.Valid := fun w hw => (lateNode_spec.2.1.2 w hw).2
  refine ⟨subscribe_publish_lateMessage, ?_⟩
  exact (storage_after_own_message_iff (fun _ => rfl) observes_value (fun _ => rfl) run_lateRun
    lateNode_spec.1 hsigner).2 _ _ mockEncoding.newSHA1 _ subscribe_publish_lateMessage
      fun hinvalid => absurd hvalid hinvalid

/-- The node's own message passes through the transport unchanged and is taken in again: the value of
the second transaction is replaced by that of the first. -/
theorem own_message_taken_in_again :
    (init mockSetup empty).run backend lateRun = some lateNode ∧
      lateMessage ∈ lateNode.node.engine.published ∧
      subscribe mockCodec (publish SuaveSigner.sampleCrypto mockCodec lateMessage) = some lateMessage ∧
      lateNode.node.engine.storage.value (lateBid.id, []) = some [2] ∧
      (after ((lateNode.engine backend).newMessage lateMessage) lateNode.node.engine).storage.value
        (lateBid.id, []) = some [1] := by
  obtain ⟨hpublished, -, hvalues⟩ := lateNode_spec
  exact ⟨run_lateRun, hpublished, subscribe_publish_lateMessage, hvalues⟩

end ManagedNode

end Suift
