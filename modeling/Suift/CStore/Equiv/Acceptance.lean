import Suift.CStore.Equiv.Json
import Suift.CStore.Equiv.Redelivery

/-!
# Published messages at other nodes

A message is signed over its JSON, is sent as JSON, and is encoded again where it arrives in order to
check the signature.  Strings that are not UTF-8 do not survive this: they are written with an escape
for the replacement character, read as that character, and then written as the character itself.  So a
key or a version that is not UTF-8 spoils the signature of the whole message.  Nor does a transaction
survive that JSON cannot carry.  All other messages of an honest node are accepted, as far as the bids in
it come from signed transactions (`accepted_iff`).

That the signature is over one of two texts and not over the other is assumed of these two texts only, and
only where a message is said to be refused.
-/

namespace Suift

open WriteLog Stateful LocalConfidentialStore Json Text Fallible Rlp

namespace ManagedNode

variable {S : EngineSetup} {as : List (ManagedAction S)} {n : ManagedNode S LocalConfidentialStore}

/-- **A published message at another node.**  It is sent, read and taken in, with each value under the
same bid and key, if all its strings are UTF-8, its transactions come back from JSON, and the bids it
writes on come from signed transactions.  It is not taken in otherwise, unless its signature happens to
recover to the signer for the text that arrives as well. -/
theorem accepted_iff {C : Crypto} {E : EthCodec} {newSHA1 : UUID → Bytes → UUID}
    (hjson : S.json = jsonEncoding C E newSHA1)
    (hrun : (init S empty).run backend as = some n) {message : DAMessage}
    (hm : message ∈ n.node.engine.published) {signer : Address}
    (hsigner : executionNodeFromTransaction message.sourceTx = .ok signer)
    (hstores : ∀ w ∈ message.storeWrites.elems, signer ∈ w.bid.allowedStores.elems)
    {peer : EngineConfig} (hpeer : S.Agrees peer) (huuid : S.storeUUID ≠ peer.storeUUID)
    (st : EngineState LocalConfidentialStore) :
    (message.Valid ∧ message.JsonSafe ∧
        (∀ w ∈ message.storeWrites.elems, ∃ account, S.chainSender w.bid.creationTx = .ok account) →
      ∃ message' st', subscribe E (publish C E message) = some message' ∧
        ((peer.engine backend).newMessage message').run st = .ok () st' ∧
        ∀ k v, (writesTo (entries message.storeWrites.elems) k).getLast? = some v →
          st'.storage.value k = some v) ∧
    (BindsOn S.sender message.signature (message.signedText C E) (message.coerced.signedText C E) →
      (∃ message' st', subscribe E (publish C E message) = some message' ∧
        ((peer.engine backend).newMessage message').run st = .ok () st') →
      message.Valid ∧ message.JsonSafe ∧
        ∀ w ∈ message.storeWrites.elems, ∃ account, S.chainSender w.bid.creationTx = .ok account) := by
  have hpublished := (honest_of_run_empty hrun).published message hm
  have hnode := signedBy_of_published hpublished hsigner
  have hforeign : ¬ (S.storeUUID = peer.storeUUID ∧ signer ∈ peer.localAddresses) := fun h => huuid h.1
  have hvalidate := hpublished.validateMessage_eq_true_iff hpeer hnode
  constructor
  · rintro ⟨hvalid, hsafe, hchain⟩
    have hadmissible : message.Admissible S signer := fun w hw => ⟨hstores w hw, hchain w hw⟩
    have hok := hvalidate.mpr ⟨hforeign, hadmissible⟩
    have hrun' : ((peer.engine backend).newMessage message).run st = _ :=
      ConfidentialStoreEngine.run_newMessage atomic (fun _ => rfl) message
    rw [hok] at hrun'
    refine ⟨message, _, subscribe_publish_of_valid hsafe hvalid, hrun', ?_⟩
    intro k v hv
    show (atomic.takeWrites st.storage message.storeWrites.elems).value k = some v
    rw [value_takeWrites, replay_apply, hv, Option.some_or]
  · rintro hbinding ⟨message', st', hread, hrun'⟩
    obtain ⟨hsafe, rfl⟩ := (subscribe_publish_eq_some_iff hpublished.confidential).mp hread
    -- whether it is taken in or dropped, the signature has been found right
    have harrived : ∃ node', message.coerced.SignedBy S.json S.sender node' := by
      rw [← hpeer.json, ← hpeer.sender]
      obtain ⟨proceed, hres⟩ := ConfidentialStoreEngine.exists_validateMessage_eq_ok hrun'
      cases proceed with
      | true =>
        obtain ⟨node', hnode', -⟩ := EngineConfig.validateMessage_eq_true_iff.mp hres
        exact ⟨node', hnode'⟩
      | false =>
        obtain ⟨node', hnode', -⟩ := EngineConfig.validateMessage_eq_false_iff.mp hres
        exact ⟨node', hnode'⟩
    obtain ⟨node', hnode'⟩ := harrived
    have hvalid : message.Valid :=
      DAMessage.SignedBy.valid_of_coerced hbinding (hjson ▸ hnode) (hjson ▸ hnode')
    rw [DAMessage.coerced_of_valid hvalid] at hrun'
    refine ⟨hvalid, hsafe, ?_⟩
    obtain ⟨proceed, hres⟩ := ConfidentialStoreEngine.exists_validateMessage_eq_ok hrun'
    cases proceed with
    | true =>
      obtain ⟨-, hadmissible⟩ := hvalidate.mp hres
      exact fun w hw => (hadmissible w hw).2
    | false =>
      -- it cannot be dropped: the other engine has another UUID
      obtain ⟨_, -, hsame, -⟩ := EngineConfig.validateMessage_eq_false_iff.mp hres
      exact absurd (hpublished.storeUUID ▸ hsame) huuid

/-! ### One value under a key -/

/-- A transaction that creates a bid and stores a value under it ends with one published message. -/
theorem exists_run_store {tx : Option Transaction} {rawBid : InnerBid} {bid : Bid} {caller : Address}
    {key : GoString} {value : Bytes} {message : DAMessage}
    (hbid : (S.config S.manager).initializeBid rawBid tx = .ok bid) (hallows : bid.allows caller)
    (hmessage : (S.config S.manager).signMessage tx (some [⟨bid, caller, key, value⟩]) = .ok message) :
    ∃ n, (init S empty).run backend
        [.node (.newTransactionalStore tx), .node (.apply 0 (.initializeBid rawBid)),
          .node (.apply 0 (.store bid.id caller key value)), .node (.finalize 0 [bid])] = some n ∧
      n.node.engine.published = [message] := by
  have hnew : bid.id ∉ (TransactionalStore.new tx).pendingBids.map Bid.id := List.not_mem_nil
  have hcreate : (TransactionalStore.new tx).apply ((S.config S.manager).engine backend) empty
      (.initializeBid rawBid) = .ok ((TransactionalStore.new tx).addBid bid hnew) :=
    TransactionalStore.apply_initializeBid_eq_ok_iff.mpr ⟨bid, hnew, hbid, rfl⟩
  have hfetch : ((TransactionalStore.new tx).addBid bid hnew).fetchBidById
      ((S.config S.manager).engine backend) empty bid.id = .ok bid := by
    simp [TransactionalStore.fetchBidById, TransactionalStore.pendingBid, TransactionalStore.addBid,
      TransactionalStore.new]
  have hstore : ((TransactionalStore.new tx).addBid bid hnew).apply
      ((S.config S.manager).engine backend) empty (.store bid.id caller key value) =
        .ok (((TransactionalStore.new tx).addBid bid hnew).addWrite ⟨bid, caller, key, value⟩) :=
    TransactionalStore.apply_store_eq_ok_iff.mpr ⟨bid, hfetch, hallows, rfl⟩
  have hfresh : atomic.Fresh empty [bid] := ⟨List.nodup_singleton _, fun _ _ => rfl⟩
  have hfinalize : (((S.config S.manager).engine backend).finalize tx [bid]
      (some [⟨bid, caller, key, value⟩])).run ⟨empty, []⟩ = _ :=
    (ConfidentialStoreEngine.finalize_eq_ok_iff atomic).mpr
      ⟨message, hfresh, fun _ _ => rfl, hmessage, rfl⟩
  have hperm : [bid].Perm (((TransactionalStore.new tx).addBid bid hnew).addWrite
      ⟨bid, caller, key, value⟩).pendingBids := List.Perm.refl _
  simp only [run, step, engine, init, Node.init, Node.step, List.nil_append, List.getElem?_cons_zero,
    Option.map_some, hcreate, hstore, Option.bind_some, List.set_cons_zero]
  rw [if_pos hperm]
  exact ⟨_, rfl, congrArg EngineState.published (after_of_ok hfinalize)⟩

/-- A node that signs for one account, and encodes as JSON. -/
def jsonSetup : EngineSetup := { mockSetup with json := mockJsonConfig.json, manager := lateManager }

/-- Another node's engine. -/
def jsonPeer : EngineConfig := { jsonSetup.config lateManager with storeUUID := 2 }

def jsonBid : Bid :=
  match (jsonSetup.config lateManager).initializeBid TransactionalStore.publicBid (some mockRequest) with
  | .ok bid => bid
  | .error _ => emptyBid

/-- A transaction that creates the public bid and stores `1` under the key. -/
def jsonRun (key : GoString) : List (ManagedAction jsonSetup) :=
  [.node (.newTransactionalStore (some mockRequest)),
    .node (.apply 0 (.initializeBid TransactionalStore.publicBid)),
    .node (.apply 0 (.store jsonBid.id 0 key [1])),
    .node (.finalize 0 [jsonBid])]

def jsonNode (key : GoString) : ManagedNode jsonSetup LocalConfidentialStore :=
  ((init jsonSetup empty).run backend (jsonRun key)).getD (init jsonSetup empty)

def jsonMessage (key : GoString) : DAMessage := (jsonNode key).node.engine.published.headD emptyMessage

theorem sign_jsonSetup (data : Bytes) :
    (jsonSetup.config lateManager).daSigner.sign (SuaveSigner.sampleAddress 2) data =
      .ok (bigEndian 20 (SuaveSigner.sampleAddress 2).toNat ++ data) := by
  have hmem : SuaveSigner.sampleAddress 2 ∈ [SuaveSigner.sampleAddress 2] := List.mem_singleton_self _
  exact (jsonSetup.sign_config lateManager _ data).trans (sign_idealManager hmem data)

theorem initializeBid_jsonBid :
    (jsonSetup.config lateManager).initializeBid TransactionalStore.publicBid (some mockRequest) =
        .ok jsonBid ∧
      jsonBid.allowedPeekers = some [allowedPeekerAny] ∧
      jsonBid.allowedStores = some [SuaveSigner.sampleAddress 2] ∧
      jsonBid.creationTx = some mockRequest ∧ jsonBid.version = [] := by
  have hbid : ∃ bid, (jsonSetup.config lateManager).initializeBid TransactionalStore.publicBid
      (some mockRequest) = .ok bid ∧ bid.allowedPeekers = some [allowedPeekerAny] ∧
        bid.allowedStores = some [SuaveSigner.sampleAddress 2] ∧
        bid.creationTx = some mockRequest ∧ bid.version = [] := by
    have hempty : TransactionalStore.publicBid.id = emptyId := rfl
    unfold EngineConfig.initializeBid
    simp only [bind_eq_ok_iff, mapError_eq_ok_iff, ite_throw_eq_ok_iff, pure_eq_ok_iff]
    exact ⟨_, ⟨_, rfl, fun h => h.1 hempty, _, rfl, _, executionNode_mockRequest, _, sign_jsonSetup _,
      rfl⟩, rfl, rfl, rfl, rfl⟩
  obtain ⟨bid, hinit, hfields⟩ := hbid
  obtain rfl : jsonBid = bid := by
    unfold jsonBid
    rw [hinit]
  exact ⟨hinit, hfields⟩

theorem chainSender_mockRequest :
    jsonSetup.chainSender (some mockRequest) = .ok (SuaveSigner.sampleAddress 1) := by
  decide +kernel

/-- The message that is signed for the writes. -/
theorem signMessage_jsonSetup (stores : Slice StoreWrite) :
    ∃ message, (jsonSetup.config lateManager).signMessage (some mockRequest) stores = .ok message ∧
      message.sourceTx = some mockRequest ∧ message.storeWrites = stores ∧
      message.signature = bigEndian 20 (SuaveSigner.sampleAddress 2).toNat ++
        message.signedText SuaveSigner.sampleCrypto mockCodec := by
  have hchain := chainSender_mockRequest
  rw [← jsonSetup.chainSender_config lateManager] at hchain
  unfold EngineConfig.signMessage
  simp only [bind_eq_ok_iff, mapError_eq_ok_iff, pure_eq_ok_iff]
  exact ⟨_, ⟨_, hchain, _, rfl, _, executionNode_mockRequest, _, sign_jsonSetup _, rfl⟩,
    rfl, rfl, rfl⟩

/-- The transaction publishes one message. -/
theorem run_jsonRun (key : GoString) :
    (init jsonSetup empty).run backend (jsonRun key) = some (jsonNode key) ∧
      (jsonNode key).node.engine.published = [jsonMessage key] ∧
      (jsonSetup.config lateManager).signMessage (some mockRequest)
        (some [⟨jsonBid, 0, key, [1]⟩]) = .ok (jsonMessage key) := by
  obtain ⟨hinit, hpeekers, -⟩ := initializeBid_jsonBid
  obtain ⟨message, hsign, -⟩ := signMessage_jsonSetup (some [⟨jsonBid, 0, key, [1]⟩])
  have hallows : jsonBid.allows 0 := by
    unfold Bid.allows
    rw [hpeekers]
    rfl
  obtain ⟨n, hrun, hpublished⟩ := exists_run_store (S := jsonSetup) hinit hallows hsign
  have hnode : jsonNode key = n := by
    unfold jsonNode jsonRun
    rw [hrun, Option.getD_some]
  have hmessage : jsonMessage key = message := by
    rw [jsonMessage, hnode, hpublished, List.headD_cons]
  rw [hnode, hmessage]
  exact ⟨hrun, hpublished, hsign⟩

theorem mem_published_jsonNode (key : GoString) : jsonMessage key ∈ (jsonNode key).node.engine.published := by
  rw [(run_jsonRun key).2.1]
  exact List.mem_singleton_self _

theorem jsonMessage_spec (key : GoString) :
    (jsonMessage key).sourceTx = some mockRequest ∧
      (jsonMessage key).storeWrites = some [⟨jsonBid, 0, key, [1]⟩] ∧
      (jsonMessage key).signature = bigEndian 20 (SuaveSigner.sampleAddress 2).toNat ++
        (jsonMessage key).signedText SuaveSigner.sampleCrypto mockCodec := by
  obtain ⟨message, hsign, hfields⟩ := signMessage_jsonSetup (some [⟨jsonBid, 0, key, [1]⟩])
  obtain rfl : jsonMessage key = message := Except.ok.inj ((run_jsonRun key).2.2.symm.trans hsign)
  exact hfields

theorem eq_of_mem_jsonMessage {key : GoString} {w : StoreWrite}
    (hw : w ∈ (jsonMessage key).storeWrites.elems) : w = ⟨jsonBid, 0, key, [1]⟩ := by
  rw [(jsonMessage_spec key).2.1] at hw
  exact List.mem_singleton.mp hw

theorem jsonSafe_jsonMessage (key : GoString) : (jsonMessage key).JsonSafe := by
  constructor
  · rw [(jsonMessage_spec key).1]
    exact jsonSafe_mockRequest
  · intro w hw
    rw [eq_of_mem_jsonMessage hw, initializeBid_jsonBid.2.2.2.1]
    exact jsonSafe_mockRequest

theorem mem_allowedStores_jsonMessage (key : GoString) :
    ∀ w ∈ (jsonMessage key).storeWrites.elems,
      SuaveSigner.sampleAddress 2 ∈ w.bid.allowedStores.elems := by
  intro w hw
  rw [eq_of_mem_jsonMessage hw, initializeBid_jsonBid.2.2.1]
  exact List.mem_singleton_self _

theorem agrees_jsonPeer : jsonSetup.Agrees jsonPeer where
  json := rfl
  sender := rfl
  chainSender := rfl

/-- A signature of the mock node recovers to its account for what it was made for only. -/
theorem bindsOn_ideal {account : Address} (haccount : account ≠ 0) (data data' : Bytes) :
    BindsOn ideal (bigEndian 20 account.toNat ++ data) data data' := by
  intro node hnode hnode'
  by_contra hne
  rw [ideal_append] at hnode
  rw [ideal_of_ne account hne] at hnode'
  exact haccount (Except.ok.inj (hnode.trans hnode'.symm))

theorem executionNode_jsonMessage (key : GoString) :
    executionNodeFromTransaction (jsonMessage key).sourceTx = .ok (SuaveSigner.sampleAddress 2) := by
  rw [(jsonMessage_spec key).1, executionNode_mockRequest]

theorem not_valid_jsonMessage : ¬ (jsonMessage [0xff]).Valid := by
  have hmem : (⟨jsonBid, 0, [0xff], [1]⟩ : StoreWrite) ∈ (jsonMessage [0xff]).storeWrites.elems := by
    rw [(jsonMessage_spec [0xff]).2.1]
    exact List.mem_singleton_self _
  have hkey : ¬ Utf8.Valid [0xff] := by decide
  exact fun hvalid => hkey (hvalid _ hmem).1

/-- The value under the key "a" arrives at the other node, and the one under a key that is not UTF-8 does
not. -/
theorem accepted_jsonMessage :
    (∃ message' st', subscribe mockCodec
        (publish SuaveSigner.sampleCrypto mockCodec (jsonMessage [97])) = some message' ∧
      ((jsonPeer.engine backend).newMessage message').run ⟨empty, []⟩ = .ok () st' ∧
      ∀ k v, (writesTo (entries (jsonMessage [97]).storeWrites.elems) k).getLast? = some v →
        st'.storage.value k = some v) ∧
    ¬ ∃ message' st', subscribe mockCodec
        (publish SuaveSigner.sampleCrypto mockCodec (jsonMessage [0xff])) = some message' ∧
      ((jsonPeer.engine backend).newMessage message').run ⟨empty, []⟩ = .ok () st' := by
  constructor
  · refine (accepted_iff rfl (run_jsonRun [97]).1 (mem_published_jsonNode [97])
      (executionNode_jsonMessage [97]) (mem_allowedStores_jsonMessage [97]) agrees_jsonPeer (by decide)
      ⟨empty, []⟩).1 ⟨?_, jsonSafe_jsonMessage [97], ?_⟩
    · intro w hw
      rw [eq_of_mem_jsonMessage hw, initializeBid_jsonBid.2.2.2.2]
      decide
    · intro w hw
      rw [eq_of_mem_jsonMessage hw, initializeBid_jsonBid.2.2.2.1]
      exact ⟨_, chainSender_mockRequest⟩
  · intro haccepted
    refine not_valid_jsonMessage ((accepted_iff rfl (run_jsonRun [0xff]).1 (mem_published_jsonNode [0xff])
      (executionNode_jsonMessage [0xff]) (mem_allowedStores_jsonMessage [0xff]) agrees_jsonPeer (by decide)
      ⟨empty, []⟩).2 ?_ haccepted).1
    rw [(jsonMessage_spec [0xff]).2.2]
    exact bindsOn_ideal (by decide +kernel) _ _

/-- What arrives is another text than the one that was signed, and its signature recovers to another
account. -/
theorem validateMessage_coerced_of_not_valid {account : Address} {message : DAMessage}
    (hsource : message.sourceTx = some mockRequest)
    (hsignature : message.signature = bigEndian 20 account.toNat ++
      message.signedText SuaveSigner.sampleCrypto mockCodec)
    (hvalid : ¬ message.Valid) :
    jsonPeer.validateMessage message.coerced =
      .error (.error (ascii "confidential engine: message signer " ++ hexAddress 0 ++
        ascii ", expected " ++ hexAddress (SuaveSigner.sampleAddress 2)) none) := by
  have hne : message.signedText SuaveSigner.sampleCrypto mockCodec ≠
      message.coerced.signedText SuaveSigner.sampleCrypto mockCodec :=
    fun h => hvalid (DAMessage.valid_of_signedText_coerced_eq h.symm)
  have hsender := ideal_of_ne account hne
  rw [← hsignature] at hsender
  have hnode : executionNodeFromTransaction message.coerced.sourceTx =
      .ok (SuaveSigner.sampleAddress 2) := by
    rw [show message.coerced.sourceTx = message.sourceTx from rfl, hsource, executionNode_mockRequest]
  exact EngineConfig.validateMessage_eq_error_of_sender_ne rfl hsender hnode (by decide +kernel)

/-- A message with a key that is not UTF-8 is read by the other node, and its signature is found to be
wrong. -/
theorem not_accepted_jsonMessage :
    (init jsonSetup empty).run backend (jsonRun [0xff]) = some (jsonNode [0xff]) ∧
      jsonMessage [0xff] ∈ (jsonNode [0xff]).node.engine.published ∧
      (∀ w ∈ (jsonMessage [0xff]).storeWrites.elems,
        SuaveSigner.sampleAddress 2 ∈ w.bid.allowedStores.elems) ∧
      subscribe mockCodec (publish SuaveSigner.sampleCrypto mockCodec (jsonMessage [0xff])) =
        some (jsonMessage [0xff]).coerced ∧
      ((jsonPeer.engine backend).newMessage (jsonMessage [0xff]).coerced).run ⟨empty, []⟩ =
        .error (.error (ascii "confidential engine: message signer " ++ hexAddress 0 ++
          ascii ", expected " ++ hexAddress (SuaveSigner.sampleAddress 2)) none) ⟨empty, []⟩ := by
  have hpublished := (honest_of_run_empty (run_jsonRun [0xff]).1).published _ (mem_published_jsonNode [0xff])
  refine ⟨(run_jsonRun [0xff]).1, mem_published_jsonNode [0xff], mem_allowedStores_jsonMessage [0xff],
    (subscribe_publish_eq_some_iff hpublished.confidential).mpr ⟨jsonSafe_jsonMessage [0xff], rfl⟩, ?_⟩
  obtain ⟨hsource, -, hsignature⟩ := jsonMessage_spec [0xff]
  rw [ConfidentialStoreEngine.run_newMessage atomic fun _ => rfl,
    validateMessage_coerced_of_not_valid hsource hsignature not_valid_jsonMessage]

end ManagedNode

end Suift
