import Suift.CStore.AccountManager
import Suift.CStore.Equiv.Growth

/-!
# The messages a node publishes

In every run of a node, whatever its accounts do: each bid in the storage or in a transaction carries a
signature of the execution node of the transaction that created it, and each published message one of
the execution node of its source transaction (`ManagedNode.honest_of_run`).  What an engine with the
same signers then makes of such a message depends on three things: whether it takes it for its own,
whether the bids list the signing node among their stores, and whether their creation transactions are
signed (`DAMessage.Published.validateMessage_eq_true_iff`).
-/

namespace Suift

open Stateful Fallible

/-! ### Where bids and messages come from -/

section Provenance

variable {σ : Type} {B : ConfidentialStorageBackend σ} {A : AtomicBackend B} {C : EngineConfig}
  {t : TransactionalStore} {order : List Bid} {st : EngineState σ}

theorem AtomicBackend.mem_of_bids_insertBids {s : σ} {bids : List Bid} (hfresh : A.Fresh s bids)
    {id : BidId} {bid : Bid} (h : A.bids (A.insertBids s bids) id = some bid) :
    A.bids s id = some bid ∨ bid ∈ bids := by
  rw [A.bids_insertBids hfresh, Option.or_eq_some_iff] at h
  rcases h with hfind | ⟨-, hold⟩
  · exact .inr (List.mem_of_find?_eq_some hfind)
  · exact .inl hold

/-- `Finalize` stores no bids but those of the transaction. -/
theorem bids_after_finalize (horder : order.Perm t.pendingBids) {id : BidId} {bid : Bid}
    (h : A.bids (after (t.finalize (C.engine B) order) st).storage id = some bid) :
    A.bids st.storage id = some bid ∨ bid ∈ t.pendingBids := by
  have hinsert : ∀ done, (∀ b ∈ done, b ∈ order) → A.Fresh st.storage done →
      ∀ ws, A.bids (A.insertValues (A.insertBids st.storage done) ws) id = some bid →
        A.bids st.storage id = some bid ∨ bid ∈ t.pendingBids := by
    intro done hdone hfresh ws hbid
    rw [A.bids_insertValues] at hbid
    rcases A.mem_of_bids_insertBids hfresh hbid with hold | hmem
    · exact .inl hold
    · exact .inr (horder.mem_iff.mp (hdone bid hmem))
  cases hrun : (t.finalize (C.engine B) order).run st with
  | ok _ st' =>
    obtain ⟨_, hfresh, -, -, rfl⟩ := (ConfidentialStoreEngine.finalize_eq_ok_iff A).mp hrun
    rw [after_of_ok hrun] at h
    exact hinsert order (fun _ hb => hb) hfresh _ h
  | error err st' =>
    rw [after_of_error hrun] at h
    rcases ConfidentialStoreEngine.finalize_eq_error_iff.mp hrun with hfail | ⟨hok, -⟩
    · rcases (ConfidentialStoreEngine.storePending_eq_error_iff A).mp hfail with
        ⟨done, b, rest, hsplit, hdone, -, -, rfl⟩ | ⟨hfresh, done, w, rest, _, -, -, -, -, rfl⟩
      · apply hinsert done (fun b hb => ?_) hdone [] h
        rw [hsplit]
        exact List.mem_append_left _ hb
      · exact hinsert order (fun _ hb => hb) hfresh _ h
    · obtain ⟨hfresh, -, rfl⟩ := (ConfidentialStoreEngine.storePending_eq_ok_iff A).mp hok
      exact hinsert order (fun _ hb => hb) hfresh _ h

/-- `Finalize` publishes at most one message, the one signed for the transaction's writes, and then all
bids are stored. -/
theorem published_after_finalize (A : AtomicBackend B) {message : DAMessage}
    (h : message ∈ (after (t.finalize (C.engine B) order) st).published) :
    message ∈ st.published ∨
      C.signMessage t.sourceTx t.pendingWrites = .ok message ∧ A.Fresh st.storage order ∧
        A.bids (after (t.finalize (C.engine B) order) st).storage =
          A.bids (A.insertBids st.storage order) := by
  cases hrun : (t.finalize (C.engine B) order).run st with
  | ok _ st' =>
    rw [after_of_ok hrun] at h ⊢
    obtain ⟨pwMsg, hfresh, -, hsign, rfl⟩ := (ConfidentialStoreEngine.finalize_eq_ok_iff A).mp hrun
    rcases List.mem_append.mp h with hold | hnew
    · exact .inl hold
    · obtain rfl := List.mem_singleton.mp hnew
      exact .inr ⟨hsign, hfresh, A.bids_insertValues _ _⟩
  | error err st' =>
    rw [after_of_error hrun] at h
    left
    rcases ConfidentialStoreEngine.finalize_eq_error_iff.mp hrun with hfail | ⟨hok, -⟩
    · rcases (ConfidentialStoreEngine.storePending_eq_error_iff A).mp hfail with
        ⟨_, _, _, -, -, -, -, rfl⟩ | ⟨-, _, _, _, _, -, -, -, -, rfl⟩
      · exact h
      · exact h
    · obtain ⟨-, -, rfl⟩ := (ConfidentialStoreEngine.storePending_eq_ok_iff A).mp hok
      exact h

/-- `NewMessage` publishes nothing, and it stores no bids but those of a valid message. -/
theorem after_newMessage (hA : ∀ w, A.refuses w = none) (message : DAMessage) :
    (after ((C.engine B).newMessage message) st).published = st.published ∧
      ∀ id bid, A.bids (after ((C.engine B).newMessage message) st).storage id = some bid →
        A.bids st.storage id = some bid ∨
          C.validateMessage message = .ok true ∧ ∃ w ∈ message.storeWrites.elems, w.bid = bid := by
  by_cases hvalid : C.validateMessage message = .ok true
  · rw [ConfidentialStoreEngine.after_newMessage_of_valid A hA hvalid]
    refine ⟨rfl, ?_⟩
    intro id bid h
    rw [A.bids_takeWrites, Option.or_eq_some_iff] at h
    rcases h with hold | ⟨-, hcopy⟩
    · exact .inl hold
    · have hmem := (List.mem_filter.mp (List.mem_of_mem_head? hcopy)).1
      obtain ⟨w, hw, rfl⟩ := List.mem_map.mp hmem
      exact .inr ⟨hvalid, w, hw, rfl⟩
  · rw [ConfidentialStoreEngine.after_newMessage_of_not_valid A hA hvalid]
    exact ⟨rfl, fun _ _ h => .inl h⟩

end Provenance

/-! ### What the node itself signs -/

namespace EngineSetup

variable {S : EngineSetup} {manager : AccountManager S.sender}

theorem signed_of_initializeBid {rawBid : InnerBid} {tx : Option Transaction} {bid : Bid}
    (h : (S.config manager).initializeBid rawBid tx = .ok bid) : bid.Signed S.json S.sender := by
  unfold EngineConfig.initializeBid at h
  simp only [bind_eq_ok_iff, mapError_eq_ok_iff, ite_throw_eq_ok_iff, pure_eq_ok_iff] at h
  obtain ⟨_, -, -, bytes, hbytes, node, hnode, signature, hsign, rfl⟩ := h
  exact ⟨bytes, node, hbytes, manager.sender_sign hsign, hnode⟩

theorem of_signMessage {tx : Option Transaction} {stores : Slice StoreWrite} {message : DAMessage}
    (h : (S.config manager).signMessage tx stores = .ok message) :
    message.storeWrites = stores ∧ message.storeUUID = S.storeUUID ∧
      (∃ node, message.SignedBy S.json S.sender node) ∧
      ∃ account, S.chainSender message.sourceTx = .ok account := by
  unfold EngineConfig.signMessage at h
  simp only [bind_eq_ok_iff, mapError_eq_ok_iff, pure_eq_ok_iff] at h
  obtain ⟨account, hchain, bytes, hbytes, node, hnode, signature, hsign, rfl⟩ := h
  exact ⟨rfl, rfl, ⟨node, bytes, hbytes, manager.sender_sign hsign, hnode⟩, account, hchain⟩

end EngineSetup

/-- What holds of a message that the node has published, as long as its storage knows the bids in
`known`. -/
structure DAMessage.Published (S : EngineSetup) (known : Set BidId) (message : DAMessage) : Prop where
  storeUUID : message.storeUUID = S.storeUUID
  signed : ∃ node, message.SignedBy S.json S.sender node
  sourceTx : ∃ account, S.chainSender message.sourceTx = .ok account
  writes : ∀ w ∈ message.storeWrites.elems,
    w.Authentic S.json ∧ w.bid.Signed S.json S.sender ∧ w.bid.id ∈ known

theorem DAMessage.Published.mono {S : EngineSetup} {known known' : Set BidId} (hknown : known ⊆ known')
    {message : DAMessage} (h : message.Published S known) : message.Published S known' where
  storeUUID := h.storeUUID
  signed := h.signed
  sourceTx := h.sourceTx
  writes w hw := ⟨(h.writes w hw).1, (h.writes w hw).2.1, hknown (h.writes w hw).2.2⟩

/-! ### Runs -/

namespace Node

variable {σ : Type} {B : ConfidentialStorageBackend σ} {A : AtomicBackend B} {S : EngineSetup}
  {manager : AccountManager S.sender} {n n' : Node σ}

/-- What holds of a node at all times. -/
structure Honest (A : AtomicBackend B) (S : EngineSetup) (n : Node σ) : Prop where
  sound : n.Sound A S.json
  stored : ∀ id bid, A.bids n.engine.storage id = some bid → bid.Signed S.json S.sender
  pendingBids : ∀ t ∈ n.transactions, ∀ bid ∈ t.pendingBids, bid.Signed S.json S.sender
  pendingWrites : ∀ t ∈ n.transactions, ∀ w ∈ t.pendingWrites.elems, w.bid.Signed S.json S.sender
  published : ∀ message ∈ n.engine.published,
    message.Published S { id | (A.bids n.engine.storage id).isSome }

theorem honest_init {s : σ} (hs : ∀ id, A.bids s id = none) : (init s).Honest A S where
  sound := sound_init (C := S.config S.manager) hs
  stored id bid h := absurd h (by simp [init, hs id])
  pendingBids _ h := absurd h List.not_mem_nil
  pendingWrites _ h := absurd h List.not_mem_nil
  published _ h := absurd h List.not_mem_nil

/-- An operation of a transaction adds signed bids and writes on them. -/
theorem Honest.apply (h : n.Honest A S) {t t' : TransactionalStore} (ht : t ∈ n.transactions)
    {op : TransactionalStore.Op}
    (hop : t.apply ((S.config manager).engine B) n.engine.storage op = .ok t') :
    (∀ bid ∈ t'.pendingBids, bid.Signed S.json S.sender) ∧
      ∀ w ∈ t'.pendingWrites.elems, w.bid.Signed S.json S.sender := by
  have hbids := h.pendingBids t ht
  have hwrites := h.pendingWrites t ht
  cases op with
  | initializeBid rawBid =>
    obtain ⟨bid, hnew, hbid, rfl⟩ := TransactionalStore.apply_initializeBid_eq_ok_iff.mp hop
    refine ⟨?_, hwrites⟩
    intro b hb
    rcases List.mem_append.mp hb with hb | hb
    · exact hbids b hb
    · obtain rfl := List.mem_singleton.mp hb
      exact EngineSetup.signed_of_initializeBid hbid
  | store bidId caller key value =>
    obtain ⟨bid, hbid, -, rfl⟩ := TransactionalStore.apply_store_eq_ok_iff.mp hop
    refine ⟨hbids, ?_⟩
    intro w hw
    rw [TransactionalStore.pendingWrites_addWrite, List.mem_append, List.mem_singleton] at hw
    rcases hw with hw | rfl
    · exact hwrites w hw
    · rcases TransactionalStore.mem_of_fetchBidById (A := A) hbid with hpending | hstored
      · exact hbids bid hpending
      · exact h.stored bidId bid hstored

/-- The message that `Finalize` publishes. -/
theorem Honest.published_finalize (h : n.Honest A S) {t : TransactionalStore} (ht : t ∈ n.transactions)
    {order : List Bid} (horder : order.Perm t.pendingBids) {s : σ} {message : DAMessage}
    (hsign : (S.config manager).signMessage t.sourceTx t.pendingWrites = .ok message)
    (hfresh : A.Fresh n.engine.storage order)
    (hs : A.bids s = A.bids (A.insertBids n.engine.storage order)) :
    message.Published S { id | (A.bids s id).isSome } := by
  obtain ⟨hstores, huuid, hsigned, hsource⟩ := EngineSetup.of_signMessage hsign
  refine ⟨huuid, hsigned, hsource, ?_⟩
  intro w hw
  rw [hstores] at hw
  obtain ⟨hauthentic, hknown⟩ := (h.sound.transactions t ht).writes w hw
  refine ⟨hauthentic, h.pendingWrites t ht w hw, ?_⟩
  show (A.bids s w.bid.id).isSome
  rw [hs]
  rcases hknown with hpending | hstored
  · rw [A.bids_insertBids_of_mem hfresh (horder.mem_iff.mpr hpending)]
    rfl
  · obtain ⟨bid, hbid⟩ := Option.isSome_iff_exists.mp hstored
    rw [A.bids_insertBids_of_some hfresh hbid]
    rfl

theorem Honest.step (hA : ∀ w, A.refuses w = none) (h : n.Honest A S) {a : NodeAction}
    (hstep : n.step ((S.config manager).engine B) a = some n') : n'.Honest A S := by
  obtain ⟨hsteps, hsound⟩ := h.sound.step (C := S.config manager) hA hstep
  -- what has been published stays valid, since known bids stay known
  have hpublished : ∀ message ∈ n.engine.published,
      message.Published S { id | (A.bids n'.engine.storage id).isSome } := fun message hm =>
    (h.published message hm).mono fun _ => hsteps.isSome_bids
  cases a with
  | newTransactionalStore sourceTx =>
    cases hstep
    refine ⟨hsound, h.stored, ?_, ?_, hpublished⟩
    · intro t ht bid hbid
      rcases List.mem_append.mp ht with ht | ht
      · exact h.pendingBids t ht bid hbid
      · obtain rfl := List.mem_singleton.mp ht
        exact absurd hbid List.not_mem_nil
    · intro t ht w hw
      rcases List.mem_append.mp ht with ht | ht
      · exact h.pendingWrites t ht w hw
      · obtain rfl := List.mem_singleton.mp ht
        exact absurd hw List.not_mem_nil
  | apply i op =>
    simp only [Node.step, Option.map_eq_some_iff] at hstep
    obtain ⟨t, ht, rfl⟩ := hstep
    have hmem := List.mem_of_getElem? ht
    cases hop : t.apply ((S.config manager).engine B) n.engine.storage op with
    | error err => exact h
    | ok t' =>
      rw [hop] at hsound hpublished
      obtain ⟨hbids, hwrites⟩ := h.apply hmem hop
      refine ⟨hsound, h.stored, ?_, ?_, hpublished⟩
      · intro u hu bid hbid
        rcases List.mem_or_eq_of_mem_set hu with hu | rfl
        · exact h.pendingBids u hu bid hbid
        · exact hbids bid hbid
      · intro u hu w hw
        rcases List.mem_or_eq_of_mem_set hu with hu | rfl
        · exact h.pendingWrites u hu w hw
        · exact hwrites w hw
  | finalize i order =>
    simp only [Node.step, Option.bind_eq_some_iff] at hstep
    obtain ⟨t, ht, hstep⟩ := hstep
    split_ifs at hstep with horder
    cases hstep
    have hmem := List.mem_of_getElem? ht
    refine ⟨hsound, ?_, h.pendingBids, h.pendingWrites, ?_⟩
    · intro id bid hbid
      rcases bids_after_finalize horder hbid with hold | hpending
      · exact h.stored id bid hold
      · exact h.pendingBids t hmem bid hpending
    · intro message hm
      rcases published_after_finalize A hm with hold | ⟨hsign, hfresh, hs⟩
      · exact hpublished message hold
      · exact h.published_finalize hmem horder hsign hfresh hs
  | newMessage message =>
    cases hstep
    obtain ⟨hsame, hbids⟩ := @after_newMessage σ B A (S.config manager) n.engine hA message
    refine ⟨hsound, ?_, h.pendingBids, h.pendingWrites, ?_⟩
    · intro id bid hbid
      rcases hbids id bid hbid with hold | ⟨hvalid, w, hw, rfl⟩
      · exact h.stored id bid hold
      · obtain ⟨_, -, -, -, hwrites⟩ := EngineConfig.validateMessage_eq_true_iff.mp hvalid
        exact (EngineConfig.validateWrite_eq_ok_iff.mp (hwrites w hw)).2.1
    · intro m hm
      change m ∈ (after _ n.engine).published at hm
      rw [hsame] at hm
      exact hpublished m hm

end Node

namespace ManagedNode

variable {σ : Type} {B : ConfidentialStorageBackend σ} {A : AtomicBackend B} {S : EngineSetup}

/-- **Every node is honest**, at all times and whatever its account manager does. -/
theorem honest_of_run (hA : ∀ w, A.refuses w = none) {n n' : ManagedNode S σ} (h : n.node.Honest A S)
    {as : List (ManagedAction S)} (hrun : n.run B as = some n') : n'.node.Honest A S := by
  induction as generalizing n with
  | nil =>
    cases hrun
    exact h
  | cons a as ih =>
    simp only [run, Option.bind_eq_some_iff] at hrun
    obtain ⟨n₁, hstep, hrest⟩ := hrun
    refine ih ?_ hrest
    cases a with
    | setManager manager =>
      cases hstep
      exact h
    | node a =>
      simp only [step, Option.map_eq_some_iff] at hstep
      obtain ⟨node, hnode, rfl⟩ := hstep
      exact h.step hA hnode

end ManagedNode

/-! ### What other engines make of it -/

/-- The engine `C` encodes and verifies as the node does. -/
structure EngineSetup.Agrees (S : EngineSetup) (C : EngineConfig) : Prop where
  json : C.json = S.json
  sender : C.daSigner.sender = S.sender
  chainSender : C.chainSender = S.chainSender

theorem EngineSetup.agrees_config (S : EngineSetup) (manager : AccountManager S.sender) :
    S.Agrees (S.config manager) where
  json := rfl
  sender := rfl
  chainSender := rfl

/-- The bids that the message writes on list `node` among their stores, and their creation transactions
are signed. -/
def DAMessage.Admissible (S : EngineSetup) (message : DAMessage) (node : Address) : Prop :=
  ∀ w ∈ message.storeWrites.elems, node ∈ w.bid.allowedStores.elems ∧
    ∃ account, S.chainSender w.bid.creationTx = .ok account

theorem DAMessage.SignedBy.unique {J : Encoding} {sender : Bytes → Bytes → Except GoError Address}
    {message : DAMessage} {node node' : Address} (h : message.SignedBy J sender node)
    (h' : message.SignedBy J sender node') : node' = node := by
  obtain ⟨_, -, -, hnode⟩ := h
  obtain ⟨_, -, -, hnode'⟩ := h'
  exact Except.ok.inj (hnode'.symm.trans hnode)

/-- A published message is valid for any engine that does not take it for its own, if it is admissible. -/
theorem DAMessage.Published.validateMessage_eq_true_iff {S : EngineSetup} {C : EngineConfig}
    (hC : S.Agrees C) {known : Set BidId} {message : DAMessage} (h : message.Published S known)
    {node : Address} (hnode : message.SignedBy S.json S.sender node) :
    C.validateMessage message = .ok true ↔
      ¬ (S.storeUUID = C.storeUUID ∧ node ∈ C.localAddresses) ∧ message.Admissible S node := by
  rw [EngineConfig.validateMessage_eq_true_iff, hC.json, hC.sender, hC.chainSender, h.storeUUID]
  have hwrite : ∀ w ∈ message.storeWrites.elems, C.validateWrite node w = .ok () ↔
      node ∈ w.bid.allowedStores.elems ∧ ∃ account, S.chainSender w.bid.creationTx = .ok account := by
    intro w hw
    obtain ⟨hauthentic, hsigned, -⟩ := h.writes w hw
    rw [EngineConfig.validateWrite_eq_ok_iff, hC.json, hC.sender, hC.chainSender]
    simp only [hauthentic, hsigned, true_and]
  constructor
  · rintro ⟨node', hnode', hown, -, hwrites⟩
    obtain rfl := hnode.unique hnode'
    exact ⟨hown, fun w hw => (hwrite w hw).mp (hwrites w hw)⟩
  · rintro ⟨hown, hadmissible⟩
    exact ⟨node, hnode, hown, h.sourceTx, fun w hw => (hwrite w hw).mpr (hadmissible w hw)⟩

end Suift
