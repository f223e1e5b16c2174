import Suift.CStore.Equiv.Finalize
import Suift.CStore.Equiv.OwnMessages
import Suift.CStore.Equiv.Received
import Suift.CStore.Equiv.Transport

/-!
# Where the contents of a store come from

A bid lists the stores that may write on it.  Suppose that all of them are honest: nobody but the nodes of
the network signs for them.  Then whatever a node finds under the bid, some node of the network has put
there in a transaction of its own, for a caller whom the bid allows; and the bid itself was made by
`InitializeBid` of a node (`Network.integrity`).  The environment may send anything to anybody, repeat
messages and hold them back, and it may sign for all other accounts.

What a step of one node can add to it is said once (`Node.Adds`).  The invariant of the network is derived
from that: a bid or a value is attributed to a transaction, or there is a store on the bid's list that is
not honest.
-/

namespace Suift

open Stateful Fallible WriteLog LocalConfidentialStore

namespace Node

/-- The bids that the node's transactions have made. -/
def created {σ : Type} (n : Node σ) : Set Bid := { b | ∃ t ∈ n.transactions, b ∈ t.pendingBids }

/-- The writes that the node's transactions have made. -/
def written {σ : Type} (n : Node σ) : Set StoreWrite :=
  { w | ∃ t ∈ n.transactions, w ∈ t.pendingWrites.elems }

/-- The bids in the node's storage. -/
def stored (n : Node LocalConfidentialStore) : Set Bid := { b | ∃ id, n.engine.storage.bids id = some b }

/-- What `n'` may have that `n` has not, if `taken` are the writes that were taken in from messages. -/
structure Adds (taken : Set StoreWrite) (n n' : Node LocalConfidentialStore) : Prop where
  created : n.created ⊆ n'.created
  written : n.written ⊆ n'.written
  published : n.engine.published ⊆ n'.engine.published
  of_written : ∀ w ∈ n'.written, w ∈ n.written ∨ w.bid ∈ n.created ∪ n.stored
  of_published : ∀ m ∈ n'.engine.published, m ∈ n.engine.published ∨
    ∀ w ∈ m.storeWrites.elems, w ∈ n.written
  of_stored : ∀ b ∈ n'.stored, b ∈ n.stored ∨ b ∈ n.created ∨ ∃ w ∈ taken, w.bid = b
  of_value : ∀ id key v, n'.engine.storage.value (id, key) = some v →
    n.engine.storage.value (id, key) = some v ∨
      ∃ w ∈ n.written ∪ taken, w.bid.id = id ∧ w.key = key ∧ w.value = v

variable {n n' : Node LocalConfidentialStore} {C : EngineConfig}

theorem Adds.refl (taken : Set StoreWrite) (n : Node LocalConfidentialStore) : n.Adds taken n where
  created := subset_rfl
  written := subset_rfl
  published := List.Subset.refl _
  of_written _ h := .inl h
  of_published _ h := .inl h
  of_stored _ h := .inl h
  of_value _ _ _ h := .inl h

theorem mem_stored {id : BidId} {b : Bid} (h : n.engine.storage.bids id = some b) : b ∈ n.stored := ⟨id, h⟩

/-- An operation of a transaction only adds to the transaction. -/
theorem adds_apply {i : ℕ} {op : TransactionalStore.Op} {t t' : TransactionalStore}
    (ht : n.transactions[i]? = some t) (hop : t.apply (C.engine backend) n.engine.storage op = .ok t')
    (taken : Set StoreWrite) : n.Adds taken { n with transactions := n.transactions.set i t' } := by
  have hmem := List.mem_of_getElem? ht
  -- the new transaction is in the place of the old one and has all its bids and writes
  have hgrows : (∀ b ∈ t.pendingBids, b ∈ t'.pendingBids) ∧
      (∀ w ∈ t.pendingWrites.elems, w ∈ t'.pendingWrites.elems) ∧
      ∀ w ∈ t'.pendingWrites.elems, w ∈ t.pendingWrites.elems ∨
        w.bid ∈ t.pendingBids ∨ w.bid ∈ n.stored := by
    cases op with
    | initializeBid rawBid =>
      obtain ⟨bid, hnew, -, rfl⟩ := TransactionalStore.apply_initializeBid_eq_ok_iff.mp hop
      exact ⟨fun b hb => List.mem_append_left _ hb, fun w hw => hw, fun w hw => .inl hw⟩
    | store bidId caller key value =>
      obtain ⟨bid, hbid, -, rfl⟩ := TransactionalStore.apply_store_eq_ok_iff.mp hop
      refine ⟨fun b hb => hb, ?_, ?_⟩
      · intro w hw
        rw [TransactionalStore.pendingWrites_addWrite]
        exact List.mem_append_left _ hw
      · intro w hw
        rw [TransactionalStore.pendingWrites_addWrite, List.mem_append, List.mem_singleton] at hw
        rcases hw with hw | rfl
        · exact .inl hw
        · rcases TransactionalStore.mem_of_fetchBidById (A := atomic) hbid with hpending | hstored
          · exact .inr (.inl hpending)
          · exact .inr (.inr (mem_stored hstored))
  have hset : t' ∈ n.transactions.set i t' := by
    obtain ⟨hlt, -⟩ := List.getElem?_eq_some_iff.mp ht
    exact List.mem_set hlt t'
  have hkeeps : ∀ u ∈ n.transactions, u ∈ n.transactions.set i t' ∨ u = t := by
    intro u hu
    obtain ⟨k, hk⟩ := List.mem_iff_getElem?.mp hu
    by_cases hki : i = k
    · rw [← hki, ht] at hk
      exact .inr (Option.some.inj hk).symm
    · left
      rw [← List.getElem?_set_ne hki] at hk
      exact List.mem_of_getElem? hk
  refine ⟨?_, ?_, List.Subset.refl _, ?_, fun m hm => .inl hm, fun b hb => .inl hb, fun _ _ _ h => .inl h⟩
  · rintro b ⟨u, hu, hb⟩
    rcases hkeeps u hu with hu | rfl
    · exact ⟨u, hu, hb⟩
    · exact ⟨t', hset, hgrows.1 b hb⟩
  · rintro w ⟨u, hu, hw⟩
    rcases hkeeps u hu with hu | rfl
    · exact ⟨u, hu, hw⟩
    · exact ⟨t', hset, hgrows.2.1 w hw⟩
  · rintro w ⟨u, hu, hw⟩
    rcases List.mem_or_eq_of_mem_set hu with hu | rfl
    · exact .inl ⟨u, hu, hw⟩
    · rcases hgrows.2.2 w hw with hold | hpending | hstored
      · exact .inl ⟨t, hmem, hold⟩
      · exact .inr (.inl ⟨t, hmem, hpending⟩)
      · exact .inr (.inr hstored)

/-- A value that is there after writing was there before or is one of those written. -/
theorem value_of_replay {m : BidId × GoString → Option Bytes} {ws : List StoreWrite} {id : BidId}
    {key : GoString} {v : Bytes} (h : replay m (entries ws) (id, key) = some v) :
    m (id, key) = some v ∨ ∃ w ∈ ws, w.bid.id = id ∧ w.key = key ∧ w.value = v := by
  rw [replay_apply, Option.or_eq_some_iff] at h
  rcases h with hlast | ⟨-, hold⟩
  · right
    have hmem := List.mem_of_getLast? hlast
    rw [writesTo, List.mem_map] at hmem
    obtain ⟨e, he, rfl⟩ := hmem
    rw [List.mem_filter] at he
    obtain ⟨w, hw, rfl⟩ := List.mem_map.mp he.1
    have hkey : (w.bid.id, w.key) = (id, key) := by simpa using he.2
    exact ⟨w, hw, (Prod.mk.inj hkey).1, (Prod.mk.inj hkey).2, rfl⟩
  · exact .inl hold

/-- `Finalize` stores no values but those of the transaction. -/
theorem value_after_finalize {t : TransactionalStore} {order : List Bid}
    {st : EngineState LocalConfidentialStore} {id : BidId} {key : GoString} {v : Bytes}
    (h : (after (t.finalize (C.engine backend) order) st).storage.value (id, key) = some v) :
    st.storage.value (id, key) = some v ∨
      ∃ w ∈ t.pendingWrites.elems, w.bid.id = id ∧ w.key = key ∧ w.value = v := by
  have hinsert : ∀ bids ws, (∀ w ∈ ws, w ∈ t.pendingWrites.elems) →
      (atomic.insertValues (atomic.insertBids st.storage bids) ws).value (id, key) = some v →
        st.storage.value (id, key) = some v ∨
          ∃ w ∈ t.pendingWrites.elems, w.bid.id = id ∧ w.key = key ∧ w.value = v := by
    intro bids ws hws hvalue
    rw [value_insertValues, value_insertBids] at hvalue
    rcases value_of_replay hvalue with hold | ⟨w, hw, hfields⟩
    · exact .inl hold
    · exact .inr ⟨w, hws w hw, hfields⟩
  cases hrun : (t.finalize (C.engine backend) order).run st with
  | ok _ st' =>
    obtain ⟨_, -, -, -, rfl⟩ := (ConfidentialStoreEngine.finalize_eq_ok_iff atomic).mp hrun
    rw [after_of_ok hrun] at h
    exact hinsert order _ (fun _ hw => hw) h
  | error err st' =>
    rw [after_of_error hrun] at h
    rcases ConfidentialStoreEngine.finalize_eq_error_iff.mp hrun with hfail | ⟨hok, -⟩
    · rcases (ConfidentialStoreEngine.storePending_eq_error_iff atomic).mp hfail with
        ⟨done, _, _, -, -, -, -, rfl⟩ | ⟨-, _, _, _, _, -, -, hrefuses, -⟩
      · exact hinsert done [] (fun _ hw => absurd hw List.not_mem_nil) h
      · exact absurd hrefuses (by simp [atomic])
    · obtain ⟨-, -, rfl⟩ := (ConfidentialStoreEngine.storePending_eq_ok_iff atomic).mp hok
      exact hinsert order _ (fun _ hw => hw) h

/-- `Finalize` takes back no message. -/
theorem mem_published_after_finalize {t : TransactionalStore} {order : List Bid}
    {st : EngineState LocalConfidentialStore} {m : DAMessage} (hm : m ∈ st.published) :
    m ∈ (after (t.finalize (C.engine backend) order) st).published := by
  cases hrun : (t.finalize (C.engine backend) order).run st with
  | ok _ st' =>
    obtain ⟨_, -, -, -, rfl⟩ := (ConfidentialStoreEngine.finalize_eq_ok_iff atomic).mp hrun
    rw [after_of_ok hrun]
    exact List.mem_append_left _ hm
  | error err st' =>
    rw [after_of_error hrun, ConfidentialStoreEngine.published_of_finalize_error atomic hrun]
    exact hm

theorem storeWrites_of_signMessage {tx : Option Transaction} {stores : Slice StoreWrite} {m : DAMessage}
    (h : C.signMessage tx stores = .ok m) : m.storeWrites = stores := by
  unfold EngineConfig.signMessage at h
  simp only [bind_eq_ok_iff, mapError_eq_ok_iff, pure_eq_ok_iff] at h
  obtain ⟨_, -, _, -, _, -, _, -, rfl⟩ := h
  rfl

/-- The writes that an action takes in from a message. -/
def taken (C : EngineConfig) (a : NodeAction) : Set StoreWrite :=
  { w | ∃ m, a = .newMessage m ∧ C.validateMessage m = .ok true ∧ w ∈ m.storeWrites.elems }

/-- **What a step adds to a node.** -/
theorem adds_step {a : NodeAction} (h : n.step (C.engine backend) a = some n') : n.Adds (taken C a) n' := by
  cases a with
  | newTransactionalStore sourceTx =>
    cases h
    refine ⟨?_, ?_, List.Subset.refl _, ?_, fun m hm => .inl hm, fun b hb => .inl hb, fun _ _ _ h => .inl h⟩
    · rintro b ⟨t, ht, hb⟩
      exact ⟨t, List.mem_append_left _ ht, hb⟩
    · rintro w ⟨t, ht, hw⟩
      exact ⟨t, List.mem_append_left _ ht, hw⟩
    · rintro w ⟨t, ht, hw⟩
      rcases List.mem_append.mp ht with ht | ht
      · exact .inl ⟨t, ht, hw⟩
      · obtain rfl := List.mem_singleton.mp ht
        exact absurd hw List.not_mem_nil
  | apply i op =>
    simp only [step, Option.map_eq_some_iff] at h
    obtain ⟨t, ht, rfl⟩ := h
    cases hop : t.apply (C.engine backend) n.engine.storage op with
    | error err => exact Adds.refl _ n
    | ok t' => exact adds_apply ht hop _
  | finalize i order =>
    simp only [step, Option.bind_eq_some_iff] at h
    obtain ⟨t, ht, h⟩ := h
    split_ifs at h with horder
    cases h
    have hmem := List.mem_of_getElem? ht
    refine ⟨subset_rfl, subset_rfl, ?_, fun w hw => .inl hw, ?_, ?_, ?_⟩
    · exact fun m hm => mem_published_after_finalize hm
    · intro m hm
      rcases published_after_finalize atomic hm with hold | ⟨hsign, -⟩
      · exact .inl hold
      · right
        intro w hw
        rw [storeWrites_of_signMessage hsign] at hw
        exact ⟨t, hmem, hw⟩
    · rintro b ⟨id, hb⟩
      rcases bids_after_finalize (A := atomic) horder hb with hold | hpending
      · exact .inl ⟨id, hold⟩
      · exact .inr (.inl ⟨t, hmem, hpending⟩)
    · intro id key v hv
      rcases value_after_finalize hv with hold | ⟨w, hw, hfields⟩
      · exact .inl hold
      · exact .inr ⟨w, .inl ⟨t, hmem, hw⟩, hfields⟩
  | newMessage m =>
    cases h
    obtain ⟨hpublished, hbids⟩ := @after_newMessage _ backend atomic C n.engine (fun _ => rfl) m
    refine ⟨subset_rfl, subset_rfl, ?_, fun w hw => .inl hw, ?_, ?_, ?_⟩
    · exact hpublished.symm ▸ List.Subset.refl _
    · intro m' hm'
      change m' ∈ (after _ n.engine).published at hm'
      rw [hpublished] at hm'
      exact .inl hm'
    · rintro b ⟨id, hb⟩
      rcases hbids id b hb with hold | ⟨hvalid, w, hw, rfl⟩
      · exact .inl ⟨id, hold⟩
      · exact .inr (.inr ⟨w, ⟨m, rfl, hvalid, hw⟩, rfl⟩)
    · intro id key v hv
      change (after _ n.engine).storage.value (id, key) = some v at hv
      by_cases hvalid : C.validateMessage m = .ok true
      · rw [ConfidentialStoreEngine.after_newMessage_of_valid atomic (fun _ => rfl) hvalid] at hv
        change (atomic.takeWrites n.engine.storage m.storeWrites.elems).value (id, key) = some v at hv
        rw [value_takeWrites] at hv
        rcases value_of_replay hv with hold | ⟨w, hw, hfields⟩
        · exact .inl hold
        · exact .inr ⟨w, .inr ⟨m, rfl, hvalid, hw⟩, hfields⟩
      · rw [ConfidentialStoreEngine.after_newMessage_of_not_valid atomic (fun _ => rfl) hvalid] at hv
        exact .inl hv

end Node

/-! ### The invariant of the network -/

namespace Network

variable {ι : Type} {N : NetworkSetup ι}

def node (n : Network N) (i : ι) : Node LocalConfidentialStore := (n.peers i).managed.node

/-- A node of the network has made the bid. -/
def Created (n : Network N) (b : Bid) : Prop :=
  ∃ i, ∃ c ∈ (n.node i).created, c.toInnerBid = b.toInnerBid

/-- A node of the network has made the write in a transaction of its own. -/
def Written (n : Network N) (w : StoreWrite) : Prop := ∃ i, ∃ w' ∈ (n.node i).written, w.SameWrite w'

/-- If the message is signed for an honest account, a node of the network has signed its text. -/
def Unforged (n : Network N) (honest : Set Address) (m : DAMessage) : Prop :=
  ∀ a ∈ honest, m.SignedBy N.json N.sender a → ∃ i, ∃ m' ∈ (n.node i).engine.published,
    serializeMessageForSigning N.json m' = serializeMessageForSigning N.json m

/-- There is a store on the bid's list that is not honest. -/
def Exposed (honest : Set Address) (b : Bid) : Prop := ∃ a ∈ b.allowedStores.elems, a ∉ honest

/-- What holds of a network at all times.  `delivered` are the messages that nodes have received. -/
structure Attributed (honest : Set Address) (delivered : Set DAMessage) (n : Network N) : Prop where
  nodes : ∀ i, (n.node i).Honest atomic (N.setup i)
  channel : ∀ i, ∀ m ∈ (n.peers i).subscription.channel, m.Valid ∧ m ∈ delivered ∧ n.Unforged honest m
  published : ∀ i, ∀ m ∈ (n.node i).engine.published, ∀ w ∈ m.storeWrites.elems, w ∈ (n.node i).written
  stored : ∀ i, ∀ b ∈ (n.node i).stored, n.Created b ∨ Exposed honest b
  written : ∀ i, ∀ w ∈ (n.node i).written, n.Created w.bid ∨ Exposed honest w.bid
  value : ∀ i id key v, (n.node i).engine.storage.value (id, key) = some v →
    ∃ w : StoreWrite, (w.bid.id = id ∧ w.key = key ∧ w.value = v) ∧ w.Authentic N.json ∧
      (w ∈ (n.node i).written ∨ ∃ m ∈ delivered, w ∈ m.storeWrites.elems) ∧
      (n.Written w ∨ Exposed honest w.bid)

variable {honest : Set Address} {delivered : Set DAMessage} {n n' : Network N}

/-- The nodes of `n'` have published and written at least what those of `n` have. -/
structure Extends (n n' : Network N) : Prop where
  created : ∀ i, (n.node i).created ⊆ (n'.node i).created
  written : ∀ i, (n.node i).written ⊆ (n'.node i).written
  published : ∀ i, (n.node i).engine.published ⊆ (n'.node i).engine.published

theorem Created.mono (h : n.Extends n') {b : Bid} (hb : n.Created b) : n'.Created b := by
  obtain ⟨i, c, hc, heq⟩ := hb
  exact ⟨i, c, h.created i hc, heq⟩

theorem Written.mono (h : n.Extends n') {w : StoreWrite} (hw : n.Written w) : n'.Written w := by
  obtain ⟨i, w', hw', hsame⟩ := hw
  exact ⟨i, w', h.written i hw', hsame⟩

theorem Unforged.mono (h : n.Extends n') {m : DAMessage} (hm : n.Unforged honest m) :
    n'.Unforged honest m := by
  intro a ha hsigned
  obtain ⟨i, m', hm', htext⟩ := hm a ha hsigned
  exact ⟨i, m', h.published i hm', htext⟩

theorem Exposed.of_toInnerBid_eq {b c : Bid} (h : c.toInnerBid = b.toInnerBid) (hc : Exposed honest c) :
    Exposed honest b := by
  have hstores : c.allowedStores = b.allowedStores := congrArg InnerBid.allowedStores h
  unfold Exposed at hc ⊢
  rwa [hstores] at hc

/-- A write that a node takes in is attributed, since its signer is on the list of its bid. -/
theorem Attributed.of_taken (h : n.Attributed honest delivered) {i : ι}
    {manager : AccountManager (N.setup i).sender} {m : DAMessage} (hm : m.Valid)
    (hunforged : n.Unforged honest m) (hvalid : ((N.setup i).config manager).validateMessage m = .ok true)
    {w : StoreWrite} (hw : w ∈ m.storeWrites.elems) :
    w.Authentic N.json ∧ (n.Written w ∨ Exposed honest w.bid) ∧
      (n.Created w.bid ∨ Exposed honest w.bid) := by
  obtain ⟨signer, hsigned, -, -, hwrites⟩ := EngineConfig.validateMessage_eq_true_iff.mp hvalid
  obtain ⟨hauthentic, -, hlisted, -⟩ := EngineConfig.validateWrite_eq_ok_iff.mp (hwrites w hw)
  refine ⟨hauthentic, ?_⟩
  by_cases hsigner : signer ∈ honest
  · -- the text was signed by a node, whose transaction made the same write
    obtain ⟨j, m', hm', htext⟩ := hunforged signer hsigner hsigned
    obtain ⟨w', hw', hsame⟩ := exists_sameWrite hm htext hw
    have hwritten := h.published j m' hm' w' hw'
    refine ⟨.inl ⟨j, w', hwritten, hsame⟩, ?_⟩
    rcases h.written j w' hwritten with ⟨k, c, hc, heq⟩ | hexposed
    · exact .inl ⟨k, c, hc, heq.trans hsame.bid⟩
    · exact .inr (hexposed.of_toInnerBid_eq hsame.bid)
  · exact ⟨.inr ⟨signer, hlisted, hsigner⟩, .inr ⟨signer, hlisted, hsigner⟩⟩

theorem attributed_init (honest : Set Address) (delivered : Set DAMessage) :
    (init N).Attributed honest delivered where
  nodes i := Node.honest_init fun _ => rfl
  channel i m hm := absurd hm List.not_mem_nil
  published i m hm := absurd hm List.not_mem_nil
  stored i b hb := by
    obtain ⟨id, hb⟩ := hb
    cases hb
  written i w hw := by
    obtain ⟨t, ht, -⟩ := hw
    exact absurd ht List.not_mem_nil
  value i id key v hv := by cases hv

variable [DecidableEq ι]

@[simp]
theorem peers_setPeer_self (n : Network N) (i : ι) (p : Peer (N.setup i)) :
    (n.setPeer i p).peers i = p := by
  show Function.update n.peers i p i = p
  rw [Function.update_self]

theorem peers_setPeer_of_ne (n : Network N) {i j : ι} (hij : j ≠ i) (p : Peer (N.setup i)) :
    (n.setPeer i p).peers j = n.peers j := by
  show Function.update n.peers i p j = n.peers j
  rw [Function.update_of_ne hij]

@[simp]
theorem node_setPeer_self (n : Network N) (i : ι) (p : Peer (N.setup i)) :
    (n.setPeer i p).node i = p.managed.node := by
  rw [node, peers_setPeer_self]

theorem node_setPeer_of_ne (n : Network N) {i j : ι} (hij : j ≠ i) (p : Peer (N.setup i)) :
    (n.setPeer i p).node j = n.node j := by
  rw [node, n.peers_setPeer_of_ne hij, node]

theorem extends_setPeer (n : Network N) {i : ι} {p : Peer (N.setup i)} {taken : Set StoreWrite}
    (h : (n.node i).Adds taken p.managed.node) : n.Extends (n.setPeer i p) := by
  refine ⟨fun j => ?_, fun j => ?_, fun j => ?_⟩ <;> by_cases hij : j = i
  · subst hij
    rw [node_setPeer_self]
    exact h.created
  · rw [n.node_setPeer_of_ne hij]
  · subst hij
    rw [node_setPeer_self]
    exact h.written
  · rw [n.node_setPeer_of_ne hij]
  · subst hij
    rw [node_setPeer_self]
    exact h.published
  · rw [n.node_setPeer_of_ne hij]
    exact List.Subset.refl _

/-- A step of one node keeps the network attributed, if all it takes in is attributed. -/
theorem Attributed.setPeer (h : n.Attributed honest delivered) {i : ι} {p : Peer (N.setup i)}
    {taken : Set StoreWrite} (hadds : (n.node i).Adds taken p.managed.node)
    (hnode : p.managed.node.Honest atomic (N.setup i))
    (htaken : ∀ w ∈ taken, (w.Authentic N.json ∧ (n.Written w ∨ Exposed honest w.bid) ∧
      (n.Created w.bid ∨ Exposed honest w.bid)) ∧ ∃ m ∈ delivered, w ∈ m.storeWrites.elems)
    (hchannel : ∀ m ∈ p.subscription.channel, m.Valid ∧ m ∈ delivered ∧ n.Unforged honest m) :
    (n.setPeer i p).Attributed honest delivered := by
  have hext := n.extends_setPeer hadds
  have hcreated : ∀ b : Bid, n.Created b ∨ Exposed honest b →
      (n.setPeer i p).Created b ∨ Exposed honest b := fun b hb => hb.imp_left (Created.mono hext)
  -- bids of the node's transactions are created by the node itself
  have hown : ∀ b ∈ (n.node i).created, n.Created b := fun b hb => ⟨i, b, hb, rfl⟩
  constructor
  · intro j
    by_cases hij : j = i
    · subst hij
      rw [node_setPeer_self]
      exact hnode
    · rw [n.node_setPeer_of_ne hij]
      exact h.nodes j
  · intro j m hm
    by_cases hij : j = i
    · subst hij
      rw [peers_setPeer_self] at hm
      obtain ⟨hvalid, hdelivered, hunforged⟩ := hchannel m hm
      exact ⟨hvalid, hdelivered, hunforged.mono hext⟩
    · rw [n.peers_setPeer_of_ne hij] at hm
      obtain ⟨hvalid, hdelivered, hunforged⟩ := h.channel j m hm
      exact ⟨hvalid, hdelivered, hunforged.mono hext⟩
  · intro j m hm w hw
    by_cases hij : j = i
    · subst hij
      rw [node_setPeer_self] at hm ⊢
      rcases hadds.of_published m hm with hold | hnew
      · exact hadds.written (h.published j m hold w hw)
      · exact hadds.written (hnew w hw)
    · rw [n.node_setPeer_of_ne hij] at hm ⊢
      exact h.published j m hm w hw
  · intro j b hb
    apply hcreated
    by_cases hij : j = i
    · subst hij
      rw [node_setPeer_self] at hb
      rcases hadds.of_stored b hb with hold | hnew | ⟨w, hw, rfl⟩
      · exact h.stored j b hold
      · exact .inl (hown b hnew)
      · exact (htaken w hw).1.2.2
    · rw [n.node_setPeer_of_ne hij] at hb
      exact h.stored j b hb
  · intro j w hw
    apply hcreated
    by_cases hij : j = i
    · subst hij
      rw [node_setPeer_self] at hw
      rcases hadds.of_written w hw with hold | hnew | hstored
      · exact h.written j w hold
      · exact .inl (hown w.bid hnew)
      · exact h.stored j w.bid hstored
    · rw [n.node_setPeer_of_ne hij] at hw
      exact h.written j w hw
  · intro j id key v hv
    by_cases hij : j = i
    · subst hij
      rw [node_setPeer_self] at hv ⊢
      rcases hadds.of_value id key v hv with hold | ⟨w, hw | hw, hfields⟩
      · obtain ⟨w, hfields, hauthentic, hplay, hattributed⟩ := h.value j id key v hold
        exact ⟨w, hfields, hauthentic, hplay.imp_left fun hw => hadds.written hw,
          hattributed.imp_left (Written.mono hext)⟩
      · obtain ⟨t, ht, hw'⟩ := hw
        refine ⟨w, hfields, (((h.nodes j).sound.transactions t ht).writes w hw').1,
          .inl (hadds.written ⟨t, ht, hw'⟩), .inl ?_⟩
        exact Written.mono hext ⟨j, w, ⟨t, ht, hw'⟩, rfl, rfl, rfl, rfl⟩
      · obtain ⟨⟨hauthentic, hattributed, -⟩, hplay⟩ := htaken w hw
        exact ⟨w, hfields, hauthentic, .inr hplay, hattributed.imp_left (Written.mono hext)⟩
    · rw [n.node_setPeer_of_ne hij] at hv ⊢
      obtain ⟨w, hfields, hauthentic, hplay, hattributed⟩ := h.value j id key v hv
      exact ⟨w, hfields, hauthentic, hplay, hattributed.imp_left (Written.mono hext)⟩

/-! ### Runs -/

/-- Whenever a node receives a message that is signed for an honest account, a node has signed that text
before. -/
def Authenticated (honest : Set Address) (n : Network N) : List (NetworkAction N) → Prop
  | [] => True
  | a :: as =>
    (∀ payload m, a.action = .transport (.receive payload) → N.decoding.message payload = some m →
      n.Unforged honest m) ∧
    ∀ n', n.step a = some n' → n'.Authenticated honest as

/-- The messages that arrive in a run. -/
def deliveries (N : NetworkSetup ι) (as : List (NetworkAction N)) : Set DAMessage :=
  { m | ∃ a ∈ as, ∃ payload, a.action = .transport (.receive payload) ∧ N.decoding.message payload = some m }

theorem mem_received {D : Decoding} {sender : Bytes → Bytes → Except GoError Address}
    {a : PeerAction sender} {m : DAMessage} (h : m ∈ received D [a]) :
    ∃ payload, a = .transport (.receive payload) ∧ D.message payload = some m := by
  obtain ⟨b, hb, hm⟩ := List.mem_filterMap.mp h
  obtain rfl := List.mem_singleton.mp hb
  cases b with
  | transport e =>
    cases e with
    | receive payload => exact ⟨payload, rfl, hm⟩
    | _ => cases hm
  | _ => cases hm

/-- An action of a node that is not a message takes nothing in. -/
theorem Attributed.managedStep (h : n.Attributed honest delivered) {i : ι} {p : Peer (N.setup i)}
    {b : ManagedAction (N.setup i)} (hstep : (n.peers i).managed.step backend b = some p.managed)
    (hb : ∀ m, b = .node (.newMessage m) → m.Valid ∧ m ∈ delivered ∧ n.Unforged honest m)
    (hchannel : ∀ m ∈ p.subscription.channel, m.Valid ∧ m ∈ delivered ∧ n.Unforged honest m) :
    (n.setPeer i p).Attributed honest delivered := by
  cases b with
  | setManager manager =>
    have hsame : p.managed.node = n.node i := by
      rw [← Option.some.inj hstep]
      rfl
    have hadds : (n.node i).Adds ∅ p.managed.node := by
      rw [hsame]
      exact Node.Adds.refl _ _
    refine h.setPeer hadds ?_ (fun w hw => absurd hw (Set.notMem_empty w)) hchannel
    rw [hsame]
    exact h.nodes i
  | node a =>
    simp only [ManagedNode.step, Option.map_eq_some_iff] at hstep
    obtain ⟨node, hnode, hp⟩ := hstep
    have hnew : p.managed.node = node := by rw [← hp]
    rw [← hnew] at hnode
    refine h.setPeer (Node.adds_step hnode) ((h.nodes i).step (fun _ => rfl) hnode) ?_ hchannel
    rintro w ⟨m, rfl, hvalid, hw⟩
    obtain ⟨hm, hdelivered, hunforged⟩ := hb m rfl
    exact ⟨h.of_taken hm hunforged hvalid hw, m, hdelivered, hw⟩

theorem Attributed.step (h : n.Attributed honest delivered) {a : NetworkAction N}
    (hauth : ∀ payload m, a.action = .transport (.receive payload) → N.decoding.message payload = some m →
      m ∈ delivered ∧ n.Unforged honest m)
    (hstep : n.step a = some n') : n'.Attributed honest delivered := by
  unfold Network.step at hstep
  rw [Option.map_eq_some_iff] at hstep
  obtain ⟨p, hp, rfl⟩ := hstep
  have hold := h.channel a.node
  -- the node itself stays as it is
  have hidle : p.managed = (n.peers a.node).managed →
      (∀ m ∈ p.subscription.channel, m.Valid ∧ m ∈ delivered ∧ n.Unforged honest m) →
      (n.setPeer a.node p).Attributed honest delivered := by
    intro hsame hchannel
    have hsetManager : (n.peers a.node).managed.step backend (.setManager (n.peers a.node).managed.manager) =
        some p.managed := by
      rw [hsame]
      rfl
    exact h.managedStep hsetManager (by simp) hchannel
  rcases Peer.step_cases hp with ⟨-, -, hchannel, bs, hbs, hhandled, hlength⟩ |
    ⟨message, hone, -, hmanaged, -, hchannel⟩ | ⟨message, -, -, hchannel, hnew⟩ | ⟨-, -, -, rfl⟩
  · rw [← hchannel] at hold
    cases bs with
    | nil => exact hidle (Option.some.inj hbs).symm hold
    | cons b bs =>
      obtain rfl : bs = [] := List.length_eq_zero_iff.mp (by
        rw [List.length_cons] at hlength
        omega)
      simp only [ManagedNode.run, Option.bind_eq_some_iff] at hbs
      obtain ⟨managed, hb, hend⟩ := hbs
      rw [Option.some.inj hend] at hb
      refine h.managedStep hb ?_ hold
      rintro m rfl
      exact absurd hhandled (by simp [handled])
  · apply hidle hmanaged
    intro m hm
    have hsub : m ∈ (n.peers a.node).subscription.channel ∨ m = message := by
      rw [hchannel] at hm
      split_ifs at hm with hroom
      · exact (List.mem_append.mp hm).imp_right List.mem_singleton.mp
      · exact .inl hm
    rcases hsub with hm | rfl
    · exact hold m hm
    · have hmem := List.mem_singleton_self m
      rw [← hone] at hmem
      obtain ⟨payload, haction, hread⟩ := mem_received hmem
      exact ⟨valid_of_subscribe (Option.filter_eq_some_iff.mp hread).1, hauth payload m haction hread⟩
  · have hmem : message ∈ (n.peers a.node).subscription.channel := by
      rw [hchannel]
      exact List.mem_cons_self
    refine h.managedStep hnew ?_ ?_
    · intro m hm
      cases hm
      exact hold message hmem
    · intro m hm
      apply hold
      rw [hchannel]
      exact List.mem_cons_of_mem _ hm
  · exact hidle rfl hold

theorem Attributed.run (h : n.Attributed honest delivered) {as : List (NetworkAction N)}
    (hdelivered : deliveries N as ⊆ delivered) (hauth : n.Authenticated honest as)
    (hrun : n.run as = some n') : n'.Attributed honest delivered := by
  induction as generalizing n with
  | nil =>
    cases hrun
    exact h
  | cons a as ih =>
    simp only [Network.run, Option.bind_eq_some_iff] at hrun
    obtain ⟨n₁, hstep, hrest⟩ := hrun
    refine ih (h.step ?_ hstep) (fun m hm => hdelivered ?_) (hauth.2 n₁ hstep) hrest
    · intro payload m haction hread
      exact ⟨hdelivered ⟨a, List.mem_cons_self, payload, haction, hread⟩, hauth.1 payload m haction hread⟩
    · obtain ⟨b, hb, hread⟩ := hm
      exact ⟨b, List.mem_cons_of_mem _ hb, hread⟩

/-- The bids that occur in a run: in transactions, and in the messages that arrive. -/
def bidsInPlay (as : List (NetworkAction N)) (n : Network N) : Set Bid :=
  { b | (∃ i, ∃ w ∈ (n.node i).written, w.bid = b) ∨
    ∃ m ∈ deliveries N as, ∃ w ∈ m.storeWrites.elems, w.bid = b }

/-- **Integrity of the bids of honest stores.**  Nobody but the nodes of the network signs for the accounts
in `honest`.  Whatever else is sent to the nodes: a bid in the storage of a node whose allowed stores are all
honest was made by `InitializeBid` of a node, and every value under it was stored, by a transaction of a
node, for a caller whom the bid allows.  That no other bid in the run has the hash of this one is assumed. -/
theorem integrity {as : List (NetworkAction N)} (hrun : (init N).run as = some n)
    (hauth : (init N).Authenticated honest as) {i : ι} {id : BidId} {bid : Bid}
    (hbid : (n.node i).engine.storage.bids id = some bid)
    (hhonest : ∀ a ∈ bid.allowedStores.elems, a ∈ honest)
    (hcollision : ∀ b ∈ bidsInPlay as n,
      N.newSHA1 bidUuidSpace (bidBody b.toInnerBid) = N.newSHA1 bidUuidSpace (bidBody bid.toInnerBid) →
        bidBody b.toInnerBid = bidBody bid.toInnerBid) :
    (∃ j, ∃ c ∈ (n.node j).created, c.toInnerBid = bid.toInnerBid) ∧
      ∀ key v, (n.node i).engine.storage.dataMap (dataKey id key) = some v →
        ∃ j, ∃ w ∈ (n.node j).written, w.bid.id = id ∧ w.key = key ∧ w.value = v ∧ bid.allows w.caller := by
  have hinv := (attributed_init honest (deliveries N as)).run subset_rfl hauth hrun
  have hnot : ¬ Exposed honest bid := by
    rintro ⟨a, ha, hne⟩
    exact hne (hhonest a ha)
  refine ⟨(hinv.stored i bid ⟨id, hbid⟩).resolve_right hnot, ?_⟩
  intro key v hv
  obtain ⟨w, ⟨rfl, rfl, rfl⟩, ⟨hauthentic, hallows⟩, hplay, hattributed⟩ := hinv.value i id key v hv
  -- the copy of the bid that was written on has the same id, hence the same lists
  obtain ⟨hid, hbidauthentic⟩ := (hinv.nodes i).sound.stored _ bid hbid
  have hbody : bidBody w.bid.toInnerBid = bidBody bid.toInnerBid := by
    apply hcollision
    · rcases hplay with hwritten | ⟨m, hm, hw⟩
      · exact .inl ⟨i, w, hwritten, rfl⟩
      · exact .inr ⟨m, hm, w, hw, rfl⟩
    · have heq : calculateBidId N.json w.bid.toInnerBid = calculateBidId N.json bid.toInnerBid :=
        hauthentic.trans ((congrArg Except.ok hid.symm).trans hbidauthentic.symm)
      exact Except.ok.inj heq
  obtain ⟨-, -, hpeekers, hstores, -⟩ := bidBody_eq_iff.mp hbody
  have hwnot : ¬ Exposed honest w.bid := by
    rintro ⟨a, ha, hne⟩
    have hstores' : w.bid.allowedStores = bid.allowedStores := hstores
    rw [hstores'] at ha
    exact hne (hhonest a ha)
  obtain ⟨j, w', hw', hsame⟩ := hattributed.resolve_right hwnot
  refine ⟨j, w', hw', congrArg InnerBid.id hsame.bid, hsame.key, hsame.value, ?_⟩
  have hpeekers' : w.bid.allowedPeekers = bid.allowedPeekers := hpeekers
  rw [Bid.allows, hpeekers'] at hallows
  rw [hsame.caller]
  exact hallows

/-! ### A value that travels -/

theorem run_append (n : Network N) (as bs : List (NetworkAction N)) :
    n.run (as ++ bs) = (n.run as).bind fun n' => n'.run bs := by
  induction as generalizing n with
  | nil => rfl
  | cons a as ih =>
    rw [List.cons_append, run, run, Option.bind_assoc]
    congr 1
    funext n'
    exact ih n'

theorem setPeer_self (n : Network N) (i : ι) : n.setPeer i (n.peers i) = n := by
  unfold setPeer
  rw [Function.update_eq_self]

theorem setPeer_setPeer (n : Network N) (i : ι) (p q : Peer (N.setup i)) :
    (n.setPeer i p).setPeer i q = n.setPeer i q := by
  unfold setPeer
  rw [Function.update_idem]

/-- A run of one node is a run of the network. -/
theorem run_map_node {i : ι} {p : Peer (N.setup i)} {as : List (PeerAction N.sender)}
    (h : (n.peers i).run N.decoding as = some p) : n.run (as.map (⟨i, ·⟩)) = some (n.setPeer i p) := by
  induction as generalizing n with
  | nil =>
    obtain rfl := Option.some.inj h
    rw [setPeer_self]
    rfl
  | cons a as ih =>
    simp only [Peer.run, Option.bind_eq_some_iff] at h
    obtain ⟨p₁, hstep, hrest⟩ := h
    have hfirst : n.step ⟨i, a⟩ = some (n.setPeer i p₁) := by
      rw [Network.step, hstep, Option.map_some]
    have hnext : ((n.setPeer i p₁).peers i).run N.decoding as = some p := by
      rw [peers_setPeer_self]
      exact hrest
    rw [List.map_cons, run, hfirst, Option.bind_some, ih hnext, setPeer_setPeer]

theorem Authenticated.append {as bs : List (NetworkAction N)} (h : n.Authenticated honest as)
    (hbs : ∀ n', n.run as = some n' → n'.Authenticated honest bs) :
    n.Authenticated honest (as ++ bs) := by
  induction as generalizing n with
  | nil => exact hbs n rfl
  | cons a as ih =>
    refine ⟨h.1, fun n₁ hstep => ih (h.2 n₁ hstep) ?_⟩
    intro n' hrun
    apply hbs n'
    rw [run, hstep, Option.bind_some, hrun]

/-- Without messages from outside there is nothing to forge. -/
theorem authenticated_of_forall_ne {as : List (NetworkAction N)}
    (h : ∀ a ∈ as, ∀ payload, a.action ≠ .transport (.receive payload)) : n.Authenticated honest as := by
  induction as generalizing n with
  | nil => trivial
  | cons a as ih =>
    rw [List.forall_mem_cons] at h
    exact ⟨fun payload m haction => absurd haction (h.1 payload), fun n' _ => ih h.2⟩

/-- Two nodes that sign for the same account. -/
def pairSetup : NetworkSetup Bool where
  crypto := SuaveSigner.sampleCrypto
  decoding := Peer.plainDecoding
  newSHA1 := mockEncoding.newSHA1
  sender := ideal
  chainSender := mockConfig.chainSender
  storeUUID i := if i then 2 else 1
  manager _ := ManagedNode.lateManager

/-- The first node stores a value. -/
def storing : List (PeerAction pairSetup.sender) :=
  [.newTransactionalStore (some mockRequest), .apply 0 (.initializeBid TransactionalStore.publicBid),
    .apply 0 (.store ManagedNode.jsonBid.id 0 [97] [1]), .finalize 0 [ManagedNode.jsonBid]]

/-- The second one receives it. -/
def receiving : List (PeerAction pairSetup.sender) :=
  [.transport (.receive (publish SuaveSigner.sampleCrypto mockCodec (ManagedNode.jsonMessage [97]))),
    .transport .take]

def pairRun : List (NetworkAction pairSetup) :=
  storing.map (⟨false, ·⟩) ++ receiving.map (⟨true, ·⟩)

theorem run_storing :
    (Peer.init (pairSetup.setup false)).run Peer.plainDecoding storing =
      some ⟨ManagedNode.jsonNode [97], .new⟩ := by
  have hrun := (ManagedNode.run_jsonRun [97]).1
  simp only [ManagedNode.jsonRun, ManagedNode.run, Option.bind_eq_some_iff] at hrun
  obtain ⟨n₁, h₁, n₂, h₂, n₃, h₃, n₄, h₄, hend⟩ := hrun
  have hact : ∀ {m m' : ManagedNode ManagedNode.jsonSetup LocalConfidentialStore} {b},
      m.step backend b = some m' → (Peer.mk m .new).act b = some ⟨m', .new⟩ := by
    intro m m' b hb
    rw [Peer.act, hb, Option.map_some]
  rw [← Option.some.inj hend]
  exact Peer.run_cons (hact h₁) (Peer.run_cons (hact h₂) (Peer.run_cons (hact h₃)
    (Peer.run_cons (hact h₄) rfl)))

/-- The one write of the first node. -/
theorem written_jsonNode {w : StoreWrite} (hw : w ∈ (ManagedNode.jsonNode [97]).node.written) :
    w.bid = ManagedNode.jsonBid := by
  have hrun := (ManagedNode.run_jsonRun [97]).1
  obtain ⟨hinit, hpeekers, -⟩ := ManagedNode.initializeBid_jsonBid
  have hnew : ManagedNode.jsonBid.id ∉ (TransactionalStore.new (some mockRequest)).pendingBids.map Bid.id :=
    List.not_mem_nil
  let t := (TransactionalStore.new (some mockRequest)).addBid ManagedNode.jsonBid hnew
  have hcreate : (TransactionalStore.new (some mockRequest)).apply
      ((ManagedNode.jsonSetup.config ManagedNode.jsonSetup.manager).engine backend) empty
      (.initializeBid TransactionalStore.publicBid) = .ok t :=
    TransactionalStore.apply_initializeBid_eq_ok_iff.mpr ⟨_, hnew, hinit, rfl⟩
  have hfetch : t.fetchBidById ((ManagedNode.jsonSetup.config ManagedNode.jsonSetup.manager).engine backend) empty
      ManagedNode.jsonBid.id = .ok ManagedNode.jsonBid := by
    simp [t, TransactionalStore.fetchBidById, TransactionalStore.pendingBid, TransactionalStore.addBid,
      TransactionalStore.new]
  have hallows : ManagedNode.jsonBid.allows 0 := by
    unfold Bid.allows
    rw [hpeekers]
    rfl
  have hstore : t.apply ((ManagedNode.jsonSetup.config ManagedNode.jsonSetup.manager).engine backend) empty
      (.store ManagedNode.jsonBid.id 0 [97] [1]) = .ok (t.addWrite ⟨ManagedNode.jsonBid, 0, [97], [1]⟩) :=
    TransactionalStore.apply_store_eq_ok_iff.mpr ⟨_, hfetch, hallows, rfl⟩
  have hperm : [ManagedNode.jsonBid].Perm (t.addWrite ⟨ManagedNode.jsonBid, 0, [97], [1]⟩).pendingBids :=
    List.Perm.refl _
  simp only [ManagedNode.jsonRun, ManagedNode.run, ManagedNode.step, ManagedNode.engine, ManagedNode.init,
    Node.init, Node.step, List.nil_append, List.getElem?_cons_zero, Option.map_some, hcreate, hstore,
    Option.bind_some, List.set_cons_zero] at hrun
  rw [if_pos hperm] at hrun
  rw [← Option.some.inj hrun] at hw
  obtain ⟨u, hu, hw⟩ := hw
  obtain rfl := List.mem_singleton.mp hu
  rw [TransactionalStore.pendingWrites_addWrite] at hw
  rw [List.mem_singleton.mp hw]

theorem valid_jsonMessage : (ManagedNode.jsonMessage [97]).Valid := by
  intro w hw
  rw [ManagedNode.eq_of_mem_jsonMessage hw, ManagedNode.initializeBid_jsonBid.2.2.2.2]
  decide

theorem message_jsonMessage :
    Peer.plainDecoding.message
        (publish SuaveSigner.sampleCrypto mockCodec (ManagedNode.jsonMessage [97])) =
      some (ManagedNode.jsonMessage [97]) := by
  have hread := subscribe_publish_of_valid (C := SuaveSigner.sampleCrypto) (E := mockCodec)
    (ManagedNode.jsonSafe_jsonMessage [97]) valid_jsonMessage
  exact Option.filter_eq_some_iff.mpr ⟨hread, rfl⟩

theorem validateMessage_jsonMessage :
    ManagedNode.jsonPeer.validateMessage (ManagedNode.jsonMessage [97]) = .ok true := by
  have hpublished := (ManagedNode.honest_of_run_empty (ManagedNode.run_jsonRun [97]).1).published _
    (ManagedNode.mem_published_jsonNode [97])
  obtain ⟨node, hnode⟩ := hpublished.signed
  obtain rfl : node = SuaveSigner.sampleAddress 2 := by
    obtain ⟨_, -, -, hexecution⟩ := hnode
    rw [(ManagedNode.jsonMessage_spec [97]).1, ManagedNode.executionNode_mockRequest] at hexecution
    exact (Except.ok.inj hexecution).symm
  refine (hpublished.validateMessage_eq_true_iff ManagedNode.agrees_jsonPeer hnode).mpr ⟨?_, ?_⟩
  · rintro ⟨huuid, -⟩
    exact absurd huuid (by decide)
  · intro w hw
    refine ⟨ManagedNode.mem_allowedStores_jsonMessage [97] w hw, ?_⟩
    rw [ManagedNode.eq_of_mem_jsonMessage hw, ManagedNode.initializeBid_jsonBid.2.2.2.1]
    exact ⟨_, ManagedNode.chainSender_mockRequest⟩

/-- The message goes into the channel, comes out of it and is accepted. -/
theorem exists_run_receiving :
    ∃ p : Peer (pairSetup.setup true),
      (Peer.init (pairSetup.setup true)).run Peer.plainDecoding receiving = some p ∧
        p.managed.node.transactions = [] ∧
        p.managed.node.engine.storage =
          atomic.takeWrites empty [⟨ManagedNode.jsonBid, 0, [97], [1]⟩] := by
  have hreceive := Peer.step_receive_of_room (p := Peer.init (pairSetup.setup true)) rfl
    message_jsonMessage (by decide)
  have hconfig : (pairSetup.setup true).config ManagedNode.lateManager = ManagedNode.jsonPeer := rfl
  have hvalid := validateMessage_jsonMessage
  rw [← hconfig] at hvalid
  obtain ⟨p, htake, htransactions, hstorage⟩ := Peer.step_take_of_valid (D := Peer.plainDecoding)
    (p := ⟨.init (pairSetup.setup true) empty, ⟨[ManagedNode.jsonMessage [97]], false⟩⟩) rfl hvalid
  rw [(ManagedNode.jsonMessage_spec [97]).2.1] at hstorage
  exact ⟨p, Peer.run_cons hreceive (Peer.run_cons htake rfl), htransactions, hstorage⟩

/-- The network when the first node has published. -/
def pairStored : Network pairSetup := (init pairSetup).setPeer false ⟨ManagedNode.jsonNode [97], .new⟩

theorem node_pairStored : pairStored.node false = (ManagedNode.jsonNode [97]).node :=
  (init pairSetup).node_setPeer_self false _

theorem run_pairStored : (init pairSetup).run (storing.map (⟨false, ·⟩)) = some pairStored :=
  run_map_node run_storing

/-- The only message on the way is the one that the first node has signed. -/
theorem authenticated_pairRun :
    (init pairSetup).Authenticated { SuaveSigner.sampleAddress 2 } pairRun := by
  apply Authenticated.append
  · apply authenticated_of_forall_ne
    intro a ha payload
    obtain ⟨b, hb, rfl⟩ := List.mem_map.mp ha
    simp only [storing, List.mem_cons, List.not_mem_nil, or_false] at hb
    rcases hb with rfl | rfl | rfl | rfl <;> simp
  · intro n hn
    obtain rfl : pairStored = n := Option.some.inj (run_pairStored.symm.trans hn)
    refine ⟨?_, fun n' _ => ⟨by simp, fun _ _ => trivial⟩⟩
    intro payload m haction hm a _ _
    obtain rfl : publish SuaveSigner.sampleCrypto mockCodec (ManagedNode.jsonMessage [97]) = payload := by
      simpa using haction
    obtain rfl := Option.some.inj (message_jsonMessage.symm.trans hm)
    refine ⟨false, ManagedNode.jsonMessage [97], ?_, rfl⟩
    rw [node_pairStored]
    exact ManagedNode.mem_published_jsonNode [97]

theorem deliveries_pairRun {m : DAMessage} (hm : m ∈ deliveries pairSetup pairRun) :
    m = ManagedNode.jsonMessage [97] := by
  obtain ⟨a, ha, payload, haction, hread⟩ := hm
  simp only [pairRun, storing, receiving, List.map_cons, List.map_nil, List.cons_append, List.nil_append,
    List.mem_cons, List.not_mem_nil, or_false] at ha
  rcases ha with rfl | rfl | rfl | rfl | rfl | rfl
  case inr.inr.inr.inr.inl =>
    obtain rfl : publish SuaveSigner.sampleCrypto mockCodec (ManagedNode.jsonMessage [97]) = payload := by
      simpa using haction
    exact Option.some.inj (hread.symm.trans message_jsonMessage)
  all_goals cases haction

/-- **The value of the first node is at the second one**, and is attributed to the first. -/
theorem integrity_pairRun :
    ∃ n, (init pairSetup).run pairRun = some n ∧
      (n.node true).engine.storage.bids ManagedNode.jsonBid.id = some ManagedNode.jsonBid ∧
      (∃ j, ∃ c ∈ (n.node j).created, c.toInnerBid = ManagedNode.jsonBid.toInnerBid) ∧
      ∀ key v, (n.node true).engine.storage.dataMap (dataKey ManagedNode.jsonBid.id key) = some v →
        ∃ j, ∃ w ∈ (n.node j).written, w.bid.id = ManagedNode.jsonBid.id ∧ w.key = key ∧ w.value = v ∧
          ManagedNode.jsonBid.allows w.caller := by
  obtain ⟨p, hp, htransactions, hstorage⟩ := exists_run_receiving
  have hpeer : pairStored.peers true = Peer.init (pairSetup.setup true) :=
    (init pairSetup).peers_setPeer_of_ne (by decide) _
  have hreceived : pairStored.run (receiving.map (⟨true, ·⟩)) = some (pairStored.setPeer true p) := by
    apply run_map_node
    rw [hpeer]
    exact hp
  have hrun : (init pairSetup).run pairRun = some (pairStored.setPeer true p) := by
    rw [pairRun, run_append, run_pairStored, Option.bind_some, hreceived]
  have hbid : ((pairStored.setPeer true p).node true).engine.storage.bids ManagedNode.jsonBid.id =
      some ManagedNode.jsonBid := by
    have hbids := atomic.bids_takeWrites empty [⟨ManagedNode.jsonBid, 0, [97], [1]⟩] ManagedNode.jsonBid.id
    have hcopies : copies [⟨ManagedNode.jsonBid, 0, [97], [1]⟩] ManagedNode.jsonBid.id =
        [ManagedNode.jsonBid] := by
      simp [copies]
    rw [← hstorage, hcopies] at hbids
    rw [node_setPeer_self]
    exact hbids
  refine ⟨_, hrun, hbid, integrity hrun authenticated_pairRun hbid ?_ ?_⟩
  · intro a ha
    rw [ManagedNode.initializeBid_jsonBid.2.2.1] at ha
    exact List.mem_singleton.mp ha
  · -- all bids in play are the same one
    rintro b (⟨i, w, hw, rfl⟩ | ⟨m, hm, w, hw, rfl⟩) _
    · cases i with
      | false =>
        rw [node_setPeer_of_ne _ (by decide), node_pairStored] at hw
        rw [written_jsonNode hw]
      | true =>
        rw [node_setPeer_self] at hw
        obtain ⟨t, ht, -⟩ := hw
        rw [htransactions] at ht
        exact absurd ht List.not_mem_nil
    · rw [deliveries_pairRun hm] at hw
      rw [ManagedNode.eq_of_mem_jsonMessage hw]

end Network

end Suift
