import Suift.CStore.Equiv.LocalStore
import Suift.CStore.Mock
import Suift.CStore.TransactionalStore

/-!
# Reading inside a transaction and after its commit

A transaction answers a read from its pending writes, which it scans from the front, and else from
the engine (`toOption_retrieve`).  `Finalize` performs the same writes in order, so afterwards the
engine has the last of them (`toOption_retrieve_of_finalize`).  The first and the last value that a
transaction stored under a key are the same thing only if it did not overwrite
(`retrieve_agrees_iff`).

What is compared is the value, or that there is none: a key without a value is reported with other
words for a bid that is still pending than for one that is stored.
-/

namespace Suift

open Fallible WriteLog

/-! ### Inversion of the operations -/

/-- A bid completed by the engine carries the id of its contents. -/
theorem EngineConfig.calculateBidId_of_initializeBid {C : EngineConfig} {rawBid : InnerBid}
    {tx : Option Transaction} {bid : Bid} (h : C.initializeBid rawBid tx = .ok bid) :
    calculateBidId C.json bid.toInnerBid = .ok bid.id := by
  unfold EngineConfig.initializeBid at h
  simp only [bind_eq_ok_iff, mapError_eq_ok_iff, ite_throw_eq_ok_iff, pure_eq_ok_iff] at h
  obtain ⟨expectedId, hid, -, _, -, _, -, _, -, rfl⟩ := h
  exact hid

namespace TransactionalStore

variable {σ : Type} {E : ConfidentialStoreEngine σ} {s : σ} {t t' : TransactionalStore}

theorem apply_initializeBid_eq_ok_iff {rawBid : InnerBid} :
    t.apply E s (.initializeBid rawBid) = .ok t' ↔
      ∃ bid h, E.initializeBid rawBid t.sourceTx = .ok bid ∧ t' = t.addBid bid h := by
  simp only [apply, initializeBid, bind_eq_ok_iff, pure_eq_ok_iff]
  constructor
  · rintro ⟨_, ⟨bid, hbid, hdite⟩, rfl⟩
    split at hdite
    · exact absurd hdite (by simp)
    · rename_i hnew
      cases hdite
      exact ⟨bid, hnew, hbid, rfl⟩
  · rintro ⟨bid, hnew, hbid, rfl⟩
    exact ⟨(t.addBid bid hnew, bid.toInnerBid), ⟨bid, hbid, by rw [dif_neg hnew]; rfl⟩, rfl⟩

theorem apply_store_eq_ok_iff {bidId : BidId} {caller : Address} {key : GoString} {value : Bytes} :
    t.apply E s (.store bidId caller key value) = .ok t' ↔
      ∃ bid, t.fetchBidById E s bidId = .ok bid ∧ bid.allows caller ∧
        t' = t.addWrite ⟨bid, caller, key, value⟩ := by
  simp only [apply, store, bind_eq_ok_iff, ite_throw_eq_ok_iff, pure_eq_ok_iff]
  constructor
  · rintro ⟨_, ⟨bid, hbid, hallows, rfl⟩, rfl⟩
    exact ⟨bid, hbid, by simpa using hallows, rfl⟩
  · rintro ⟨bid, hbid, hallows, rfl⟩
    exact ⟨_, ⟨bid, hbid, by simpa using hallows, rfl⟩, rfl⟩

@[simp]
theorem pendingWrites_addWrite (w : StoreWrite) :
    (t.addWrite w).pendingWrites.elems = t.pendingWrites.elems ++ [w] :=
  Slice.elems_append _ _

theorem pendingBid_id {bidId : BidId} {bid : Bid} (h : t.pendingBid bidId = some bid) :
    bid.id = bidId := by
  simpa using List.find?_some h

/-- An induction over accepted operations: what each of them keeps holds at the end. -/
theorem applyAll_induction (P : TransactionalStore → List Op → Prop)
    (hstep : ∀ t t' pre op, P t pre → t.apply E s op = .ok t' → P t' (pre ++ [op]))
    {ops : List Op} (h : t.applyAll E s ops = .ok t') (ht : P t []) : P t' ops := by
  -- the operations already done go into the statement
  have hfrom : ∀ ops t pre, t.applyAll E s ops = .ok t' → P t pre → P t' (pre ++ ops) := by
    intro ops
    induction ops with
    | nil =>
      intro t pre h ht
      cases h
      rwa [List.append_nil]
    | cons op ops ih =>
      intro t pre h ht
      simp only [applyAll, bind_eq_ok_iff] at h
      obtain ⟨t₁, hop, hrest⟩ := h
      have hend := ih t₁ (pre ++ [op]) hrest (hstep t t₁ pre op ht hop)
      rwa [List.append_assoc] at hend
  exact hfrom ops t [] h ht

/-! ### Reading inside a transaction, over the local store -/

section Local

open LocalConfidentialStore

variable {C : EngineConfig} {l : LocalConfidentialStore} {id : BidId} {caller : Address}
  {key : GoString} {bid : Bid}

theorem fetchBidById_eq_ok_iff :
    t.fetchBidById (C.engine backend) l id = .ok bid ↔ (t.pendingBid id).or (l.bids id) = some bid := by
  unfold fetchBidById
  cases t.pendingBid id with
  | some b => simp
  | none =>
    show LocalConfidentialStore.fetchBidById l id = .ok bid ↔ _
    unfold LocalConfidentialStore.fetchBidById
    cases l.bids id <;> simp

theorem fetchBidById_id (hl : l.WF) (h : t.fetchBidById (C.engine backend) l id = .ok bid) :
    bid.id = id := by
  rw [fetchBidById_eq_ok_iff] at h
  cases hpending : t.pendingBid id with
  | some b =>
    rw [hpending] at h
    cases h
    exact pendingBid_id hpending
  | none =>
    rw [hpending] at h
    exact hl.id_eq id bid h

/-- The pending writes of a transaction are the values its operations stored. -/
theorem entries_pendingWrites (hl : l.WF) {tx : Option Transaction} {ops : List Op}
    (h : (new tx).applyAll (C.engine backend) l ops = .ok t) :
    entries t.pendingWrites.elems = stored ops := by
  refine applyAll_induction (fun t ops => entries t.pendingWrites.elems = stored ops) ?_ h rfl
  intro t t' pre op hpre hop
  cases op with
  | initializeBid rawBid =>
    obtain ⟨bid, hnew, -, rfl⟩ := apply_initializeBid_eq_ok_iff.mp hop
    simpa [stored, addBid] using hpre
  | store bidId caller key value =>
    obtain ⟨bid, hbid, -, rfl⟩ := apply_store_eq_ok_iff.mp hop
    have hid := fetchBidById_id hl hbid
    simp only [stored, entries, pendingWrites_addWrite, List.map_append, List.map_cons,
      List.map_nil, List.filterMap_append, List.filterMap_cons, List.filterMap_nil, hid] at hpre ⊢
    rw [hpre]

/-- The engine gives an allowed caller the value that is stored. -/
theorem toOption_engine_retrieve (h : l.bids id = some bid) (hid : bid.id = id)
    (hallows : bid.allows caller) :
    ((C.engine backend).retrieve l id caller key).toOption = l.value (id, key) := by
  have hfetch : LocalConfidentialStore.fetchBidById l id = .ok bid := by
    rw [LocalConfidentialStore.fetchBidById, h]
  have hretrieve : (C.engine backend).retrieve l id caller key =
      LocalConfidentialStore.retrieve l bid caller key := by
    unfold ConfidentialStoreEngine.retrieve
    show ((LocalConfidentialStore.fetchBidById l id).mapError _ >>= _) = _
    rw [hfetch]
    simp [Except.mapError, hallows, bind, Except.bind]
    rfl
  rw [hretrieve, LocalConfidentialStore.retrieve, hid, value]
  simp only [Function.comp]
  cases l.dataMap (dataKey id key) <;> rfl

theorem toOption_engine_retrieve_none (h : l.bids id = none) :
    ((C.engine backend).retrieve l id caller key).toOption = none := by
  unfold ConfidentialStoreEngine.retrieve
  show ((LocalConfidentialStore.fetchBidById l id).mapError _ >>= _).toOption = none
  rw [LocalConfidentialStore.fetchBidById, h]
  rfl

/-- A read inside a transaction: the first pending write, else the engine's value. -/
theorem toOption_retrieve (hl : l.WF) (hbid : t.fetchBidById (C.engine backend) l id = .ok bid)
    (hallows : bid.allows caller) :
    (t.retrieve (C.engine backend) l id caller key).toOption =
      (writesTo (entries t.pendingWrites.elems) (id, key)).head?.or
        ((C.engine backend).retrieve l id caller key).toOption := by
  have hid := fetchBidById_id hl hbid
  -- the scan of the source compares with the id of the fetched bid, the entries with the one asked for
  have hpred : ((fun e : (BidId × GoString) × Bytes => decide (e.1 = (id, key))) ∘
      fun w : StoreWrite => ((w.bid.id, w.key), w.value)) =
      fun w => decide (w.bid.id = bid.id ∧ w.key = key) := by
    funext w
    simp [hid]
  rw [← find?_eq_head?_writesTo, entries, List.find?_map, hpred]
  unfold retrieve
  rw [hbid]
  simp only [hallows, bind, Except.bind, Bool.not_true, Bool.false_eq_true, if_false]
  cases t.pendingWrites.elems.find? fun w => decide (w.bid.id = bid.id ∧ w.key = key) <;> rfl

/-! ### Reading after the commit -/

variable {order : List Bid} {published : List DAMessage} {st : EngineState LocalConfidentialStore}

/-- A successful `Finalize` puts in the pending bids, which were new, and then the writes. -/
theorem finalize_eq_ok (h : (t.finalize (C.engine backend) order).run ⟨l, published⟩ = .ok () st) :
    atomic.Fresh l order ∧
      st.storage = atomic.insertValues (atomic.insertBids l order) t.pendingWrites.elems := by
  obtain ⟨_, hfresh, -, -, rfl⟩ := (ConfidentialStoreEngine.finalize_eq_ok_iff atomic).mp h
  exact ⟨hfresh, rfl⟩

theorem storage_bids_of_finalize
    (h : (t.finalize (C.engine backend) order).run ⟨l, published⟩ = .ok () st) :
    st.storage.bids = atomic.bids (atomic.insertBids l order) := by
  rw [(finalize_eq_ok h).2]
  exact atomic.bids_insertValues _ _

/-- The bid that a transaction works with is the stored one after the commit. -/
theorem bids_of_finalize (horder : order.Perm t.pendingBids)
    (h : (t.finalize (C.engine backend) order).run ⟨l, published⟩ = .ok () st)
    (hbid : t.fetchBidById (C.engine backend) l id = .ok bid) : st.storage.bids id = some bid := by
  have hfresh := (finalize_eq_ok h).1
  rw [storage_bids_of_finalize h]
  rw [fetchBidById_eq_ok_iff] at hbid
  cases hpending : t.pendingBid id with
  -- `order` is the iteration order of a Go map: any permutation of the pending bids
  | some b =>
    rw [hpending] at hbid
    cases hbid
    have hmem : bid ∈ order := horder.mem_iff.mpr (List.mem_of_find?_eq_some hpending)
    rw [← pendingBid_id hpending]
    exact atomic.bids_insertBids_of_mem hfresh hmem
  | none =>
    rw [hpending] at hbid
    exact atomic.bids_insertBids_of_some hfresh hbid

/-- What the engine answered before the commit is the value it had under the key. -/
theorem toOption_engine_retrieve_before (hl : l.WF) (horder : order.Perm t.pendingBids)
    (h : (t.finalize (C.engine backend) order).run ⟨l, published⟩ = .ok () st)
    (hbid : t.fetchBidById (C.engine backend) l id = .ok bid) (hallows : bid.allows caller) :
    ((C.engine backend).retrieve l id caller key).toOption = l.value (id, key) := by
  have hid := fetchBidById_id hl hbid
  rw [fetchBidById_eq_ok_iff] at hbid
  cases hpending : t.pendingBid id with
  | some b =>
    -- a bid that is still pending is unknown to the engine, which has no value under it
    have hmem : b ∈ order := horder.mem_iff.mpr (List.mem_of_find?_eq_some hpending)
    have hnone : l.bids id = none := by
      rw [← pendingBid_id hpending]
      exact (finalize_eq_ok h).1.2 b hmem
    rw [toOption_engine_retrieve_none hnone, hl.value_none id key hnone]
  | none =>
    rw [hpending] at hbid
    exact toOption_engine_retrieve hbid hid hallows

/-- A read after the commit: the last write of the transaction, else the value from before. -/
theorem toOption_retrieve_of_finalize (hl : l.WF) (horder : order.Perm t.pendingBids)
    (h : (t.finalize (C.engine backend) order).run ⟨l, published⟩ = .ok () st)
    (hbid : t.fetchBidById (C.engine backend) l id = .ok bid) (hallows : bid.allows caller) :
    ((C.engine backend).retrieve st.storage id caller key).toOption =
      (writesTo (entries t.pendingWrites.elems) (id, key)).getLast?.or
        ((C.engine backend).retrieve l id caller key).toOption := by
  have hstored := bids_of_finalize horder h hbid
  rw [toOption_engine_retrieve hstored (fetchBidById_id hl hbid) hallows,
    toOption_engine_retrieve_before hl horder h hbid hallows, (finalize_eq_ok h).2,
    value_insertValues, value_insertBids, replay_apply]

/-- **Reads before and after the commit.**  After a successful `Finalize` an allowed caller reads the
last value that the transaction stored under the key, else the engine's old one.  Inside the
transaction the read gives the same exactly when the first and the last value that it stored under
the key are equal. -/
theorem retrieve_agrees_iff (hl : l.WF) {tx : Option Transaction} {ops : List Op}
    (hops : (new tx).applyAll (C.engine backend) l ops = .ok t) (horder : order.Perm t.pendingBids)
    (hfin : (t.finalize (C.engine backend) order).run ⟨l, published⟩ = .ok () st)
    (hbid : t.fetchBidById (C.engine backend) l id = .ok bid) (hallows : bid.allows caller) :
    ((C.engine backend).retrieve st.storage id caller key).toOption =
        (writesTo (stored ops) (id, key)).getLast?.or
          ((C.engine backend).retrieve l id caller key).toOption ∧
      ((t.retrieve (C.engine backend) l id caller key).toOption =
          ((C.engine backend).retrieve st.storage id caller key).toOption ↔
        (writesTo (stored ops) (id, key)).head? = (writesTo (stored ops) (id, key)).getLast?) := by
  rw [toOption_retrieve hl hbid hallows, toOption_retrieve_of_finalize hl horder hfin hbid hallows,
    entries_pendingWrites hl hops]
  exact ⟨rfl, head?_or_eq_getLast?_or_iff _ _⟩

/-! ### A transaction that overwrites -/

/-- A bid that anybody may read and write. -/
def publicBid : InnerBid where
  id := emptyId
  salt := 0
  decryptionCondition := 0
  allowedPeekers := some [allowedPeekerAny]
  allowedStores := none
  version := []

def publicBidId : BidId :=
  mockEncoding.newSHA1 bidUuidSpace (Rlp.encode (itemOfInnerBid publicBid))

/-- Create the public bid and store the values under one key of it, in this order. -/
def storeOps (values : List Bytes) : List Op :=
  .initializeBid publicBid :: values.map fun value => .store publicBidId 0 [] value

/-- The public bid as the mock engine completes it. -/
def storedPublicBid : Bid where
  id := publicBidId
  salt := 0
  decryptionCondition := 0
  allowedPeekers := some [allowedPeekerAny]
  allowedStores := none
  version := []
  creationTx := some mockRequest
  signature := Rlp.bigEndian 20 (SuaveSigner.sampleAddress 2).toNat

theorem nodup_storedPublicBid : ([storedPublicBid].map Bid.id).Nodup := List.nodup_singleton _

def storeTransaction (values : List Bytes) : TransactionalStore where
  sourceTx := some mockRequest
  pendingBids := [storedPublicBid]
  pendingWrites := some (values.map fun value => ⟨storedPublicBid, 0, [], value⟩)
  nodup := nodup_storedPublicBid

theorem exists_finalize_storeTransaction (values : List Bytes) :
    ∃ st, ((storeTransaction values).finalize (mockConfig.engine backend) [storedPublicBid]).run
      ⟨empty, []⟩ = .ok () st := by
  obtain ⟨pwMsg, hmsg⟩ := exists_signMessage_mockRequest (storeTransaction values).pendingWrites
  have hfresh : atomic.Fresh empty [storedPublicBid] :=
    ⟨List.nodup_singleton _, fun _ _ => rfl⟩
  exact ⟨_, (ConfidentialStoreEngine.finalize_eq_ok_iff atomic).mpr
    ⟨pwMsg, hfresh, fun _ _ => rfl, hmsg, rfl⟩⟩

theorem fetchBidById_storeTransaction (values : List Bytes) :
    (storeTransaction values).fetchBidById (mockConfig.engine backend) empty publicBidId =
      .ok storedPublicBid := by
  rw [fetchBidById_eq_ok_iff, pendingBid, storeTransaction]
  simp [storedPublicBid]

/-- A transaction that stores one value reads it back before and after the commit. -/
theorem retrieve_agrees_of_one_store :
    ∃ st : EngineState LocalConfidentialStore,
      ((mockConfig.engine backend).retrieve st.storage publicBidId 0 []).toOption =
          (writesTo (stored (storeOps [[1]])) (publicBidId, [])).getLast?.or
            ((mockConfig.engine backend).retrieve empty publicBidId 0 []).toOption ∧
        (((storeTransaction [[1]]).retrieve (mockConfig.engine backend) empty publicBidId 0 []).toOption =
            ((mockConfig.engine backend).retrieve st.storage publicBidId 0 []).toOption ↔
          (writesTo (stored (storeOps [[1]])) (publicBidId, [])).head? =
            (writesTo (stored (storeOps [[1]])) (publicBidId, [])).getLast?) := by
  obtain ⟨st, hfin⟩ := exists_finalize_storeTransaction [[1]]
  have hops : (new (some mockRequest)).applyAll (mockConfig.engine backend) empty (storeOps [[1]]) =
      .ok (storeTransaction [[1]]) := by
    decide +kernel
  exact ⟨st, retrieve_agrees_iff empty_wf hops (List.Perm.refl _) hfin
    (fetchBidById_storeTransaction _) (by decide +kernel)⟩

/-- A transaction that stores `1` and then `2` under one key reads `1`, and `2` is committed. -/
theorem exists_retrieve_disagrees :
    ¬ ∀ (C : EngineConfig) (l : LocalConfidentialStore) (tx : Option Transaction) (ops : List Op)
        (t : TransactionalStore) (order : List Bid) (st : EngineState LocalConfidentialStore)
        (id : BidId) (bid : Bid) (caller : Address) (key : GoString),
      l.WF → (new tx).applyAll (C.engine backend) l ops = .ok t → order.Perm t.pendingBids →
      (t.finalize (C.engine backend) order).run ⟨l, []⟩ = .ok () st →
      t.fetchBidById (C.engine backend) l id = .ok bid → bid.allows caller →
        (t.retrieve (C.engine backend) l id caller key).toOption =
          ((C.engine backend).retrieve st.storage id caller key).toOption := by
  intro hall
  obtain ⟨st, hfin⟩ := exists_finalize_storeTransaction [[1], [2]]
  have hops : (new (some mockRequest)).applyAll (mockConfig.engine backend) empty
      (storeOps [[1], [2]]) = .ok (storeTransaction [[1], [2]]) := by
    decide +kernel
  have hbid := fetchBidById_storeTransaction [[1], [2]]
  have hallows : storedPublicBid.allows 0 = true := by decide +kernel
  have hread := hall _ _ _ _ _ _ _ _ _ 0 [] empty_wf hops (List.Perm.refl _) hfin hbid hallows
  rw [toOption_retrieve empty_wf hbid hallows,
    toOption_retrieve_of_finalize empty_wf (List.Perm.refl _) hfin hbid hallows,
    head?_or_eq_getLast?_or_iff] at hread
  revert hread
  decide +kernel

end Local

end TransactionalStore

end Suift
