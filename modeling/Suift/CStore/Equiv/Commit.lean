import Suift.CStore.Equiv.LocalStore
import Suift.CStore.Equiv.Node
import Mathlib.Data.Option.Basic

/-!
# Isolation and commit of a transaction on the local store

Until `Finalize` a transaction only changes itself (`engine_of_run_pending`).  A storage phase that
succeeds adds the pending bids and performs the pending writes in order.  The order in which the bids
are visited only shows in the order within the lists of the index (`index_insertBids`), so any two
orders lead to the same bids, the same values and the same lists up to order (`finalize_commits`).
-/

namespace Suift

open Fallible WriteLog Stateful

/-- An operation that opens a transaction or adds to one. -/
def NodeAction.IsPending : NodeAction → Prop
  | .newTransactionalStore _ => True
  | .apply _ _ => True
  | .finalize _ _ => False
  | .newMessage _ => False

namespace Node

variable {σ : Type} {E : ConfidentialStoreEngine σ}

theorem engine_of_step_pending {n n' : Node σ} {a : NodeAction} (ha : a.IsPending)
    (h : n.step E a = some n') : n'.engine = n.engine := by
  match a, ha with
  | .newTransactionalStore _, _ =>
    cases h
    rfl
  | .apply i op, _ =>
    simp only [Node.step, Option.map_eq_some_iff] at h
    obtain ⟨t, -, rfl⟩ := h
    -- whether the operation succeeds or fails
    cases t.apply E n.engine.storage op <;> rfl

/-- **Isolation.**  Whatever transactions do before `Finalize`, the engine stays as it is. -/
theorem engine_of_run_pending {n n' : Node σ} {as : List NodeAction} (has : ∀ a ∈ as, a.IsPending)
    (h : n.run E as = some n') : n'.engine = n.engine := by
  induction as generalizing n with
  | nil =>
    cases h
    rfl
  | cons a as ih =>
    rw [List.forall_mem_cons] at has
    simp only [Node.run, Option.bind_eq_some_iff] at h
    obtain ⟨n₁, hstep, hrest⟩ := h
    rw [ih has.2 hrest, engine_of_step_pending has.1 hstep]

theorem run_applies {n : Node σ} {t t' : TransactionalStore} {ops : List TransactionalStore.Op}
    (h : t.applyAll E n.engine.storage ops = .ok t') :
    Node.run E ⟨n.engine, [t]⟩ (ops.map (.apply 0)) = some ⟨n.engine, [t']⟩ := by
  induction ops generalizing t with
  | nil =>
    obtain rfl := Except.ok.inj h
    rfl
  | cons op ops ih =>
    simp only [TransactionalStore.applyAll, bind_eq_ok_iff] at h
    obtain ⟨t₁, happly, hrest⟩ := h
    simp only [List.map_cons, run, step, List.getElem?_cons_zero, Option.map_some, happly,
      List.set_cons_zero, Option.bind_some]
    exact ih hrest

/-- The operations of a first transaction, one after the other. -/
theorem run_transaction {n : Node σ} {tx : Option Transaction} {t : TransactionalStore}
    {ops : List TransactionalStore.Op} (hnone : n.transactions = [])
    (h : (TransactionalStore.new tx).applyAll E n.engine.storage ops = .ok t) :
    n.run E (.newTransactionalStore tx :: ops.map (.apply 0)) = some ⟨n.engine, [t]⟩ := by
  simp only [run, step, hnone, List.nil_append, Option.bind_some]
  exact run_applies h

end Node

namespace LocalConfidentialStore

/-- The ids that `bids` add to the list under the index key `k`. -/
def idsUnder (k : GoString) (bids : List Bid) : List BidId :=
  (bids.filter fun bid => indexKey bid.version bid.decryptionCondition = k).map Bid.id

theorem idsUnder_cons_self (bid : Bid) (bids : List Bid) :
    idsUnder (indexKey bid.version bid.decryptionCondition) (bid :: bids) =
      bid.id :: idsUnder (indexKey bid.version bid.decryptionCondition) bids := by
  simp [idsUnder]

theorem idsUnder_cons_of_ne {k : GoString} {bid : Bid}
    (h : indexKey bid.version bid.decryptionCondition ≠ k) (bids : List Bid) :
    idsUnder k (bid :: bids) = idsUnder k bids := by
  simp [idsUnder, h]

theorem idsUnder_perm {k : GoString} {bids bids' : List Bid} (h : bids.Perm bids') :
    (idsUnder k bids).Perm (idsUnder k bids') := (h.filter _).map _

/-- A list of the index grows by the ids of the bids, and appears with the first of them. -/
theorem index_insertBids (l : LocalConfidentialStore) (bids : List Bid) (k : GoString) :
    (atomic.insertBids l bids).index k =
      if idsUnder k bids = [] then l.index k else some ((l.index k).getD [] ++ idsUnder k bids) := by
  unfold AtomicBackend.insertBids
  induction bids generalizing l with
  | nil => rfl
  | cons bid bids ih =>
    rw [List.foldl_cons, ih]
    show (if idsUnder k bids = [] then (l.insertBid bid).index k
      else some (((l.insertBid bid).index k).getD [] ++ idsUnder k bids)) = _
    by_cases hk : indexKey bid.version bid.decryptionCondition = k
    · subst hk
      have hindex : (l.insertBid bid).index (indexKey bid.version bid.decryptionCondition) =
          some ((l.index (indexKey bid.version bid.decryptionCondition)).getD [] ++ [bid.id]) := by
        simp [insertBid]
      rw [hindex, idsUnder_cons_self, if_neg (List.cons_ne_nil _ _), Option.getD_some,
        List.append_assoc, List.singleton_append]
      split_ifs with hnil
      · rw [hnil]
      · rfl
    · have hindex : (l.insertBid bid).index k = l.index k := by
        simp [insertBid, Function.update_of_ne (Ne.symm hk)]
      rw [hindex, idsUnder_cons_of_ne hk]

theorem index_insertValues (l : LocalConfidentialStore) (writes : List StoreWrite) :
    (atomic.insertValues l writes).index = l.index := by
  unfold AtomicBackend.insertValues
  induction writes generalizing l with
  | nil => rfl
  | cons w writes ih =>
    rw [List.foldl_cons, ih]
    rfl

/-- The value map after writes is a function of the value map before. -/
theorem dataMap_insertValues {l l' : LocalConfidentialStore} (h : l.dataMap = l'.dataMap)
    (writes : List StoreWrite) :
    (atomic.insertValues l writes).dataMap = (atomic.insertValues l' writes).dataMap := by
  unfold AtomicBackend.insertValues
  induction writes generalizing l l' with
  | nil => exact h
  | cons w writes ih =>
    rw [List.foldl_cons, List.foldl_cons]
    apply ih
    show (l.insertValue _ _ _).dataMap = (l'.insertValue _ _ _).dataMap
    rw [insertValue, insertValue, h]

/-- Two orders of the same bids build index lists with the same elements. -/
theorem index_insertBids_perm (l : LocalConfidentialStore) {bids bids' : List Bid}
    (h : bids.Perm bids') (k : GoString) :
    Option.Rel List.Perm ((atomic.insertBids l bids).index k) ((atomic.insertBids l bids').index k) := by
  have hperm := idsUnder_perm (k := k) h
  have hnil : idsUnder k bids = [] ↔ idsUnder k bids' = [] := by
    constructor
    · intro hb
      rw [hb] at hperm
      exact hperm.nil_eq.symm
    · intro hb
      rw [hb] at hperm
      exact hperm.eq_nil
  rw [index_insertBids, index_insertBids]
  by_cases hb : idsUnder k bids = []
  · rw [if_pos hb, if_pos (hnil.mp hb)]
    cases l.index k with
    | none => exact .none
    | some ids => exact .some (List.Perm.refl ids)
  · rw [if_neg hb, if_neg fun h' => hb (hnil.mpr h')]
    exact .some (hperm.append_left _)

end LocalConfidentialStore

namespace TransactionalStore

open LocalConfidentialStore

variable {C : EngineConfig} {t : TransactionalStore} {order : List Bid}
  {st st' : EngineState LocalConfidentialStore}

/-- The storage after a `Finalize` whose storage phase succeeds, also if it fails later. -/
theorem storage_after_finalize
    (h : ((C.engine backend).storePending order t.pendingWrites.elems).run st = .ok () st') :
    (after (t.finalize (C.engine backend) order) st).storage = st'.storage := by
  unfold after TransactionalStore.finalize ConfidentialStoreEngine.finalize
  rw [EStateM.run_bind, h]
  simp only [C.engine_toEngineConfig, EStateM.run_bind, ofExcept_apply]
  cases C.signMessage t.sourceTx t.pendingWrites <;> rfl

/-- Bids with distinct new ids can be put in in any order. -/
theorem fresh_of_perm {l : LocalConfidentialStore} {bids bids' : List Bid} (h : bids.Perm bids')
    (hfresh : atomic.Fresh l bids) : atomic.Fresh l bids' :=
  ⟨(h.map Bid.id).nodup_iff.mp hfresh.1, fun bid hbid => hfresh.2 bid (h.mem_iff.mpr hbid)⟩

/-- A list of bids with distinct ids is searched for an id with the same result in any order. -/
theorem find?_of_perm {bids bids' : List Bid} (h : bids.Perm bids') (hnodup : (bids.map Bid.id).Nodup)
    (id : BidId) : bids.find? (fun bid => bid.id = id) = bids'.find? fun bid => bid.id = id := by
  cases hfind : bids'.find? fun bid => bid.id = id with
  | none =>
    rw [List.find?_eq_none] at hfind ⊢
    exact fun bid hbid => hfind bid (h.mem_iff.mp hbid)
  | some bid =>
    have hmem := h.mem_iff.mpr (List.mem_of_find?_eq_some hfind)
    have hid : bid.id = id := by simpa using List.find?_some hfind
    cases hfind' : bids.find? fun b => b.id = id with
    | none => exact absurd (List.find?_eq_none.mp hfind' bid hmem) (by simp [hid])
    | some bid' =>
      have hid' : bid'.id = id := by simpa using List.find?_some hfind'
      rw [List.inj_on_of_nodup_map hnodup (List.mem_of_find?_eq_some hfind') hmem (hid'.trans hid.symm)]

/-- **Commit.**  Operations of transactions leave the engine alone, whatever the state of the local store
and the operations.  A `Finalize` after them, of any transaction, whose storage phase succeeds adds
exactly the pending bids, whose ids were not there, and leaves under every bid and key the last pending
write or else the old value.  Every other order of the pending bids gives the same bids, the same values
and the same index lists up to the order within a list. -/
theorem finalize_commits {n n' : Node LocalConfidentialStore} {as : List NodeAction}
    (has : ∀ a ∈ as, a.IsPending) (hrun : n.run (C.engine backend) as = some n')
    (horder : order.Perm t.pendingBids)
    (hstore : ((C.engine backend).storePending order t.pendingWrites.elems).run n'.engine = .ok () st) :
    n'.engine = n.engine ∧
      let l := n.engine.storage
      let l' := (after (t.finalize (C.engine backend) order) n'.engine).storage
      (∀ bid ∈ t.pendingBids, l.bids bid.id = none) ∧
      (∀ id, l'.bids id = (t.pendingBid id).or (l.bids id)) ∧
      (∀ id key, l'.value (id, key) =
        (writesTo (entries t.pendingWrites.elems) (id, key)).getLast?.or (l.value (id, key))) ∧
      ∀ order', order'.Perm t.pendingBids →
        let l'' := (after (t.finalize (C.engine backend) order') n'.engine).storage
        l''.bids = l'.bids ∧ l''.dataMap = l'.dataMap ∧
          ∀ k, Option.Rel List.Perm (l''.index k) (l'.index k) := by
  have hengine := Node.engine_of_run_pending has hrun
  rw [hengine] at hstore ⊢
  obtain ⟨hfresh, -, hst⟩ := (ConfidentialStoreEngine.storePending_eq_ok_iff atomic).mp hstore
  refine ⟨rfl, ?_⟩
  -- the storage that any order of the bids leads to
  have hafter : ∀ order', order'.Perm t.pendingBids →
      (after (t.finalize (C.engine backend) order') n.engine).storage =
        atomic.insertValues (atomic.insertBids n.engine.storage order') t.pendingWrites.elems := by
    intro order' horder'
    have hfresh' := fresh_of_perm (horder.trans horder'.symm) hfresh
    have hstore' : ((C.engine backend).storePending order' t.pendingWrites.elems).run n.engine =
        .ok () { n.engine with
          storage := atomic.insertValues (atomic.insertBids n.engine.storage order')
            t.pendingWrites.elems } :=
      (ConfidentialStoreEngine.storePending_eq_ok_iff atomic).mpr ⟨hfresh', fun _ _ => rfl, rfl⟩
    exact storage_after_finalize hstore'
  have hbids : ∀ order', order'.Perm t.pendingBids → ∀ id,
      (after (t.finalize (C.engine backend) order') n.engine).storage.bids id =
        (t.pendingBid id).or (n.engine.storage.bids id) := by
    intro order' horder' id
    have hfresh' := fresh_of_perm (horder.trans horder'.symm) hfresh
    have hinsert := atomic.bids_insertBids hfresh' id
    have hvalues := atomic.bids_insertValues (atomic.insertBids n.engine.storage order')
      t.pendingWrites.elems
    rw [hafter order' horder']
    show atomic.bids _ id = _
    rw [hvalues, hinsert, find?_of_perm horder' hfresh'.1, pendingBid]
    rfl
  refine ⟨?_, hbids order horder, ?_, ?_⟩
  · intro bid hbid
    exact hfresh.2 bid (horder.mem_iff.mpr hbid)
  · intro id key
    rw [hafter order horder, value_insertValues, replay_apply, value_insertBids]
  · intro order' horder'
    refine ⟨?_, ?_, ?_⟩
    · funext id
      rw [hbids order' horder', hbids order horder]
    · rw [hafter order' horder', hafter order horder]
      apply dataMap_insertValues
      rw [dataMap_insertBids, dataMap_insertBids]
    · intro k
      rw [hafter order' horder', hafter order horder, index_insertValues, index_insertValues]
      exact index_insertBids_perm _ (horder'.trans horder.symm) k

/-- The public bid with another salt. -/
def saltedBid (salt : BidId) : Bid :=
  { storedPublicBid with
    id := mockEncoding.newSHA1 bidUuidSpace (Rlp.encode (itemOfInnerBid { publicBid with salt := salt }))
    salt := salt }

theorem nodup_saltedBid : ([saltedBid 1, saltedBid 2].map Bid.id).Nodup := by
  decide +kernel

/-- A transaction with two bids and a value under each of them. -/
def pairTransaction : TransactionalStore where
  sourceTx := some mockRequest
  pendingBids := [saltedBid 1, saltedBid 2]
  pendingWrites := some [⟨saltedBid 1, 0, [], [1]⟩, ⟨saltedBid 2, 0, [], [2]⟩]
  nodup := nodup_saltedBid

def pairOps : List Op :=
  [.initializeBid { publicBid with salt := 1 }, .initializeBid { publicBid with salt := 2 },
    .store (saltedBid 1).id 0 [] [1], .store (saltedBid 2).id 0 [] [2]]

/-- A node that has stored the public bid and a value under it. -/
def storedNode : Node LocalConfidentialStore :=
  .init (atomic.insertValues (atomic.insertBids empty [storedPublicBid]) [⟨storedPublicBid, 0, [], [9]⟩])

/-- The operations are performed on top of what is stored, and both orders of the two bids lead to the
same bids and values. -/
theorem finalize_commits_pairTransaction :
    ∃ n', storedNode.run (mockConfig.engine backend)
        (.newTransactionalStore (some mockRequest) :: pairOps.map (.apply 0)) = some n' ∧
      n'.transactions = [pairTransaction] ∧ n'.engine = storedNode.engine ∧
      let l' := (after (pairTransaction.finalize (mockConfig.engine backend) [saltedBid 1, saltedBid 2])
        n'.engine).storage
      let l'' := (after (pairTransaction.finalize (mockConfig.engine backend) [saltedBid 2, saltedBid 1])
        n'.engine).storage
      l'.bids (saltedBid 2).id = some (saltedBid 2) ∧ l'.bids publicBidId = some storedPublicBid ∧
      l'.value ((saltedBid 1).id, []) = some [1] ∧ l'.value ((saltedBid 2).id, []) = some [2] ∧
      l'.value (publicBidId, []) = some [9] ∧
      l''.bids = l'.bids ∧ l''.dataMap = l'.dataMap ∧ ∀ k, Option.Rel List.Perm (l''.index k) (l'.index k) := by
  have hops : (new (some mockRequest)).applyAll (mockConfig.engine backend) storedNode.engine.storage pairOps =
      .ok pairTransaction := by
    decide +kernel
  have hrun := Node.run_transaction rfl hops
  have hpending : ∀ a ∈ NodeAction.newTransactionalStore (some mockRequest) :: pairOps.map (.apply 0),
      a.IsPending := by
    simp [NodeAction.IsPending]
  have hfresh : atomic.Fresh storedNode.engine.storage [saltedBid 1, saltedBid 2] :=
    ⟨nodup_saltedBid, by decide +kernel⟩
  have hstore : ((mockConfig.engine backend).storePending [saltedBid 1, saltedBid 2]
      pairTransaction.pendingWrites.elems).run storedNode.engine = .ok () _ :=
    (ConfidentialStoreEngine.storePending_eq_ok_iff atomic).mpr ⟨hfresh, fun _ _ => rfl, rfl⟩
  have horder : [saltedBid 1, saltedBid 2].Perm pairTransaction.pendingBids := List.Perm.refl _
  obtain ⟨hengine, -, hbids, hvalues, hsame⟩ := finalize_commits hpending hrun horder hstore
  refine ⟨_, hrun, rfl, hengine, ?_, ?_, ?_, ?_, ?_, hsame _ (List.Perm.swap _ _ _)⟩
  · rw [hbids]
    decide +kernel
  · rw [hbids]
    decide +kernel
  · rw [hvalues]
    decide +kernel
  · rw [hvalues]
    decide +kernel
  · rw [hvalues]
    decide +kernel

end TransactionalStore

end Suift
