import Suift.CStore.Equiv.Recording

/-!
# What holds of a node's storage in every run

A node on an empty local store, with local transactions and messages of any kind in any order.  Stored
bids carry the id of their contents and never change.  A value is stored only for a caller whom the
writer's copy of the bid allows; the copy has the same id as the stored bid, so unless two different
bids in play have the same id, the stored bid allows that caller as well (`storage_safe`).

Also every storage that a run reaches is well formed (`wf_of_run`).
-/

namespace Suift

open WriteLog Stateful ConfidentialStorageBackend

/-- The ids of the bids in `S` are collision free: they determine everything they are calculated
from. -/
def CollisionFreeOn (J : Encoding) (S : Set Bid) : Prop :=
  ∀ b ∈ S, ∀ c ∈ S, ∀ id, calculateBidId J b.toInnerBid = .ok id →
    calculateBidId J c.toInnerBid = .ok id →
    { b.toInnerBid with id := emptyId } = { c.toInnerBid with id := emptyId }

theorem CollisionFreeOn.allowedPeekers_eq {J : Encoding} {S : Set Bid} (h : CollisionFreeOn J S)
    {b c : Bid} (hb : b ∈ S) (hc : c ∈ S) (hbauth : b.Authentic J) (hcauth : c.Authentic J)
    (hid : b.id = c.id) : b.allowedPeekers = c.allowedPeekers := by
  have heq := h b hb c hc c.id (hid ▸ hbauth) hcauth
  exact congrArg InnerBid.allowedPeekers heq

namespace LocalConfidentialStore

/-- The record of a local store is complete, and all of it is authentic. -/
structure RecordSound (J : Encoding) (s : Recorded LocalConfidentialStore) : Prop where
  writes : ∀ w ∈ s.writes, w.Authentic J ∧ (s.inner.bids w.bid.id).isSome
  value_eq : s.inner.value = replay (fun _ => none) (entries s.writes)

theorem recordSound_empty (J : Encoding) : RecordSound J ⟨empty, []⟩ where
  writes _ h := absurd h List.not_mem_nil
  value_eq := rfl

theorem RecordSound.step {J : Encoding} {s s' : Recorded LocalConfidentialStore}
    (h : RecordSound J s) (hstep : atomic.recording.Step J s s') : RecordSound J s' := by
  have hsome : ∀ id, (s.inner.bids id).isSome → (s'.inner.bids id).isSome := fun id hid =>
    AtomicBackend.Steps.isSome_bids (.single hstep) hid
  cases hstep with
  | bid b hb hnew =>
    refine ⟨fun w hw => ⟨(h.writes w hw).1, hsome _ (h.writes w hw).2⟩, ?_⟩
    have hvalue := value_insertBids s.inner [b]
    exact hvalue.trans h.value_eq
  | write w hw hbid =>
    refine ⟨?_, ?_⟩
    · intro w' hw'
      rcases List.mem_append.mp hw' with hw' | hw'
      · exact ⟨(h.writes w' hw').1, hsome _ (h.writes w' hw').2⟩
      · obtain rfl := List.mem_singleton.mp hw'
        exact ⟨hw, hsome _ hbid⟩
    · show (s.inner.insertWrite w).value = replay _ (entries (s.writes ++ [w]))
      rw [value_insertWrite, h.value_eq, entries, entries, List.map_append, List.map_singleton,
        replay_concat]

theorem RecordSound.steps {J : Encoding} {s s' : Recorded LocalConfidentialStore}
    (h : RecordSound J s) (hsteps : atomic.recording.Steps J s s') : RecordSound J s' := by
  induction hsteps with
  | refl => exact h
  | tail _ hstep ih => exact ih.step hstep

end LocalConfidentialStore

namespace Node

open LocalConfidentialStore

variable {C : EngineConfig} {as : List NodeAction} {n : Node LocalConfidentialStore}

/-- The values stored in the run of a node on an empty local store, with the bid and the caller that
each was stored for, oldest first. -/
def storeCalls (C : EngineConfig) (as : List NodeAction) : List StoreWrite :=
  match (init ⟨empty, []⟩).run (C.engine backend.recording) as with
  | some n => n.engine.storage.writes
  | none => []

/-- The bids that a run has to do with: those in the storage at its end, and the copies that were
used for writing. -/
def bidsInPlay (C : EngineConfig) (as : List NodeAction) (n : Node LocalConfidentialStore) : Set Bid :=
  { bid | (∃ id, n.engine.storage.bids id = some bid) ∨ ∃ w ∈ storeCalls C as, w.bid = bid }

/-- The record of a run belongs to the storage at its end. -/
theorem exists_record (hrun : (init empty).run (C.engine backend) as = some n) :
    RecordSound C.json ⟨n.engine.storage, storeCalls C as⟩ := by
  have hrec := run_recording (C := C) (B := backend) (init ⟨empty, []⟩) as
  change (init empty).run (C.engine backend) as = _ at hrec
  rw [hrun] at hrec
  obtain ⟨m, hm, rfl⟩ := Option.map_eq_some_iff.mp hrec.symm
  have hsound : (init ⟨empty, []⟩).Sound atomic.recording C.json := sound_init fun _ => rfl
  obtain ⟨hsteps, -⟩ := hsound.run (fun _ => rfl) hm
  have hend := (recordSound_empty C.json).steps hsteps
  unfold storeCalls
  rw [hm]
  exact hend

theorem sound_of_run (hrun : (init empty).run (C.engine backend) as = some n) :
    n.Sound atomic C.json := by
  have hsound : (init empty).Sound atomic C.json := sound_init fun _ => rfl
  exact (hsound.run (fun _ => rfl) hrun).2

theorem wf_of_run (hrun : (init empty).run (C.engine backend) as = some n) :
    n.engine.storage.WF where
  id_eq id bid hbid := ((sound_of_run hrun).stored id bid hbid).1
  value_none id key hnone := by
    -- a value comes from a recorded write, and the bid of that is in the storage
    have hrecord := exists_record hrun
    cases hvalue : n.engine.storage.value (id, key) with
    | none => rfl
    | some v =>
      have hmem := mem_of_replay_eq_some (hrecord.value_eq ▸ hvalue)
      obtain ⟨w, hw, heq⟩ := List.mem_map.mp hmem
      have hsome := (hrecord.writes w hw).2
      obtain ⟨⟨rfl, -⟩, -⟩ : (w.bid.id = id ∧ w.key = key) ∧ w.value = v := by simpa using heq
      rw [hnone] at hsome
      exact absurd hsome (by simp)

/-- The stored bid allows the callers that its id was written for. -/
theorem allows_of_mem_storeCalls (hrun : (init empty).run (C.engine backend) as = some n)
    (hcf : CollisionFreeOn C.json (bidsInPlay C as n)) {w : StoreWrite} (hw : w ∈ storeCalls C as) :
    ∃ bid, n.engine.storage.bids w.bid.id = some bid ∧ bid.allows w.caller := by
  obtain ⟨⟨hauth, hallows⟩, hsome⟩ := (exists_record hrun).writes w hw
  obtain ⟨bid, hbid⟩ := Option.isSome_iff_exists.mp hsome
  obtain ⟨hid, hbidauth⟩ := (sound_of_run hrun).stored w.bid.id bid hbid
  have hpeekers : bid.allowedPeekers = w.bid.allowedPeekers :=
    hcf.allowedPeekers_eq (.inl ⟨_, hbid⟩) (.inr ⟨w, hw, rfl⟩) hbidauth hauth hid
  refine ⟨bid, hbid, ?_⟩
  rw [Bid.allows, hpeekers]
  exact hallows

/-- Every value in the storage was put there by one of the recorded calls. -/
theorem exists_storeCall_of_value (hrun : (init empty).run (C.engine backend) as = some n)
    {id : BidId} {key : GoString} {v : Bytes}
    (hv : n.engine.storage.dataMap (dataKey id key) = some v) :
    ∃ w ∈ storeCalls C as, w.bid.id = id ∧ w.key = key ∧ w.value = v := by
  have hvalue : n.engine.storage.value (id, key) = some v := hv
  have hmem := mem_of_replay_eq_some ((exists_record hrun).value_eq ▸ hvalue)
  obtain ⟨w, hw, heq⟩ := List.mem_map.mp hmem
  refine ⟨w, hw, ?_⟩
  simpa [and_assoc] using heq

theorem eq_of_newMessage_error {message : DAMessage} {st st' : EngineState LocalConfidentialStore}
    {err : GoError} (h : ((C.engine backend).newMessage message).run st = .error err st') :
    st' = st := by
  rw [ConfidentialStoreEngine.run_newMessage atomic fun _ => rfl] at h
  split at h <;> simp_all

/-- **The storage of a node in every run.**  From an empty local store, after any sequence of
transactions and messages: (a) every stored bid has the id calculated from its contents; (b) it stays
as it is in whatever follows; (c) every value was stored for a caller whom the stored bid allows; and
(d) a message that is refused changes nothing. -/
theorem storage_safe (hrun : (init empty).run (C.engine backend) as = some n)
    (hcf : CollisionFreeOn C.json (bidsInPlay C as n)) :
    (∀ id bid, n.engine.storage.bids id = some bid →
        bid.id = id ∧ calculateBidId C.json bid.toInnerBid = .ok bid.id) ∧
      (∀ later n', n.run (C.engine backend) later = some n' → ∀ id bid,
        n.engine.storage.bids id = some bid → n'.engine.storage.bids id = some bid) ∧
      ((∀ w ∈ storeCalls C as, ∃ bid, n.engine.storage.bids w.bid.id = some bid ∧
          bid.allows w.caller) ∧
        ∀ id key v, n.engine.storage.dataMap (dataKey id key) = some v →
          ∃ w ∈ storeCalls C as, w.bid.id = id ∧ w.key = key ∧ w.value = v) ∧
      (∀ message err st', ((C.engine backend).newMessage message).run n.engine = .error err st' →
        st' = n.engine) := by
  have hsound := sound_of_run hrun
  -- only the third part needs that ids do not collide
  refine ⟨hsound.stored, ?_, ⟨?_, ?_⟩, ?_⟩
  · intro later n' hlater id bid hbid
    obtain ⟨hsteps, -⟩ := hsound.run (fun _ => rfl) hlater
    exact hsteps.bids_eq hbid
  · intro w hw
    exact allows_of_mem_storeCalls hrun hcf hw
  · intro id key v hv
    exact exists_storeCall_of_value hrun hv
  · intro message err st' herr
    exact eq_of_newMessage_error herr

/-- A transaction on an empty store that creates the public bid, stores one value and commits. -/
def storeRun : List NodeAction :=
  [.newTransactionalStore (some mockRequest),
    .apply 0 (.initializeBid TransactionalStore.publicBid),
    .apply 0 (.store TransactionalStore.publicBidId 0 [] [1]),
    .finalize 0 [TransactionalStore.storedPublicBid]]

theorem run_storeRun :
    ∃ st, (init empty).run (mockConfig.engine backend) storeRun =
        some ⟨st, [TransactionalStore.storeTransaction [[1]]]⟩ ∧
      ∀ id bid, st.storage.bids id = some bid → bid = TransactionalStore.storedPublicBid := by
  obtain ⟨st, hfin⟩ := TransactionalStore.exists_finalize_storeTransaction [[1]]
  refine ⟨st, ?_, ?_⟩
  · have hcreate : (TransactionalStore.new (some mockRequest)).apply (mockConfig.engine backend) empty
        (.initializeBid TransactionalStore.publicBid) =
        .ok { TransactionalStore.storeTransaction [] with pendingWrites := none } := by
      decide +kernel
    have hstore : ({ TransactionalStore.storeTransaction [] with pendingWrites := none } :
        TransactionalStore).apply (mockConfig.engine backend) empty
        (.store TransactionalStore.publicBidId 0 [] [1]) =
        .ok (TransactionalStore.storeTransaction [[1]]) := by
      decide +kernel
    -- the mock engine computes the two operations; the commit is known from `hfin`
    simp only [storeRun, run, step, init, List.nil_append, Option.bind_some, List.getElem?_cons_zero,
      Option.map_some, hcreate, List.set_cons_zero, hstore]
    have horder : [TransactionalStore.storedPublicBid].Perm
        (TransactionalStore.storeTransaction [[1]]).pendingBids := List.Perm.refl _
    rw [if_pos horder, after_of_ok hfin]
    rfl
  · intro id bid hbid
    rw [TransactionalStore.storage_bids_of_finalize hfin,
      atomic.bids_insertBids (TransactionalStore.finalize_eq_ok hfin).1] at hbid
    cases hfind : [TransactionalStore.storedPublicBid].find? fun b => b.id = id with
    | none =>
      rw [hfind] at hbid
      exact absurd hbid (by simp [atomic, empty])
    | some b =>
      rw [hfind] at hbid
      cases hbid
      exact List.mem_singleton.mp (List.mem_of_find?_eq_some hfind)

theorem storeCalls_storeRun :
    storeCalls mockConfig storeRun = [⟨TransactionalStore.storedPublicBid, 0, [], [1]⟩] := by
  decide +kernel

/-- The run stores one bid and one value, and there is nothing in it for the bid to collide with. -/
theorem storage_safe_of_storeRun :
    ∃ n : Node LocalConfidentialStore,
      (init empty).run (mockConfig.engine backend) storeRun = some n ∧
      (∀ id bid, n.engine.storage.bids id = some bid →
        bid.id = id ∧ calculateBidId mockConfig.json bid.toInnerBid = .ok bid.id) ∧
      (∀ later n', n.run (mockConfig.engine backend) later = some n' → ∀ id bid,
        n.engine.storage.bids id = some bid → n'.engine.storage.bids id = some bid) ∧
      ((∀ w ∈ storeCalls mockConfig storeRun, ∃ bid, n.engine.storage.bids w.bid.id = some bid ∧
          bid.allows w.caller) ∧
        ∀ id key v, n.engine.storage.dataMap (dataKey id key) = some v →
          ∃ w ∈ storeCalls mockConfig storeRun, w.bid.id = id ∧ w.key = key ∧ w.value = v) ∧
      (∀ message err st', ((mockConfig.engine backend).newMessage message).run n.engine =
        .error err st' → st' = n.engine) := by
  obtain ⟨st, hrun, hbids⟩ := run_storeRun
  have hone : ∀ b ∈ bidsInPlay mockConfig storeRun
      ⟨st, [TransactionalStore.storeTransaction [[1]]]⟩, b = TransactionalStore.storedPublicBid := by
    rintro b (⟨id, hb⟩ | ⟨w, hw, rfl⟩)
    · exact hbids id b hb
    · rw [storeCalls_storeRun, List.mem_singleton] at hw
      rw [hw]
  have hcf : CollisionFreeOn mockConfig.json (bidsInPlay mockConfig storeRun
      ⟨st, [TransactionalStore.storeTransaction [[1]]]⟩) := by
    intro b hb c hc id _ _
    rw [hone b hb, hone c hc]
  exact ⟨_, hrun, storage_safe hrun hcf⟩

end Node

end Suift
