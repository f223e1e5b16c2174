import Suift.CStore.Equiv.Engine
import Suift.Lib.WriteLog

/-!
# The local store's maps

The value map is keyed by the text `<hex id>-<key>`.  The hexadecimal id has a fixed width, so the
text determines both parts (`dataKey_inj`), and the map after any number of writes is a log of writes
replayed in order (`value_insertValues`).

`WF` is what every store reached by the engine satisfies: a bid lies under its own id, and no value
lies under an unknown bid.
-/

namespace Suift

open Text WriteLog

/-- The writes as a log over pairs of bid id and key. -/
def entries (writes : List StoreWrite) : List ((BidId × GoString) × Bytes) :=
  writes.map fun w => ((w.bid.id, w.key), w.value)

namespace LocalConfidentialStore

theorem dataKey_inj {i j : BidId} {k k' : GoString} (h : dataKey i k = dataKey j k') :
    i = j ∧ k = k' := by
  obtain ⟨hid, htail⟩ := hexBidId_append_inj h
  exact ⟨hid, List.append_cancel_left htail⟩

theorem dataKey_injective : Function.Injective fun p : BidId × GoString => dataKey p.1 p.2 := by
  intro p q h
  obtain ⟨hid, hkey⟩ := dataKey_inj h
  exact Prod.ext hid hkey

theorem dataMap_insertBids (l : LocalConfidentialStore) (bids : List Bid) :
    (atomic.insertBids l bids).dataMap = l.dataMap := by
  unfold AtomicBackend.insertBids
  induction bids generalizing l with
  | nil => rfl
  | cons bid bids ih =>
    rw [List.foldl_cons, ih]
    rfl

/-- The value map as a function of bid id and key. -/
def value (l : LocalConfidentialStore) : BidId × GoString → Option Bytes :=
  l.dataMap ∘ fun p => dataKey p.1 p.2

theorem value_insertWrite (l : LocalConfidentialStore) (w : StoreWrite) :
    (l.insertWrite w).value = Function.update l.value (w.bid.id, w.key) (some w.value) := by
  have hcomp := Function.update_comp_eq_of_injective l.dataMap dataKey_injective
    (w.bid.id, w.key) (some w.value)
  simpa only [insertWrite, insertValue, value] using hcomp

theorem value_insertBids (l : LocalConfidentialStore) (bids : List Bid) :
    (atomic.insertBids l bids).value = l.value := by
  rw [value, dataMap_insertBids, value]

/-- Performing writes is replaying their log. -/
theorem value_insertValues (l : LocalConfidentialStore) (writes : List StoreWrite) :
    (atomic.insertValues l writes).value = replay l.value (entries writes) := by
  unfold AtomicBackend.insertValues
  induction writes generalizing l with
  | nil => rfl
  | cons w writes ih =>
    rw [List.foldl_cons, ih, show atomic.insertValue l w = l.insertWrite w from rfl,
      value_insertWrite]
    rfl

theorem value_takeWrite (l : LocalConfidentialStore) (w : StoreWrite) :
    (atomic.takeWrite l w).value = Function.update l.value (w.bid.id, w.key) (some w.value) := by
  unfold AtomicBackend.takeWrite
  show (insertWrite _ w).value = _
  rw [value_insertWrite]
  split_ifs
  · rfl
  · rfl

/-- The last value stays. -/
theorem value_takeWrites (l : LocalConfidentialStore) (writes : List StoreWrite) :
    (atomic.takeWrites l writes).value = replay l.value (entries writes) := by
  unfold AtomicBackend.takeWrites
  induction writes generalizing l with
  | nil => rfl
  | cons w writes ih =>
    rw [List.foldl_cons, ih, value_takeWrite]
    rfl

/-- Writes touch nothing but the values under keys of this form. -/
theorem insertValues_eq_of_value_eq {l : LocalConfidentialStore} {writes : List StoreWrite}
    (h : (atomic.insertValues l writes).value = l.value) : atomic.insertValues l writes = l := by
  have hother : ∀ writes (l : LocalConfidentialStore), (atomic.insertValues l writes).bids = l.bids ∧
      (atomic.insertValues l writes).index = l.index ∧
      ∀ text, (∀ p : BidId × GoString, dataKey p.1 p.2 ≠ text) →
        (atomic.insertValues l writes).dataMap text = l.dataMap text := by
    intro writes
    unfold AtomicBackend.insertValues
    induction writes with
    | nil => exact fun l => ⟨rfl, rfl, fun _ _ => rfl⟩
    | cons w writes ih =>
      intro l
      rw [List.foldl_cons]
      obtain ⟨hbids, hindex, hdata⟩ := ih (atomic.insertValue l w)
      refine ⟨hbids, hindex, ?_⟩
      intro text htext
      have hne : text ≠ dataKey w.bid.id w.key := (htext (w.bid.id, w.key)).symm
      rw [hdata text htext]
      show Function.update l.dataMap (dataKey w.bid.id w.key) (some w.value) text = l.dataMap text
      rw [Function.update_of_ne hne]
  obtain ⟨hbids, hindex, hdata⟩ := hother writes l
  refine LocalConfidentialStore.ext hbids ?_ hindex
  funext text
  by_cases htext : ∃ p : BidId × GoString, dataKey p.1 p.2 = text
  · obtain ⟨p, rfl⟩ := htext
    exact congrFun h p
  · exact hdata text (not_exists.mp htext)

theorem insertValues_eq_self_iff {l : LocalConfidentialStore} {writes : List StoreWrite} :
    atomic.insertValues l writes = l ↔
      ∀ k v, (writesTo (entries writes) k).getLast? = some v → l.value k = some v := by
  constructor
  · intro h k v hv
    have hvalue := congrFun (value_insertValues l writes) k
    rw [h, replay_apply, hv] at hvalue
    exact hvalue
  · intro h
    apply insertValues_eq_of_value_eq
    funext k
    rw [value_insertValues, replay_apply]
    cases hv : (writesTo (entries writes) k).getLast? with
    | none => rfl
    | some v => exact (h k v hv).symm

structure WF (l : LocalConfidentialStore) : Prop where
  id_eq : ∀ id bid, l.bids id = some bid → bid.id = id
  value_none : ∀ id key, l.bids id = none → l.value (id, key) = none

theorem empty_wf : empty.WF where
  id_eq _ _ h := absurd h (by simp [empty])
  value_none _ _ _ := rfl

end LocalConfidentialStore

end Suift
