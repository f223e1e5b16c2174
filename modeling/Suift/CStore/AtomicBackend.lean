import Suift.CStore.LocalStore
import Suift.Lib.Stateful

/-!
# Atomic backends

An `AtomicBackend` says what the writing operations of a backend do to its state: `InitializeBid`
refuses a bid whose id is taken and puts it in otherwise, `Store` refuses a write or puts it in, and
a refused operation changes nothing.  The engine's operations are worked out over such a
description, once for all backends that have one.

Besides the local store two variants of a backend are described here.  `recording` keeps the list of
all values that were ever stored and the callers they were stored for.  `refusing` makes `Store`
fail on chosen writes, which the local store never does and a remote database may.
-/

namespace Suift

open Stateful

namespace ConfidentialStorageBackend

variable {σ : Type}

/-- A backend's state with the writes it has taken, oldest first. -/
structure Recorded (σ : Type) where
  inner : σ
  writes : List StoreWrite

/-- Run an operation of the recorded backend. -/
def Recorded.onInner {α : Type} (x : EStateM GoError σ α) : EStateM GoError (Recorded σ) α :=
  zoom Recorded.inner (fun s t => { s with inner := t }) id x

/-- `B`, with every value it stores written down. -/
def recording (B : ConfidentialStorageBackend σ) : ConfidentialStorageBackend (Recorded σ) where
  initializeBid bid := Recorded.onInner (B.initializeBid bid)
  store bid caller key value := do
    let bid' ← Recorded.onInner (B.store bid caller key value)
    modify fun s => { s with writes := s.writes ++ [⟨bid, caller, key, value⟩] }
    return bid'
  retrieve s := B.retrieve s.inner
  fetchBidById s := B.fetchBidById s.inner
  fetchBidsByProtocolAndBlock s := B.fetchBidsByProtocolAndBlock s.inner

/-- `B`, with `Store` failing on the writes that `refuses` gives an error for. -/
def refusing (refuses : StoreWrite → Option GoError) (B : ConfidentialStorageBackend σ) :
    ConfidentialStorageBackend σ :=
  { B with
    store := fun bid caller key value =>
      match refuses ⟨bid, caller, key, value⟩ with
      | some err => throw err
      | none => B.store bid caller key value }

end ConfidentialStorageBackend

open ConfidentialStorageBackend

structure AtomicBackend {σ : Type} (B : ConfidentialStorageBackend σ) where
  bids : σ → BidId → Option Bid
  insertBid : σ → Bid → σ
  refuses : StoreWrite → Option GoError
  insertValue : σ → StoreWrite → σ
  run_initializeBid : ∀ bid s, (B.initializeBid bid).run s =
    if (bids s bid.id).isSome then .error errBidAlreadyPresent s else .ok () (insertBid s bid)
  run_store : ∀ (w : StoreWrite) s, (B.store w.bid w.caller w.key w.value).run s =
    match refuses w with
    | some err => .error err s
    | none => .ok w.bid (insertValue s w)
  fetchBidById_eq : ∀ s id, B.fetchBidById s id =
    match bids s id with
    | none => .error (GoError.new "bid not found")
    | some bid => .ok bid
  bids_insertBid : ∀ s bid, bids (insertBid s bid) = Function.update (bids s) bid.id (some bid)
  bids_insertValue : ∀ s w, bids (insertValue s w) = bids s

namespace LocalConfidentialStore

/-- The local store with the write `w` put in. -/
def insertWrite (l : LocalConfidentialStore) (w : StoreWrite) : LocalConfidentialStore :=
  l.insertValue w.bid.id w.key w.value

/-- The local store is atomic and takes every write. -/
def atomic : AtomicBackend backend where
  bids l := l.bids
  insertBid := insertBid
  refuses _ := none
  insertValue := insertWrite
  run_initializeBid bid l := by
    show (initializeBid bid).run l = _
    unfold initializeBid
    by_cases h : (l.bids bid.id).isSome <;> simp [h]
  run_store w l := rfl
  fetchBidById_eq l id := rfl
  bids_insertBid l bid := rfl
  bids_insertValue l w := rfl

end LocalConfidentialStore

namespace AtomicBackend

variable {σ : Type} {B : ConfidentialStorageBackend σ}

def recording (A : AtomicBackend B) : AtomicBackend B.recording where
  bids s := A.bids s.inner
  insertBid s bid := { s with inner := A.insertBid s.inner bid }
  refuses := A.refuses
  insertValue s w := { inner := A.insertValue s.inner w, writes := s.writes ++ [w] }
  run_initializeBid bid s := by
    show (Recorded.onInner (B.initializeBid bid)).run s = _
    rw [Recorded.onInner, run_zoom, A.run_initializeBid]
    split_ifs <;> rfl
  run_store w s := by
    simp only [ConfidentialStorageBackend.recording, EStateM.run_bind, Recorded.onInner, run_zoom]
    rw [A.run_store]
    cases A.refuses w <;> rfl
  fetchBidById_eq s id := A.fetchBidById_eq s.inner id
  bids_insertBid s bid := A.bids_insertBid s.inner bid
  bids_insertValue s w := A.bids_insertValue s.inner w

/-- Failing writes on top of an atomic backend that has none. -/
def refusing (A : AtomicBackend B) (hA : ∀ w, A.refuses w = none)
    (refuses : StoreWrite → Option GoError) : AtomicBackend (B.refusing refuses) where
  bids := A.bids
  insertBid := A.insertBid
  refuses := refuses
  insertValue := A.insertValue
  run_initializeBid := A.run_initializeBid
  run_store w s := by
    have hstore := A.run_store w s
    rw [hA w] at hstore
    simp only [ConfidentialStorageBackend.refusing]
    cases refuses w with
    | some err => rfl
    | none => exact hstore
  fetchBidById_eq := A.fetchBidById_eq
  bids_insertBid := A.bids_insertBid
  bids_insertValue := A.bids_insertValue

end AtomicBackend

end Suift
