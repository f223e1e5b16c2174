import Suift.CStore.AtomicBackend
import Suift.CStore.Engine
import Suift.Lib.Fallible

/-!
# What the engine's operations do to an atomic backend

For an engine over an atomic backend:

* `storePending_eq_ok_iff`, `storePending_eq_error_iff`: the storage phase of `Finalize` puts in all
  bids and all writes, or it stops with a part of them in place;
* `finalize_eq_ok_iff`, `finalize_eq_error_iff`: a message is published exactly when everything
  succeeds, and nothing is undone when something fails;
* `run_newMessage`: `NewMessage` is a validation that does not touch the storage, followed by a loop
  that cannot fail.
* `after_newMessage_of_valid`, `after_newMessage_of_not_valid`: what that comes to for the storage.
-/

namespace Suift

open Stateful Text

/-- The copies of the bid `id` that the writes carry. -/
def copies (writes : List StoreWrite) (id : BidId) : List Bid :=
  (writes.map StoreWrite.bid).filter fun bid => bid.id = id

namespace AtomicBackend

variable {σ : Type} {B : ConfidentialStorageBackend σ} (A : AtomicBackend B)

def insertBids (s : σ) (bids : List Bid) : σ := bids.foldl A.insertBid s

def insertValues (s : σ) (writes : List StoreWrite) : σ := writes.foldl A.insertValue s

/-- What a received write does: its bid is put in if its id is new, then the value. -/
def takeWrite (s : σ) (w : StoreWrite) : σ :=
  A.insertValue (if (A.bids s w.bid.id).isSome then s else A.insertBid s w.bid) w

def takeWrites (s : σ) (writes : List StoreWrite) : σ := writes.foldl A.takeWrite s

/-- `bids` can be initialized one after the other: their ids are new and distinct. -/
def Fresh (s : σ) (bids : List Bid) : Prop :=
  (bids.map Bid.id).Nodup ∧ ∀ bid ∈ bids, A.bids s bid.id = none

/-- Why `InitializeBid` fails, if it does. -/
def bidError (s : σ) (bid : Bid) : Option GoError :=
  if (A.bids s bid.id).isSome then some errBidAlreadyPresent else none

theorem initializeBid_eq_guarded :
    B.initializeBid = guarded A.bidError A.insertBid := by
  funext bid s
  show (B.initializeBid bid).run s = (guarded A.bidError A.insertBid bid).run s
  rw [A.run_initializeBid, run_guarded, bidError]
  split_ifs <;> rfl

theorem storeWrite_eq_guarded :
    B.storeWrite = guarded (fun _ w => A.refuses w) A.insertValue := by
  funext w s
  show (B.storeWrite w).run s = (guarded _ A.insertValue w).run s
  rw [run_guarded, ConfidentialStorageBackend.storeWrite, EStateM.run_bind, A.run_store]
  cases A.refuses w <;> rfl

theorem accepts_bids_iff {s : σ} {bids : List Bid} :
    Accepts A.bidError A.insertBid s bids ↔ A.Fresh s bids := by
  induction bids generalizing s with
  | nil => simp [Accepts, Fresh]
  | cons bid bids ih =>
    have hhead : A.bidError s bid = none ↔ A.bids s bid.id = none := by
      simp [bidError]
    rw [Accepts, ih, hhead]
    unfold Fresh
    simp only [A.bids_insertBid, List.map_cons, List.nodup_cons, List.mem_cons, forall_eq_or_imp]
    -- after the insertion the ids that are free are the other ones that were free before
    constructor
    · rintro ⟨hbid, hnodup, hrest⟩
      have hne : ∀ b ∈ bids, b.id ≠ bid.id := by
        intro b hb heq
        have := hrest b hb
        rw [heq, Function.update_self] at this
        exact absurd this (by simp)
      refine ⟨⟨?_, hnodup⟩, hbid, ?_⟩
      · intro hmem
        obtain ⟨b, hb, heq⟩ := List.mem_map.mp hmem
        exact hne b hb heq
      · intro b hb
        have := hrest b hb
        rwa [Function.update_of_ne (hne b hb)] at this
    · rintro ⟨⟨hnotin, hnodup⟩, hbid, hrest⟩
      refine ⟨hbid, hnodup, ?_⟩
      intro b hb
      have hne : b.id ≠ bid.id := fun heq => hnotin (List.mem_map.mpr ⟨b, hb, heq⟩)
      rw [Function.update_of_ne hne]
      exact hrest b hb

theorem bids_insertValues (s : σ) (writes : List StoreWrite) :
    A.bids (A.insertValues s writes) = A.bids s := by
  unfold insertValues
  induction writes generalizing s with
  | nil => rfl
  | cons w writes ih => rw [List.foldl_cons, ih, A.bids_insertValue]

/-- Putting in fresh bids adds these and keeps all others. -/
theorem bids_insertBids {s : σ} {bids : List Bid} (h : A.Fresh s bids) (id : BidId) :
    A.bids (A.insertBids s bids) id = (bids.find? fun bid => bid.id = id).or (A.bids s id) := by
  unfold insertBids
  induction bids generalizing s with
  | nil => rfl
  | cons bid bids ih =>
    obtain ⟨hbid, hrest⟩ := (A.accepts_bids_iff.mpr h : _ ∧ _)
    rw [List.foldl_cons, ih (A.accepts_bids_iff.mp hrest), A.bids_insertBid, List.find?_cons]
    -- the head is found first; that no later bid overwrites it is the distinctness of the ids
    by_cases heq : bid.id = id
    · have hnone : bids.find? (fun b => b.id = id) = none := by
        rw [List.find?_eq_none]
        intro b hb hbid'
        have hnotin := (List.nodup_cons.mp h.1).1
        exact hnotin (List.mem_map.mpr ⟨b, hb, by rw [heq]; simpa using hbid'⟩)
      subst heq
      rw [hnone, Function.update_self]
      simp
    · rw [Function.update_of_ne (Ne.symm heq)]
      simp [heq]

theorem bids_insertBids_of_mem {s : σ} {bids : List Bid} (h : A.Fresh s bids) {bid : Bid}
    (hbid : bid ∈ bids) : A.bids (A.insertBids s bids) bid.id = some bid := by
  have hfind : bids.find? (fun b => b.id = bid.id) = some bid := by
    cases hres : bids.find? (fun b => b.id = bid.id) with
    | none => exact absurd (List.find?_eq_none.mp hres bid hbid) (by simp)
    | some b =>
      have hid : b.id = bid.id := by simpa using List.find?_some hres
      rw [List.inj_on_of_nodup_map h.1 (List.mem_of_find?_eq_some hres) hbid hid]
  rw [A.bids_insertBids h, hfind]
  rfl

/-- A bid that is there is not touched by fresh ones. -/
theorem bids_insertBids_of_some {s : σ} {bids : List Bid} (h : A.Fresh s bids) {id : BidId}
    {bid : Bid} (hbid : A.bids s id = some bid) : A.bids (A.insertBids s bids) id = some bid := by
  have hfind : bids.find? (fun b => b.id = id) = none := by
    rw [List.find?_eq_none]
    intro b hb hid
    have hnone := h.2 b hb
    rw [show b.id = id by simpa using hid, hbid] at hnone
    exact absurd hnone (by simp)
  rw [A.bids_insertBids h, hfind, hbid]
  rfl

theorem bids_takeWrite (s : σ) (w : StoreWrite) (id : BidId) :
    A.bids (A.takeWrite s w) id = (A.bids s id).or (if w.bid.id = id then some w.bid else none) := by
  unfold takeWrite
  rw [A.bids_insertValue]
  split_ifs with hsome hid hid
  · subst hid
    obtain ⟨b, hb⟩ := Option.isSome_iff_exists.mp hsome
    rw [hb, Option.some_or]
  · rw [Option.or_none]
  · subst hid
    rw [A.bids_insertBid, Function.update_self, Option.not_isSome_iff_eq_none.mp hsome, Option.none_or]
  · rw [A.bids_insertBid, Function.update_of_ne (Ne.symm hid), Option.or_none]

/-- Of the copies of a bid that are taken in, the first one stays. -/
theorem bids_takeWrites (s : σ) (writes : List StoreWrite) (id : BidId) :
    A.bids (A.takeWrites s writes) id = (A.bids s id).or (copies writes id).head? := by
  unfold takeWrites
  induction writes generalizing s with
  | nil => rw [List.foldl_nil, copies, List.map_nil, List.filter_nil, List.head?_nil, Option.or_none]
  | cons w writes ih =>
    rw [List.foldl_cons, ih, bids_takeWrite, Option.or_assoc]
    congr 1
    unfold copies
    by_cases hid : w.bid.id = id
    · simp [hid]
    · simp [hid]

/-- If all bids are known, taking in writes is putting in their values. -/
theorem takeWrites_eq_insertValues {s : σ} {writes : List StoreWrite}
    (h : ∀ w ∈ writes, (A.bids s w.bid.id).isSome) : A.takeWrites s writes = A.insertValues s writes := by
  unfold takeWrites insertValues
  induction writes generalizing s with
  | nil => rfl
  | cons w writes ih =>
    rw [List.forall_mem_cons] at h
    have hw : A.takeWrite s w = A.insertValue s w := by rw [takeWrite, if_pos h.1]
    rw [List.foldl_cons, List.foldl_cons, hw]
    apply ih
    rw [A.bids_insertValue]
    exact h.2

end AtomicBackend

namespace ConfidentialStoreEngine

variable {σ : Type}

theorem forM_onStorage {α : Type} (pre : String) (f : α → EStateM GoError σ PUnit) (xs : List α) :
    (forM xs fun a => onStorage pre (f a)) = onStorage pre (forM xs f) := by
  unfold onStorage
  apply forM_zoom <;> intros <;> rfl

/-- The storage phase is a loop over the bids followed by one over the writes. -/
theorem storePending_eq (E : ConfidentialStoreEngine σ) (newBids : List Bid)
    (writes : List StoreWrite) :
    E.storePending newBids writes = (do
      onStorage "confidential engine: store backend failed to initialize bid: "
        (forM newBids E.storage.initializeBid)
      onStorage "failed to store data: " (forM writes E.storage.storeWrite)) := by
  unfold storePending
  rw [forM_onStorage, forM_onStorage]

variable {B : ConfidentialStorageBackend σ} (A : AtomicBackend B) {C : EngineConfig}
  {newBids : List Bid} {stores : Slice StoreWrite} {writes : List StoreWrite}
  {st st' : EngineState σ} {err : GoError}

theorem onStorage_eq_ok_iff {α : Type} {pre : String} {x : EStateM GoError σ α} {a : α} :
    (onStorage pre x).run st = .ok a st' ↔
      ∃ s, x.run st.storage = .ok a s ∧ st' = { st with storage := s } := by
  rw [onStorage, run_zoom]
  cases x.run st.storage <;> simp [eq_comm]

theorem onStorage_eq_error_iff {α : Type} {pre : String} {x : EStateM GoError σ α} :
    (onStorage pre x).run st = .error err st' ↔
      ∃ e s, x.run st.storage = .error e s ∧ err = e.wrap (ascii pre) ∧
        st' = { st with storage := s } := by
  rw [onStorage, run_zoom]
  cases x.run st.storage <;> simp [eq_comm]

theorem storePending_eq_ok_iff :
    ((C.engine B).storePending newBids writes).run st = .ok () st' ↔
      A.Fresh st.storage newBids ∧ (∀ w ∈ writes, A.refuses w = none) ∧
        st' = { st with storage := A.insertValues (A.insertBids st.storage newBids) writes } := by
  rw [storePending_eq, run_bind_eq_ok_iff, C.engine_storage, A.initializeBid_eq_guarded,
    A.storeWrite_eq_guarded]
  simp only [onStorage_eq_ok_iff, forM_guarded_eq_ok_iff, A.accepts_bids_iff, accepts_iff_forall]
  constructor
  · rintro ⟨_, _, ⟨_, ⟨hfresh, rfl⟩, rfl⟩, _, ⟨hwrites, rfl⟩, rfl⟩
    exact ⟨hfresh, hwrites, rfl⟩
  · rintro ⟨hfresh, hwrites, rfl⟩
    exact ⟨(), _, ⟨_, ⟨hfresh, rfl⟩, rfl⟩, _, ⟨hwrites, rfl⟩, rfl⟩

/-- A storage phase that fails stops at a bid whose id is taken, with the bids before it in place, or
at a write that is refused, with all bids and the writes before it in place. -/
theorem storePending_eq_error_iff :
    ((C.engine B).storePending newBids writes).run st = .error err st' ↔
      (∃ done bid rest, newBids = done ++ bid :: rest ∧ A.Fresh st.storage done ∧
        (A.bids (A.insertBids st.storage done) bid.id).isSome ∧
        err = errBidAlreadyPresent.wrap
          (ascii "confidential engine: store backend failed to initialize bid: ") ∧
        st' = { st with storage := A.insertBids st.storage done }) ∨
      (A.Fresh st.storage newBids ∧ ∃ done w rest e, writes = done ++ w :: rest ∧
        (∀ w ∈ done, A.refuses w = none) ∧ A.refuses w = some e ∧
        err = e.wrap (ascii "failed to store data: ") ∧
        st' = { st with storage := A.insertValues (A.insertBids st.storage newBids) done }) := by
  rw [storePending_eq, run_bind_eq_error_iff, C.engine_storage, A.initializeBid_eq_guarded,
    A.storeWrite_eq_guarded]
  simp only [onStorage_eq_ok_iff, onStorage_eq_error_iff, forM_guarded_eq_ok_iff,
    forM_guarded_eq_error_iff, A.accepts_bids_iff, accepts_iff_forall]
  have hbidError : ∀ s bid e, A.bidError s bid = some e ↔
      (A.bids s bid.id).isSome ∧ e = errBidAlreadyPresent := by
    intro s bid e
    unfold AtomicBackend.bidError
    split_ifs with h <;> simp [h, eq_comm]
  -- either the loop over the bids stops, or it succeeds and the loop over the writes stops
  constructor
  · rintro (⟨_, _, ⟨done, bid, rest, rfl, hdone, he, rfl⟩, rfl, rfl⟩ |
      ⟨_, _, ⟨_, ⟨hfresh, rfl⟩, rfl⟩, e, _, ⟨done, w, rest, rfl, hdone, he, rfl⟩, rfl, rfl⟩)
    · obtain ⟨htaken, rfl⟩ := (hbidError _ _ _).mp he
      exact .inl ⟨done, bid, rest, rfl, hdone, htaken, rfl, rfl⟩
    · exact .inr ⟨hfresh, done, w, rest, e, rfl, hdone, he, rfl, rfl⟩
  · rintro (⟨done, bid, rest, rfl, hdone, htaken, rfl, rfl⟩ |
      ⟨hfresh, done, w, rest, e, rfl, hdone, he, rfl, rfl⟩)
    · exact .inl ⟨_, _, ⟨done, bid, rest, rfl, hdone, (hbidError _ _ _).mpr ⟨htaken, rfl⟩, rfl⟩,
        rfl, rfl⟩
    · exact .inr ⟨(), _, ⟨_, ⟨hfresh, rfl⟩, rfl⟩, e, _, ⟨done, w, rest, rfl, hdone, he, rfl⟩,
        rfl, rfl⟩

/-! ### `Finalize` -/

theorem finalize_eq_ok_iff {tx : Option Transaction} :
    ((C.engine B).finalize tx newBids stores).run st = .ok () st' ↔
      ∃ pwMsg, A.Fresh st.storage newBids ∧ (∀ w ∈ stores.elems, A.refuses w = none) ∧
        C.signMessage tx stores = .ok pwMsg ∧
        st' = { storage := A.insertValues (A.insertBids st.storage newBids) stores.elems
                published := st.published ++ [pwMsg] } := by
  unfold finalize
  simp only [run_bind_eq_ok_iff, storePending_eq_ok_iff A, ofExcept_apply, C.engine_toEngineConfig]
  cases C.signMessage tx stores with
  | error e => simp
  | ok pwMsg =>
    constructor
    · rintro ⟨_, _, ⟨hfresh, hwrites, rfl⟩, _, _, hmsg, hst⟩
      cases hmsg
      cases hst
      exact ⟨pwMsg, hfresh, hwrites, rfl, rfl⟩
    · rintro ⟨_, hfresh, hwrites, hmsg, rfl⟩
      cases hmsg
      exact ⟨(), _, ⟨hfresh, hwrites, rfl⟩, pwMsg, _, rfl, rfl⟩

theorem finalize_eq_error_iff {tx : Option Transaction} :
    ((C.engine B).finalize tx newBids stores).run st = .error err st' ↔
      ((C.engine B).storePending newBids stores.elems).run st = .error err st' ∨
      (((C.engine B).storePending newBids stores.elems).run st = .ok () st' ∧
        C.signMessage tx stores = .error err) := by
  unfold finalize
  simp only [run_bind_eq_error_iff, ofExcept_apply, C.engine_toEngineConfig]
  cases C.signMessage tx stores with
  -- publishing comes last and cannot fail
  | ok pwMsg => simp
  | error e =>
    constructor
    · rintro (hfail | ⟨_, t, hok, herr | ⟨_, _, hfalse, -⟩⟩)
      · exact .inl hfail
      · cases herr
        exact .inr ⟨hok, rfl⟩
      · exact absurd hfalse (by simp)
    · rintro (hfail | ⟨hok, herr⟩)
      · exact .inl hfail
      · cases herr
        exact .inr ⟨(), st', hok, .inl rfl⟩

/-! ### `NewMessage` -/

/-- A backend without refusals takes each write of a message, after its bid if that is new. -/
theorem run_applyWrite (hA : ∀ w, A.refuses w = none) (w : StoreWrite) (s : σ) :
    ((C.engine B).applyWrite w).run s = .ok () (A.takeWrite s w) := by
  have hstore : ∀ t, (B.storeWrite w).run t = .ok () (A.insertValue t w) := by
    intro t
    rw [A.storeWrite_eq_guarded, run_guarded, hA w]
  unfold applyWrite logged AtomicBackend.takeWrite
  rw [run_tryCatch, EStateM.run_bind, run_tryCatch, C.engine_storage, A.run_initializeBid]
  by_cases h : (A.bids s w.bid.id).isSome
  · -- `errors.Is` recognises the error, which is then not returned
    have hpresent : errBidAlreadyPresent.is .bidAlreadyPresent = true := by decide
    simp [h, hpresent, hstore]
  · simp [h, hstore]

theorem run_newMessage (hA : ∀ w, A.refuses w = none) (message : DAMessage) :
    ((C.engine B).newMessage message).run st =
      match C.validateMessage message with
      | .error err => .error err st
      | .ok false => .ok () st
      | .ok true => .ok () { st with storage := A.takeWrites st.storage message.storeWrites.elems } := by
  unfold newMessage
  rw [EStateM.run_bind, ofExcept_apply, C.engine_toEngineConfig]
  cases C.validateMessage message with
  | error err => rfl
  | ok proceed =>
    cases proceed with
    -- the node's own message is dropped
    | false => rfl
    | true =>
      simp only [↓reduceIte, forM_onStorage]
      rw [onStorage_eq_ok_iff]
      refine ⟨_, ?_, rfl⟩
      have hloop : (C.engine B).applyWrite = guarded (fun _ _ => none) A.takeWrite := by
        funext w s
        exact run_applyWrite A hA w s
      rw [hloop, forM_guarded_eq_ok_iff]
      exact ⟨accepts_iff_forall.mpr fun _ _ => rfl, rfl⟩

/-- A message that `NewMessage` returns nil for has passed the validation. -/
theorem exists_validateMessage_eq_ok {E : ConfidentialStoreEngine σ} {message : DAMessage}
    (h : (E.newMessage message).run st = .ok () st') :
    ∃ proceed, E.validateMessage message = .ok proceed := by
  unfold newMessage at h
  rw [run_bind_eq_ok_iff] at h
  obtain ⟨proceed, _, hvalid, -⟩ := h
  rw [ofExcept_apply] at hvalid
  cases hres : E.validateMessage message with
  | error err =>
    rw [hres] at hvalid
    cases hvalid
  | ok b => exact ⟨b, rfl⟩

theorem after_newMessage_of_valid (hA : ∀ w, A.refuses w = none) {message : DAMessage}
    (h : C.validateMessage message = .ok true) (st : EngineState σ) :
    after ((C.engine B).newMessage message) st =
      { st with storage := A.takeWrites st.storage message.storeWrites.elems } := by
  rw [after, run_newMessage A hA message, h]

/-- A message that is refused or dropped changes nothing. -/
theorem after_newMessage_of_not_valid (hA : ∀ w, A.refuses w = none) {message : DAMessage}
    (h : C.validateMessage message ≠ .ok true) (st : EngineState σ) :
    after ((C.engine B).newMessage message) st = st := by
  rw [after, run_newMessage A hA message]
  cases hvalid : C.validateMessage message with
  | error err => rfl
  | ok proceed =>
    cases proceed with
    | false => rfl
    | true => exact absurd hvalid h

end ConfidentialStoreEngine

end Suift
