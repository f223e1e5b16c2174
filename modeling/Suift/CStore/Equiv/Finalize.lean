import Suift.CStore.Equiv.Engine
import Suift.CStore.Mock
import Mathlib.Data.List.TakeWhile

/-!
# When a failed `Finalize` leaves no trace

`Finalize` puts the bids and writes in one at a time and undoes nothing ("TODO: deinitialize and
deStore!").  It does publish only at its very end, so a failed call never publishes
(`published_of_finalize_error`).  Its storage is what it was only in three cases
(`finalize_unchanged_iff`): the call cannot fail; the first bid it visits is the one whose id is
taken; or there is no bid and the writes up to the failure wrote what was there.

The local store takes every write, so `refusing` stands for the failing ones.
-/

namespace Suift

open Stateful

namespace AtomicBackend

variable {σ : Type} {B : ConfidentialStorageBackend σ} (A : AtomicBackend B)

/-- The writes in front of the first one that is refused. -/
def accepted (writes : List StoreWrite) : List StoreWrite :=
  writes.takeWhile fun w => (A.refuses w).isNone

theorem accepted_eq_self {writes : List StoreWrite} (h : ∀ w ∈ writes, A.refuses w = none) :
    A.accepted writes = writes := by
  unfold accepted
  rw [List.takeWhile_eq_self_iff]
  intro w hw
  rw [h w hw]
  rfl

theorem accepted_append_cons {done rest : List StoreWrite} {w : StoreWrite} {e : GoError}
    (hdone : ∀ w ∈ done, A.refuses w = none) (hw : A.refuses w = some e) :
    A.accepted (done ++ w :: rest) = done := by
  unfold accepted
  rw [List.takeWhile_append_of_pos]
  · simp [hw]
  · intro w hw
    rw [hdone w hw]
    rfl

/-- `Finalize` with these arguments succeeds. -/
def Commits (C : EngineConfig) (tx : Option Transaction) (newBids : List Bid)
    (stores : Slice StoreWrite) (s : σ) : Prop :=
  A.Fresh s newBids ∧ (∀ w ∈ stores.elems, A.refuses w = none) ∧
    ∃ pwMsg, C.signMessage tx stores = .ok pwMsg

/-- What `Finalize` puts in, on success or before it fails, is nothing new. -/
def LeavesNoTrace (newBids : List Bid) (stores : Slice StoreWrite) (s : σ) : Prop :=
  match newBids with
  | [] => A.insertValues s (A.accepted stores.elems) = s
  | bid :: _ => (A.bids s bid.id).isSome

end AtomicBackend

namespace ConfidentialStoreEngine

variable {σ : Type} {B : ConfidentialStorageBackend σ} (A : AtomicBackend B) {C : EngineConfig}
  {tx : Option Transaction} {newBids : List Bid} {stores : Slice StoreWrite}
  {writes : List StoreWrite} {st st' : EngineState σ} {err : GoError}

include A

theorem published_of_finalize_error
    (h : ((C.engine B).finalize tx newBids stores).run st = .error err st') :
    st'.published = st.published := by
  rcases finalize_eq_error_iff.mp h with hfail | ⟨hok, -⟩
  · rcases (storePending_eq_error_iff A).mp hfail with ⟨_, _, _, _, _, _, _, rfl⟩ |
      ⟨_, _, _, _, _, _, _, _, _, rfl⟩
    · rfl
    · rfl
  · obtain ⟨-, -, rfl⟩ := (storePending_eq_ok_iff A).mp hok
    rfl

/-- A first bid that is new is in the storage when the call returns, whatever happens next. -/
theorem bids_of_finalize_error {bid : Bid} {rest : List Bid}
    (h : ((C.engine B).finalize tx (bid :: rest) stores).run st = .error err st')
    (hnew : A.bids st.storage bid.id = none) : A.bids st'.storage bid.id = some bid := by
  have hall : A.Fresh st.storage (bid :: rest) →
      A.bids (A.insertBids st.storage (bid :: rest)) bid.id = some bid := by
    intro hfresh
    rw [A.bids_insertBids hfresh]
    simp
  rcases finalize_eq_error_iff.mp h with hfail | ⟨hok, -⟩
  · rcases (storePending_eq_error_iff A).mp hfail with
      ⟨done, b, rest', hsplit, hdone, htaken, -, rfl⟩ | ⟨hfresh, _, _, _, _, -, -, -, -, rfl⟩
    · cases done with
      -- the loop cannot have stopped at the first bid, whose id is new
      | nil =>
        obtain ⟨rfl, -⟩ := List.cons.inj hsplit
        rw [show A.insertBids st.storage [] = st.storage from rfl, hnew] at htaken
        exact absurd htaken (by simp)
      | cons b' done =>
        obtain ⟨rfl, -⟩ := List.cons.inj hsplit
        show A.bids (A.insertBids st.storage (bid :: done)) bid.id = some bid
        rw [A.bids_insertBids hdone]
        simp
    · show A.bids (A.insertValues _ _) bid.id = some bid
      rw [A.bids_insertValues]
      exact hall hfresh
  · obtain ⟨hfresh, -, rfl⟩ := (storePending_eq_ok_iff A).mp hok
    show A.bids (A.insertValues _ _) bid.id = some bid
    rw [A.bids_insertValues]
    exact hall hfresh

/-- A first bid whose id is taken stops the call before anything is changed. -/
theorem storage_of_finalize_error_of_taken {bid : Bid} {rest : List Bid}
    (h : ((C.engine B).finalize tx (bid :: rest) stores).run st = .error err st')
    (htaken : (A.bids st.storage bid.id).isSome) : st'.storage = st.storage := by
  have hstale : ∀ bids, ¬ A.Fresh st.storage (bid :: bids) := by
    intro bids hfresh
    rw [hfresh.2 bid List.mem_cons_self] at htaken
    exact absurd htaken (by simp)
  rcases finalize_eq_error_iff.mp h with hfail | ⟨hok, -⟩
  · rcases (storePending_eq_error_iff A).mp hfail with
      ⟨done, b, rest', hsplit, hdone, -, -, rfl⟩ | ⟨hfresh, -⟩
    · cases done with
      | nil => rfl
      | cons b' done =>
        obtain ⟨rfl, -⟩ := List.cons.inj hsplit
        exact absurd hdone (hstale done)
    · exact absurd hfresh (hstale rest)
  · exact absurd ((storePending_eq_ok_iff A).mp hok).1 (hstale rest)

/-- Without bids a failed call has put in the writes in front of the first refused one. -/
theorem storage_of_finalize_nil_error
    (h : ((C.engine B).finalize tx [] stores).run st = .error err st') :
    st'.storage = A.insertValues st.storage (A.accepted stores.elems) := by
  rcases finalize_eq_error_iff.mp h with hfail | ⟨hok, -⟩
  · rcases (storePending_eq_error_iff A).mp hfail with
      ⟨done, b, rest, hsplit, -⟩ | ⟨-, done, w, rest, e, hsplit, hdone, hw, -, rfl⟩
    · exact absurd hsplit (by simp)
    · rw [hsplit, A.accepted_append_cons hdone hw]
      rfl
  · obtain ⟨-, hwrites, rfl⟩ := (storePending_eq_ok_iff A).mp hok
    rw [A.accepted_eq_self hwrites]
    rfl

theorem exists_finalize_error (st : EngineState σ)
    (h : ¬ A.Commits C tx newBids stores st.storage) :
    ∃ err st', ((C.engine B).finalize tx newBids stores).run st = .error err st' := by
  cases hrun : ((C.engine B).finalize tx newBids stores).run st with
  | error err st' => exact ⟨err, st', rfl⟩
  | ok _ st' =>
    obtain ⟨pwMsg, hfresh, hwrites, hmsg, -⟩ := (finalize_eq_ok_iff A).mp hrun
    exact absurd ⟨hfresh, hwrites, pwMsg, hmsg⟩ h

theorem finalize_unchanged_iff :
    (∀ err st', ((C.engine B).finalize tx newBids stores).run st = .error err st' →
        st'.storage = st.storage) ↔
      A.Commits C tx newBids stores st.storage ∨ A.LeavesNoTrace newBids stores st.storage := by
  constructor
  · -- a call that does not commit fails, and what it left in the storage tells the cases apart
    intro hunchanged
    by_contra hnot
    rw [not_or] at hnot
    obtain ⟨err, st', hrun⟩ := exists_finalize_error A st hnot.1
    have heq := hunchanged err st' hrun
    apply hnot.2
    cases newBids with
    | nil => rw [AtomicBackend.LeavesNoTrace, ← storage_of_finalize_nil_error A hrun, heq]
    | cons bid rest =>
      rw [AtomicBackend.LeavesNoTrace]
      by_contra hnone
      have hnew : A.bids st.storage bid.id = none := by simpa using hnone
      have hstored := bids_of_finalize_error A hrun hnew
      rw [heq, hnew] at hstored
      exact absurd hstored (by simp)
  · rintro (⟨hfresh, hwrites, pwMsg, hmsg⟩ | htrace) err st' hrun
    · have hok := (finalize_eq_ok_iff A).mpr ⟨pwMsg, hfresh, hwrites, hmsg, rfl⟩
      rw [hrun] at hok
      exact absurd hok (by simp)
    · cases newBids with
      | nil =>
        have hstorage := storage_of_finalize_nil_error A hrun
        rw [AtomicBackend.LeavesNoTrace] at htrace
        rwa [htrace] at hstorage
      | cons bid rest => exact storage_of_finalize_error_of_taken A hrun htrace

end ConfidentialStoreEngine

namespace LocalConfidentialStore

open ConfidentialStoreEngine

/-- The local store with failing writes. -/
def atomicRefusing (refuses : StoreWrite → Option GoError) :
    AtomicBackend (backend.refusing refuses) :=
  atomic.refusing (fun _ => rfl) refuses

/-- **`Finalize` is all or nothing only sometimes.**  A failed call never publishes.  It leaves bids,
index and values as they were for certain exactly when the call cannot fail, when the first bid it
visits is already present, or when there are no new bids and the writes it performs change nothing. -/
theorem finalize_all_or_nothing_iff (C : EngineConfig) (refuses : StoreWrite → Option GoError)
    (tx : Option Transaction) (newBids : List Bid) (stores : Slice StoreWrite)
    (st : EngineState LocalConfidentialStore) :
    (∀ err st', ((C.engine (backend.refusing refuses)).finalize tx newBids stores).run st =
        .error err st' → st'.published = st.published) ∧
      ((∀ err st', ((C.engine (backend.refusing refuses)).finalize tx newBids stores).run st =
          .error err st' → st'.storage = st.storage) ↔
        (atomicRefusing refuses).Commits C tx newBids stores st.storage ∨
          (atomicRefusing refuses).LeavesNoTrace newBids stores st.storage) :=
  ⟨fun _ _ h => published_of_finalize_error (atomicRefusing refuses) h,
    finalize_unchanged_iff (atomicRefusing refuses)⟩

/-- A request nobody has signed, as a confidential `eth_call` makes it. -/
def unsignedRequest : Transaction :=
  .request
    { confidentialComputeRecord := { SuaveSigner.sampleRecord with v := 0, r := 0, s := 0 }
      confidentialInputs := [] }

/-- A bid created by the unsigned request. -/
def unsignedBid : Bid where
  id := 5
  salt := 0
  decryptionCondition := 0
  allowedPeekers := some [allowedPeekerAny]
  allowedStores := none
  version := []
  creationTx := some unsignedRequest
  signature := []

/-- The bid of an unsigned request stays in the storage although `Finalize` refuses the request. -/
theorem exists_finalize_error_with_trace :
    ¬ ∀ (C : EngineConfig) (tx : Option Transaction) (newBids : List Bid)
        (stores : Slice StoreWrite) (st st' : EngineState LocalConfidentialStore) (err : GoError),
      ((C.engine backend).finalize tx newBids stores).run st = .error err st' →
        st'.storage = st.storage := by
  intro hall
  have hunsigned : mockConfig.signMessage (some unsignedRequest) none = .error errUnsignedFinalize := by
    decide +kernel
  have hfails : ¬ atomic.Commits mockConfig (some unsignedRequest) [unsignedBid] none empty := by
    rintro ⟨-, -, pwMsg, hmsg⟩
    rw [hunsigned] at hmsg
    exact absurd hmsg (by simp)
  obtain ⟨err, st', hrun⟩ := exists_finalize_error atomic ⟨empty, []⟩ hfails
  have hstored := bids_of_finalize_error atomic hrun rfl
  rw [hall _ _ _ _ _ _ _ hrun] at hstored
  exact absurd hstored (by simp [atomic, empty])

end LocalConfidentialStore

end Suift
