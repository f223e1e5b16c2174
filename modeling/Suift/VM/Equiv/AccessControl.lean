import Suift.CStore.Equiv.Node
import Suift.VM.Equiv.Bundles
import Suift.VM.Equiv.Rollback

/-!
# Two layers of access control

`confidentialStore` and `confidentialRetrieve` look for an address on the caller stack on whose behalf they
may act (`checkIsPrecompileCallAllowed`), and hand it to the transaction's store, which checks it again; a
value that is not pending is read from the engine, with a third check.

* `checkIsPrecompileCallAllowed_of_any`, `checkIsPrecompileCallAllowed_of_not_any`: whom the first check
  returns, by either scan of the stack.
* `allows_of_check`: the bid allows the address that is returned, the precompile itself included.
* `confStore_eq`, `confRetrieve_eq`: so the check of the transaction's store has nothing left to refuse.
* `Node.Sound.retrieve_eq`: the engine looks the bid up once more.  For a bid that is still pending it may find
  another one under the same id, but the id is that of the contents, and these include the peekers.
-/

namespace Suift

open Fallible Text ConfidentialStorageBackend

/-- The address is the innermost one on the stack that satisfies `P`. -/
def IsInnermost (callerStack : List (Option Address)) (P : Address → Prop) (caller : Address) : Prop :=
  ∃ outer inner, callerStack = outer ++ some caller :: inner ∧ P caller ∧ ∀ c, some c ∈ inner → ¬ P c

/-! ### The first check -/

theorem innermost_eq_some_iff {callerStack : List (Option Address)} {p : Address → Bool}
    {caller : Address} :
    innermost callerStack p = some caller ↔ IsInnermost callerStack (fun c => p c = true) caller := by
  unfold innermost
  rw [List.findSome?_eq_some_iff]
  constructor
  · rintro ⟨inner, entry, outer, hstack, hentry, hinner⟩
    obtain ⟨rfl, hp⟩ := Option.filter_eq_some_iff.mp hentry
    refine ⟨outer.reverse, inner.reverse, ?_, hp, ?_⟩
    · rw [← List.reverse_reverse callerStack, hstack]
      simp
    · intro c hc hpc
      have hnone := hinner (some c) (List.mem_reverse.mp hc)
      exact absurd hnone (by simp [Option.filter, hpc])
  · rintro ⟨outer, inner, rfl, hp, hinner⟩
    refine ⟨inner.reverse, some caller, outer.reverse, by simp, ?_, ?_⟩
    · exact Option.filter_eq_some_iff.mpr ⟨rfl, hp⟩
    · intro entry hentry
      cases entry with
      | none => rfl
      | some c =>
        have hc := hinner c (List.mem_reverse.mp hentry)
        simp [Option.filter, hc]

theorem innermost_eq_none_iff {callerStack : List (Option Address)} {p : Address → Bool} :
    innermost callerStack p = none ↔ ∀ c, some c ∈ callerStack → ¬ p c = true := by
  rw [← Option.not_isSome_iff_eq_none, innermost_isSome_iff]
  simp

section Check

variable {X : Externals} {ctx : SuaveContext} {precompile caller : Address} {bid : Bid}

/-- With the wildcard every caller will do, and the precompile itself if there is none. -/
theorem checkIsPrecompileCallAllowed_of_any (hany : allowedPeekerAny ∈ bid.allowedPeekers.elems) :
    checkIsPrecompileCallAllowed X ctx precompile bid = .ok caller ↔
      IsInnermost ctx.callerStack (· ≠ precompile) caller ∨
        (caller = precompile ∧ ∀ c, some c ∈ ctx.callerStack → c = precompile) := by
  have hwild : bid.allowedPeekers.elems.contains allowedPeekerAny = true := by simpa using hany
  unfold checkIsPrecompileCallAllowed
  rw [if_pos hwild]
  cases hfound : innermost ctx.callerStack fun caller => caller ≠ precompile with
  | some found =>
    have hinner := innermost_eq_some_iff.mp hfound
    simp only [ne_eq, decide_not, Bool.not_eq_eq_eq_not, Bool.not_true, decide_eq_false_iff_not] at hinner
    obtain ⟨outer, inner, hstack, hne, -⟩ := id hinner
    constructor
    · rintro h
      obtain rfl : found = caller := Except.ok.inj h
      exact .inl hinner
    · rintro (h | ⟨-, hall⟩)
      · have hcaller : innermost ctx.callerStack (fun caller => caller ≠ precompile) = some caller := by
          rw [innermost_eq_some_iff]
          simpa using h
        rw [hfound] at hcaller
        rw [Option.some.inj hcaller]
        rfl
      · exact absurd (hall found (hstack ▸ by simp)) hne
  | none =>
    have hall := innermost_eq_none_iff.mp hfound
    simp only [ne_eq, decide_not, Bool.not_eq_eq_eq_not, Bool.not_true, decide_eq_false_iff_not,
      not_not] at hall
    constructor
    · intro h
      exact .inr ⟨(Except.ok.inj h).symm, hall⟩
    · rintro (⟨outer, inner, hstack, hne, -⟩ | ⟨rfl, -⟩)
      · exact absurd (hall caller (hstack ▸ by simp)) hne
      · rfl

/-- Without it, the two precompiles that everybody may call need a caller who is listed. -/
theorem checkIsPrecompileCallAllowed_of_not_any
    (hprecompile : precompile = confStoreAddress ∨ precompile = confRetrieveAddress)
    (hany : allowedPeekerAny ∉ bid.allowedPeekers.elems) :
    checkIsPrecompileCallAllowed X ctx precompile bid = .ok caller ↔
      IsInnermost ctx.callerStack (fun c => c ≠ precompile ∧ c ∈ bid.allowedPeekers.elems) caller := by
  have hwild : ¬ bid.allowedPeekers.elems.contains allowedPeekerAny = true := by simpa using hany
  have hpass : ¬ (!bid.allowedPeekers.elems.contains precompile && precompile ≠ confStoreAddress &&
      precompile ≠ confRetrieveAddress) = true := by
    rcases hprecompile with h | h <;> simp [h]
  have hloop : innermost ctx.callerStack (fun caller =>
      caller ≠ precompile && bid.allowedPeekers.elems.contains caller) = some caller ↔
      IsInnermost ctx.callerStack (fun c => c ≠ precompile ∧ c ∈ bid.allowedPeekers.elems) caller := by
    rw [innermost_eq_some_iff]
    simp
  unfold checkIsPrecompileCallAllowed
  rw [if_neg hwild, if_neg hpass, ← hloop]
  cases innermost ctx.callerStack fun caller =>
    caller ≠ precompile && bid.allowedPeekers.elems.contains caller <;> simp

/-- The bid allows the address that the check returns. -/
theorem allows_of_check
    (hprecompile : precompile = confStoreAddress ∨ precompile = confRetrieveAddress)
    (h : checkIsPrecompileCallAllowed X ctx precompile bid = .ok caller) : bid.allows caller := by
  unfold Bid.allows
  by_cases hany : allowedPeekerAny ∈ bid.allowedPeekers.elems
  · simp [hany]
  · obtain ⟨-, -, -, ⟨-, hlisted⟩, -⟩ := (checkIsPrecompileCallAllowed_of_not_any hprecompile hany).mp h
    simp [hlisted]

end Check

/-! ### The transaction's store and the engine -/

section Store

variable {σ : Type} {E : ConfidentialStoreEngine σ} {s : σ} {t : TransactionalStore} {bid : Bid}
  {bidId : BidId} {caller : Address} {key : GoString}

theorem TransactionalStore.store_of_allows {value : Bytes} (hbid : t.fetchBidById E s bidId = .ok bid)
    (hallows : bid.allows caller) :
    t.store E s bidId caller key value = .ok (t.addWrite ⟨bid, caller, key, value⟩, bid) := by
  unfold store
  rw [hbid]
  exact if_neg (by simp [hallows])

theorem TransactionalStore.retrieve_of_allows (hbid : t.fetchBidById E s bidId = .ok bid)
    (hallows : bid.allows caller) :
    t.retrieve E s bidId caller key =
      match t.pendingWrites.elems.find? fun sw => sw.bid.id = bid.id ∧ sw.key = key with
      | some sw => .ok sw.value
      | none => E.retrieve s bidId caller key := by
  unfold retrieve
  rw [hbid]
  exact if_neg (by simp [hallows])

theorem ConfidentialStoreEngine.retrieve_of_allows (hbid : E.fetchBidById s bidId = .ok bid)
    (hallows : bid.allows caller) :
    E.retrieve s bidId caller key = E.storage.retrieve s bid caller key := by
  have hstored : E.storage.fetchBidById s bidId = .ok bid := hbid
  unfold retrieve
  rw [hstored]
  exact if_neg (by simp [hallows])

end Store

section Precompiles

variable {σ : Type} {E : ConfidentialStoreEngine σ} {R : SuaveRuntime E} {X : Externals} {m : Moment E}
  {t : TransactionalStore} {bid : Bid} {bidId : BidId} {key : GoString}
  {callerStack : List (Option Address)}

/-- What `confidentialStore` does is decided by its own check. -/
theorem confStore_eq (hbid : t.fetchBidById E m.storage bidId = .ok bid) (data : Bytes) :
    R.confStore callerStack m t bidId key data =
      (checkIsPrecompileCallAllowed R.externals ⟨m.confidentialStore t, callerStack⟩ confStoreAddress
        bid).map fun caller => t.addWrite ⟨bid, caller, key, data⟩ := by
  unfold SuaveRuntime.confStore
  rw [hbid]
  cases hcheck : checkIsPrecompileCallAllowed R.externals ⟨m.confidentialStore t, callerStack⟩
      confStoreAddress bid with
  | error err => simp [Except.mapError, hcheck, bind, Except.bind, Except.map]
  | ok caller =>
    have hstore : t.store E m.storage bidId caller key data = .ok (t.addWrite ⟨bid, caller, key, data⟩, bid) :=
      TransactionalStore.store_of_allows hbid (allows_of_check (.inl rfl) hcheck)
    simp [Except.mapError, hcheck, hstore, bind, Except.bind, Except.map, pure, Except.pure]

/-- `confidentialRetrieve` reads what is pending, or asks the engine on behalf of the same caller. -/
theorem confRetrieve_eq (hbid : t.fetchBidById E m.storage bidId = .ok bid) :
    confRetrieve X ⟨m.confidentialStore t, callerStack⟩ bidId key =
      (checkIsPrecompileCallAllowed X ⟨m.confidentialStore t, callerStack⟩ confRetrieveAddress bid).bind
        fun caller =>
          match t.pendingWrites.elems.find? fun sw => sw.bid.id = bid.id ∧ sw.key = key with
          | some sw => .ok sw.value
          | none => E.retrieve m.storage bidId caller key := by
  unfold confRetrieve
  have hfetch : (m.confidentialStore t).fetchBidById bidId = .ok bid := hbid
  rw [hfetch]
  cases hcheck : checkIsPrecompileCallAllowed X ⟨m.confidentialStore t, callerStack⟩ confRetrieveAddress
      bid with
  | error err => simp [Except.mapError, hcheck, bind, Except.bind]
  | ok caller =>
    simp only [Except.mapError, hcheck, bind, Except.bind]
    exact TransactionalStore.retrieve_of_allows hbid (allows_of_check (.inr rfl) hcheck)

end Precompiles

/-! ### Runs -/

namespace Node

variable {σ : Type} {B : ConfidentialStorageBackend σ} {A : AtomicBackend B} {C : EngineConfig} {n : Node σ}
  {t : TransactionalStore} {bidId : BidId} {bid stored : Bid}

/-- The bid that a transaction finds and the one that the engine finds under the same id list the same
peekers. -/
theorem Sound.allowedPeekers_eq (h : n.Sound A C.json) (ht : t ∈ n.transactions)
    (hbid : t.fetchBidById (C.engine B) n.engine.storage bidId = .ok bid)
    (hstored : (C.engine B).fetchBidById n.engine.storage bidId = .ok stored)
    (hcf : CollisionFreeOn C.json {bid, stored}) : bid.allowedPeekers = stored.allowedPeekers := by
  unfold TransactionalStore.fetchBidById at hbid
  cases hpending : t.pendingBid bidId with
  | none =>
    -- the transaction has asked the engine itself
    rw [hpending] at hbid
    obtain rfl : bid = stored := Except.ok.inj (hbid.symm.trans hstored)
    rfl
  | some pending =>
    rw [hpending] at hbid
    obtain rfl := Except.ok.inj hbid
    have hauthentic := (h.transactions t ht).bids pending (List.mem_of_find?_eq_some hpending)
    have hbids : A.bids n.engine.storage bidId = some stored := by
      change B.fetchBidById n.engine.storage bidId = .ok stored at hstored
      rw [A.fetchBidById_eq] at hstored
      split at hstored
      · exact absurd hstored (by simp)
      · rename_i b hb
        rw [hb, Except.ok.inj hstored]
    obtain ⟨hid, hstoredauth⟩ := h.stored bidId stored hbids
    exact hcf.allowedPeekers_eq (.inl rfl) (.inr rfl) hauthentic hstoredauth
      ((TransactionalStore.pendingBid_id hpending).trans hid.symm)

/-- The engine lets the transaction's caller through. -/
theorem Sound.retrieve_eq (h : n.Sound A C.json) (ht : t ∈ n.transactions) {caller : Address}
    {key : GoString} (hbid : t.fetchBidById (C.engine B) n.engine.storage bidId = .ok bid)
    (hallows : bid.allows caller)
    (hstored : (C.engine B).fetchBidById n.engine.storage bidId = .ok stored)
    (hcf : CollisionFreeOn C.json {bid, stored}) :
    (C.engine B).retrieve n.engine.storage bidId caller key =
      B.retrieve n.engine.storage stored caller key := by
  refine ConfidentialStoreEngine.retrieve_of_allows hstored ?_
  rw [Bid.allows, ← h.allowedPeekers_eq ht hbid hstored hcf]
  exact hallows

end Node

/-- **The layers of access control agree.**  (a) `confidentialStore` and `confidentialRetrieve` get past their
own check exactly if the bid allows everybody or lists an address on the stack other than the precompile.
The address they act for is the innermost one listed; if everybody is allowed it is the innermost one, and
the precompile itself if there is no other.  (b) The transaction's store never refuses that address: the
outcome of the precompile is that of its own check, and what is not pending is left to the engine.  (c) In
no run of a node does the engine refuse it on the bid that it finds under the id, unless that is a
different bid with the same id. -/
theorem accessChecks_agree {σ : Type} {B : ConfidentialStorageBackend σ} {C : EngineConfig}
    (R : SuaveRuntime (C.engine B)) (m : Moment (C.engine B)) (t : TransactionalStore)
    (callerStack : List (Option Address)) (bidId : BidId) (bid : Bid) (key : GoString) :
    (∀ precompile, precompile = confStoreAddress ∨ precompile = confRetrieveAddress →
      ((∃ caller, checkIsPrecompileCallAllowed R.externals ⟨m.confidentialStore t, callerStack⟩ precompile
          bid = .ok caller) ↔
        allowedPeekerAny ∈ bid.allowedPeekers.elems ∨
          ∃ caller, some caller ∈ callerStack ∧ caller ≠ precompile ∧
            caller ∈ bid.allowedPeekers.elems) ∧
      ∀ caller, checkIsPrecompileCallAllowed R.externals ⟨m.confidentialStore t, callerStack⟩ precompile
          bid = .ok caller ↔
        (allowedPeekerAny ∉ bid.allowedPeekers.elems ∧
          IsInnermost callerStack (fun c => c ≠ precompile ∧ c ∈ bid.allowedPeekers.elems) caller) ∨
        (allowedPeekerAny ∈ bid.allowedPeekers.elems ∧
          (IsInnermost callerStack (· ≠ precompile) caller ∨
            (caller = precompile ∧ ∀ c, some c ∈ callerStack → c = precompile)))) ∧
    (t.fetchBidById (C.engine B) m.storage bidId = .ok bid →
      (∀ data, R.confStore callerStack m t bidId key data =
        (checkIsPrecompileCallAllowed R.externals ⟨m.confidentialStore t, callerStack⟩ confStoreAddress
          bid).map fun caller => t.addWrite ⟨bid, caller, key, data⟩) ∧
      confRetrieve R.externals ⟨m.confidentialStore t, callerStack⟩ bidId key =
        (checkIsPrecompileCallAllowed R.externals ⟨m.confidentialStore t, callerStack⟩ confRetrieveAddress
          bid).bind fun caller =>
            match t.pendingWrites.elems.find? fun sw => sw.bid.id = bid.id ∧ sw.key = key with
            | some sw => .ok sw.value
            | none => (C.engine B).retrieve m.storage bidId caller key) ∧
    ∀ (A : AtomicBackend B) (s₀ : σ) (as : List NodeAction) (n : Node σ),
      (∀ w, A.refuses w = none) → (∀ id, A.bids s₀ id = none) →
      (Node.init s₀).run (C.engine B) as = some n → t ∈ n.transactions → m.storage = n.engine.storage →
      t.fetchBidById (C.engine B) m.storage bidId = .ok bid →
      ∀ caller stored, checkIsPrecompileCallAllowed R.externals ⟨m.confidentialStore t, callerStack⟩
          confRetrieveAddress bid = .ok caller →
        (C.engine B).fetchBidById m.storage bidId = .ok stored → CollisionFreeOn C.json {bid, stored} →
        (C.engine B).retrieve m.storage bidId caller key = B.retrieve m.storage stored caller key := by
  refine ⟨?_, ?_, ?_⟩
  · intro precompile hprecompile
    refine ⟨?_, ?_⟩
    · rw [exists_checkIsPrecompileCallAllowed_iff]
      have hself : precompile ∈ bid.allowedPeekers.elems ∨ precompile = confStoreAddress ∨
          precompile = confRetrieveAddress := .inr hprecompile
      simp only [hself, true_and]
      rfl
    · intro caller
      by_cases hany : allowedPeekerAny ∈ bid.allowedPeekers.elems
      · rw [checkIsPrecompileCallAllowed_of_any hany]
        simp [hany]
      · rw [checkIsPrecompileCallAllowed_of_not_any hprecompile hany]
        simp [hany]
  · intro hbid
    exact ⟨confStore_eq hbid, confRetrieve_eq hbid⟩
  · intro A s₀ as n hA hs₀ hrun ht hm hbid caller stored hcheck hstored hcf
    have hsound : (Node.init s₀).Sound A C.json := Node.sound_init hs₀
    have hallows := allows_of_check (.inr rfl) hcheck
    rw [hm] at hbid hstored ⊢
    exact (hsound.run hA hrun).2.retrieve_eq ht hbid hallows hstored hcf

/-- The contract `0xa` reads a key of the public bid under which nothing is pending. -/
theorem accessChecks_agree_of_storeRun :
    ∃ st : EngineState LocalConfidentialStore,
      (Node.init LocalConfidentialStore.empty).run (mockConfig.engine LocalConfidentialStore.backend)
        Node.storeRun = some ⟨st, [TransactionalStore.storeTransaction [[1]]]⟩ ∧
      (mockConfig.engine LocalConfidentialStore.backend).retrieve st.storage TransactionalStore.publicBidId
          0xa [7] =
        LocalConfidentialStore.backend.retrieve st.storage TransactionalStore.storedPublicBid 0xa [7] := by
  obtain ⟨st, hrun, hbids⟩ := Node.run_storeRun
  refine ⟨st, hrun, ?_⟩
  -- the commit has put the bid into the storage
  have hstored : st.storage.bids TransactionalStore.publicBidId =
      some TransactionalStore.storedPublicBid := by
    have hwrites := (Node.exists_record hrun).writes
    rw [Node.storeCalls_storeRun] at hwrites
    obtain ⟨bid, hbid⟩ := Option.isSome_iff_exists.mp (hwrites _ List.mem_cons_self).2
    rw [← hbids _ _ hbid]
    exact hbid
  have hfetch : (mockConfig.engine LocalConfidentialStore.backend).fetchBidById st.storage
      TransactionalStore.publicBidId = .ok TransactionalStore.storedPublicBid := by
    show LocalConfidentialStore.fetchBidById st.storage _ = _
    rw [LocalConfidentialStore.fetchBidById, hstored]
  have hbid : (TransactionalStore.storeTransaction [[1]]).fetchBidById
      (mockConfig.engine LocalConfidentialStore.backend) st.storage TransactionalStore.publicBidId =
      .ok TransactionalStore.storedPublicBid := by
    rw [TransactionalStore.fetchBidById_eq_ok_iff, TransactionalStore.pendingBid,
      TransactionalStore.storeTransaction]
    simp [TransactionalStore.storedPublicBid]
  have hids : ∀ id bid, (mockConfig.engine LocalConfidentialStore.backend).fetchBidById st.storage id =
      .ok bid → bid.id = id := by
    intro id bid h
    exact (Node.wf_of_run hrun).id_eq id bid
      ((TransactionalStore.fetchBidById_eq_ok_iff (t := .new none)).mp h)
  have hcheck : ∀ store, checkIsPrecompileCallAllowed Rollback.mockRuntime.externals
      ⟨store, [none, some 0xb, some 0xa, none, some confRetrieveAddress]⟩ confRetrieveAddress
      TransactionalStore.storedPublicBid = .ok 0xa := fun _ => rfl
  have hcf : CollisionFreeOn mockConfig.json
      {TransactionalStore.storedPublicBid, TransactionalStore.storedPublicBid} := by
    rintro b (rfl | rfl) c (rfl | rfl) id _ _ <;> rfl
  exact (accessChecks_agree Rollback.mockRuntime
    ⟨st.storage, hids, 0⟩
    (TransactionalStore.storeTransaction [[1]]) _ _ _ _).2.2 LocalConfidentialStore.atomic _ _ _
    (fun _ => rfl) (fun _ => rfl) hrun List.mem_cons_self rfl
    hbid _ _ (hcheck _) hfetch hcf

end Suift
