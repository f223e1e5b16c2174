import Suift.CStore.Equiv.TransactionalStore
import Suift.VM.Equiv.Moments

/-!
# What a failed frame leaves behind

A frame that fails puts the `StateDB` back (`stateDB_of_fails`).  The transaction's confidential store has
no snapshots: every bid and every write that a precompile has got accepted stays pending, whatever becomes
of the frames around it (`frameRelation_extends`).  So a failed frame leaves the pending bids and writes as they
were exactly if none was accepted inside of it (`pending_after_fails_iff`).
-/

namespace Suift

open Fallible Stateful

/-! ### The store only grows -/

namespace TransactionalStore

/-- `t'` is `t` with `n` bids and writes added to it. -/
inductive Grows (t : TransactionalStore) : TransactionalStore → ℕ → Prop
  | refl : Grows t t 0
  | addBid {t' : TransactionalStore} {n : ℕ} (h : Grows t t' n) (bid : Bid)
      (hnew : bid.id ∉ t'.pendingBids.map Bid.id) : Grows t (t'.addBid bid hnew) (n + 1)
  | addWrite {t' : TransactionalStore} {n : ℕ} (h : Grows t t' n) (sw : StoreWrite) :
      Grows t (t'.addWrite sw) (n + 1)

variable {t t' t'' : TransactionalStore} {m n : ℕ}

theorem Grows.trans (h : Grows t t' m) (h' : Grows t' t'' n) : Grows t t'' (m + n) := by
  induction h' with
  | refl => exact h
  | addBid _ bid hnew ih => exact ih.addBid bid hnew
  | addWrite _ sw ih => exact ih.addWrite sw

theorem Grows.length_eq (h : Grows t t' n) :
    t'.pendingBids.length + t'.pendingWrites.elems.length =
      t.pendingBids.length + t.pendingWrites.elems.length + n := by
  induction h with
  | refl => rfl
  | @addBid t' n _ bid hnew ih =>
    have hbids : (t'.addBid bid hnew).pendingBids.length = t'.pendingBids.length + 1 := by
      simp [TransactionalStore.addBid]
    have hwrites : (t'.addBid bid hnew).pendingWrites = t'.pendingWrites := rfl
    rw [hbids, hwrites]
    omega
  | @addWrite t' n _ sw ih =>
    have hbids : (t'.addWrite sw).pendingBids = t'.pendingBids := rfl
    have hwrites : (t'.addWrite sw).pendingWrites.elems.length = t'.pendingWrites.elems.length + 1 := by
      rw [pendingWrites_addWrite, List.length_append, List.length_singleton]
    rw [hbids, hwrites]
    omega

/-- Nothing has been added exactly if the pending bids and writes are the same. -/
theorem Grows.pending_eq_iff (h : Grows t t' n) :
    (t'.pendingBids = t.pendingBids ∧ t'.pendingWrites = t.pendingWrites) ↔ n = 0 := by
  constructor
  · rintro ⟨hbids, hwrites⟩
    have hlength := h.length_eq
    rw [hbids, hwrites] at hlength
    omega
  · rintro rfl
    cases h
    exact ⟨rfl, rfl⟩

theorem grows_of_store {σ : Type} {E : ConfidentialStoreEngine σ} {s : σ} {bidId : BidId}
    {caller : Address} {key : GoString} {value : Bytes} {bid : Bid}
    (h : t.store E s bidId caller key value = .ok (t', bid)) : Grows t t' 1 := by
  simp only [store, bind_eq_ok_iff, ite_throw_eq_ok_iff, pure_eq_ok_iff, Prod.mk.injEq] at h
  obtain ⟨b, -, -, rfl, -⟩ := h
  exact Grows.refl.addWrite _

theorem grows_of_initializeBid {σ : Type} {E : ConfidentialStoreEngine σ} {rawBid bid : InnerBid}
    (h : t.initializeBid E rawBid = .ok (t', bid)) : Grows t t' 1 := by
  simp only [initializeBid, bind_eq_ok_iff] at h
  obtain ⟨b, -, hadd⟩ := h
  by_cases hmem : b.id ∈ t.pendingBids.map Bid.id
  · rw [dif_pos hmem] at hadd
    cases hadd
  · rw [dif_neg hmem] at hadd
    obtain ⟨rfl, -⟩ := Prod.mk.inj (Except.ok.inj hadd)
    exact Grows.refl.addBid b hmem

end TransactionalStore

namespace SuaveRuntime

variable {σ : Type} {E : ConfidentialStoreEngine σ} (R : SuaveRuntime E)
  (callerStack : List (Option Address)) (m : Moment E) (t : TransactionalStore) (input : Bytes)

theorem grows_of_confStore {t' : TransactionalStore} {bidId : BidId} {key : GoString} {data : Bytes}
    (h : R.confStore callerStack m t bidId key data = .ok t') : t.Grows t' 1 := by
  simp only [confStore, bind_eq_ok_iff, pure_eq_ok_iff] at h
  obtain ⟨bid, -, caller, -, ⟨stored, b⟩, hstore, rfl⟩ := h
  exact TransactionalStore.grows_of_store hstore

theorem grows_of_newBid {t' : TransactionalStore} {version : GoString} {decryptionCondition : UInt64}
    {allowedPeekers allowedStores : List Address} {bid : InnerBid}
    (h : R.newBid m t version decryptionCondition allowedPeekers allowedStores = .ok (t', bid)) :
    t.Grows t' 1 := by
  simp only [newBid, ite_throw_eq_ok_iff] at h
  exact TransactionalStore.grows_of_initializeBid h.2

theorem after_runStore {bidId : BidId} {key : GoString} {data : Bytes}
    (h : R.unpackStore input = some (bidId, key, data)) :
    after (R.runStore callerStack m input) t =
      match R.confStore callerStack m t bidId key data with
      | .ok t' => t'
      | .error _ => t := by
  unfold runStore after
  rw [h]
  simp only [EStateM.run_bind, EStateM.run_get, ofExcept_apply]
  cases R.confStore callerStack m t bidId key data <;> rfl

/-- The bid stays even if it cannot be packed. -/
theorem after_runNewBid {decryptionCondition : UInt64} {allowedPeekers allowedStores : List Address}
    {bidType : GoString}
    (h : R.unpackNewBid input = some (decryptionCondition, allowedPeekers, allowedStores, bidType)) :
    after (R.runNewBid m input) t =
      match R.newBid m t bidType decryptionCondition allowedPeekers allowedStores with
      | .ok (t', _) => t'
      | .error _ => t := by
  unfold runNewBid after
  rw [h]
  simp only [EStateM.run_bind, EStateM.run_get, ofExcept_apply]
  cases R.newBid m t bidType decryptionCondition allowedPeekers allowedStores with
  | error err => rfl
  | ok x =>
    obtain ⟨t', bid⟩ := x
    simp only [EStateM.run_set]
    cases R.packBid bid <;> rfl

theorem grows_runStore :
    t.Grows (after (R.runStore callerStack m input) t)
      (R.accepts .confidentialStore callerStack m t input).toNat := by
  unfold accepts
  cases hargs : R.unpackStore input with
  | none =>
    unfold runStore
    rw [hargs]
    exact .refl
  | some args =>
    obtain ⟨bidId, key, data⟩ := args
    show t.Grows _ (R.confStore callerStack m t bidId key data).isOk.toNat
    rw [R.after_runStore callerStack m t input hargs]
    cases hstore : R.confStore callerStack m t bidId key data with
    | error err => exact .refl
    | ok t' => exact R.grows_of_confStore callerStack m t hstore

theorem grows_runNewBid :
    t.Grows (after (R.runNewBid m input) t) (R.accepts .newBid callerStack m t input).toNat := by
  unfold accepts
  cases hargs : R.unpackNewBid input with
  | none =>
    unfold runNewBid
    rw [hargs]
    exact .refl
  | some args =>
    obtain ⟨decryptionCondition, allowedPeekers, allowedStores, bidType⟩ := args
    show t.Grows _ (R.newBid m t bidType decryptionCondition allowedPeekers allowedStores).isOk.toNat
    rw [R.after_runNewBid m t input hargs]
    cases hbid : R.newBid m t bidType decryptionCondition allowedPeekers allowedStores with
    | error err => exact .refl
    | ok x => exact R.grows_of_newBid m t hbid

/-- Every other precompile leaves the store alone. -/
theorem after_run_of_ne {p : SuavePrecompile} (hstore : p ≠ .confidentialStore) (hbid : p ≠ .newBid) :
    after (R.run p callerStack m input) t = t := by
  have hread : ∀ q, after (do MonadExcept.ofExcept (R.read q ⟨m.confidentialStore (← get), callerStack⟩ input) :
      EStateM GoError TransactionalStore Bytes) t = t := by
    intro q
    unfold after
    simp only [EStateM.run_bind, EStateM.run_get, ofExcept_apply]
    cases R.read q ⟨m.confidentialStore t, callerStack⟩ input <;> rfl
  cases p with
  | isConfidential =>
    unfold run after
    split_ifs <;> rfl
  | confidentialStore => exact absurd rfl hstore
  | newBid => exact absurd rfl hbid
  | _ => exact hread _

/-- A precompile adds to the store what the store accepts from it, and nothing else. -/
theorem grows_run (p : SuavePrecompile) :
    t.Grows (after (R.run p callerStack m input) t) (R.accepts p callerStack m t input).toNat := by
  by_cases hstore : p = .confidentialStore
  · subst hstore
    exact R.grows_runStore callerStack m t input
  by_cases hbid : p = .newBid
  · subst hbid
    exact R.grows_runNewBid callerStack m t input
  have haccepts : R.accepts p callerStack m t input = false := by
    cases p with
    | confidentialStore => exact absurd rfl hstore
    | newBid => exact absurd rfl hbid
    | _ => rfl
  rw [R.after_run_of_ne callerStack m t input hstore hbid, haccepts]
  exact .refl

end SuaveRuntime

/-! ### Frames -/

/-- The store has grown by what it has accepted from the precompiles that have run since. -/
def EVM.Extends {S : Type} (evm evm' : EVM S) : Prop :=
  ∃ new, evm'.runs = evm.runs ++ new ∧ evm.store.Grows evm'.store (new.countP PrecompileRun.accepted)

namespace EVM

variable {S : Type} {evm evm' evm'' : EVM S}

/-- Only the store and the record of the precompiles matter. -/
theorem Extends.of_eq (hstore : evm'.store = evm.store) (hruns : evm'.runs = evm.runs) :
    evm.Extends evm' := by
  refine ⟨[], by rw [hruns, List.append_nil], ?_⟩
  rw [hstore]
  exact .refl

theorem Extends.trans (h : evm.Extends evm') (h' : evm'.Extends evm'') : evm.Extends evm'' := by
  obtain ⟨new, hruns, hstore⟩ := h
  obtain ⟨new', hruns', hstore'⟩ := h'
  refine ⟨new ++ new', by rw [hruns', hruns, List.append_assoc], ?_⟩
  rw [List.countP_append]
  exact hstore.trans hstore'

/-- The pending bids and writes are the same exactly if nothing has been accepted. -/
theorem Extends.pending_eq_iff (h : evm.Extends evm') :
    (evm'.store.pendingBids = evm.store.pendingBids ∧
        evm'.store.pendingWrites = evm.store.pendingWrites) ↔
      ∀ run ∈ evm'.runs.drop evm.runs.length, run.accepted = false := by
  obtain ⟨new, hruns, hstore⟩ := h
  rw [hstore.pending_eq_iff, hruns, List.drop_left, List.countP_eq_zero]
  simp

end EVM

namespace EVMConfig

variable {S σ : Type} {E : ConfidentialStoreEngine σ} (H : EVMConfig S E)

theorem extends_runSuave (p : SuavePrecompile) (addr : Address) (m : Moment E) (input : Bytes) (gas : ℕ)
    (evm : EVM S) : evm.Extends (H.runSuave p addr m input gas evm).2 := by
  have hgrows := H.runtime.grows_run (evm.callerStack ++ [some addr]) m evm.store input p
  have hcount : ∀ run : PrecompileRun, [run].countP PrecompileRun.accepted = run.accepted.toNat := by
    intro run
    cases hrun : run.accepted <;> simp [hrun]
  have hran := H.ranSuave_runSuave p ⟨addr, input, gas, 0, m⟩ gas evm
  refine ⟨_, hran.runs, ?_⟩
  rw [hran.store, hcount]
  exact hgrows

theorem extends_interpret (codeAddr : Address) (code : Bytes) (gas : ℕ) (readOnly : Bool)
    (loop : EVM S → Return × EVM S) (evm : EVM S) (hloop : ∀ evm, EVM.Extends evm (loop evm).2) :
    evm.Extends (interpret codeAddr code gas readOnly loop evm).2 := by
  -- what is set for the code and set back after it is neither the store nor the record
  have hset : evm.Extends (inside codeAddr readOnly evm) := .of_eq rfl rfl
  unfold interpret
  by_cases hcode : code = []
  · simp only [if_pos hcode]
    exact .of_eq rfl rfl
  · simp only [if_neg hcode]
    exact (hset.trans (hloop _)).trans (.of_eq rfl rfl)

theorem frameRelation_extends : H.FrameRelation EVM.Extends where
  stateDB _ _ := .of_eq rfl rfl
  trans h h' := h.trans h'
  runSuave := H.extends_runSuave
  interpret := extends_interpret

variable {H}

/-- **What a failed frame leaves.**  A frame of any kind, around any tree of nested frames, ends with an
error that its caller may survive.  It leaves the pending bids and writes as they were if and only if the
store has accepted nothing from the precompiles that were called inside, in frames that failed or in frames
that did not; and that is what the record of the precompiles says.  The `StateDB` is put back in any
case. -/
theorem pending_after_fails_iff {frame : Frame E} {body : Code S E} {caller : Address} {evm evm' : EVM S}
    {r : Return} (h : H.enter frame caller (H.exec body) evm = (r, evm')) (hfails : r.Fails) :
    ((evm'.store.pendingBids = evm.store.pendingBids ∧
        evm'.store.pendingWrites = evm.store.pendingWrites) ↔
      ∀ kind args self evm₁ p, H.CallInside frame body caller evm kind args self evm₁ →
        H.RunsSuave kind args self evm₁ p →
          H.runtime.accepts p (evm₁.callerStack ++ [some args.addr]) args.moment evm₁.store args.input =
            false) ∧
      ((evm'.store.pendingBids = evm.store.pendingBids ∧
          evm'.store.pendingWrites = evm.store.pendingWrites) ↔
        ∀ run ∈ evm'.runs.drop evm.runs.length, run.accepted = false) ∧
      (H.rules.isHomestead = true → H.IsSnapshot frame caller evm evm'.stateDB) := by
  have hextends := H.frameRelation_extends.enter (H.frameRelation_extends.exec body) frame caller evm
  have hmem : ∀ run, run ∈ (H.enter frame caller (H.exec body) evm).2.runs.drop evm.runs.length ↔ _ :=
    fun run => mem_runs_enter_iff
  rw [h] at hextends hmem
  refine ⟨hextends.pending_eq_iff.trans ?_, hextends.pending_eq_iff, ?_⟩
  · constructor
    · intro hnone kind args self evm₁ p hinside hp
      exact hnone _ ((hmem _).mpr ⟨kind, args, self, evm₁, p, hinside, hp, rfl⟩)
    · intro hnone run hrun
      obtain ⟨kind, args, self, evm₁, p, hinside, hp, rfl⟩ := (hmem run).mp hrun
      exact hnone kind args self evm₁ p hinside hp
  · intro hhomestead
    have hstate : H.IsSnapshot frame caller evm (H.enter frame caller (H.exec body) evm).2.stateDB :=
      stateDB_of_fails hhomestead (by rw [h]; exact hfails)
    rw [h] at hstate
    exact hstate

end EVMConfig

/-! ### A call that stores a value and reverts -/

namespace Rollback

open LocalConfidentialStore TransactionalStore

/-- Every account exists, has code and may transfer; the state is a number that code changes. -/
def mockDB : StateDB ℕ where
  exist _ _ := true
  createAccount db _ := db
  getCode _ _ := [0]
  getCodeHash _ _ := 0
  setCode db _ _ := db
  getNonce _ _ := 0
  setNonce db _ _ := db
  addBalance db _ _ := db
  addAddressToAccessList db _ := db
  canTransfer _ _ _ := true
  transfer db _ _ _ := db

/-- The input of `confidentialStore` is the value for the public bid. -/
def mockRuntime : SuaveRuntime (mockConfig.engine backend) where
  externals :=
    { precompileAddressToName := fun _ => []
      unpackBidIds := fun _ => .ok []
      unmarshalSBundle := fun _ => .error (GoError.new "")
      marshalBinary := fun _ => .ok []
      marshalShareBundle := fun _ => .ok []
      formatInnerBid := fun _ => []
      formatBid := fun _ => [] }
  unpackStore input := some (publicBidId, [], input)
  unpackNewBid _ := none
  packBid _ := some []
  confidentialComputeRequestTx := some mockRequest
  read _ _ _ := .ok []

def mockEvm : EVMConfig ℕ (mockConfig.engine backend) where
  db := mockDB
  rules := ⟨true, true, true, true, true⟩
  runtime := mockRuntime
  precompiles _ := none
  emptyCodeHash := 0
  createAddress _ _ := 0
  createAddress2 _ _ _ := 0

def mockMoment : Moment (mockConfig.engine backend) where
  storage := empty
  id_eq _ _ h := nomatch h
  randomBidId := 0

def callOf (addr : Address) (input : Bytes) : Frame (mockConfig.engine backend) :=
  .call .call ⟨addr, input, 1000, 0, mockMoment⟩

/-- Change the state and revert. -/
def quietCode : Code ℕ (mockConfig.engine backend) :=
  .write (· + 1) (.stop ⟨[], 0, some .executionReverted⟩)

/-- Change the state, store a value under the public bid, and revert. -/
def storingCode : Code ℕ (mockConfig.engine backend) :=
  .write (· + 1) (.enter (callOf confStoreAddress [7]) (.stop ⟨[], 0, none⟩)
    (.stop ⟨[], 0, some .executionReverted⟩))

/-- Call the contract `0xb`, and return whatever comes of it. -/
def survivingCode : Code ℕ (mockConfig.engine backend) :=
  .enter (callOf 0xb []) storingCode (.stop ⟨[], 0, none⟩)

/-- A transaction that has made the public bid. -/
def mockStart : EVM ℕ where
  stateDB := 0
  depth := 0
  callerStack := []
  readOnly := false
  store := storeTransaction []
  runs := []

/-- What the transaction has pending when the contract `0xa` has run `survivingCode`. -/
def revertedStore : TransactionalStore where
  sourceTx := some mockRequest
  pendingBids := [storedPublicBid]
  pendingWrites := some [⟨storedPublicBid, 0xb, [], [7]⟩]
  nodup := nodup_storedPublicBid

theorem pending_after_fails_iff_quietCode :
    (mockEvm.enter (callOf 0xb []) 0xa (mockEvm.exec quietCode) mockStart).1.Fails ∧
      (mockEvm.enter (callOf 0xb []) 0xa (mockEvm.exec quietCode) mockStart).2.store.pendingWrites =
        mockStart.store.pendingWrites := by
  have hfails : (mockEvm.enter (callOf 0xb []) 0xa (mockEvm.exec quietCode) mockStart).1.Fails := by
    decide +kernel
  have hruns : ∀ run ∈ (mockEvm.enter (callOf 0xb []) 0xa (mockEvm.exec quietCode) mockStart).2.runs.drop
      mockStart.runs.length, run.accepted = false := by
    decide +kernel
  have hiff := EVMConfig.pending_after_fails_iff
    (show mockEvm.enter (callOf 0xb []) 0xa (mockEvm.exec quietCode) mockStart = (_, _) from rfl) hfails
  exact ⟨hfails, (hiff.2.1.mpr hruns).2⟩

theorem exists_finalize_revertedStore :
    ∃ st, (revertedStore.finalize (mockConfig.engine backend) [storedPublicBid]).run ⟨empty, []⟩ =
      .ok () st ∧ st.storage.value (publicBidId, []) = some [7] := by
  obtain ⟨pwMsg, hmsg⟩ := exists_signMessage_mockRequest revertedStore.pendingWrites
  have hfresh : atomic.Fresh empty [storedPublicBid] := ⟨List.nodup_singleton _, fun _ _ => rfl⟩
  refine ⟨_, (ConfidentialStoreEngine.finalize_eq_ok_iff atomic).mpr
    ⟨pwMsg, hfresh, fun _ _ => rfl, hmsg, rfl⟩, ?_⟩
  show (atomic.insertValues (atomic.insertBids empty [storedPublicBid])
    revertedStore.pendingWrites.elems).value (publicBidId, []) = some [7]
  decide +kernel

/-- The contract `0xb` stores a value and reverts.  The contract `0xa` that has called it survives, the
change of the state is undone, and `Finalize` persists the value. -/
theorem exists_reverted_write_persisted :
    (mockEvm.enter (callOf 0xb []) 0xa (mockEvm.exec storingCode)
        { mockStart with depth := 1, callerStack := [some 0xa] }).1.err = some .executionReverted ∧
      (mockEvm.enter (callOf 0xb []) 0xa (mockEvm.exec storingCode)
        { mockStart with depth := 1, callerStack := [some 0xa] }).2.store.pendingWrites ≠
          mockStart.store.pendingWrites ∧
      (mockEvm.enter (callOf 0xa []) 0 (mockEvm.exec survivingCode) mockStart).1.err = none ∧
      (mockEvm.enter (callOf 0xa []) 0 (mockEvm.exec survivingCode) mockStart).2.stateDB = 0 ∧
      ∃ st, ((mockEvm.enter (callOf 0xa []) 0 (mockEvm.exec survivingCode) mockStart).2.store.finalize
          (mockConfig.engine backend) [storedPublicBid]).run ⟨empty, []⟩ = .ok () st ∧
        st.storage.value (publicBidId, []) = some [7] := by
  have hstore : (mockEvm.enter (callOf 0xa []) 0 (mockEvm.exec survivingCode) mockStart).2.store =
      revertedStore := by
    decide +kernel
  rw [hstore]
  refine ⟨?_, ?_, ?_, ?_, exists_finalize_revertedStore⟩
  · decide +kernel
  · decide +kernel
  · decide +kernel
  · decide +kernel

end Rollback

end Suift
