import Suift.VM.Evm

/-!
# What every call frame keeps

The rule for facts about all trees of frames: a relation between the EVM before and after that does not
look at the `StateDB`, is transitive, holds across a SUAVE precompile and is passed on by
`EVMInterpreter.Run` holds across every frame and all code (`FrameRelation.exec`).

The `StateDB` itself is put back by a frame that fails (`stateDB_of_fails`).
-/

namespace Suift

namespace EVMConfig

variable {S σ : Type} {E : ConfidentialStoreEngine σ} {H : EVMConfig S E}

/-- A relation that holds across frames if it holds across their parts. -/
structure FrameRelation (H : EVMConfig S E) (R : EVM S → EVM S → Prop) : Prop where
  stateDB : ∀ evm db, R evm { evm with stateDB := db }
  trans : ∀ {evm₁ evm₂ evm₃}, R evm₁ evm₂ → R evm₂ evm₃ → R evm₁ evm₃
  runSuave : ∀ p addr m input gas evm, R evm (H.runSuave p addr m input gas evm).2
  interpret : ∀ codeAddr code gas readOnly loop evm, (∀ evm, R evm (loop evm).2) →
    R evm (interpret codeAddr code gas readOnly loop evm).2

namespace FrameRelation

variable {R : EVM S → EVM S → Prop} {loop : Address → EVM S → Return × EVM S}

theorem refl (h : H.FrameRelation R) (evm : EVM S) : R evm evm := h.stateDB evm evm.stateDB

theorem runPrecompiledContract (h : H.FrameRelation R) (p : SuavePrecompile ⊕ Precompile)
    (args : CallArgs E) (evm : EVM S) : R evm (H.runPrecompiledContract p args evm).2 := by
  cases p with
  | inl p =>
    unfold EVMConfig.runPrecompiledContract
    by_cases hgas : args.gas < p.requiredGas args.input
    · rw [if_pos hgas]
      exact h.refl evm
    · rw [if_neg hgas]
      exact h.runSuave p _ _ _ _ evm
  | inr p =>
    unfold EVMConfig.runPrecompiledContract
    by_cases hgas : args.gas < p.requiredGas args.input
    · rw [if_pos hgas]
      exact h.refl evm
    · rw [if_neg hgas]
      dsimp only
      cases p.run args.input with
      | ok output => exact h.refl evm
      | error err => exact h.refl evm

theorem revertOnError (h : H.FrameRelation R) {evm : EVM S} {x : Return × EVM S} (snapshot : S)
    (hx : R evm x.2) : R evm (revertOnError snapshot x).2 := by
  unfold EVMConfig.revertOnError
  by_cases hfails : x.1.Fails
  · rw [if_pos hfails]
    exact h.trans hx (h.stateDB x.2 snapshot)
  · rw [if_neg hfails]
    exact hx

theorem storeCode (h : H.FrameRelation R) {evm : EVM S} {x : Return × EVM S} (address : Address)
    (hx : R evm x.2) : R evm (H.storeCode address x).2 := by
  unfold EVMConfig.storeCode
  dsimp only
  split_ifs
  · exact hx
  · exact hx
  · exact hx
  · exact hx
  · exact h.trans hx (h.stateDB x.2 _)

theorem runAt (h : H.FrameRelation R) (hloop : ∀ contract evm, R evm (loop contract evm).2)
    (args : CallArgs E) (contract : Address) (readOnly : Bool) (evm : EVM S) :
    R evm (H.runAt args contract readOnly loop evm).2 := by
  unfold EVMConfig.runAt
  cases H.precompile args.addr with
  | some p => exact h.runPrecompiledContract p args evm
  | none => exact h.interpret _ _ _ _ _ evm (hloop contract)

theorem call (h : H.FrameRelation R) (hloop : ∀ contract evm, R evm (loop contract evm).2)
    (args : CallArgs E) (caller : Address) (evm : EVM S) : R evm (H.call args caller loop evm).2 := by
  unfold EVMConfig.call
  dsimp only
  by_cases hdepth : evm.depth > callCreateDepth
  · rw [if_pos hdepth]
    exact h.refl evm
  rw [if_neg hdepth]
  by_cases hbalance : args.value ≠ 0 ∧ ¬ H.db.canTransfer evm.stateDB caller args.value
  · rw [if_pos hbalance]
    exact h.refl evm
  rw [if_neg hbalance]
  by_cases hnothing : !H.db.exist evm.stateDB args.addr ∧ (H.precompile args.addr).isNone ∧
      H.rules.isEIP158 ∧ args.value = 0
  · rw [if_pos hnothing]
    exact h.refl evm
  · rw [if_neg hnothing]
    apply h.revertOnError
    generalize H.db.transfer _ caller args.addr args.value = db
    refine h.trans (h.stateDB evm db) ?_
    cases H.precompile args.addr with
    | some p => exact h.runPrecompiledContract p args _
    | none =>
      dsimp only
      split_ifs
      · exact h.refl _
      · exact h.interpret _ _ _ _ _ _ (hloop args.addr)

theorem create (h : H.FrameRelation R) (hloop : ∀ contract evm, R evm (loop contract evm).2)
    (args : CreateArgs) (caller : Address) (evm : EVM S) : R evm (H.create args caller loop evm).2 := by
  have hentered : ∀ address db, R evm (H.storeCode address
      (EVMConfig.interpret address args.code args.gas false (loop address) { evm with stateDB := db })).2 := by
    intro address db
    apply h.storeCode
    exact h.trans (h.stateDB evm db) (h.interpret _ _ _ _ _ _ (hloop address))
  unfold EVMConfig.create
  dsimp only
  generalize H.newAddress args caller evm = address
  by_cases hdepth : evm.depth > callCreateDepth
  · rw [if_pos hdepth]
    exact h.refl evm
  rw [if_neg hdepth]
  by_cases hbalance : ¬ H.db.canTransfer evm.stateDB caller args.value
  · rw [if_pos hbalance]
    exact h.refl evm
  rw [if_neg hbalance]
  by_cases hnonce : H.db.getNonce evm.stateDB caller + 1 < H.db.getNonce evm.stateDB caller
  · rw [if_pos hnonce]
    exact h.refl evm
  rw [if_neg hnonce]
  generalize H.db.transfer _ caller address args.value = db
  split
  · exact h.stateDB evm _
  · split
    · exact hentered address db
    · exact h.revertOnError _ (hentered address db)

/-- The relation holds across every frame if it holds across the code that the frame runs. -/
theorem enter (h : H.FrameRelation R) (hloop : ∀ contract evm, R evm (loop contract evm).2)
    (frame : Frame E) (caller : Address) (evm : EVM S) : R evm (H.enter frame caller loop evm).2 := by
  match frame with
  | .call .call args => exact h.call hloop args caller evm
  | .call .callCode args =>
    show R evm (H.callCode args caller loop evm).2
    unfold callCode
    split_ifs
    · exact h.refl evm
    · exact h.revertOnError _ (h.runAt hloop args caller false evm)
    · exact h.refl evm
  | .call .delegateCall args =>
    show R evm (H.delegateCall args caller loop evm).2
    unfold delegateCall
    split_ifs
    · exact h.refl evm
    · exact h.revertOnError _ (h.runAt hloop args caller false evm)
  | .call .staticCall args =>
    show R evm (H.staticCall args loop evm).2
    unfold staticCall
    split_ifs
    · exact h.refl evm
    · apply h.revertOnError
      exact h.trans (h.stateDB evm _) (h.runAt hloop args args.addr true _)
  | .create args => exact h.create hloop args caller evm

/-- The relation holds across all code. -/
theorem exec (h : H.FrameRelation R) (code : Code S E) (self : Address) (evm : EVM S) :
    R evm (H.exec code self evm).2 := by
  induction code generalizing self evm with
  | stop result => exact h.refl evm
  | write f next ih =>
    unfold EVMConfig.exec
    split_ifs
    · exact h.refl evm
    · exact h.trans (h.stateDB evm _) (ih self _)
  | enter frame body next ihbody ihnext =>
    have hframe := h.enter ihbody frame self evm
    unfold EVMConfig.exec
    dsimp only
    split_ifs
    · exact h.refl evm
    · exact hframe
    · exact h.trans hframe (ihnext self _)

end FrameRelation

/-! ### The state of a failed frame -/

theorem stateDB_revertOnError {snapshot : S} {x : Return × EVM S}
    (h : (revertOnError snapshot x).1.Fails) : (revertOnError snapshot x).2.stateDB = snapshot := by
  unfold revertOnError at h ⊢
  by_cases hfails : x.1.Fails
  · rw [if_pos hfails]
  · rw [if_neg hfails] at h
    exact absurd h hfails

/-- The state to which a frame goes back: the one in which it was entered, except that a creation keeps
the nonce that it has taken, once it has taken one. -/
def IsSnapshot (H : EVMConfig S E) (frame : Frame E) (caller : Address) (evm : EVM S) (db : S) : Prop :=
  match frame with
  | .call _ _ => db = evm.stateDB
  | .create args =>
    db = evm.stateDB ∨ db = H.announced (H.newAddress args caller evm) caller evm

/-- A frame that fails leaves the `StateDB` as its snapshot was.  Before Homestead a creation that cannot
pay for its code is an exception. -/
theorem stateDB_of_fails (hhomestead : H.rules.isHomestead = true) {frame : Frame E} {caller : Address}
    {loop : Address → EVM S → Return × EVM S} {evm : EVM S}
    (h : (H.enter frame caller loop evm).1.Fails) :
    H.IsSnapshot frame caller evm (H.enter frame caller loop evm).2.stateDB := by
  match frame, h with
  | .call .call args, h =>
    show (H.call args caller loop evm).2.stateDB = _
    replace h : (H.call args caller loop evm).1.Fails := h
    unfold call at h ⊢
    dsimp only at h ⊢
    by_cases hdepth : evm.depth > callCreateDepth
    · rw [if_pos hdepth]
    rw [if_neg hdepth] at h ⊢
    by_cases hbalance : args.value ≠ 0 ∧ ¬ H.db.canTransfer evm.stateDB caller args.value
    · rw [if_pos hbalance]
    rw [if_neg hbalance] at h ⊢
    by_cases hnothing : !H.db.exist evm.stateDB args.addr ∧ (H.precompile args.addr).isNone ∧
        H.rules.isEIP158 ∧ args.value = 0
    · rw [if_pos hnothing]
    · rw [if_neg hnothing] at h ⊢
      exact stateDB_revertOnError h
  | .call .callCode args, h =>
    show (H.callCode args caller loop evm).2.stateDB = _
    replace h : (H.callCode args caller loop evm).1.Fails := h
    unfold callCode at h ⊢
    split_ifs at h ⊢
    · rfl
    · exact stateDB_revertOnError h
    · rfl
  | .call .delegateCall args, h =>
    show (H.delegateCall args caller loop evm).2.stateDB = _
    replace h : (H.delegateCall args caller loop evm).1.Fails := h
    unfold delegateCall at h ⊢
    split_ifs at h ⊢
    · rfl
    · exact stateDB_revertOnError h
  | .call .staticCall args, h =>
    show (H.staticCall args loop evm).2.stateDB = _
    replace h : (H.staticCall args loop evm).1.Fails := h
    unfold staticCall at h ⊢
    dsimp only at h ⊢
    split_ifs at h ⊢
    · rfl
    · exact stateDB_revertOnError h
  | .create args, h =>
    show (H.create args caller loop evm).2.stateDB = _ ∨ (H.create args caller loop evm).2.stateDB = _
    replace h : (H.create args caller loop evm).1.Fails := h
    have hnot : ∀ x : Return × EVM S,
        ¬ (¬ H.rules.isHomestead ∧ x.1.err = some VMError.codeStoreOutOfGas) :=
      fun x hx => hx.1 hhomestead
    unfold create at h ⊢
    dsimp only at h ⊢
    by_cases hdepth : evm.depth > callCreateDepth
    · rw [if_pos hdepth]
      exact .inl rfl
    rw [if_neg hdepth] at h ⊢
    by_cases hbalance : ¬ H.db.canTransfer evm.stateDB caller args.value
    · rw [if_pos hbalance]
      exact .inl rfl
    rw [if_neg hbalance] at h ⊢
    by_cases hnonce : H.db.getNonce evm.stateDB caller + 1 < H.db.getNonce evm.stateDB caller
    · rw [if_pos hnonce]
      exact .inl rfl
    rw [if_neg hnonce] at h ⊢
    by_cases hcollision :
        H.db.getNonce (H.announced (H.newAddress args caller evm) caller evm)
          (H.newAddress args caller evm) ≠ 0 ∨
        H.db.getCodeHash (H.announced (H.newAddress args caller evm) caller evm)
          (H.newAddress args caller evm) ≠ 0 ∧
        H.db.getCodeHash (H.announced (H.newAddress args caller evm) caller evm)
          (H.newAddress args caller evm) ≠ H.emptyCodeHash
    · rw [if_pos hcollision]
      exact .inr rfl
    · rw [if_neg hcollision, if_neg (hnot _)] at h ⊢
      exact .inr (stateDB_revertOnError h)

end EVMConfig

end Suift
