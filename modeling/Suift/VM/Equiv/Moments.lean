import Suift.Lib.Stateful
import Suift.VM.Equiv.Evm

/-!
# The moments of an execution

While a tree of frames is executed, code changes the state, opens frames and gets back what they return.

* `Active` lists the moments between these steps, with the frames that are open, and does not look at the
  caller stack: a frame is open from the moment its code starts until that code has returned.
* `RunsSuave` says when a call runs a SUAVE precompile, and `ranSuave_enter` what becomes of it: the
  runtime is given the caller stack with the address of the precompile, and the frame returns what the
  runtime returns.
* `enter_spec`: a frame runs nothing, one precompile, or code.
* `mem_runs_enter_iff`: the precompiles that a frame has put on record are those that are run by calls at
  these moments, all of them and no others.
-/

namespace Suift

open Stateful

namespace EVMConfig

variable {S σ : Type} {E : ConfidentialStoreEngine σ} (H : EVMConfig S E)

/-- Whose code a frame runs: that of the address called, or of the contract that is created. -/
def codeAddr (frame : Frame E) (caller : Address) (evm : EVM S) : Address :=
  match frame with
  | .call _ args => args.addr
  | .create args => H.newAddress args caller evm

/-- The EVM inside a frame. -/
def inside (codeAddr : Address) (readOnly : Bool) (evm : EVM S) : EVM S :=
  { evm with
    depth := evm.depth + 1
    callerStack := evm.callerStack ++ [some codeAddr]
    readOnly := evm.readOnly || readOnly }

/-- The contract that the code of a frame runs as, and the EVM that it starts in.  There is none if the
frame is refused, has no code to run, or runs a precompile. -/
def started (frame : Frame E) (caller : Address) (evm : EVM S) : Option (Address × EVM S) :=
  match frame with
  | .call .call args =>
    let db := if H.db.exist evm.stateDB args.addr then evm.stateDB
      else H.db.createAccount evm.stateDB args.addr
    let db := H.db.transfer db caller args.addr args.value
    if evm.depth > callCreateDepth ∨
        (args.value ≠ 0 ∧ ¬ H.db.canTransfer evm.stateDB caller args.value) ∨
        (!H.db.exist evm.stateDB args.addr ∧ (H.precompile args.addr).isNone ∧ H.rules.isEIP158 ∧
          args.value = 0) ∨
        (H.precompile args.addr).isSome ∨ H.db.getCode db args.addr = [] then none
    else some (args.addr, inside args.addr false { evm with stateDB := db })
  | .call .callCode args =>
    if evm.depth > callCreateDepth ∨ ¬ H.db.canTransfer evm.stateDB caller args.value ∨
        (H.precompile args.addr).isSome ∨ H.db.getCode evm.stateDB args.addr = [] then none
    else some (caller, inside args.addr false evm)
  | .call .delegateCall args =>
    if evm.depth > callCreateDepth ∨ (H.precompile args.addr).isSome ∨
        H.db.getCode evm.stateDB args.addr = [] then none
    else some (caller, inside args.addr false evm)
  | .call .staticCall args =>
    let db := H.db.addBalance evm.stateDB args.addr 0
    if evm.depth > callCreateDepth ∨ (H.precompile args.addr).isSome ∨
        H.db.getCode db args.addr = [] then none
    else some (args.addr, inside args.addr true { evm with stateDB := db })
  | .create args =>
    let address := H.newAddress args caller evm
    let nonce := H.db.getNonce evm.stateDB caller
    let db := H.announced address caller evm
    let contractHash := H.db.getCodeHash db address
    if evm.depth > callCreateDepth ∨ ¬ H.db.canTransfer evm.stateDB caller args.value ∨
        nonce + 1 < nonce ∨
        (H.db.getNonce db address ≠ 0 ∨ contractHash ≠ 0 ∧ contractHash ≠ H.emptyCodeHash) ∨
        args.code = [] then none
    else
      let db := H.db.createAccount db address
      let db := if H.rules.isEIP158 then H.db.setNonce db address 1 else db
      some (address, inside address false
        { evm with stateDB := H.db.transfer db caller address args.value })

/-- The frame of a call returns an error before anything is run in it. -/
def refusesCall (kind : CallKind) (args : CallArgs E) (caller : Address) (evm : EVM S) : Prop :=
  evm.depth > callCreateDepth ∨
    match kind with
    | .call => args.value ≠ 0 ∧ ¬ H.db.canTransfer evm.stateDB caller args.value
    | .callCode => ¬ H.db.canTransfer evm.stateDB caller args.value
    | .delegateCall | .staticCall => False

/-- The call runs the SUAVE precompile `p`. -/
structure RunsSuave (kind : CallKind) (args : CallArgs E) (caller : Address) (evm : EVM S)
    (p : SuavePrecompile) : Prop where
  precompile : H.precompile args.addr = some (.inl p)
  enters : ¬ H.refusesCall kind args caller evm
  gas : p.requiredGas args.input ≤ args.gas

/-- What the caller of a precompile gets of its outcome, apart from the gas. -/
def handBack : EStateM.Result GoError TransactionalStore Bytes → Bytes × Option VMError
  | .ok output _ => (output, none)
  | .error (.error text w) _ => (text, some (.other (.error text w)))
  | .error (.panic text) _ => ([], some (.other (.panic text)))

/-- The precompile `p` was run with the caller stack `callerStack`: the frame returns what it has returned,
the store is the one that it has left, and it is on record. -/
structure RanSuave (p : SuavePrecompile) (callerStack : List (Option Address)) (args : CallArgs E)
    (evm : EVM S) (x : Return × EVM S) : Prop where
  returned : (x.1.ret, x.1.err) =
    handBack ((H.runtime.run p callerStack args.moment args.input).run evm.store)
  store : x.2.store = after (H.runtime.run p callerStack args.moment args.input) evm.store
  runs : x.2.runs = evm.runs ++
    [⟨p, callerStack, H.runtime.accepts p callerStack args.moment evm.store args.input⟩]

/-! ### What a frame does -/

variable {H} {frame : Frame E} {kind : CallKind} {args : CallArgs E} {cargs : CreateArgs}
  {caller : Address} {evm : EVM S} {p : SuavePrecompile} {callerStack : List (Option Address)}
  {loop : Address → EVM S → Return × EVM S}

theorem RanSuave.revertOnError {x : Return × EVM S} (h : H.RanSuave p callerStack args evm x)
    (snapshot : S) : H.RanSuave p callerStack args evm (revertOnError snapshot x) := by
  unfold EVMConfig.revertOnError
  by_cases hfails : x.1.Fails
  · rw [if_pos hfails]
    exact ⟨h.returned, h.store, h.runs⟩
  · rw [if_neg hfails]
    exact h

theorem ranSuave_runSuave (H : EVMConfig S E) (p : SuavePrecompile) (args : CallArgs E) (gas : ℕ)
    (evm : EVM S) :
    H.RanSuave p (evm.callerStack ++ [some args.addr]) args evm
      (H.runSuave p args.addr args.moment args.input gas evm) := by
  unfold runSuave
  dsimp only
  rcases hresult : (H.runtime.run p (evm.callerStack ++ [some args.addr]) args.moment args.input).run
    evm.store with ⟨output, store⟩ | ⟨⟨text, w⟩ | text, store⟩
  · exact ⟨by rw [hresult]; rfl, (after_of_ok hresult).symm, rfl⟩
  · exact ⟨by rw [hresult]; rfl, (after_of_error hresult).symm, rfl⟩
  · exact ⟨by rw [hresult]; rfl, (after_of_error hresult).symm, rfl⟩

/-- **A call of a SUAVE precompile** hands it the caller stack with its own address, whichever kind of call
it is. -/
theorem ranSuave_enter (h : H.RunsSuave kind args caller evm p)
    (loop : Address → EVM S → Return × EVM S) :
    H.RanSuave p (evm.callerStack ++ [some args.addr]) args evm
      (H.enter (.call kind args) caller loop evm) := by
  -- the state is all that a frame may have changed before
  have hprecompile (db : S) : H.RanSuave p (evm.callerStack ++ [some args.addr]) args evm
      (H.runPrecompiledContract (.inl p) args { evm with stateDB := db }) := by
    unfold runPrecompiledContract
    rw [if_neg (not_lt.mpr h.gas)]
    have hrun := ranSuave_runSuave H p args (args.gas - p.requiredGas args.input)
      { evm with stateDB := db }
    exact ⟨hrun.returned, hrun.store, hrun.runs⟩
  have hrunAt (db : S) (self : Address) (readOnly : Bool) :
      H.RanSuave p (evm.callerStack ++ [some args.addr]) args evm
        (H.runAt args self readOnly loop { evm with stateDB := db }) := by
    unfold runAt
    rw [h.precompile]
    exact hprecompile db
  have hdepth : ¬ evm.depth > callCreateDepth := fun hdepth => h.enters (.inl hdepth)
  cases kind with
  | call =>
    have hbalance : ¬ (args.value ≠ 0 ∧ ¬ H.db.canTransfer evm.stateDB caller args.value) :=
      fun hbalance => h.enters (.inr hbalance)
    show H.RanSuave p _ args evm (H.call args caller loop evm)
    unfold call
    dsimp only
    rw [if_neg hdepth, if_neg hbalance, h.precompile, if_neg (by simp)]
    exact (hprecompile _).revertOnError _
  | callCode =>
    have hbalance : ¬ ¬ H.db.canTransfer evm.stateDB caller args.value :=
      fun hbalance => h.enters (.inr hbalance)
    show H.RanSuave p _ args evm (H.callCode args caller loop evm)
    unfold callCode
    rw [if_neg hdepth, if_neg hbalance]
    exact (hrunAt evm.stateDB _ _).revertOnError _
  | delegateCall =>
    show H.RanSuave p _ args evm (H.delegateCall args caller loop evm)
    unfold delegateCall
    rw [if_neg hdepth]
    exact (hrunAt evm.stateDB _ _).revertOnError _
  | staticCall =>
    show H.RanSuave p _ args evm (H.staticCall args loop evm)
    unfold staticCall
    rw [if_neg hdepth]
    exact (hrunAt _ _ _).revertOnError _

@[simp]
theorem runs_revertOnError (snapshot : S) (x : Return × EVM S) :
    (revertOnError snapshot x).2.runs = x.2.runs := by
  unfold revertOnError
  by_cases h : x.1.Fails
  · rw [if_pos h]
  · rw [if_neg h]

@[simp]
theorem runs_storeCode (address : Address) (x : Return × EVM S) :
    (H.storeCode address x).2.runs = x.2.runs := by
  unfold storeCode
  dsimp only
  split_ifs
  · rfl
  · rfl
  · rfl
  · rfl
  · rfl

theorem runs_interpret (codeAddr : Address) (code : Bytes) (gas : ℕ) (readOnly : Bool)
    (loop : EVM S → Return × EVM S) :
    (interpret codeAddr code gas readOnly loop evm).2.runs =
      if code = [] then evm.runs else (loop (inside codeAddr readOnly evm)).2.runs := by
  unfold interpret inside
  dsimp only
  split_ifs
  · rfl
  · rfl

/-- What a frame has done by the time it returns, as far as precompiles are concerned. -/
inductive Entered (H : EVMConfig S E) (loop : Address → EVM S → Return × EVM S) (frame : Frame E)
    (caller : Address) (evm evm' : EVM S) : Prop
  | nothing (hnone : H.started frame caller evm = none) (hruns : evm'.runs = evm.runs)
  | suave (hnone : H.started frame caller evm = none) (kind : CallKind) (args : CallArgs E)
      (p : SuavePrecompile) (hframe : frame = .call kind args) (hp : H.RunsSuave kind args caller evm p)
  | code (contract : Address) (evm₁ : EVM S) (hstarted : H.started frame caller evm = some (contract, evm₁))
      (hruns : evm'.runs = (loop contract evm₁).2.runs)

/-- Code starts with the code address of its frame on the stack. -/
theorem of_started {contract : Address} {evm₁ : EVM S}
    (h : H.started frame caller evm = some (contract, evm₁)) :
    evm₁.callerStack = evm.callerStack ++ [some (H.codeAddr frame caller evm)] ∧ evm₁.runs = evm.runs := by
  unfold started at h
  dsimp only at h
  split at h <;> split_ifs at h
  all_goals
    cases h
    exact ⟨rfl, rfl⟩

/-- A call that gets to a precompile runs it, unless the precompile is one of the Ethereum chain or costs
more than the gas. -/
theorem entered_of_precompile {q : SuavePrecompile ⊕ Precompile}
    (hq : H.precompile args.addr = some q) (henters : ¬ H.refusesCall kind args caller evm)
    (hnone : H.started (.call kind args) caller evm = none) (snapshot db : S) :
    H.Entered loop (.call kind args) caller evm
      (revertOnError snapshot (H.runPrecompiledContract q args { evm with stateDB := db })).2 := by
  cases q with
  | inr q =>
    refine .nothing hnone ((runs_revertOnError _ _).trans ?_)
    unfold runPrecompiledContract
    dsimp only
    split_ifs
    · rfl
    · cases q.run args.input with
      | ok output => rfl
      | error err => rfl
  | inl p =>
    by_cases hgas : args.gas < p.requiredGas args.input
    · refine .nothing hnone ((runs_revertOnError _ _).trans ?_)
      unfold runPrecompiledContract
      rw [if_pos hgas]
    · exact .suave hnone kind args p rfl ⟨hq, henters, not_lt.mp hgas⟩

theorem entered_call : H.Entered loop (.call .call args) caller evm (H.call args caller loop evm).2 := by
  unfold call
  dsimp only
  by_cases hdepth : evm.depth > callCreateDepth
  · rw [if_pos hdepth]
    exact .nothing (if_pos (.inl hdepth)) rfl
  rw [if_neg hdepth]
  by_cases hbalance : args.value ≠ 0 ∧ ¬ H.db.canTransfer evm.stateDB caller args.value
  · rw [if_pos hbalance]
    exact .nothing (if_pos (.inr (.inl hbalance))) rfl
  rw [if_neg hbalance]
  by_cases hnothing : !H.db.exist evm.stateDB args.addr ∧ (H.precompile args.addr).isNone ∧
      H.rules.isEIP158 ∧ args.value = 0
  · rw [if_pos hnothing]
    exact .nothing (if_pos (.inr (.inr (.inl hnothing)))) rfl
  rw [if_neg hnothing]
  cases hq : H.precompile args.addr with
  | some q =>
    dsimp only
    have henters : ¬ H.refusesCall .call args caller evm := by
      rintro (h | h)
      · exact hdepth h
      · exact hbalance h
    exact entered_of_precompile hq henters (if_pos (.inr (.inr (.inr (.inl (by simp [hq])))))) _ _
  | none =>
    dsimp only
    by_cases hcode : H.db.getCode (H.db.transfer (if H.db.exist evm.stateDB args.addr then evm.stateDB
        else H.db.createAccount evm.stateDB args.addr) caller args.addr args.value) args.addr = []
    · rw [if_pos hcode]
      exact .nothing (if_pos (.inr (.inr (.inr (.inr hcode))))) (runs_revertOnError _ _)
    · rw [if_neg hcode]
      refine .code args.addr _ (if_neg ?_) ?_
      · rintro (h | h | h | h | h)
        · exact hdepth h
        · exact hbalance h
        · exact hnothing h
        · exact absurd h (by simp [hq])
        · exact hcode h
      · rw [runs_revertOnError, runs_interpret, if_neg hcode]

theorem entered_create :
    H.Entered loop (.create cargs) caller evm (H.create cargs caller loop evm).2 := by
  unfold create
  dsimp only
  by_cases hdepth : evm.depth > callCreateDepth
  · rw [if_pos hdepth]
    exact .nothing (if_pos (.inl hdepth)) rfl
  rw [if_neg hdepth]
  by_cases hbalance : ¬ H.db.canTransfer evm.stateDB caller cargs.value
  · rw [if_pos hbalance]
    exact .nothing (if_pos (.inr (.inl hbalance))) rfl
  rw [if_neg hbalance]
  by_cases hnonce : H.db.getNonce evm.stateDB caller + 1 < H.db.getNonce evm.stateDB caller
  · rw [if_pos hnonce]
    exact .nothing (if_pos (.inr (.inr (.inl hnonce)))) rfl
  rw [if_neg hnonce]
  split
  · rename_i hcollision
    exact .nothing (if_pos (.inr (.inr (.inr (.inl hcollision))))) rfl
  · rename_i hcollision
    have hsettled : ∀ (snapshot : S) (x : Return × EVM S),
        (if ¬ H.rules.isHomestead ∧ x.1.err = some .codeStoreOutOfGas then x
          else revertOnError snapshot x).2.runs = x.2.runs := by
      intro snapshot x
      split_ifs
      · rfl
      · exact runs_revertOnError snapshot x
    by_cases hcode : cargs.code = []
    · refine .nothing (if_pos (.inr (.inr (.inr (.inr hcode))))) ?_
      rw [hsettled, runs_storeCode, runs_interpret, if_pos hcode]
    · refine .code (H.newAddress cargs caller evm) _ (if_neg ?_) ?_
      · rintro (h | h | h | h | h)
        · exact hdepth h
        · exact hbalance h
        · exact hnonce h
        · exact hcollision h
        · exact hcode h
      · rw [hsettled, runs_storeCode, runs_interpret, if_neg hcode]

/-- A frame that runs whatever is at the address, on the state `db`. -/
theorem entered_of_runAt {self : Address} {readOnly : Bool} {db : S}
    (henters : ¬ H.refusesCall kind args caller evm)
    (hnone : (H.precompile args.addr).isSome ∨ H.db.getCode db args.addr = [] →
      H.started (.call kind args) caller evm = none)
    (hstarted : ¬ ((H.precompile args.addr).isSome ∨ H.db.getCode db args.addr = []) →
      H.started (.call kind args) caller evm =
        some (self, inside args.addr readOnly { evm with stateDB := db })) (snapshot : S) :
    H.Entered loop (.call kind args) caller evm
      (revertOnError snapshot (H.runAt args self readOnly loop { evm with stateDB := db })).2 := by
  unfold runAt
  cases hq : H.precompile args.addr with
  | some q =>
    exact entered_of_precompile hq henters (hnone (.inl (by rw [hq]; rfl))) snapshot db
  | none =>
    by_cases hcode : H.db.getCode db args.addr = []
    · refine .nothing (hnone (.inr hcode)) ?_
      rw [runs_revertOnError]
      dsimp only
      rw [runs_interpret, if_pos hcode]
    · refine .code self _ (hstarted (by simp [hq, hcode])) ?_
      rw [runs_revertOnError]
      dsimp only
      rw [runs_interpret, if_neg hcode]

/-- **What a frame does** before it returns, whether it fails or not. -/
theorem enter_spec (frame : Frame E) (caller : Address) (loop : Address → EVM S → Return × EVM S)
    (evm : EVM S) :
    H.Entered loop frame caller evm (H.enter frame caller loop evm).2 := by
  match frame with
  | .call .call args => exact entered_call
  | .create cargs => exact entered_create
  | .call .callCode args =>
    show H.Entered loop _ caller evm (H.callCode args caller loop evm).2
    unfold callCode
    by_cases hdepth : evm.depth > callCreateDepth
    · rw [if_pos hdepth]
      exact .nothing (if_pos (.inl hdepth)) rfl
    rw [if_neg hdepth]
    by_cases hbalance : ¬ H.db.canTransfer evm.stateDB caller args.value
    · rw [if_pos hbalance]
      exact .nothing (if_pos (.inr (.inl hbalance))) rfl
    rw [if_neg hbalance]
    apply entered_of_runAt
    · rintro (h | h)
      · exact hdepth h
      · exact hbalance h
    · exact fun h => if_pos (.inr (.inr h))
    · intro h
      refine if_neg ?_
      rintro (h' | h' | h')
      · exact hdepth h'
      · exact hbalance h'
      · exact h h'
  | .call .delegateCall args =>
    show H.Entered loop _ caller evm (H.delegateCall args caller loop evm).2
    unfold delegateCall
    by_cases hdepth : evm.depth > callCreateDepth
    · rw [if_pos hdepth]
      exact .nothing (if_pos (.inl hdepth)) rfl
    rw [if_neg hdepth]
    apply entered_of_runAt
    · exact fun h => hdepth (h.resolve_right id)
    · exact fun h => if_pos (.inr h)
    · exact fun h => if_neg fun h' => h (h'.resolve_left hdepth)
  | .call .staticCall args =>
    show H.Entered loop _ caller evm (H.staticCall args loop evm).2
    unfold staticCall
    by_cases hdepth : evm.depth > callCreateDepth
    · rw [if_pos hdepth]
      exact .nothing (if_pos (.inl hdepth)) rfl
    rw [if_neg hdepth]
    apply entered_of_runAt
    · exact fun h => hdepth (h.resolve_right id)
    · exact fun h => if_pos (.inr h)
    · exact fun h => if_neg fun h' => h (h'.resolve_left hdepth)

/-- A frame whose code starts has run the precompiles that the code has. -/
theorem runs_enter_of_started {contract : Address} {evm₁ : EVM S}
    (h : H.started frame caller evm = some (contract, evm₁)) :
    (H.enter frame caller loop evm).2.runs = (loop contract evm₁).2.runs := by
  rcases H.enter_spec frame caller loop evm with
    ⟨hnone, -⟩ | ⟨hnone, -⟩ | ⟨contract', evm₁', hstarted, hruns⟩
  · rw [hnone] at h
    cases h
  · rw [hnone] at h
    cases h
  · rw [hstarted] at h
    cases h
    exact hruns

/-! ### The frames that are open -/

/-- `H.Active root origin start frames code self evm`: while `root` is executed on behalf of `origin`,
starting in `start`, there is a moment at which the frames with these code addresses are open, outermost
first, and the innermost one goes on with `code` as the contract `self` in `evm`. -/
inductive Active (H : EVMConfig S E) (root : Code S E) (origin : Address) (start : EVM S) :
    List Address → Code S E → Address → EVM S → Prop
  | root : Active H root origin start [] root origin start
  | write {frames : List Address} {f : S → S} {next : Code S E} {self : Address} {evm : EVM S}
      (h : Active H root origin start frames (.write f next) self evm) (hwrite : evm.readOnly = false) :
      Active H root origin start frames next self { evm with stateDB := f evm.stateDB }
  | enter {frames : List Address} {frame : Frame E} {body next : Code S E} {self contract : Address}
      {evm evm₁ : EVM S} (h : Active H root origin start frames (.enter frame body next) self evm)
      (hwrite : (evm.readOnly && frame.writes) = false)
      (hstarted : H.started frame self evm = some (contract, evm₁)) :
      Active H root origin start (frames ++ [H.codeAddr frame self evm]) body contract evm₁
  | leave {frames : List Address} {frame : Frame E} {body next : Code S E} {self : Address} {evm : EVM S}
      (h : Active H root origin start frames (.enter frame body next) self evm)
      (hwrite : (evm.readOnly && frame.writes) = false)
      (hpanics : (H.enter frame self (H.exec body) evm).1.panics = false) :
      Active H root origin start frames next self (H.enter frame self (H.exec body) evm).2

/-- The precompile on record was run by a call at such a moment. -/
structure CalledAt (H : EVMConfig S E) (root : Code S E) (origin : Address) (start : EVM S)
    (run : PrecompileRun) (frames : List Address) (kind : CallKind) (args : CallArgs E)
    (body next : Code S E) (contract : Address) (evm : EVM S) : Prop where
  active : H.Active root origin start frames (.enter (.call kind args) body next) contract evm
  writes : (evm.readOnly && (Frame.call kind args).writes) = false
  suave : H.RunsSuave kind args contract evm run.precompile
  runs : (H.enter (.call kind args) contract (H.exec body) evm).2.runs = evm.runs ++ [run]

variable {root code body next : Code S E} {origin self : Address} {start : EVM S}
  {frames : List Address}

theorem exec_enter (hwrite : (evm.readOnly && frame.writes) = false) :
    H.exec (.enter frame body next) self evm =
      if (H.enter frame self (H.exec body) evm).1.panics then H.enter frame self (H.exec body) evm
      else H.exec next self (H.enter frame self (H.exec body) evm).2 := by
  rw [exec, if_neg (by simp [hwrite])]

/-- The record only grows. -/
theorem frameRelation_runs : H.FrameRelation fun evm evm' => evm.runs <+: evm'.runs where
  stateDB _ _ := List.prefix_refl _
  trans h h' := h.trans h'
  runSuave p addr m input gas evm := by
    rw [(ranSuave_runSuave H p ⟨addr, input, gas, 0, m⟩ gas evm).runs]
    exact List.prefix_append _ _
  interpret codeAddr code gas readOnly loop evm hloop := by
    rw [runs_interpret]
    split_ifs
    · exact List.prefix_refl _
    · exact hloop (inside codeAddr readOnly evm)

theorem runs_enter_isPrefix (hwrite : (evm.readOnly && frame.writes) = false) :
    (H.enter frame self (H.exec body) evm).2.runs <+: (H.exec (.enter frame body next) self evm).2.runs := by
  rw [exec_enter hwrite]
  split_ifs
  · exact List.prefix_refl _
  · exact frameRelation_runs.exec next self _

/-- What was on record at the start is on record at every moment. -/
theorem Active.start_isPrefix (h : H.Active root origin start frames code self evm) :
    start.runs <+: evm.runs := by
  induction h with
  | root => exact List.prefix_refl _
  | write _ _ ih => exact ih
  | enter _ _ hstarted ih =>
    rw [(of_started hstarted).2]
    exact ih
  | @leave frames frame body next self evm _ _ _ ih =>
    exact ih.trans (frameRelation_runs.enter (frameRelation_runs.exec body) frame self evm)

/-- What goes on at a moment is part of the execution. -/
theorem Active.runs_isPrefix (h : H.Active root origin start frames code self evm) :
    (H.exec code self evm).2.runs <+: (H.exec root origin start).2.runs := by
  induction h with
  | root => exact List.prefix_refl _
  | write _ hwrite ih =>
    rw [exec, if_neg (by simp [hwrite])] at ih
    exact ih
  | enter _ hwrite hstarted ih =>
    rw [← runs_enter_of_started hstarted]
    exact (runs_enter_isPrefix hwrite).trans ih
  | leave _ hwrite hpanics ih =>
    rw [exec_enter hwrite, if_neg (by simp [hpanics])] at ih
    exact ih

/-- Nothing but calls at these moments makes precompiles run. -/
theorem Active.exists_calledAt (h : H.Active root origin start frames code self evm) :
    ∃ new, (H.exec code self evm).2.runs = evm.runs ++ new ∧ ∀ run ∈ new,
      ∃ frames kind args body next self evm,
        H.CalledAt root origin start run frames kind args body next self evm := by
  induction code generalizing frames self evm with
  | stop result => exact ⟨[], (List.append_nil _).symm, by simp⟩
  | write f next ih =>
    unfold exec
    by_cases hreadOnly : evm.readOnly
    · rw [if_pos hreadOnly]
      exact ⟨[], (List.append_nil _).symm, by simp⟩
    · rw [if_neg hreadOnly]
      exact ih (h.write (Bool.eq_false_iff.mpr hreadOnly))
  | enter frame body next ihbody ihnext =>
    by_cases hwrite : (evm.readOnly && frame.writes) = true
    · rw [exec, if_pos hwrite]
      exact ⟨[], (List.append_nil _).symm, by simp⟩
    replace hwrite := Bool.eq_false_iff.mpr hwrite
    -- what the frame itself has made run
    have hframe : ∃ new, (H.enter frame self (H.exec body) evm).2.runs = evm.runs ++ new ∧ ∀ run ∈ new,
        ∃ frames kind args body next self evm,
          H.CalledAt root origin start run frames kind args body next self evm := by
      rcases H.enter_spec frame self (H.exec body) evm with
        ⟨-, hruns⟩ | ⟨-, kind, args, p, rfl, hp⟩ | ⟨contract, evm₁, hstarted, hruns⟩
      · exact ⟨[], by rw [hruns, List.append_nil], by simp⟩
      · have hran := (ranSuave_enter hp (H.exec body)).runs
        refine ⟨_, hran, fun run hrun => ?_⟩
        obtain rfl := List.mem_singleton.mp hrun
        exact ⟨frames, kind, args, body, next, self, evm, h, hwrite, hp, hran⟩
      · obtain ⟨new, hnew, hcalled⟩ := ihbody (h.enter hwrite hstarted)
        exact ⟨new, by rw [hruns, hnew, (of_started hstarted).2], hcalled⟩
    obtain ⟨new, hnew, hcalled⟩ := hframe
    rw [exec_enter hwrite]
    by_cases hpanics : (H.enter frame self (H.exec body) evm).1.panics = true
    · rw [if_pos hpanics]
      exact ⟨new, hnew, hcalled⟩
    · rw [if_neg hpanics]
      obtain ⟨new', hnew', hcalled'⟩ := ihnext (h.leave hwrite (Bool.eq_false_iff.mpr hpanics))
      refine ⟨new ++ new', by rw [hnew', hnew, List.append_assoc], fun run hrun => ?_⟩
      rcases List.mem_append.mp hrun with hrun | hrun
      · exact hcalled run hrun
      · exact hcalled' run hrun

/-! ### The calls inside a frame -/

/-- The frame, if it is a call, and the calls that are made while its code runs. -/
inductive CallInside (H : EVMConfig S E) (frame : Frame E) (body : Code S E) (caller : Address)
    (evm : EVM S) : CallKind → CallArgs E → Address → EVM S → Prop
  | frame {kind : CallKind} {args : CallArgs E} (hframe : frame = .call kind args) :
      CallInside H frame body caller evm kind args caller evm
  | code {contract self : Address} {evm₁ evm₂ : EVM S} {frames : List Address} {kind : CallKind}
      {args : CallArgs E} {body₁ next : Code S E}
      (hstarted : H.started frame caller evm = some (contract, evm₁))
      (hactive : H.Active body contract evm₁ frames (.enter (.call kind args) body₁ next) self evm₂)
      (hwrite : (evm₂.readOnly && (Frame.call kind args).writes) = false) :
      CallInside H frame body caller evm kind args self evm₂

/-- How a precompile that the call runs is recorded. -/
def record (H : EVMConfig S E) (args : CallArgs E) (evm : EVM S) (p : SuavePrecompile) : PrecompileRun where
  precompile := p
  callerStack := evm.callerStack ++ [some args.addr]
  accepted := H.runtime.accepts p (evm.callerStack ++ [some args.addr]) args.moment evm.store args.input

theorem mem_drop_of_isPrefix {runs final : List PrecompileRun} {run : PrecompileRun} {n : ℕ}
    (hn : n ≤ runs.length) (h : runs ++ [run] <+: final) : run ∈ final.drop n := by
  obtain ⟨rest, rfl⟩ := h
  rw [List.append_assoc, List.drop_append_of_le_length hn]
  simp

/-- **What a frame adds to the record** are the precompiles that the calls inside of it run. -/
theorem mem_runs_enter_iff {run : PrecompileRun} :
    run ∈ (H.enter frame caller (H.exec body) evm).2.runs.drop evm.runs.length ↔
      ∃ kind args self evm₁ p, H.CallInside frame body caller evm kind args self evm₁ ∧
        H.RunsSuave kind args self evm₁ p ∧ run = H.record args evm₁ p := by
  constructor
  · intro hrun
    rcases H.enter_spec frame caller (H.exec body) evm with
      ⟨-, hruns⟩ | ⟨-, kind, args, p, rfl, hp⟩ | ⟨contract, evm₁, hstarted, hruns⟩
    · rw [hruns, List.drop_length] at hrun
      cases hrun
    · rw [(ranSuave_enter hp (H.exec body)).runs, List.drop_left] at hrun
      exact ⟨kind, args, caller, evm, p, .frame rfl, hp, List.mem_singleton.mp hrun⟩
    · have hroot : H.Active body contract evm₁ [] body contract evm₁ := .root
      obtain ⟨new, hnew, hcalled⟩ := hroot.exists_calledAt
      rw [hruns, hnew, (of_started hstarted).2, List.drop_left] at hrun
      obtain ⟨frames, kind, args, body₁, next, self, evm₂, hcall⟩ := hcalled run hrun
      have hran := (ranSuave_enter hcall.suave (H.exec body₁)).runs
      rw [hcall.runs] at hran
      exact ⟨kind, args, self, evm₂, run.precompile, .code hstarted hcall.active hcall.writes, hcall.suave,
        List.singleton_inj.mp (List.append_cancel_left hran)⟩
  · rintro ⟨kind, args, self, evm₂, p, hinside, hp, rfl⟩
    cases hinside with
    | frame hframe =>
      subst hframe
      rw [(ranSuave_enter hp (H.exec body)).runs]
      exact mem_drop_of_isPrefix le_rfl (List.prefix_refl _)
    | @code contract _ evm₁ _ frames _ _ body₁ next hstarted hactive hwrite =>
      have hstart := hactive.start_isPrefix.length_le
      rw [(of_started hstarted).2] at hstart
      rw [runs_enter_of_started hstarted]
      apply mem_drop_of_isPrefix hstart
      have hmoment : (H.enter (.call kind args) self (H.exec body₁) evm₂).2.runs <+:
          (H.exec (.enter (.call kind args) body₁ next) self evm₂).2.runs := runs_enter_isPrefix hwrite
      rw [(ranSuave_enter hp (H.exec body₁)).runs] at hmoment
      exact hmoment.trans hactive.runs_isPrefix

end EVMConfig

end Suift
