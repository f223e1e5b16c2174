import Suift.VM.Precompiles

/-!
# Call frames of a confidential EVM

`EVM.Call`, `CallCode`, `DelegateCall`, `StaticCall` and `create` of `core/vm/evm.go`, with the part of
`EVMInterpreter.Run` that enters and leaves a frame.  A frame that fails goes back to the snapshot of the
`StateDB` that it took.

What the code of a frame does is a tree (`Code`): it changes the state, opens frames with trees of their
own, and stops.  Whether a frame gets to run its code, and what becomes of the state, is up to the
functions here.  Gas is only followed where one of them looks at it.

`EVM` also records the SUAVE precompiles that have run, which the source does not.
-/

namespace Suift

open Text

/-- The interface of the same name, as far as calls use it, and the two functions of `BlockContext` on
it.  A snapshot is the state itself. -/
structure StateDB (S : Type) where
  exist : S → Address → Bool
  createAccount : S → Address → S
  getCode : S → Address → Bytes
  getCodeHash : S → Address → Hash
  setCode : S → Address → Bytes → S
  getNonce : S → Address → UInt64
  setNonce : S → Address → UInt64 → S
  addBalance : S → Address → ℕ → S
  addAddressToAccessList : S → Address → S
  canTransfer : S → Address → ℕ → Bool
  transfer : S → Address → Address → ℕ → S

/-- `params.Rules`. -/
structure Rules where
  isHomestead : Bool
  isEIP158 : Bool
  isBerlin : Bool
  isLondon : Bool
  isSuave : Bool

/-- A precompile of the Ethereum chain. -/
structure Precompile where
  requiredGas : Bytes → ℕ
  run : Bytes → Except GoError Bytes

/-- The errors of `core/vm/errors.go` that calls return themselves, and those of code and of precompiles.
A panic is among the latter. -/
inductive VMError
  | outOfGas
  | codeStoreOutOfGas
  | depth
  | insufficientBalance
  | contractAddressCollision
  | executionReverted
  | maxCodeSizeExceeded
  | writeProtection
  | invalidCode
  | nonceUintOverflow
  | other (err : GoError)
  deriving DecidableEq, Repr

/-- What a frame returns. -/
structure Return where
  ret : Bytes
  leftOverGas : ℕ
  err : Option VMError
  deriving DecidableEq, Repr

/-- The frame has panicked, so that its callers do not go on. -/
def Return.panics (r : Return) : Bool :=
  match r.err with
  | some (.other (.panic _)) => true
  | _ => false

/-- The frame has returned an error, which its caller may survive. -/
def Return.Fails (r : Return) : Prop := r.err ≠ none ∧ r.panics = false

instance (r : Return) : Decidable r.Fails := inferInstanceAs (Decidable (_ ∧ _))

inductive CallKind
  | call
  | callCode
  | delegateCall
  | staticCall
  deriving DecidableEq, Repr

structure CallArgs {σ : Type} (E : ConfidentialStoreEngine σ) where
  addr : Address
  input : Bytes
  gas : ℕ
  /-- Only a call and a `CallCode` have one. -/
  value : ℕ
  moment : Moment E

structure CreateArgs where
  code : Bytes
  gas : ℕ
  value : ℕ
  /-- For `Create2`. -/
  salt : Option Hash

inductive Frame {σ : Type} (E : ConfidentialStoreEngine σ)
  | call (kind : CallKind) (args : CallArgs E)
  | create (args : CreateArgs)

/-- What code does: `write` stands for any operation that modifies the state. -/
inductive Code (S : Type) {σ : Type} (E : ConfidentialStoreEngine σ)
  | stop (result : Return)
  | write (f : S → S) (next : Code S E)
  | enter (frame : Frame E) (body next : Code S E)

/-- A SUAVE precompile that has run, with the caller stack that it was given. -/
structure PrecompileRun where
  precompile : SuavePrecompile
  callerStack : List (Option Address)
  /-- The transaction's store has accepted a bid or a write from it. -/
  accepted : Bool
  deriving DecidableEq, Repr

structure EVM (S : Type) where
  stateDB : S
  depth : ℕ
  /-- `SuaveContext.CallerStack`. -/
  callerStack : List (Option Address)
  /-- `readOnly` of the interpreter. -/
  readOnly : Bool
  /-- The store behind `SuaveContext.Backend`. -/
  store : TransactionalStore
  runs : List PrecompileRun

/-- `params.CallCreateDepth`. -/
def callCreateDepth : ℕ := 1024

/-- `params.MaxCodeSize`. -/
def maxCodeSize : ℕ := 24576

/-- `params.CreateDataGas`. -/
def createDataGas : ℕ := 200

/-- What an EVM is set up with. -/
structure EVMConfig (S : Type) {σ : Type} (E : ConfidentialStoreEngine σ) where
  db : StateDB S
  rules : Rules
  runtime : SuaveRuntime E
  /-- The precompiles of the fork that the rules select. -/
  precompiles : Address → Option Precompile
  emptyCodeHash : Hash
  createAddress : Address → UInt64 → Address
  createAddress2 : Address → Hash → Bytes → Address

namespace EVMConfig

variable {S σ : Type} {E : ConfidentialStoreEngine σ} (H : EVMConfig S E)

/-- `EVM.precompile`: the confidential ones come first. -/
def precompile (addr : Address) : Option (SuavePrecompile ⊕ Precompile) :=
  match if H.rules.isSuave then SuavePrecompile.ofAddress addr else none with
  | some p => some (.inl p)
  | none => (H.precompiles addr).map .inr

/-- `Run` of a SUAVE precompile, for which the wrapper has put its address on the caller stack. -/
def runSuave (p : SuavePrecompile) (addr : Address) (m : Moment E) (input : Bytes) (gas : ℕ)
    (evm : EVM S) : Return × EVM S :=
  let callerStack := evm.callerStack ++ [some addr]
  let runs := evm.runs ++ [⟨p, callerStack, H.runtime.accepts p callerStack m evm.store input⟩]
  match (H.runtime.run p callerStack m input).run evm.store with
  | .ok output store => (⟨output, gas, none⟩, { evm with store := store, runs := runs })
  | .error (.error text w) store =>
    (⟨text, gas, some (.other (.error text w))⟩, { evm with store := store, runs := runs })
  | .error (.panic text) store =>
    (⟨[], gas, some (.other (.panic text))⟩, { evm with store := store, runs := runs })

/-- `RunPrecompiledContract`. -/
def runPrecompiledContract (p : SuavePrecompile ⊕ Precompile) (args : CallArgs E) (evm : EVM S) :
    Return × EVM S :=
  let gasCost := match p with
    | .inl p => p.requiredGas args.input
    | .inr p => p.requiredGas args.input
  if args.gas < gasCost then (⟨[], 0, some .outOfGas⟩, evm)
  else
    match p with
    | .inl p => H.runSuave p args.addr args.moment args.input (args.gas - gasCost) evm
    | .inr p =>
      match p.run args.input with
      | .ok output => (⟨output, args.gas - gasCost, none⟩, evm)
      | .error err => (⟨[], args.gas - gasCost, some (.other err)⟩, evm)

/-- `EVMInterpreter.Run`: `loop` runs the code, and what was set for it is set back afterwards.  Empty
code returns at once. -/
def interpret (codeAddr : Address) (code : Bytes) (gas : ℕ) (readOnly : Bool)
    (loop : EVM S → Return × EVM S) (evm : EVM S) : Return × EVM S :=
  let entered :=
    { evm with
      depth := evm.depth + 1
      callerStack := evm.callerStack ++ [some codeAddr]
      readOnly := evm.readOnly || readOnly }
  let (r, evm') := if code = [] then (⟨[], gas, none⟩, entered) else loop entered
  (r, { evm' with
    depth := evm'.depth - 1
    callerStack := evm.callerStack
    readOnly := if readOnly && !evm.readOnly then false else evm'.readOnly })

/-- Go back to the snapshot after an error; the gas is gone unless the code has reverted.  A panic
passes through. -/
def revertOnError (snapshot : S) (x : Return × EVM S) : Return × EVM S :=
  if x.1.Fails then
    ({ x.1 with leftOverGas := if x.1.err = some .executionReverted then x.1.leftOverGas else 0 },
      { x.2 with stateDB := snapshot })
  else x

/-- `EVM.Call`.  `loop` runs the callee's code as the contract that it is given. -/
def call (args : CallArgs E) (caller : Address) (loop : Address → EVM S → Return × EVM S) (evm : EVM S) :
    Return × EVM S :=
  let p := H.precompile args.addr
  if evm.depth > callCreateDepth then (⟨[], args.gas, some .depth⟩, evm)
  else if args.value ≠ 0 ∧ ¬ H.db.canTransfer evm.stateDB caller args.value then
    (⟨[], args.gas, some .insufficientBalance⟩, evm)
  else if !H.db.exist evm.stateDB args.addr ∧ p.isNone ∧ H.rules.isEIP158 ∧ args.value = 0 then
    -- a call of an account that does not exist does nothing
    (⟨[], args.gas, none⟩, evm)
  else
    let db :=
      if H.db.exist evm.stateDB args.addr then evm.stateDB
      else H.db.createAccount evm.stateDB args.addr
    let entered := { evm with stateDB := H.db.transfer db caller args.addr args.value }
    revertOnError evm.stateDB <|
      match p with
      | some p => H.runPrecompiledContract p args entered
      | none =>
        let code := H.db.getCode entered.stateDB args.addr
        if code = [] then (⟨[], args.gas, none⟩, entered)
        else interpret args.addr code args.gas false (loop args.addr) entered

/-- Run the precompile or the code at an address; the code runs as the contract `self`. -/
def runAt (args : CallArgs E) (self : Address) (readOnly : Bool)
    (loop : Address → EVM S → Return × EVM S) (evm : EVM S) : Return × EVM S :=
  match H.precompile args.addr with
  | some p => H.runPrecompiledContract p args evm
  | none =>
    interpret args.addr (H.db.getCode evm.stateDB args.addr) args.gas readOnly (loop self) evm

/-- `EVM.CallCode`: the code runs as the caller. -/
def callCode (args : CallArgs E) (caller : Address) (loop : Address → EVM S → Return × EVM S)
    (evm : EVM S) : Return × EVM S :=
  if evm.depth > callCreateDepth then (⟨[], args.gas, some .depth⟩, evm)
  else if ¬ H.db.canTransfer evm.stateDB caller args.value then
    (⟨[], args.gas, some .insufficientBalance⟩, evm)
  else revertOnError evm.stateDB (H.runAt args caller false loop evm)

/-- `EVM.DelegateCall`. -/
def delegateCall (args : CallArgs E) (caller : Address) (loop : Address → EVM S → Return × EVM S)
    (evm : EVM S) : Return × EVM S :=
  if evm.depth > callCreateDepth then (⟨[], args.gas, some .depth⟩, evm)
  else revertOnError evm.stateDB (H.runAt args caller false loop evm)

/-- `EVM.StaticCall`: the account is touched, and the code must not modify the state. -/
def staticCall (args : CallArgs E) (loop : Address → EVM S → Return × EVM S) (evm : EVM S) :
    Return × EVM S :=
  if evm.depth > callCreateDepth then (⟨[], args.gas, some .depth⟩, evm)
  else
    let touched := { evm with stateDB := H.db.addBalance evm.stateDB args.addr 0 }
    revertOnError evm.stateDB (H.runAt args args.addr true loop touched)

/-- The end of a creation: check the code that was returned and store it. -/
def storeCode (address : Address) (x : Return × EVM S) : Return × EVM S :=
  let (r, evm) := x
  if r.err ≠ none then (r, evm)
  else if H.rules.isEIP158 ∧ r.ret.length > maxCodeSize then
    ({ r with err := some .maxCodeSizeExceeded }, evm)
  else if r.ret.head? = some 0xEF ∧ H.rules.isLondon then ({ r with err := some .invalidCode }, evm)
  else if r.leftOverGas < r.ret.length * createDataGas then
    ({ r with err := some .codeStoreOutOfGas }, evm)
  else
    ({ r with leftOverGas := r.leftOverGas - r.ret.length * createDataGas },
      { evm with stateDB := H.db.setCode evm.stateDB address r.ret })

/-- The address of the contract that `Create` or `Create2` makes. -/
def newAddress (args : CreateArgs) (caller : Address) (evm : EVM S) : Address :=
  match args.salt with
  | none => H.createAddress caller (H.db.getNonce evm.stateDB caller)
  | some salt => H.createAddress2 caller salt args.code

/-- The state before the snapshot of a creation.  The nonce of the caller and the access list keep their
changes even if the creation fails. -/
def announced (address caller : Address) (evm : EVM S) : S :=
  let db := H.db.setNonce evm.stateDB caller (H.db.getNonce evm.stateDB caller + 1)
  if H.rules.isBerlin then H.db.addAddressToAccessList db address else db

/-- `EVM.Create` and `EVM.Create2`. -/
def create (args : CreateArgs) (caller : Address) (loop : Address → EVM S → Return × EVM S) (evm : EVM S) :
    Return × EVM S :=
  let address := H.newAddress args caller evm
  let nonce := H.db.getNonce evm.stateDB caller
  if evm.depth > callCreateDepth then (⟨[], args.gas, some .depth⟩, evm)
  else if ¬ H.db.canTransfer evm.stateDB caller args.value then
    (⟨[], args.gas, some .insufficientBalance⟩, evm)
  else if nonce + 1 < nonce then (⟨[], args.gas, some .nonceUintOverflow⟩, evm)
  else
    let snapshot := H.announced address caller evm
    let contractHash := H.db.getCodeHash snapshot address
    if H.db.getNonce snapshot address ≠ 0 ∨ contractHash ≠ 0 ∧ contractHash ≠ H.emptyCodeHash then
      (⟨[], 0, some .contractAddressCollision⟩, { evm with stateDB := snapshot })
    else
      let db := H.db.createAccount snapshot address
      let db := if H.rules.isEIP158 then H.db.setNonce db address 1 else db
      let entered := { evm with stateDB := H.db.transfer db caller address args.value }
      let x := H.storeCode address (interpret address args.code args.gas false (loop address) entered)
      if ¬ H.rules.isHomestead ∧ x.1.err = some .codeStoreOutOfGas then x
      else revertOnError snapshot x

/-- Open a frame on behalf of the contract `caller`. -/
def enter (frame : Frame E) (caller : Address) (loop : Address → EVM S → Return × EVM S) (evm : EVM S) :
    Return × EVM S :=
  match frame with
  | .call .call args => H.call args caller loop evm
  | .call .callCode args => H.callCode args caller loop evm
  | .call .delegateCall args => H.delegateCall args caller loop evm
  | .call .staticCall args => H.staticCall args loop evm
  | .create args => H.create args caller loop evm

end EVMConfig

/-- The operation that opens the frame is refused in read-only code: a creation, or a call with value. -/
def Frame.writes {σ : Type} {E : ConfidentialStoreEngine σ} : Frame E → Bool
  | .call .call args => args.value ≠ 0
  | .call _ _ => false
  | .create _ => true

/-- Run code as the contract `self`.  The code goes on after a frame that it has opened, whether that
failed or not. -/
def EVMConfig.exec {S σ : Type} {E : ConfidentialStoreEngine σ} (H : EVMConfig S E) :
    Code S E → Address → EVM S → Return × EVM S
  | .stop result, _, evm => (result, evm)
  | .write f next, self, evm =>
    if evm.readOnly then (⟨[], 0, some .writeProtection⟩, evm)
    else H.exec next self { evm with stateDB := f evm.stateDB }
  | .enter frame body next, self, evm =>
    if evm.readOnly && frame.writes then (⟨[], 0, some .writeProtection⟩, evm)
    else
      let (r, evm') := H.enter frame self (fun contract evm => H.exec body contract evm) evm
      if r.panics then (r, evm') else H.exec next self evm'

end Suift
