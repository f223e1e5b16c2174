import Suift.Lib.Abi
import Suift.Types.Signing
import Suift.VM.EthBackend
import Suift.VM.Precompiles

/-!
# The runtime adapter

A contract calls a precompile through the library `Suave.sol`: the arguments are ABI encoded, and what comes
back is decoded or taken as it is.  On the other side `SuaveRuntimeAdapter.run` decodes the input, calls the
method of the runtime, and encodes its outputs.  Library, adapter and ABI are all generated from
`suave/gen/suave_spec.yaml`, of which `Method` has the functions.

`mapstructure.Decode` copies the fields of one struct to those of the same names in another.
-/

namespace Suift

open Text Abi

/-! ### The functions of the specification -/

namespace SuaveAbi

def bidId : Typ := .fixedBytes 16

def bid : Typ :=
  .tuple bidId (.cons bidId (.cons (.uint .u64) (.cons (.slice .address) (.cons (.slice .address)
    (.cons .string .nil)))))

def withdrawal : Typ := .tuple (.uint .u64) (.cons (.uint .u64) (.cons .address (.cons (.uint .u64) .nil)))

def buildBlockArgs : Typ :=
  .tuple (.uint .u64) (.cons .bytes (.cons (.fixedBytes 32) (.cons (.uint .u64) (.cons .address (.cons (.uint .u64)
    (.cons (.fixedBytes 32) (.cons (.slice withdrawal) .nil)))))))

inductive Method
  | buildEthBlock
  | confidentialInputs
  | confidentialRetrieve
  | confidentialStore
  | ethcall
  | extractHint
  | fetchBids
  | fillMevShareBundle
  | newBid
  | signEthTransaction
  | simulateBundle
  | submitBundleJsonRPC
  | submitEthBlockBidToRelay
  deriving DecidableEq, Repr

namespace Method

def all : List Method :=
  [buildEthBlock, confidentialInputs, confidentialRetrieve, confidentialStore, ethcall, extractHint, fetchBids,
    fillMevShareBundle, newBid, signEthTransaction, simulateBundle, submitBundleJsonRPC, submitEthBlockBidToRelay]

def address : Method → Address
  | buildEthBlock => 0x42100001
  | confidentialInputs => 0x42010001
  | confidentialRetrieve => 0x42020001
  | confidentialStore => 0x42020000
  | ethcall => 0x42100003
  | extractHint => 0x42100037
  | fetchBids => 0x42030001
  | fillMevShareBundle => 0x43200001
  | newBid => 0x42030000
  | signEthTransaction => 0x40100001
  | simulateBundle => 0x42100000
  | submitBundleJsonRPC => 0x43000001
  | submitEthBlockBidToRelay => 0x42100002

/-- The precompile behind the function. -/
def precompile : Method → SuavePrecompile
  | buildEthBlock => .buildEthBlock
  | confidentialInputs => .confidentialInputs
  | confidentialRetrieve => .confidentialRetrieve
  | confidentialStore => .confidentialStore
  | ethcall => .ethcall
  | extractHint => .extractHint
  | fetchBids => .fetchBids
  | fillMevShareBundle => .fillMevShareBundle
  | newBid => .newBid
  | signEthTransaction => .signEthTransaction
  | simulateBundle => .simulateBundle
  | submitBundleJsonRPC => .submitBundleJsonRPC
  | submitEthBlockBidToRelay => .submitEthBlockBidToRelay

def inputs : Method → Fields
  | buildEthBlock => .cons buildBlockArgs (.cons bidId (.cons .string .nil))
  | confidentialInputs => .nil
  | confidentialRetrieve => .cons bidId (.cons .string .nil)
  | confidentialStore => .cons bidId (.cons .string (.cons .bytes .nil))
  | ethcall => .cons .address (.cons .bytes .nil)
  | extractHint => .cons .bytes .nil
  | fetchBids => .cons (.uint .u64) (.cons .string .nil)
  | fillMevShareBundle => .cons bidId .nil
  | newBid => .cons (.uint .u64) (.cons (.slice .address) (.cons (.slice .address) (.cons .string .nil)))
  | signEthTransaction => .cons .bytes (.cons .string (.cons .string .nil))
  | simulateBundle => .cons .bytes .nil
  | submitBundleJsonRPC => .cons .string (.cons .string (.cons .bytes .nil))
  | submitEthBlockBidToRelay => .cons .string (.cons .bytes .nil)

def outputs : Method → Fields
  | buildEthBlock => .cons .bytes (.cons .bytes .nil)
  | confidentialStore => .nil
  | fetchBids => .cons (.slice bid) .nil
  | newBid => .cons bid .nil
  | simulateBundle => .cons (.uint .u64) .nil
  | confidentialInputs | confidentialRetrieve | ethcall | extractHint | fillMevShareBundle | signEthTransaction
  | submitBundleJsonRPC | submitEthBlockBidToRelay => .cons .bytes .nil

end Method

/-! ### Values of Go as values of the ABI -/

def packWithdrawal (w : EthBackend.Withdrawal) : withdrawal.Val :=
  (w.index.toBitVec, w.validator.toBitVec, w.address, w.amount.toBitVec, ())

def decodeWithdrawal : withdrawal.Val → EthBackend.Withdrawal
  | (index, validator, address, amount, ()) =>
    { index := .ofBitVec index, validator := .ofBitVec validator, address := address, amount := .ofBitVec amount }

def packBuildBlockArgs (a : EthBackend.BuildBlockArgs) : buildBlockArgs.Val :=
  (a.slot.toBitVec, a.proposerPubkey, a.parent, a.timestamp.toBitVec, a.feeRecipient, a.gasLimit.toBitVec, a.random,
    a.withdrawals.map packWithdrawal, ())

/-- `mapstructure.Decode` into `types.BuildBlockArgs`. -/
def decodeBuildBlockArgs : buildBlockArgs.Val → EthBackend.BuildBlockArgs
  | (slot, proposerPubkey, parent, timestamp, feeRecipient, gasLimit, random, withdrawals, ()) =>
    { slot := .ofBitVec slot, proposerPubkey := proposerPubkey, parent := parent, timestamp := .ofBitVec timestamp,
      feeRecipient := feeRecipient, gasLimit := .ofBitVec gasLimit, random := random,
      withdrawals := List.map decodeWithdrawal withdrawals }

def packBid (b : InnerBid) : bid.Val :=
  (b.id, b.salt, b.decryptionCondition.toBitVec, b.allowedPeekers.elems, b.allowedStores.elems, b.version, ())

/-- The bid as a contract gets it: what was `nil` is an empty array. -/
def decodeBid : bid.Val → InnerBid
  | (id, salt, decryptionCondition, allowedPeekers, allowedStores, version, ()) =>
    { id := id, salt := salt, decryptionCondition := .ofBitVec decryptionCondition,
      allowedPeekers := some allowedPeekers, allowedStores := some allowedStores, version := version }

/-- A bid with an empty array in the place of `nil`. -/
def asArrays (b : InnerBid) : InnerBid :=
  { b with allowedPeekers := some b.allowedPeekers.elems, allowedStores := some b.allowedStores.elems }

/-- `bidIdsAbi.Inputs`. -/
def bidIdsInputs : Fields := .cons (.slice bidId) .nil

/-- `abi.encode(bids)`. -/
def encodeBidIds (ids : List BidId) : Bytes := bidIdsInputs.pack (ids, ())

end SuaveAbi

open SuaveAbi

/-! ### The adapter -/

namespace SuaveRuntimeAdapter

/-- The interface `SuaveRuntime`, for a runtime with state `σ`. -/
structure Impl (σ : Type) where
  buildEthBlock : EthBackend.BuildBlockArgs → BidId → GoString → EStateM GoError σ (Bytes × Bytes)
  confidentialInputs : EStateM GoError σ Bytes
  confidentialRetrieve : BidId → GoString → EStateM GoError σ Bytes
  confidentialStore : BidId → GoString → Bytes → EStateM GoError σ Unit
  ethcall : Address → Bytes → EStateM GoError σ Bytes
  extractHint : Bytes → EStateM GoError σ Bytes
  fetchBids : UInt64 → GoString → EStateM GoError σ (List InnerBid)
  fillMevShareBundle : BidId → EStateM GoError σ Bytes
  newBid : UInt64 → List Address → List Address → GoString → EStateM GoError σ InnerBid
  signEthTransaction : Bytes → GoString → GoString → EStateM GoError σ Bytes
  simulateBundle : Bytes → EStateM GoError σ UInt64
  submitBundleJsonRPC : GoString → GoString → Bytes → EStateM GoError σ Bytes
  submitEthBlockBidToRelay : GoString → Bytes → EStateM GoError σ Bytes

variable {σ : Type}

def errFailedToUnpackInput : GoError := GoError.new "failed to decode input"

/-- `Inputs.Unpack`. -/
def unpackInput (ts : Fields) (input : Bytes) : EStateM GoError σ ts.Val :=
  match ts.unpack input with
  | .ok unpacked => pure unpacked
  | .error (.error _) => throw errFailedToUnpackInput
  | .error (.sliceBounds low high) =>
    throw (.panic (ascii "runtime error: slice bounds out of range [" ++ decimal low ++ ascii ":" ++ decimal high ++
      ascii "]"))

/-- A method of the adapter: `call` is the method of the runtime on the unpacked input, and `result` makes the
bytes to return of its outputs. -/
def method {α : Type} (inputs : Fields) (call : inputs.Val → EStateM GoError σ α) (result : α → Bytes)
    (input : Bytes) : EStateM GoError σ Bytes := do
  let unpacked ← unpackInput inputs input
  let output ← call unpacked
  return result output

namespace Impl

variable (b : Impl σ)

def runBuildEthBlock : Bytes → EStateM GoError σ Bytes :=
  method Method.buildEthBlock.inputs
    (fun (blockArgs, bidId, namespace_, ()) => b.buildEthBlock (decodeBuildBlockArgs blockArgs) bidId namespace_)
    fun (output1, output2) => Fields.pack Method.buildEthBlock.outputs (output1, output2, ())

def runConfidentialInputs : Bytes → EStateM GoError σ Bytes :=
  method Method.confidentialInputs.inputs (fun () => b.confidentialInputs) id

def runConfidentialRetrieve : Bytes → EStateM GoError σ Bytes :=
  method Method.confidentialRetrieve.inputs (fun (bidId, key, ()) => b.confidentialRetrieve bidId key) id

def runConfidentialStore : Bytes → EStateM GoError σ Bytes :=
  method Method.confidentialStore.inputs (fun (bidId, key, data1, ()) => b.confidentialStore bidId key data1)
    fun () => []

def runEthcall : Bytes → EStateM GoError σ Bytes :=
  method Method.ethcall.inputs (fun (contractAddr, input1, ()) => b.ethcall contractAddr input1)
    fun output1 => Fields.pack Method.ethcall.outputs (output1, ())

def runExtractHint : Bytes → EStateM GoError σ Bytes :=
  method Method.extractHint.inputs (fun (bundleData, ()) => b.extractHint bundleData) id

def runFetchBids : Bytes → EStateM GoError σ Bytes :=
  method Method.fetchBids.inputs (fun (cond, namespace_, ()) => b.fetchBids (.ofBitVec cond) namespace_)
    fun bids => Fields.pack Method.fetchBids.outputs (bids.map packBid, ())

def runFillMevShareBundle : Bytes → EStateM GoError σ Bytes :=
  method Method.fillMevShareBundle.inputs (fun (bidId, ()) => b.fillMevShareBundle bidId) id

def runNewBid : Bytes → EStateM GoError σ Bytes :=
  method Method.newBid.inputs
    (fun (decryptionCondition, allowedPeekers, allowedStores, bidType, ()) =>
      b.newBid (.ofBitVec decryptionCondition) allowedPeekers allowedStores bidType)
    fun bid => Fields.pack Method.newBid.outputs (packBid bid, ())

def runSignEthTransaction : Bytes → EStateM GoError σ Bytes :=
  method Method.signEthTransaction.inputs
    (fun (txn, chainId, signingKey, ()) => b.signEthTransaction txn chainId signingKey)
    fun output1 => Fields.pack Method.signEthTransaction.outputs (output1, ())

def runSimulateBundle : Bytes → EStateM GoError σ Bytes :=
  method Method.simulateBundle.inputs (fun (bundleData, ()) => b.simulateBundle bundleData)
    fun output1 => Fields.pack Method.simulateBundle.outputs (output1.toBitVec, ())

def runSubmitBundleJsonRPC : Bytes → EStateM GoError σ Bytes :=
  method Method.submitBundleJsonRPC.inputs (fun (url, method, params, ()) => b.submitBundleJsonRPC url method params) id

def runSubmitEthBlockBidToRelay : Bytes → EStateM GoError σ Bytes :=
  method Method.submitEthBlockBidToRelay.inputs
    (fun (relayUrl, builderBid, ()) => b.submitEthBlockBidToRelay relayUrl builderBid) id

/-- The method of the adapter for a function. -/
def runMethod : Method → Bytes → EStateM GoError σ Bytes
  | .buildEthBlock => b.runBuildEthBlock
  | .confidentialInputs => b.runConfidentialInputs
  | .confidentialRetrieve => b.runConfidentialRetrieve
  | .confidentialStore => b.runConfidentialStore
  | .ethcall => b.runEthcall
  | .extractHint => b.runExtractHint
  | .fetchBids => b.runFetchBids
  | .fillMevShareBundle => b.runFillMevShareBundle
  | .newBid => b.runNewBid
  | .signEthTransaction => b.runSignEthTransaction
  | .simulateBundle => b.runSimulateBundle
  | .submitBundleJsonRPC => b.runSubmitBundleJsonRPC
  | .submitEthBlockBidToRelay => b.runSubmitEthBlockBidToRelay

/-- `SuaveRuntimeAdapter.run`. -/
def run (C : Crypto) (addr : Address) (input : Bytes) : EStateM GoError σ Bytes :=
  match Method.all.find? fun f => f.address = addr with
  | some f => b.runMethod f input
  | none => throw (.error (ascii "suave precompile not found for " ++ checksumHex C addr) none)

end Impl

end SuaveRuntimeAdapter

/-! ### The runtime -/

/-- What the methods of `suaveRuntime` use beside the confidential store.  The last three send requests to other
machines or sign with a key that the contract gives. -/
structure RuntimeBackend where
  confidentialInputs : Bytes
  eth : EthBackend
  blockLibraries : BuildEthBlock.BlockLibraries
  /-- `ConfidentialEthBackend.Call`. -/
  call : Address → Bytes → Except GoError Bytes
  signEthTransaction : Bytes → GoString → GoString → Except GoError Bytes
  submitBundleJsonRPC : GoString → GoString → Bytes → Except GoError Bytes
  submitEthBlockBidToRelay : GoString → Bytes → Except GoError Bytes

section

variable {σ : Type} (X : Externals) (B : RuntimeBackend) (context : σ → SuaveContext)

/-- A method that only reads the store. -/
def reading {α : Type} (f : SuaveContext → Except GoError α) : EStateM GoError σ α := do
  MonadExcept.ofExcept (f (context (← get)))

/-- The methods of `suaveRuntime` on a state with a context.  The two that change the state are given. -/
def runtimeOn (confidentialStore : BidId → GoString → Bytes → EStateM GoError σ Unit)
    (newBid : UInt64 → List Address → List Address → GoString → EStateM GoError σ InnerBid) :
    SuaveRuntimeAdapter.Impl σ where
  buildEthBlock blockArgs bidId _ := reading context fun ctx =>
    BuildEthBlock.runImpl X ctx (BuildEthBlock.buildAndSign B.blockLibraries B.eth blockArgs) bidId
  confidentialInputs := return B.confidentialInputs
  confidentialRetrieve bidId key := reading context fun ctx => confRetrieve X ctx bidId key
  confidentialStore := confidentialStore
  ethcall contractAddr input := MonadExcept.ofExcept (B.call contractAddr input)
  extractHint bundleData := MonadExcept.ofExcept (ExtractHint.runImpl X bundleData)
  fetchBids cond namespace_ := reading context fun ctx =>
    .ok ((ctx.confidentialStore.fetchBidsByProtocolAndBlock cond namespace_).map Bid.toInnerBid)
  fillMevShareBundle bidId := reading context fun ctx => FillMevShareBundle.runImpl X ctx bidId
  newBid := newBid
  signEthTransaction txn chainId signingKey := MonadExcept.ofExcept (B.signEthTransaction txn chainId signingKey)
  simulateBundle bundleData := MonadExcept.ofExcept (SimulateBundle.run X B.eth bundleData)
  submitBundleJsonRPC url method params := MonadExcept.ofExcept (B.submitBundleJsonRPC url method params)
  submitEthBlockBidToRelay relayUrl builderBid := MonadExcept.ofExcept (B.submitEthBlockBidToRelay relayUrl builderBid)

end

section

variable {σ : Type} {E : ConfidentialStoreEngine σ} (R : SuaveRuntime E) (B : RuntimeBackend)
  (callerStack : List (Option Address)) (m : Moment E)

/-- `suaveRuntime`, at a moment. -/
def suaveRuntime : SuaveRuntimeAdapter.Impl TransactionalStore :=
  runtimeOn R.externals B (fun t => ⟨m.confidentialStore t, callerStack⟩)
    (fun bidId key data => do
      set (← MonadExcept.ofExcept (R.confStore callerStack m (← get) bidId key data)))
    fun decryptionCondition allowedPeekers allowedStores bidType => do
      let (t, bid) ← MonadExcept.ofExcept
        (R.newBid m (← get) bidType decryptionCondition allowedPeekers allowedStores)
      set t
      return bid

/-- `SuavePrecompiledContractWrapper.Run`. -/
def runPrecompile (C : Crypto) (addr : Address) (input : Bytes) : EStateM GoError TransactionalStore Bytes :=
  if addr = SuavePrecompile.isConfidential.address then
    if input.length ≠ 0 then throw (GoError.new "invalid input length") else return [1]
  else (suaveRuntime R B callerStack m).run C addr input

end

/-- The result without the state. -/
def outcome {σ α : Type} : EStateM.Result GoError σ α → Except GoError α
  | .ok a _ => .ok a
  | .error e _ => .error e

/-- The precompiles of an EVM whose runtime is behind the adapter. -/
def adapterRuntime {σ : Type} {E : ConfidentialStoreEngine σ} (C : Crypto) (X : Externals) (B : RuntimeBackend)
    (confidentialComputeRequestTx : Option Transaction) : SuaveRuntime E where
  externals := X
  unpackStore input := (Method.confidentialStore.inputs.unpack input).toOption.map
    fun (bidId, key, data1, ()) => (bidId, key, data1)
  unpackNewBid input := (Method.newBid.inputs.unpack input).toOption.map
    fun (decryptionCondition, allowedPeekers, allowedStores, bidType, ()) =>
      (.ofBitVec decryptionCondition, allowedPeekers, allowedStores, bidType)
  packBid bid := some (Fields.pack Method.newBid.outputs (packBid bid, ()))
  confidentialComputeRequestTx := confidentialComputeRequestTx
  -- nobody asks for the two methods that write here
  read p ctx input := outcome <| ((runtimeOn X B id (fun _ _ _ => throw nilDereference)
    fun _ _ _ _ => throw nilDereference).run C p.address input).run ctx

/-! ### The library of the contracts -/

/-- `abi.decode` of the contracts.  It gets back what was encoded; what else it accepts is left open. -/
structure SolidityAbi where
  decode (ts : Fields) (data : Bytes) : Option ts.Val
  decode_pack {ts : Fields} (vs : ts.Val) : (ts.pack vs).length < 2 ^ 63 → decode ts (ts.pack vs) = some vs

namespace SuaveAbi.Method

/-- The arguments of a function of `Suave.sol`. -/
@[reducible]
def Args : Method → Type
  | buildEthBlock => EthBackend.BuildBlockArgs × BidId × GoString
  | confidentialInputs => Unit
  | confidentialRetrieve => BidId × GoString
  | confidentialStore => BidId × GoString × Bytes
  | ethcall => Address × Bytes
  | extractHint => Bytes
  | fetchBids => UInt64 × GoString
  | fillMevShareBundle => BidId
  | newBid => UInt64 × List Address × List Address × GoString
  | signEthTransaction => Bytes × GoString × GoString
  | simulateBundle => Bytes
  | submitBundleJsonRPC => GoString × GoString × Bytes
  | submitEthBlockBidToRelay => GoString × Bytes

@[reducible]
def Result : Method → Type
  | buildEthBlock => Bytes × Bytes
  | confidentialStore => Unit
  | fetchBids => List InnerBid
  | newBid => InnerBid
  | simulateBundle => UInt64
  | confidentialInputs | confidentialRetrieve | ethcall | extractHint | fillMevShareBundle | signEthTransaction
  | submitBundleJsonRPC | submitEthBlockBidToRelay => Bytes

/-- `abi.encode` of the arguments. -/
def abiEncode : (f : Method) → f.Args → Bytes
  | buildEthBlock, (blockArgs, bidId, namespace_) =>
    Fields.pack buildEthBlock.inputs (packBuildBlockArgs blockArgs, bidId, namespace_, ())
  | confidentialInputs, () => Fields.pack confidentialInputs.inputs ()
  | confidentialRetrieve, (bidId, key) => Fields.pack confidentialRetrieve.inputs (bidId, key, ())
  | confidentialStore, (bidId, key, data1) => Fields.pack confidentialStore.inputs (bidId, key, data1, ())
  | ethcall, (contractAddr, input1) => Fields.pack ethcall.inputs (contractAddr, input1, ())
  | extractHint, bundleData => Fields.pack extractHint.inputs (bundleData, ())
  | fetchBids, (cond, namespace_) => Fields.pack fetchBids.inputs (cond.toBitVec, namespace_, ())
  | fillMevShareBundle, bidId => Fields.pack fillMevShareBundle.inputs (bidId, ())
  | newBid, (decryptionCondition, allowedPeekers, allowedStores, bidType) =>
    Fields.pack newBid.inputs (decryptionCondition.toBitVec, allowedPeekers, allowedStores, bidType, ())
  | signEthTransaction, (txn, chainId, signingKey) =>
    Fields.pack signEthTransaction.inputs (txn, chainId, signingKey, ())
  | simulateBundle, bundleData => Fields.pack simulateBundle.inputs (bundleData, ())
  | submitBundleJsonRPC, (url, method, params) => Fields.pack submitBundleJsonRPC.inputs (url, method, params, ())
  | submitEthBlockBidToRelay, (relayUrl, builderBid) =>
    Fields.pack submitEthBlockBidToRelay.inputs (relayUrl, builderBid, ())

/-- What a function of the library makes of the data that it gets back.  Data that `abi.decode` cannot read
makes it revert. -/
def decodeResult (S : SolidityAbi) : (f : Method) → Bytes → Option f.Result
  | buildEthBlock, data => (S.decode buildEthBlock.outputs data).map fun (output1, output2, ()) => (output1, output2)
  | confidentialStore, _ => some ()
  | fetchBids, data => (S.decode fetchBids.outputs data).map fun (bids, ()) => List.map decodeBid bids
  | newBid, data => (S.decode newBid.outputs data).map fun (bid, ()) => decodeBid bid
  | simulateBundle, data => (S.decode simulateBundle.outputs data).map fun (egp, ()) => .ofBitVec egp
  | ethcall, data => (S.decode ethcall.outputs data).map fun (output1, ()) => output1
  | signEthTransaction, data => (S.decode signEthTransaction.outputs data).map fun (output1, ()) => output1
  | confidentialInputs, data | confidentialRetrieve, data | extractHint, data | fillMevShareBundle, data
  | submitBundleJsonRPC, data | submitEthBlockBidToRelay, data => some data

/-- The outputs of a method as a contract gets them. -/
def asSeen : (f : Method) → f.Result → f.Result
  | fetchBids, bids => List.map asArrays bids
  | newBid, bid => asArrays bid
  | buildEthBlock, r => r
  | confidentialStore, r => r
  | simulateBundle, r => r
  | ethcall, r => r
  | signEthTransaction, r => r
  | confidentialInputs, r => r
  | confidentialRetrieve, r => r
  | extractHint, r => r
  | fillMevShareBundle, r => r
  | submitBundleJsonRPC, r => r
  | submitEthBlockBidToRelay, r => r

end SuaveAbi.Method

/-- A method of the runtime on the arguments that a contract gives. -/
def SuaveRuntimeAdapter.Impl.call {σ : Type} (b : SuaveRuntimeAdapter.Impl σ) :
    (f : Method) → f.Args → EStateM GoError σ f.Result
  | .buildEthBlock, (blockArgs, bidId, namespace_) => b.buildEthBlock blockArgs bidId namespace_
  | .confidentialInputs, () => b.confidentialInputs
  | .confidentialRetrieve, (bidId, key) => b.confidentialRetrieve bidId key
  | .confidentialStore, (bidId, key, data1) => b.confidentialStore bidId key data1
  | .ethcall, (contractAddr, input1) => b.ethcall contractAddr input1
  | .extractHint, bundleData => b.extractHint bundleData
  | .fetchBids, (cond, namespace_) => b.fetchBids cond namespace_
  | .fillMevShareBundle, bidId => b.fillMevShareBundle bidId
  | .newBid, (decryptionCondition, allowedPeekers, allowedStores, bidType) =>
    b.newBid decryptionCondition allowedPeekers allowedStores bidType
  | .signEthTransaction, (txn, chainId, signingKey) => b.signEthTransaction txn chainId signingKey
  | .simulateBundle, bundleData => b.simulateBundle bundleData
  | .submitBundleJsonRPC, (url, method, params) => b.submitBundleJsonRPC url method params
  | .submitEthBlockBidToRelay, (relayUrl, builderBid) => b.submitEthBlockBidToRelay relayUrl builderBid

/-- A call of a function of `Suave.sol` in a confidential execution; `none` is a result that cannot be decoded. -/
def libraryCall {σ : Type} (C : Crypto) (S : SolidityAbi) (b : SuaveRuntimeAdapter.Impl σ) (f : Method)
    (args : f.Args) : EStateM GoError σ (Option f.Result) := do
  let data ← b.run C f.address (f.abiEncode args)
  return f.decodeResult S data

end Suift
