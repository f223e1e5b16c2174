import Suift.Lib.Base64
import Suift.Types.Hexutil
import Suift.VM.Bundles
import Mathlib.Data.Nat.Digits.Defs

/-!
# The precompiles that work on bundles and blocks

`simulateBundle`, `extractHint`, `buildEthBlock` and `fillMevShareBundle` as a contract calls them: the
methods of `SuaveRuntimeAdapter` unpack the input and pack the result, those of `suaveRuntime` call
`runImpl`.  What `buildEthBlock` does with the bundles that it has put together (`VM/Bundles`) is here
too: it has a block built and signs it.

An answer of the backend is an error or an envelope.  The client of a remote backend decodes the reply into
an envelope that it has made, and the decoder insists on both of its fields; but a reply of `null` leaves
the envelope alone, with both fields `nil`.  That one is `none` here.
-/

namespace Suift

open Text

namespace EthBackend

/-- `types.Withdrawal`. -/
structure Withdrawal where
  index : UInt64
  validator : UInt64
  address : Address
  amount : UInt64
  deriving DecidableEq, Repr

/-- `types.BuildBlockArgs`. -/
structure BuildBlockArgs where
  slot : UInt64
  proposerPubkey : Bytes
  parent : Hash
  timestamp : UInt64
  feeRecipient : Address
  gasLimit : UInt64
  random : Hash
  withdrawals : List Withdrawal
  deriving DecidableEq, Repr

/-- `engine.ExecutableData`; the withdrawals are pointers. -/
structure ExecutableData where
  parentHash : Hash
  feeRecipient : Address
  stateRoot : Hash
  receiptsRoot : Hash
  logsBloom : Bytes
  random : Hash
  number : UInt64
  gasLimit : UInt64
  gasUsed : UInt64
  timestamp : UInt64
  extraData : Bytes
  baseFeePerGas : ℕ
  blockHash : Hash
  transactions : List Bytes
  withdrawals : List (Option Withdrawal)
  deriving DecidableEq, Repr

/-- `engine.ExecutionPayloadEnvelope`. -/
structure ExecutionPayloadEnvelope where
  executionPayload : ExecutableData
  blockValue : ℕ
  deriving DecidableEq, Repr

end EthBackend

open EthBackend

/-- `backends.EthBackend`, as far as it builds blocks. -/
structure EthBackend where
  buildEthBlock : List Transaction → Except GoError (Option ExecutionPayloadEnvelope)
  buildEthBlockFromBundles : EthBackend.BuildBlockArgs → List SBundle →
    Except GoError (Option ExecutionPayloadEnvelope)

/-! ### Simulating a bundle -/

namespace SimulateBundle

variable (X : Externals) (eth : EthBackend)

/-- `simulateBundle.runImpl`, where `none` is a `nil` number. -/
def runImpl (input : Bytes) : Except GoError (Option ℤ) := do
  let bundle ← X.unmarshalSBundle input
  let some envelope ← eth.buildEthBlock bundle.txs | throw nilDereference
  if envelope.executionPayload.gasUsed = 0 then
    -- the error is the `nil` of the call before
    return none
  return some (envelope.blockValue / envelope.executionPayload.gasUsed.toInt64.toInt)

/-- `suaveRuntime.simulateBundle`.  `Uint64` takes the low bits of the absolute value. -/
def run (bundleData : Bytes) : Except GoError UInt64 := do
  let some num ← runImpl X eth bundleData | throw nilDereference
  return UInt64.ofNat num.natAbs

end SimulateBundle

/-! ### The hint on a bundle -/

namespace ExtractHint

/-- `txs[i]`, which panics when there is no such element. -/
def indexTransaction (txs : List Transaction) (i : ℕ) : Except GoError Transaction :=
  match txs[i]? with
  | some tx => .ok tx
  | none =>
    .error (.panic (ascii "runtime error: index out of range [" ++ decimal i ++ ascii "] with length " ++
      decimal txs.length))

/-- `extractHint.runImpl`. -/
def runImpl (X : Externals) (bundleBytes : Bytes) : Except GoError Bytes := do
  let bundle ← X.unmarshalSBundle bundleBytes
  let tx ← indexTransaction bundle.txs 0
  let some to_ := tx.to_ | throw nilDereference
  return Json.print (.obj
    [(ascii "To", Hexutil.ofAddress to_), (ascii "Data", .str (Base64.encode tx.data))])

end ExtractHint

/-! ### Signing a block -/

namespace BuildEthBlock

/-- `capella.ExecutionPayload`; the base fee is in the byte order of the beacon chain. -/
structure ExecutionPayload where
  parentHash : Hash
  feeRecipient : Address
  stateRoot : Hash
  receiptsRoot : Hash
  logsBloom : Bytes
  prevRandao : Hash
  blockNumber : UInt64
  gasLimit : UInt64
  gasUsed : UInt64
  timestamp : UInt64
  extraData : Bytes
  baseFeePerGas : Bytes
  blockHash : Hash
  transactions : List Bytes
  withdrawals : List Withdrawal
  deriving DecidableEq, Repr

/-- `v1.BidTrace`. -/
structure BidTrace where
  slot : UInt64
  parentHash : Hash
  blockHash : Hash
  builderPubkey : Bytes
  proposerPubkey : Bytes
  proposerFeeRecipient : Address
  gasLimit : UInt64
  gasUsed : UInt64
  value : ℕ
  deriving DecidableEq, Repr

/-- `capella.SubmitBlockRequest`. -/
structure SubmitBlockRequest where
  message : BidTrace
  executionPayload : ExecutionPayload
  signature : Bytes
  deriving DecidableEq, Repr

/-- The libraries for blocks and signatures, with the builder's key. -/
structure BlockLibraries where
  /-- `U256Str.FromBig`. -/
  fromBig : ℕ → Except GoError Bytes
  publicKeyFromSecretKey : Except GoError Bytes
  blsPublicKeyToPublicKey : Bytes → Except GoError Bytes
  signMessage : BidTrace → Except GoError Bytes
  marshalBidRequest : SubmitBlockRequest → Except GoError Bytes
  marshalEnvelope : ExecutionPayloadEnvelope → Except GoError Bytes

/-- `types.BytesToBloom`. -/
def bytesToBloom (b : Bytes) : Except GoError Bytes :=
  if 256 < b.length then
    .error (.panic (ascii "bloom bytes too big 256 " ++ decimal b.length))
  else .ok (List.replicate (256 - b.length) 0 ++ b)

/-- The copy of a withdrawal, read through its pointer. -/
def copyWithdrawal : Option Withdrawal → Except GoError Withdrawal
  | some wd => .ok wd
  | none => .error nilDereference

def executableDataToCapellaExecutionPayload (L : BlockLibraries) (data : ExecutableData) :
    Except GoError ExecutionPayload := do
  let withdrawalData ← data.withdrawals.mapM copyWithdrawal
  let baseFeePerGas ← L.fromBig data.baseFeePerGas
  let logsBloom ← bytesToBloom data.logsBloom
  return { parentHash := data.parentHash, feeRecipient := data.feeRecipient, stateRoot := data.stateRoot,
           receiptsRoot := data.receiptsRoot, logsBloom := logsBloom, prevRandao := data.random,
           blockNumber := data.number, gasLimit := data.gasLimit, gasUsed := data.gasUsed,
           timestamp := data.timestamp, extraData := data.extraData, baseFeePerGas := baseFeePerGas,
           blockHash := data.blockHash, transactions := data.transactions, withdrawals := withdrawalData }

/-- `%v` on the number itself, of which the fields are shown: the sign and the words, the lowest first. -/
def formatBigInt (n : ℕ) : GoString :=
  ascii "\x7bfalse [" ++ List.intercalate (ascii " ") ((Nat.digits (2 ^ 64) n).map decimal) ++ ascii "]\x7d"

/-- What follows the call of the backend in `buildEthBlock.runImpl`. -/
def signBlock (L : BlockLibraries) (blockArgs : EthBackend.BuildBlockArgs)
    (envelope : Option ExecutionPayloadEnvelope) : Except GoError (Bytes × Bytes) := do
  let some envelope := envelope | throw nilDereference
  let payload ← (executableDataToCapellaExecutionPayload L envelope.executionPayload).mapError
    (GoError.wrap (ascii "could not format execution payload as capella payload: "))
  let blsPk ← L.publicKeyFromSecretKey.mapError (GoError.wrap (ascii "could not get bls pubkey: "))
  let pk ← (L.blsPublicKeyToPublicKey blsPk).mapError
    (GoError.wrap (ascii "could not format bls pubkey as bytes: "))
  if 2 ^ 256 ≤ envelope.blockValue then
    throw (.error (ascii "block value " ++ formatBigInt envelope.blockValue ++ ascii " overflows") none)
  let blockBidMsg : BidTrace :=
    { slot := blockArgs.slot, parentHash := payload.parentHash, blockHash := payload.blockHash,
      builderPubkey := pk, proposerPubkey := (blockArgs.proposerPubkey ++ List.replicate 48 0).take 48,
      proposerFeeRecipient := blockArgs.feeRecipient,
      gasLimit := envelope.executionPayload.gasLimit, gasUsed := envelope.executionPayload.gasUsed,
      value := envelope.blockValue }
  let signature ← (L.signMessage blockBidMsg).mapError
    (GoError.wrap (ascii "could not sign builder bid: "))
  let bidBytes ← (L.marshalBidRequest
      { message := blockBidMsg, executionPayload := payload, signature := signature }).mapError
    (GoError.wrap (ascii "could not marshal builder bid request: "))
  let envelopeBytes ← (L.marshalEnvelope envelope).mapError
    (GoError.wrap (ascii "could not marshal payload envelope: "))
  return (bidBytes, envelopeBytes)

/-- What `buildEthBlock.runImpl` does with the merged bundles. -/
def buildAndSign (L : BlockLibraries) (eth : EthBackend) (blockArgs : EthBackend.BuildBlockArgs)
    (mergedBundles : List SBundle) : Except GoError (Bytes × Bytes) := do
  let envelope ← (eth.buildEthBlockFromBundles blockArgs mergedBundles).mapError
    (GoError.wrap (ascii "could not build eth block: "))
  signBlock L blockArgs envelope

end BuildEthBlock

/-! ### The precompiles -/

inductive UnpackError
  | failedToUnpackInput
  | failedToDecodeField
  deriving DecidableEq, Repr

def UnpackError.toGoError : UnpackError → GoError
  | failedToUnpackInput => GoError.new "failed to decode input"
  | failedToDecodeField => GoError.new "failed to decode field"

/-- The inputs and the packed outputs of the four precompiles. -/
structure EthAbi where
  unpackSimulateBundle : Bytes → Except UnpackError Bytes
  unpackExtractHint : Bytes → Except UnpackError Bytes
  unpackBuildEthBlock : Bytes → Except UnpackError (EthBackend.BuildBlockArgs × BidId × GoString)
  unpackFillMevShareBundle : Bytes → Except UnpackError BidId
  packSimulateBundle : UInt64 → Option Bytes
  packBuildEthBlock : Bytes × Bytes → Option Bytes

/-- Pack an output. -/
def packOutput {α : Type} (pack : α → Option Bytes) (output : α) : Except GoError Bytes :=
  match pack output with
  | some result => .ok result
  | none => .error (GoError.new "failed to encode output")

namespace SuaveRuntimeAdapter

variable (A : EthAbi) (X : Externals) (ctx : SuaveContext) (eth : EthBackend)

def simulateBundle (input : Bytes) : Except GoError Bytes := do
  let bundleData ← (A.unpackSimulateBundle input).mapError UnpackError.toGoError
  let output1 ← SimulateBundle.run X eth bundleData
  packOutput A.packSimulateBundle output1

def extractHint (input : Bytes) : Except GoError Bytes := do
  let bundleData ← (A.unpackExtractHint input).mapError UnpackError.toGoError
  ExtractHint.runImpl X bundleData

/-- The namespace is not used. -/
def buildEthBlock (L : BuildEthBlock.BlockLibraries) (input : Bytes) : Except GoError Bytes := do
  let (blockArgs, bidId, _) ← (A.unpackBuildEthBlock input).mapError UnpackError.toGoError
  let output ← BuildEthBlock.runImpl X ctx (BuildEthBlock.buildAndSign L eth blockArgs) bidId
  packOutput A.packBuildEthBlock output

def fillMevShareBundle (input : Bytes) : Except GoError Bytes := do
  let bidId ← (A.unpackFillMevShareBundle input).mapError UnpackError.toGoError
  FillMevShareBundle.runImpl X ctx bidId

end SuaveRuntimeAdapter

end Suift
