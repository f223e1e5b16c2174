import Suift.Types.Hexutil
import Suift.Types.Signing

/-!
# Transactions as JSON

`MarshalJSON` and `UnmarshalJSON` of `core/types/transaction_marshalling.go` for the confidential
types.  Both go through `txJSON`, one record with the fields of all types.

A record is written under its own type but read as a request without inputs.  For that reason no SUAVE
transaction can be read: what is wrapped in it would have to be a record.

The upstream types are behind `EthCodec`.  `encoding/json` refuses texts that are nested more than
10000 deep, which bounds the recursion through `wrapped`.
-/

namespace Suift

open Text Json Hexutil

/-- Why a transaction cannot be read: the JSON is not of the right form, or the transaction's own
check fails. -/
inductive JsonError
  | malformed
  | invalid (err : GoError)
  deriving DecidableEq, Repr

/-- The upstream transaction types in JSON. -/
structure EthCodec where
  marshal : EthTx → Value
  wf_marshal : ∀ tx, (marshal tx).WF
  unmarshal : Value → Except JsonError EthTx
  /-- The value is an access list. -/
  isAccessList : Value → Bool

/-- `txJSON`.  The fields that only upstream types have are left out. -/
structure TxJson where
  type_ : UInt64 := 0
  chainId : Option ℕ := none
  nonce : Option UInt64 := none
  to_ : Option Address := none
  gas : Option UInt64 := none
  gasPrice : Option ℕ := none
  value : Option ℕ := none
  input : Option Bytes := none
  executionNode : Option Address := none
  confidentialInputsHash : Option Hash := none
  confidentialInputs : Option Bytes := none
  wrapped : Option Value := none
  confidentialComputeResult : Option Bytes := none
  v : Option ℕ := none
  r : Option ℕ := none
  s : Option ℕ := none

inductive TxField
  | type_ | chainId | nonce | to_ | gas | gasPrice | maxPriorityFeePerGas | maxFeePerGas
  | maxFeePerDataGas | value | input | accessList | blobVersionedHashes | executionNode
  | confidentialInputsHash | confidentialInputs | wrapped | confidentialComputeResult
  | v | r | s | hash
  deriving DecidableEq, Repr

namespace TxField

def all : List TxField :=
  [type_, chainId, nonce, to_, gas, gasPrice, maxPriorityFeePerGas, maxFeePerGas, maxFeePerDataGas,
    value, input, accessList, blobVersionedHashes, executionNode, confidentialInputsHash,
    confidentialInputs, wrapped, confidentialComputeResult, v, r, s, hash]

def name : TxField → String
  | type_ => "type"
  | chainId => "chainId"
  | nonce => "nonce"
  | to_ => "to"
  | gas => "gas"
  | gasPrice => "gasPrice"
  | maxPriorityFeePerGas => "maxPriorityFeePerGas"
  | maxFeePerGas => "maxFeePerGas"
  | maxFeePerDataGas => "maxFeePerDataGas"
  | value => "value"
  | input => "input"
  | accessList => "accessList"
  | blobVersionedHashes => "blobVersionedHashes"
  | executionNode => "executionNode"
  | confidentialInputsHash => "confidentialInputsHash"
  | confidentialInputs => "confidentialInputs"
  | wrapped => "wrapped"
  | confidentialComputeResult => "confidentialComputeResult"
  | v => "v"
  | r => "r"
  | s => "s"
  | hash => "hash"

end TxField

namespace TxJson

/-- A pointer: `null` is `nil`. -/
def pointer {α : Type} (decode : Value → Option α) : Value → Option (Option α)
  | .null => some none
  | v => (decode v).map some

/-- Decode a value into one field. -/
def set (E : EthCodec) : TxField → TxJson → Value → Option TxJson
  | .type_, t, x => (unmarshalUint64 x).map fun y => { t with type_ := y }
  | .chainId, t, x => (pointer unmarshalBig x).map fun y => { t with chainId := y }
  | .nonce, t, x => (pointer unmarshalUint64 x).map fun y => { t with nonce := y }
  | .to_, t, x => (pointer unmarshalAddress x).map fun y => { t with to_ := y }
  | .gas, t, x => (pointer unmarshalUint64 x).map fun y => { t with gas := y }
  | .gasPrice, t, x => (pointer unmarshalBig x).map fun y => { t with gasPrice := y }
  | .maxPriorityFeePerGas, t, x | .maxFeePerGas, t, x | .maxFeePerDataGas, t, x =>
    (pointer unmarshalBig x).map fun _ => t
  | .value, t, x => (pointer unmarshalBig x).map fun y => { t with value := y }
  | .input, t, x => (pointer unmarshalBytes x).map fun y => { t with input := y }
  | .accessList, t, x => (pointer (fun x => if E.isAccessList x then some () else none) x).map fun _ => t
  | .blobVersionedHashes, t, x => (decodeSlice 0 (fun _ => unmarshalHash) none x).map fun _ => t
  | .executionNode, t, x => (pointer unmarshalAddress x).map fun y => { t with executionNode := y }
  | .confidentialInputsHash, t, x =>
    (pointer unmarshalHash x).map fun y => { t with confidentialInputsHash := y }
  | .confidentialInputs, t, x =>
    (pointer unmarshalBytes x).map fun y => { t with confidentialInputs := y }
  | .wrapped, t, x => (pointer some x).map fun y => { t with wrapped := y }
  | .confidentialComputeResult, t, x =>
    (pointer unmarshalBytes x).map fun y => { t with confidentialComputeResult := y }
  | .v, t, x => (pointer unmarshalBig x).map fun y => { t with v := y }
  | .r, t, x => (pointer unmarshalBig x).map fun y => { t with r := y }
  | .s, t, x => (pointer unmarshalBig x).map fun y => { t with s := y }
  -- only used for encoding
  | .hash, t, x => (unmarshalHash x).map fun _ => t

def format (E : EthCodec) : RecordFormat TxField TxJson where
  fields := TxField.all
  name := TxField.name
  set := set E
  token_name f := token_of_plain (by cases f <;> decide +kernel)
  lookup_name f := lookup_eq_some (by cases f <;> decide +kernel) (by cases f <;> decide) (by decide +kernel)

/-- A field that is written also if it is absent. -/
def orNull {α : Type} (enc : α → Value) : Option α → Value
  | none => .null
  | some a => enc a

/-- A field with `omitempty`. -/
def omitEmpty {α : Type} (f : TxField) (enc : α → Value) : Option α → List (List UInt8 × Value)
  | none => []
  | some a => [(ascii f.name, enc a)]

/-- `json.Marshal` of a `txJSON` together with the hash. -/
def marshal (enc : TxJson) (hash : Hash) : Value :=
  .obj ([(ascii TxField.type_.name, ofUint64 enc.type_)] ++
    omitEmpty .chainId ofBig enc.chainId ++
    [(ascii TxField.nonce.name, orNull ofUint64 enc.nonce),
      (ascii TxField.to_.name, orNull ofAddress enc.to_),
      (ascii TxField.gas.name, orNull ofUint64 enc.gas),
      (ascii TxField.gasPrice.name, orNull ofBig enc.gasPrice),
      (ascii TxField.maxPriorityFeePerGas.name, .null),
      (ascii TxField.maxFeePerGas.name, .null),
      (ascii TxField.value.name, orNull ofBig enc.value),
      (ascii TxField.input.name, orNull ofBytes enc.input)] ++
    omitEmpty .executionNode ofAddress enc.executionNode ++
    omitEmpty .confidentialInputsHash ofHash enc.confidentialInputsHash ++
    omitEmpty .confidentialInputs ofBytes enc.confidentialInputs ++
    omitEmpty .wrapped id enc.wrapped ++
    omitEmpty .confidentialComputeResult ofBytes enc.confidentialComputeResult ++
    [(ascii TxField.v.name, orNull ofBig enc.v),
      (ascii TxField.r.name, orNull ofBig enc.r),
      (ascii TxField.s.name, orNull ofBig enc.s),
      (ascii TxField.hash.name, ofHash hash)])

end TxJson

/-! ### `MarshalJSON` -/

/-- `Transaction.Hash` of a record. -/
def recordTxHash (C : Crypto) (tx : ConfidentialComputeRecord) : Hash :=
  prefixedRlpHash C confidentialComputeRecordTxType (recordFields tx)

/-- `Transaction.Hash` of a request: the embedded record is a list of its own. -/
def requestTxHash (C : Crypto) (tx : ConfidentialComputeRequest) : Hash :=
  prefixedRlpHash C confidentialComputeRequestTxType
    [.list (recordFields tx.confidentialComputeRecord), .bytes tx.confidentialInputs]

/-- The fields of a record. -/
def recordJson (tx : ConfidentialComputeRecord) : TxJson where
  type_ := confidentialComputeRecordTxType.toUInt64
  executionNode := some tx.executionNode
  confidentialInputsHash := some tx.confidentialInputsHash
  nonce := some tx.nonce
  to_ := tx.to_
  gas := some tx.gas
  gasPrice := some tx.gasPrice
  value := some tx.value
  input := some tx.data
  chainId := some tx.chainID
  v := some tx.v
  r := some tx.r
  s := some tx.s

def requestJson (tx : ConfidentialComputeRequest) : TxJson :=
  { recordJson tx.confidentialComputeRecord with
    type_ := confidentialComputeRequestTxType.toUInt64
    confidentialInputs := some tx.confidentialInputs }

def suaveJson (C : Crypto) (tx : SuaveTransaction) : TxJson where
  type_ := suaveTxType.toUInt64
  executionNode := some tx.executionNode
  wrapped := some ((recordJson tx.confidentialComputeRequest).marshal
    (recordTxHash C tx.confidentialComputeRequest))
  chainId := some tx.chainID
  confidentialComputeResult := some tx.confidentialComputeResult
  v := some tx.v
  r := some tx.r
  s := some tx.s

/-- `Transaction.MarshalJSON`. -/
def marshalTx (C : Crypto) (E : EthCodec) : Transaction → Value
  | .ethereum tx => E.marshal tx
  | .record tx => (recordJson tx).marshal (recordTxHash C tx)
  | .request tx => (requestJson tx).marshal (requestTxHash C tx)
  | .suave tx => (suaveJson C tx).marshal (suaveTxHash C tx)

/-! ### `UnmarshalJSON` -/

/-- `ErrUnexpectedProtection`. -/
def errUnexpectedProtection : GoError :=
  GoError.new "transaction type does not supported EIP-155 protected signatures"

/-- `ErrTxTypeNotSupported`. -/
def errTxTypeNotSupported : GoError := GoError.new "transaction type not supported"

/-- A signature of an EIP-155 transaction. -/
def isProtectedV (v : ℕ) : Bool := v != 27 && v != 28 && v != 1 && v != 0

/-- `sanityCheckSignature` of a type that is not optionally protected. -/
def sanityCheckSignature (v r s : ℕ) : Except GoError Unit := do
  if isProtectedV v then
    throw errUnexpectedProtection
  if !validateSignatureValues (UInt8.ofNat v) r s false then
    throw errInvalidSig

/-- A transaction may be unsigned; a signature has to make sense. -/
def checkSignature (v r s : ℕ) : Except JsonError Unit :=
  if v ≠ 0 ∨ r ≠ 0 ∨ s ≠ 0 then (sanityCheckSignature v r s).mapError .invalid else pure ()

/-- A field that has to be there. -/
def required {α : Type} (name : String) : Option α → Except JsonError α
  | some a => pure a
  | none => throw (.invalid (GoError.new ("missing required field '" ++ name ++ "' in transaction")))

/-- The record in a record or a request.  A missing `v` is reported as a missing `r`. -/
def unmarshalRecord (dec : TxJson) : Except JsonError ConfidentialComputeRecord := do
  let executionNode ← required "executionNode" dec.executionNode
  let nonce ← required "nonce" dec.nonce
  let gas ← required "gas" dec.gas
  let gasPrice ← required "gasPrice" dec.gasPrice
  let value ← required "value" dec.value
  let data ← required "input" dec.input
  let chainID ← required "chainId" dec.chainId
  let v ← required "r" dec.v
  let r ← required "r" dec.r
  let s ← required "s" dec.s
  checkSignature v r s
  return { nonce, gasPrice, gas, to_ := dec.to_, value, data, executionNode,
           confidentialInputsHash := dec.confidentialInputsHash.getD 0, chainID, v, r, s }

/-- `Transaction.UnmarshalJSON`, to the given depth of wrapped transactions. -/
def unmarshalTxTo (E : EthCodec) : ℕ → Value → Except JsonError Transaction
  | 0, _ => throw .malformed
  | depth + 1, input => do
    let some dec := (TxJson.format E).decode {} input
      | throw .malformed
    if dec.type_ < 4 then
      return .ethereum (← E.unmarshal input)
    else if dec.type_ = confidentialComputeRecordTxType.toUInt64 then
      return .request { confidentialComputeRecord := ← unmarshalRecord dec, confidentialInputs := [] }
    else if dec.type_ = confidentialComputeRequestTxType.toUInt64 then
      return .request { confidentialComputeRecord := ← unmarshalRecord dec
                        confidentialInputs := dec.confidentialInputs.getD [] }
    else if dec.type_ = suaveTxType.toUInt64 then
      let executionNode ← required "executionNode" dec.executionNode
      let wrapped ← required "wrapped" dec.wrapped
      let .record ccr ← unmarshalTxTo E depth wrapped
        | throw (.invalid (GoError.new "wrapped tx not a ConfidentialComputeRecord"))
      let chainID ← required "chainId" dec.chainId
      let v ← required "v" dec.v
      let r ← required "r" dec.r
      let s ← required "s" dec.s
      checkSignature v r s
      return .suave { executionNode, confidentialComputeRequest := ccr
                      confidentialComputeResult := dec.confidentialComputeResult.getD [], chainID, v, r, s }
    else
      throw (.invalid errTxTypeNotSupported)

/-- `Transaction.UnmarshalJSON`. -/
def unmarshalTx (E : EthCodec) (input : Value) : Except JsonError Transaction :=
  unmarshalTxTo E 10000 input

/-! ### As text -/

/-- `Transaction.MarshalJSON`, the text. -/
def marshalJSON (C : Crypto) (E : EthCodec) (tx : Transaction) : Bytes := print (marshalTx C E tx)

/-- `Transaction.UnmarshalJSON` of a text. -/
def unmarshalJSON (E : EthCodec) (input : Bytes) : Except JsonError Transaction :=
  match parse input with
  | some value => unmarshalTx E value
  | none => throw .malformed

/-- A codec for a chain without upstream transactions. -/
def mockCodec : EthCodec where
  marshal _ := .null
  wf_marshal _ := Json.wf_null
  unmarshal _ := .error .malformed
  isAccessList _ := false

end Suift
