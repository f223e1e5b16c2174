import Suift.Lib.RlpStream
import Suift.Types.Json

/-!
# The binary encoding of transactions

`MarshalBinary` and `UnmarshalBinary` of `core/types/transaction.go`.  A typed transaction is its type
byte followed by the RLP encoding of its struct.  The structs of `core/types/confidential.go` are
described by their fields; the record is embedded in a request, which makes it a list of its own.

A record can be encoded but not decoded: `decodeTyped` has no case for it.  The upstream types are behind
`EthBinary`.
-/

namespace Suift

open Text Rlp

/-- The upstream transaction types. -/
structure EthBinary where
  marshal : EthTx → Except GoError Bytes
  unmarshalLegacy : Bytes → Except GoError EthTx
  /-- The struct behind a type byte. -/
  decode : UInt8 → Bytes → Except GoError EthTx

/-! ### The structs -/

def addressSchema : Schema := .array "common.Address" 20

def hashSchema : Schema := .array "common.Hash" 32

/-- A `*common.Address` with the tag `rlp:"nil"`. -/
def nilAddressSchema : Schema := .nilPtr "common.Address" 20 (by decide)

def recordSchema : Fields :=
  .cons "Nonce" .uint64 <| .cons "GasPrice" .bigInt <| .cons "Gas" .uint64 <|
  .cons "To" nilAddressSchema <| .cons "Value" .bigInt <| .cons "Data" .bytes <|
  .cons "ExecutionNode" addressSchema <| .cons "ConfidentialInputsHash" hashSchema <|
  .cons "ChainID" .bigInt <| .cons "V" .bigInt <| .cons "R" .bigInt <| .cons "S" .bigInt .nil

def requestSchema : Fields :=
  .cons "ConfidentialComputeRecord" (.struct "types.ConfidentialComputeRecord" recordSchema) <|
  .cons "ConfidentialInputs" .bytes .nil

def suaveSchema : Fields :=
  .cons "ExecutionNode" addressSchema <|
  .cons "ConfidentialComputeRequest" (.struct "types.ConfidentialComputeRecord" recordSchema) <|
  .cons "ConfidentialComputeResult" .bytes <| .cons "ChainID" .bigInt <| .cons "V" .bigInt <|
  .cons "R" .bigInt <| .cons "S" .bigInt .nil

def ConfidentialComputeRecord.toVal (tx : ConfidentialComputeRecord) : recordSchema.Val :=
  (tx.nonce, tx.gasPrice, tx.gas, tx.to_, tx.value, tx.data, tx.executionNode,
    tx.confidentialInputsHash, tx.chainID, tx.v, tx.r, tx.s, ())

def ConfidentialComputeRecord.ofVal : recordSchema.Val → ConfidentialComputeRecord
  | (nonce, gasPrice, gas, to_, value, data, executionNode, confidentialInputsHash, chainID, v, r, s, ()) =>
    { nonce := nonce, gasPrice := gasPrice, gas := gas, to_ := to_, value := value, data := data,
      executionNode := executionNode, confidentialInputsHash := confidentialInputsHash,
      chainID := chainID, v := v, r := r, s := s }

def ConfidentialComputeRequest.toVal (tx : ConfidentialComputeRequest) : requestSchema.Val :=
  (tx.confidentialComputeRecord.toVal, tx.confidentialInputs, ())

def ConfidentialComputeRequest.ofVal : requestSchema.Val → ConfidentialComputeRequest
  | (record, confidentialInputs, ()) =>
    { confidentialComputeRecord := .ofVal record, confidentialInputs := confidentialInputs }

def SuaveTransaction.toVal (tx : SuaveTransaction) : suaveSchema.Val :=
  (tx.executionNode, tx.confidentialComputeRequest.toVal, tx.confidentialComputeResult, tx.chainID, tx.v,
    tx.r, tx.s, ())

def SuaveTransaction.ofVal : suaveSchema.Val → SuaveTransaction
  | (executionNode, record, confidentialComputeResult, chainID, v, r, s, ()) =>
    { executionNode := executionNode, confidentialComputeRequest := .ofVal record,
      confidentialComputeResult := confidentialComputeResult, chainID := chainID, v := v, r := r, s := s }

/-! ### The two functions -/

/-- `encodeTyped`: the type byte and the struct. -/
def encodeTyped (type : UInt8) (fields : Fields) (v : fields.Val) : Bytes :=
  type :: encode (.list (fields.items v))

/-- `Transaction.MarshalBinary`. -/
def marshalBinary (U : EthBinary) : Transaction → Except GoError Bytes
  | .ethereum tx => U.marshal tx
  | .record tx => .ok (encodeTyped confidentialComputeRecordTxType recordSchema tx.toVal)
  | .request tx => .ok (encodeTyped confidentialComputeRequestTxType requestSchema tx.toVal)
  | .suave tx => .ok (encodeTyped suaveTxType suaveSchema tx.toVal)

/-- `rlp.DecodeBytes` into the struct `typ`. -/
def decodeStruct (typ : String) (fields : Fields) (b : Bytes) : Except GoError fields.Val :=
  ((Schema.struct typ fields).decode.decodeBytes typ b).mapError fun err => .error err.text none

/-- `errShortTypedTx`. -/
def errShortTypedTx : GoError := GoError.new "typed transaction too short"

/-- `decodeTyped`.  The types from one to three are upstream's. -/
def decodeTyped (U : EthBinary) : Bytes → Except GoError Transaction
  | [] | [_] => .error errShortTypedTx
  | type :: payload =>
    if type = 1 ∨ type = 2 ∨ type = 3 then TxData.ethereum <$> U.decode type payload
    else if type = confidentialComputeRequestTxType then
      (fun v => .request (.ofVal v)) <$>
        decodeStruct "types.ConfidentialComputeRequest" requestSchema payload
    else if type = suaveTxType then
      (fun v => .suave (.ofVal v)) <$> decodeStruct "types.SuaveTransaction" suaveSchema payload
    else .error errTxTypeNotSupported

/-- `Transaction.UnmarshalBinary`. -/
def unmarshalBinary (U : EthBinary) (b : Bytes) : Except GoError Transaction :=
  if b.head?.any (0x7f < ·) then TxData.ethereum <$> U.unmarshalLegacy b
  else decodeTyped U b

end Suift
