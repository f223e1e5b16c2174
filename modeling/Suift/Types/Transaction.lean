import Suift.Types.Basic

/-!
# Confidential transactions

The three confidential transaction types of `core/types/confidential.go` and the sum `TxData` of
everything a `Transaction` can hold.

A `*big.Int` is a natural number: `copy` replaces `nil` by zero, and both decoders refuse negative
numbers.  `Transaction` is its inner data; the caches (`hash`, `size`, `from`) and the arrival time
are left out, since no function modelled here reads them.
-/

namespace Suift

/-- The user's signed order: what to call, and which node is to execute it. -/
structure ConfidentialComputeRecord where
  nonce : UInt64
  gasPrice : ℕ
  gas : UInt64
  to_ : Option Address
  value : ℕ
  data : Bytes
  executionNode : Address
  confidentialInputsHash : Hash
  chainID : ℕ
  v : ℕ
  r : ℕ
  s : ℕ
  deriving DecidableEq, Repr

/-- A record together with the confidential inputs, as the user submits it. -/
structure ConfidentialComputeRequest where
  confidentialComputeRecord : ConfidentialComputeRecord
  confidentialInputs : Bytes
  deriving DecidableEq, Repr

/-- The result of a confidential computation, signed by the node that made it. -/
structure SuaveTransaction where
  executionNode : Address
  confidentialComputeRequest : ConfidentialComputeRecord
  confidentialComputeResult : Bytes
  chainID : ℕ
  v : ℕ
  r : ℕ
  s : ℕ
  deriving DecidableEq, Repr

/-- A transaction of one of the Ethereum types, with the fields that all of them have. -/
structure EthTx where
  txType : UInt8
  nonce : UInt64
  gasPrice : ℕ
  gas : UInt64
  to_ : Option Address
  value : ℕ
  data : Bytes
  chainID : ℕ
  v : ℕ
  r : ℕ
  s : ℕ
  deriving DecidableEq, Repr

/-- `TxData`: the consensus contents of a transaction. -/
inductive TxData
  | ethereum (tx : EthTx)
  | record (tx : ConfidentialComputeRecord)
  | request (tx : ConfidentialComputeRequest)
  | suave (tx : SuaveTransaction)
  deriving DecidableEq, Repr

/-- `Transaction.ChainId`. -/
def TxData.chainID : TxData → ℕ
  | .ethereum tx => tx.chainID
  | .record tx => tx.chainID
  | .request tx => tx.confidentialComputeRecord.chainID
  | .suave tx => tx.chainID

/-! ### Accessors

A SUAVE transaction carries the fields of the record inside, except that its data is the result. -/

def TxData.nonce : TxData → UInt64
  | .ethereum tx => tx.nonce
  | .record tx => tx.nonce
  | .request tx => tx.confidentialComputeRecord.nonce
  | .suave tx => tx.confidentialComputeRequest.nonce

def TxData.gas : TxData → UInt64
  | .ethereum tx => tx.gas
  | .record tx => tx.gas
  | .request tx => tx.confidentialComputeRecord.gas
  | .suave tx => tx.confidentialComputeRequest.gas

def TxData.gasPrice : TxData → ℕ
  | .ethereum tx => tx.gasPrice
  | .record tx => tx.gasPrice
  | .request tx => tx.confidentialComputeRecord.gasPrice
  | .suave tx => tx.confidentialComputeRequest.gasPrice

def TxData.to_ : TxData → Option Address
  | .ethereum tx => tx.to_
  | .record tx => tx.to_
  | .request tx => tx.confidentialComputeRecord.to_
  | .suave tx => tx.confidentialComputeRequest.to_

def TxData.value : TxData → ℕ
  | .ethereum tx => tx.value
  | .record tx => tx.value
  | .request tx => tx.confidentialComputeRecord.value
  | .suave tx => tx.confidentialComputeRequest.value

def TxData.data : TxData → Bytes
  | .ethereum tx => tx.data
  | .record tx => tx.data
  | .request tx => tx.confidentialComputeRecord.data
  | .suave tx => tx.confidentialComputeResult

def TxData.rawSignatureValues : TxData → ℕ × ℕ × ℕ
  | .ethereum tx => (tx.v, tx.r, tx.s)
  | .record tx => (tx.v, tx.r, tx.s)
  | .request tx =>
    (tx.confidentialComputeRecord.v, tx.confidentialComputeRecord.r, tx.confidentialComputeRecord.s)
  | .suave tx => (tx.v, tx.r, tx.s)

/-- A transaction, as far as its inner data. -/
abbrev Transaction := TxData

/-- `ConfidentialComputeRecordTxType`. -/
def confidentialComputeRecordTxType : UInt8 := 0x42

/-- `ConfidentialComputeRequestTxType`. -/
def confidentialComputeRequestTxType : UInt8 := 0x43

/-- `SuaveTxType`. -/
def suaveTxType : UInt8 := 0x50

end Suift
