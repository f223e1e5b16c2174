import Suift.Lib.Rlp
import Suift.Types.Transaction

/-!
# The SUAVE signer

`suaveSigner` of `core/types/transaction_signing.go`: the three signing hashes and `Sender`, which
recovers the user behind a confidential transaction.

Keccak and public key recovery are parameters (`Crypto`), and so is the London signer of upstream
Ethereum to which every other transaction type is handed on.
-/

namespace Suift

open Text Rlp

/-- The cryptographic primitives the signer is built on. -/
structure Crypto where
  /-- `crypto.Keccak256Hash`. -/
  keccak256 : Bytes → Hash
  /-- `crypto.Ecrecover`: the uncompressed public key behind a 65-byte signature. -/
  ecrecover : Hash → Bytes → Except GoError Bytes
  /-- `londonSigner.Sender` of the given chain. -/
  londonSender : ℕ → EthTx → Except GoError Address
  /-- `londonSigner.Hash` of the given chain. -/
  londonHash : ℕ → EthTx → Hash

variable (C : Crypto)

/-- The order of secp256k1. -/
def secp256k1N : ℕ := 0xfffffffffffffffffffffffffffffffebaaedce6af48a03bbfd25e8cd0364141

/-- Half the order of secp256k1. -/
def secp256k1halfN : ℕ := secp256k1N / 2

/-- `crypto.ValidateSignatureValues`. -/
def validateSignatureValues (v : UInt8) (r s : ℕ) (homestead : Bool) : Bool :=
  if r < 1 || s < 1 then false
  -- the upper range of `s` is rejected: ECDSA malleability
  else if homestead && s > secp256k1halfN then false
  else r < secp256k1N && s < secp256k1N && (v == 0 || v == 1)

/-- `ErrInvalidSig`. -/
def errInvalidSig : GoError := .error (ascii "invalid transaction v, r, s values") (some .invalidSig)

/-- `fmt.Errorf("%w: have %d want %d", ErrInvalidChainId, have, want)`. -/
def errInvalidChainId (have_ want : ℕ) : GoError :=
  .error (ascii "invalid chain id for signer: have " ++ decimal have_ ++ ascii " want " ++ decimal want)
    (some .invalidChainId)

/-- `recoverPlain`: the address whose key made the signature `(R, S, Vb)` over `sighash`. -/
def recoverPlain (sighash : Hash) (R S Vb : ℕ) (homestead : Bool) : Except GoError Address := do
  if 256 ≤ Vb then
    throw errInvalidSig
  -- `Vb.Uint64() - 27` wraps around before it is cut to a byte
  let V : UInt8 := UInt8.ofNat ((Vb + 2 ^ 64 - 27) % 2 ^ 64)
  if !validateSignatureValues V R S homestead then
    throw errInvalidSig
  let pub ← C.ecrecover sighash (bigEndian 32 R ++ bigEndian 32 S ++ [V])
  match pub with
  | 4 :: key => return (C.keccak256 key).setWidth 160
  | _ => throw (GoError.new "invalid public key")

/-- `prefixedRlpHash`. -/
def prefixedRlpHash (pre : UInt8) (x : List Item) : Hash :=
  C.keccak256 (pre :: encode (.list x))

/-- A `*common.Address` inside an RLP list: `nil` is the empty string. -/
def itemOfTo : Option Address → Item
  | none => .bytes []
  | some a => .word 20 a.toNat

/-- The fields of a record in the order of the struct, as RLP encodes the whole transaction. -/
def recordFields (tx : ConfidentialComputeRecord) : List Item :=
  [.nat tx.nonce.toNat, .nat tx.gasPrice, .nat tx.gas.toNat, itemOfTo tx.to_, .nat tx.value,
    .bytes tx.data, .word 20 tx.executionNode.toNat, .word 32 tx.confidentialInputsHash.toNat,
    .nat tx.chainID, .nat tx.v, .nat tx.r, .nat tx.s]

/-- `Transaction.Hash` of a SUAVE transaction, signatures included. -/
def suaveTxHash (tx : SuaveTransaction) : Hash :=
  prefixedRlpHash C suaveTxType
    [.word 20 tx.executionNode.toNat, .list (recordFields tx.confidentialComputeRequest),
      .bytes tx.confidentialComputeResult, .nat tx.chainID, .nat tx.v, .nat tx.r, .nat tx.s]

/-- `Address.Hex`: hexadecimal with the EIP-55 checksum, which puts a letter in upper case where
the hash of the lower-case digits has a nibble above seven. -/
def checksumHex (a : Address) : GoString :=
  let digits := hexAddress a
  let nibbles := hexDigits 64 (C.keccak256 digits).toNat
  ascii "0x" ++ List.zipWith (fun c h => if 57 < c && 55 < h then c - 32 else c) digits nibbles

namespace SuaveSigner

/-- The payload a record is signed over.  Neither the chain id nor a signature is part of it. -/
def recordPayload (tx : ConfidentialComputeRecord) : List Item :=
  [.word 20 tx.executionNode.toNat, .word 32 tx.confidentialInputsHash.toNat,
    .nat tx.nonce.toNat, .nat tx.gasPrice, .nat tx.gas.toNat, itemOfTo tx.to_, .nat tx.value,
    .bytes tx.data]

/-- `suaveSigner.Hash` on a record, and on a request, which is signed under the type byte of the
record so that the hashes match. -/
def hashRecord (tx : ConfidentialComputeRecord) : Hash :=
  prefixedRlpHash C confidentialComputeRecordTxType (recordPayload tx)

/-- `suaveSigner.Hash` on a SUAVE transaction. -/
def hashSuave (tx : SuaveTransaction) : Hash :=
  prefixedRlpHash C suaveTxType
    [.word 20 tx.executionNode.toNat, .word 32 (hashRecord C tx.confidentialComputeRequest).toNat,
      .bytes tx.confidentialComputeResult]

/-- `suaveSigner.Hash`. -/
def hash (chainId : ℕ) : Transaction → Hash
  | .suave tx => hashSuave C tx
  | .request tx => hashRecord C tx.confidentialComputeRecord
  | .record tx => hashRecord C tx
  | .ethereum tx => C.londonHash chainId tx

/-- The account whose signature is on the confidential compute result: what the outer signature
of a SUAVE transaction recovers to. -/
def resultSigner (chainId : ℕ) (tx : SuaveTransaction) : Except GoError Address :=
  recoverPlain C (hash C chainId (.suave tx)) tx.r tx.s (tx.v + 27) true

/-- The last block of `suaveSigner.Sender`: verify the record's signature. -/
def recordSender (chainId : ℕ) (ccr : ConfidentialComputeRecord) : Except GoError Address := do
  if ccr.chainID ≠ chainId then
    throw (errInvalidChainId ccr.chainID chainId)
  recoverPlain C (hash C chainId (.record ccr)) ccr.r ccr.s (ccr.v + 27) true

/-- `suaveSigner.Sender`: for a confidential transaction, the sender of the original request. -/
def sender (chainId : ℕ) : Transaction → Except GoError Address
  | .suave tx => do
    if tx.chainID ≠ chainId then
      throw (errInvalidChainId tx.chainID chainId)
    let recovered ← resultSigner C chainId tx
    if recovered ≠ tx.executionNode then
      throw (.error (ascii "compute request 0x" ++ hexDigits 64 (suaveTxHash C tx).toNat ++
        ascii " signed by incorrect execution node " ++ checksumHex C recovered ++
        ascii ", expected " ++ checksumHex C tx.executionNode) none)
    recordSender C chainId tx.confidentialComputeRequest
  | .request tx => do
    if tx.confidentialComputeRecord.confidentialInputsHash ≠ C.keccak256 tx.confidentialInputs then
      throw (GoError.new "confidential inputs hash mismatch")
    recordSender C chainId tx.confidentialComputeRecord
  | .record tx => recordSender C chainId tx
  | .ethereum tx => C.londonSender chainId tx

end SuaveSigner

end Suift
