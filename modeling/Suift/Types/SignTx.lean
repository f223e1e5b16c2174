import Suift.Lib.Fallible
import Suift.Types.Signing

/-!
# Signing a transaction

`SignTx` of `core/types/transaction_signing.go` with the SUAVE signer, and what it is built from:
`SignatureValues`, which cuts a signature into its parts, and `WithSignature`, which puts these and
the signer's chain id into a copy of the transaction.

A `PrivateKey` carries the laws of ECDSA that make its signatures recover to its address.
-/

namespace Suift

open Text Rlp

/-- A key as `crypto.Sign` uses it.  A signature is `R || S || V` of 65 bytes. -/
structure PrivateKey (C : Crypto) where
  /-- The uncompressed public key without its leading byte. -/
  publicKey : Bytes
  sign : Hash → Bytes
  length_sign : ∀ h, (sign h).length = 65
  valid_sign : ∀ h, validateSignatureValues ((sign h).getD 64 0) (ofBigEndian ((sign h).take 32))
    (ofBigEndian (((sign h).drop 32).take 32)) true = true
  ecrecover_sign : ∀ h, C.ecrecover h (sign h) = .ok (4 :: publicKey)

/-- `crypto.PubkeyToAddress`. -/
def PrivateKey.address {C : Crypto} (key : PrivateKey C) : Address :=
  (C.keccak256 key.publicKey).setWidth 160

/-- `decodeSignature`. -/
def decodeSignature (sig : Bytes) : Except GoError (ℕ × ℕ × ℕ) :=
  if sig.length ≠ 65 then
    .error (.panic (ascii "wrong size for signature: got " ++ decimal sig.length ++
      ascii ", want 65"))
  else
    .ok (ofBigEndian (sig.take 32), ofBigEndian ((sig.drop 32).take 32), (sig.getD 64 0 + 27).toNat)

namespace SuaveSigner

/-- `suaveSigner.SignatureValues` on a confidential transaction with the chain id `chainID`: the
values `R`, `S` and `V`.  A chain id of zero is one that has not been set. -/
def signatureValues (chainId chainID : ℕ) (sig : Bytes) : Except GoError (ℕ × ℕ × ℕ) := do
  if chainID ≠ 0 ∧ chainID ≠ chainId then
    throw (errInvalidChainId chainID chainId)
  let (r, s, _) ← decodeSignature sig
  return (r, s, (sig.getD 64 0).toNat)

/-- `setSignatureValues` of the record. -/
def setRecordSignature (tx : ConfidentialComputeRecord) (chainID v r s : ℕ) :
    ConfidentialComputeRecord :=
  { tx with chainID := chainID, v := v, r := r, s := s }

variable (C : Crypto) (london : ℕ → EthTx → Bytes → Except GoError EthTx)

/-- `Transaction.WithSignature` for the SUAVE signer; `london` is that of the London signer. -/
def withSignature (chainId : ℕ) (sig : Bytes) : Transaction → Except GoError Transaction
  | .suave tx => do
    let (r, s, v) ← signatureValues chainId tx.chainID sig
    return .suave { tx with chainID := chainId, v := v, r := r, s := s }
  | .record tx => do
    let (r, s, v) ← signatureValues chainId tx.chainID sig
    return .record (setRecordSignature tx chainId v r s)
  | .request tx => do
    let (r, s, v) ← signatureValues chainId tx.confidentialComputeRecord.chainID sig
    return .request { tx with
      confidentialComputeRecord := setRecordSignature tx.confidentialComputeRecord chainId v r s }
  | .ethereum tx => return .ethereum (← london chainId tx sig)

/-- A request is signed with the hash of its inputs filled in. -/
def setInputsHash : Transaction → Transaction
  | .request tx =>
    .request { tx with
      confidentialComputeRecord :=
        { tx.confidentialComputeRecord with
          confidentialInputsHash := C.keccak256 tx.confidentialInputs } }
  | tx => tx

/-- `SignTx`. -/
def signTx (key : PrivateKey C) (chainId : ℕ) (tx : Transaction) : Except GoError Transaction :=
  let tx := setInputsHash C tx
  withSignature london chainId (key.sign (hash C chainId tx)) tx

end SuaveSigner

end Suift
