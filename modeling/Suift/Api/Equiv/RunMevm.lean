import Suift.Api.RunMevm
import Suift.Types.Equiv.Replay

/-!
# The result of a request carries the user's signature on

The user signs a request; the signature then stands in the record of the SUAVE transaction and in the
bare record.  All three are hashed alike: a request under the type byte of the record, and the record
inside a SUAVE transaction as a record of its own.  So the sender recovered from each is the same
(`runMEVM_accepted`), once the node's own signature on the result recovers to the node
(`recoverPlain_sign`).
-/

namespace Suift

open Rlp

variable {C : Crypto}

/-- A signature is the 32 bytes of `R`, those of `S`, and `V`. -/
theorem PrivateKey.sign_eq (key : PrivateKey C) (h : Hash) :
    bigEndian 32 (ofBigEndian ((key.sign h).take 32)) ++
      bigEndian 32 (ofBigEndian (((key.sign h).drop 32).take 32)) ++ [(key.sign h).getD 64 0] =
    key.sign h := by
  have hlen := key.length_sign h
  generalize key.sign h = sig at hlen
  have hr : (sig.take 32).length = 32 := by
    rw [List.length_take]
    omega
  have hs : ((sig.drop 32).take 32).length = 32 := by
    rw [List.length_take, List.length_drop]
    omega
  have hv : (sig.drop 64) = [sig.getD 64 0] := by
    rw [List.drop_eq_getElem_cons (by omega), List.drop_eq_nil_of_le (by omega),
      List.getD_eq_getElem?_getD, List.getElem?_eq_getElem (by omega), Option.getD_some]
  have hr' := bigEndian_ofBigEndian (sig.take 32)
  have hs' := bigEndian_ofBigEndian ((sig.drop 32).take 32)
  rw [hr] at hr'
  rw [hs] at hs'
  rw [hr', hs', ← hv, List.append_assoc, show sig.drop 64 = (sig.drop 32).drop 32 by
    rw [List.drop_drop], List.take_append_drop, List.take_append_drop]

/-- **Recovery inverts signing**: what a key signs recovers to its address. -/
theorem recoverPlain_sign (key : PrivateKey C) (h : Hash) :
    recoverPlain C h (ofBigEndian ((key.sign h).take 32))
      (ofBigEndian (((key.sign h).drop 32).take 32)) (((key.sign h).getD 64 0).toNat + 27) true =
    .ok key.address := by
  have hvalid := key.valid_sign h
  have hsign := key.sign_eq h
  generalize hv : (key.sign h).getD 64 0 = v at hvalid hsign
  generalize ofBigEndian ((key.sign h).take 32) = r at hvalid hsign
  generalize ofBigEndian (((key.sign h).drop 32).take 32) = s at hvalid hsign
  -- a valid recovery id is zero or one
  have hid : v = 0 ∨ v = 1 := by
    unfold validateSignatureValues at hvalid
    split_ifs at hvalid
    simp only [Bool.and_eq_true, Bool.or_eq_true, beq_iff_eq] at hvalid
    exact hvalid.2
  have hsmall : v.toNat < 2 := by
    rcases hid with rfl | rfl <;> decide
  have hV : UInt8.ofNat ((v.toNat + 27 + 2 ^ 64 - 27) % 2 ^ 64) = v := by
    rw [show (v.toNat + 27 + 2 ^ 64 - 27) % 2 ^ 64 = v.toNat by omega, UInt8.ofNat_toNat]
  unfold recoverPlain
  rw [if_neg (by omega)]
  simp only [hV, hvalid, hsign, key.ecrecover_sign]
  rfl

namespace SuaveSigner

variable {c : ℕ} {a : Address}

/-- Everything `Sender` checks of a request. -/
theorem sender_request_eq_ok_iff {tx : ConfidentialComputeRequest} :
    sender C c (.request tx) = .ok a ↔
      tx.confidentialComputeRecord.confidentialInputsHash = C.keccak256 tx.confidentialInputs ∧
        recordSender C c tx.confidentialComputeRecord = .ok a := by
  unfold sender
  rw [Fallible.ite_throw_eq_ok_iff, not_not]

/-- A SUAVE transaction without a chain id, signed by its execution node for the chain of its
record. -/
theorem signTx_suave (london : ℕ → EthTx → Bytes → Except GoError EthTx) (key : PrivateKey C)
    (tx : SuaveTransaction) (hunset : tx.chainID = 0)
    (hnode : key.address = tx.executionNode)
    (hrecord : recordSender C c tx.confidentialComputeRequest = .ok a) :
    ∃ v r s, signTx C london key c (.suave tx) =
        .ok (.suave { tx with chainID := c, v := v, r := r, s := s }) ∧
      sender C c (.suave { tx with chainID := c, v := v, r := r, s := s }) = .ok a := by
  let sig := key.sign (hashSuave C tx)
  have hvalues : signatureValues c tx.chainID sig =
      .ok (ofBigEndian (sig.take 32), ofBigEndian ((sig.drop 32).take 32), (sig.getD 64 0).toNat) := by
    unfold signatureValues decodeSignature
    rw [hunset, key.length_sign]
    rfl
  refine ⟨(sig.getD 64 0).toNat, ofBigEndian (sig.take 32), ofBigEndian ((sig.drop 32).take 32), ?_, ?_⟩
  · unfold signTx setInputsHash withSignature
    show (signatureValues c tx.chainID sig >>= _) = _
    rw [hvalues]
    rfl
  · rw [sender_suave_eq_ok_iff]
    refine ⟨rfl, ?_, hrecord⟩
    -- neither the chain id nor the signature enters the hash
    show recoverPlain C (hashSuave C tx) _ _ _ true = .ok tx.executionNode
    rw [recoverPlain_sign, hnode]

end SuaveSigner

open SuaveSigner

/-- The transaction has the fields of the request, with the result as its data. -/
structure SuaveTransaction.Completes (tx : SuaveTransaction) (request : ConfidentialComputeRequest)
    (result : Bytes) : Prop where
  nonce : (TxData.suave tx).nonce = (TxData.request request).nonce
  gas : (TxData.suave tx).gas = (TxData.request request).gas
  gasPrice : (TxData.suave tx).gasPrice = (TxData.request request).gasPrice
  to_ : (TxData.suave tx).to_ = (TxData.request request).to_
  value : (TxData.suave tx).value = (TxData.request request).value
  data : (TxData.suave tx).data = result

/-- The result is the call in the return data, or else the return data themselves. -/
theorem MevmBackend.computeResult_cases (B : MevmBackend) (returnData : Bytes) :
    (B.unpackBytes returnData = .ok (B.computeResult returnData) ∧
        (B.computeResult returnData).length % 32 = 4) ∨
      (B.computeResult returnData = returnData ∧
        ∀ unpacked, B.unpackBytes returnData = .ok unpacked → unpacked.length % 32 ≠ 4) := by
  unfold computeResult
  cases B.unpackBytes returnData with
  | error err => exact .inr ⟨rfl, fun unpacked h => by cases h⟩
  | ok unpacked =>
    by_cases hcall : unpacked.length % 32 = 4
    · simp only [if_pos hcall]
      exact .inl ⟨trivial, hcall⟩
    · simp only [if_neg hcall]
      refine .inr ⟨trivial, ?_⟩
      rintro _ ⟨⟩
      exact hcall

/-- **A request and its result have one sender.**  If a request is accepted in the name of `a`, and the
node's wallet signs as `SignTx` does, then the wallet signs the SUAVE transaction with any result, and
that is accepted in the name of `a` and has the request's fields.  An execution that succeeds leads to such
a transaction, with the call in its return data or else the return data as the result.  The bare record is
accepted in the name of `a` as well. -/
theorem runMEVM_accepted (B : MevmBackend) {london : ℕ → EthTx → Bytes → Except GoError EthTx} {c : ℕ}
    {a : Address} {request : ConfidentialComputeRequest} {wallet : Wallet} {key : PrivateKey C}
    {returnData : Bytes} (haccepted : sender C c (.request request) = .ok a)
    (hfind : B.find request.confidentialComputeRecord.executionNode = .ok wallet)
    (hwallet : ∀ tx chainId, wallet.signTx request.confidentialComputeRecord.executionNode tx chainId =
      signTx C london key chainId tx)
    (hkey : key.address = request.confidentialComputeRecord.executionNode)
    (hexec : B.applyMessage (.request request) = .ok (.success returnData))
    (hcancelled : B.cancelled (.request request) = false) (hvm : B.vmError (.request request) = none) :
    (∀ result, ∃ tx : SuaveTransaction,
      wallet.signTx request.confidentialComputeRecord.executionNode
          (MevmBackend.suaveResultTx request result) c = .ok (.suave tx) ∧
        sender C c (.suave tx) = .ok a ∧ tx.Completes request result) ∧
    (∃ (tx : SuaveTransaction) (result : Bytes), B.runMEVM (.request request) = .ok (.suave tx) ∧
      sender C c (.suave tx) = .ok a ∧ tx.Completes request result ∧ result = B.computeResult returnData ∧
      ((B.unpackBytes returnData = .ok result ∧ result.length % 32 = 4) ∨
        (result = returnData ∧
          ∀ unpacked, B.unpackBytes returnData = .ok unpacked → unpacked.length % 32 ≠ 4))) ∧
    sender C c (.record request.confidentialComputeRecord) = .ok a := by
  obtain ⟨-, hrecord⟩ := sender_request_eq_ok_iff.mp haccepted
  have hchain : request.confidentialComputeRecord.chainID = c := (recordSender_eq_ok_iff.mp hrecord).1
  have hsigns : ∀ result, ∃ tx : SuaveTransaction,
      wallet.signTx request.confidentialComputeRecord.executionNode
          (MevmBackend.suaveResultTx request result) c = .ok (.suave tx) ∧
        sender C c (.suave tx) = .ok a ∧ tx.Completes request result := by
    intro result
    obtain ⟨v, r, s, hsigned, hsender⟩ := signTx_suave london key
      ⟨request.confidentialComputeRecord.executionNode, request.confidentialComputeRecord, result,
        0, 0, 0, 0⟩ rfl hkey hrecord
    rw [hwallet]
    exact ⟨_, hsigned, hsender, rfl, rfl, rfl, rfl, rfl, rfl⟩
  refine ⟨hsigns, ?_, hrecord⟩
  obtain ⟨tx, hsigned, hsender, hcompletes⟩ := hsigns (B.computeResult returnData)
  refine ⟨tx, _, ?_, hsender, hcompletes, rfl, B.computeResult_cases returnData⟩
  rw [← hsigned]
  unfold MevmBackend.runMEVM
  simp only [hfind, hexec, hcancelled, hvm, hchain, TxData.chainID]
  rfl

/-! ### A request and its result -/

/-- What the key `2` of the sample scheme signs. -/
def sampleSign (h : Hash) : Bytes :=
  bigEndian 32 2 ++ (bigEndian 32 (h.toNat % 2 ^ 128 + 1) ++ [0])

theorem take_sampleSign (h : Hash) : (sampleSign h).take 32 = bigEndian 32 2 :=
  List.take_left' (length_bigEndian 32 2)

theorem take_drop_sampleSign (h : Hash) :
    ((sampleSign h).drop 32).take 32 = bigEndian 32 (h.toNat % 2 ^ 128 + 1) := by
  rw [sampleSign, List.drop_left' (length_bigEndian 32 2), List.take_left' (length_bigEndian 32 _)]

theorem getD_sampleSign (h : Hash) : (sampleSign h).getD 64 0 = 0 := by
  rw [sampleSign, List.getD_eq_getElem?_getD, List.getElem?_append_right (by simp),
    List.getElem?_append_right (by simp)]
  simp

theorem validateSignatureValues_sampleSign (h : Hash) :
    validateSignatureValues 0 2 (h.toNat % 2 ^ 128 + 1) true = true := by
  have hlt : h.toNat % 2 ^ 128 < 2 ^ 128 := Nat.mod_lt _ (by decide)
  have hhalf : 2 ^ 128 < secp256k1halfN := by decide +kernel
  have horder : secp256k1halfN ≤ secp256k1N := Nat.div_le_self _ _
  have htwo : 2 < secp256k1N := by decide +kernel
  generalize h.toNat % 2 ^ 128 = m at hlt
  have hm : ¬ secp256k1halfN < m + 1 := by omega
  have hm' : m + 1 < secp256k1N := by omega
  simp [validateSignatureValues, hm, hm', htwo]

def sampleKey : PrivateKey sampleCrypto where
  publicKey := bigEndian 32 2
  sign := sampleSign
  length_sign h := by simp [sampleSign]
  valid_sign h := by
    have hlt : h.toNat % 2 ^ 128 < 2 ^ 128 := Nat.mod_lt _ (by decide)
    have hR : ofBigEndian (bigEndian 32 2) = 2 := ofBigEndian_bigEndian (by decide)
    have hS : ofBigEndian (bigEndian 32 (h.toNat % 2 ^ 128 + 1)) = h.toNat % 2 ^ 128 + 1 :=
      ofBigEndian_bigEndian (by omega)
    rw [getD_sampleSign, take_sampleSign, take_drop_sampleSign, hR, hS]
    exact validateSignatureValues_sampleSign h
  ecrecover_sign h := by
    unfold sampleCrypto
    simp only [take_sampleSign, take_drop_sampleSign, if_true]

/-- A request of the user with key `1` to the node with key `2`. -/
def sampleRequest : ConfidentialComputeRequest where
  confidentialComputeRecord := sampleSignRecord 1
    { sampleRecord with confidentialInputsHash := sampleCrypto.keccak256 [42] }
  confidentialInputs := [42]

/-- A wallet with the key `2`. -/
def sampleWallet : Wallet where
  signTx _ tx chainId := signTx sampleCrypto (fun _ _ _ => .error errInvalidSig) sampleKey chainId tx

/-- A node that has the key `2` and on which every execution returns `returnData`. -/
def sampleBackend (returnData : Bytes) : MevmBackend where
  find _ := .ok sampleWallet
  applyMessage _ := .ok (.success returnData)
  cancelled _ := false
  vmError _ := none
  unpackBytes _ := .error (GoError.new "abi: cannot marshal in to go type")

theorem runMEVM_accepted_sampleRequest :
    (∃ tx : SuaveTransaction,
      sampleWallet.signTx sampleRequest.confidentialComputeRecord.executionNode
          (MevmBackend.suaveResultTx sampleRequest [9]) 7 = .ok (.suave tx) ∧
        sender sampleCrypto 7 (.suave tx) = .ok (sampleAddress 1) ∧ tx.Completes sampleRequest [9]) ∧
    (∃ tx : SuaveTransaction, (sampleBackend [1, 2, 3]).runMEVM (.request sampleRequest) =
        .ok (.suave tx) ∧
      sender sampleCrypto 7 (.suave tx) = .ok (sampleAddress 1) ∧ tx.Completes sampleRequest [1, 2, 3]) ∧
    sender sampleCrypto 7 (.record sampleRequest.confidentialComputeRecord) =
      .ok (sampleAddress 1) := by
  have haccepted : sender sampleCrypto 7 (.request sampleRequest) = .ok (sampleAddress 1) := by
    decide +kernel
  have hkey : sampleKey.address = sampleRequest.confidentialComputeRecord.executionNode := by
    decide +kernel
  have hwallet : ∀ tx chainId,
      sampleWallet.signTx sampleRequest.confidentialComputeRecord.executionNode tx chainId =
        signTx sampleCrypto (fun _ _ _ => .error errInvalidSig) sampleKey chainId tx := fun _ _ => rfl
  obtain ⟨hsigns, ⟨tx, result, hrun, hsender, hcompletes, hresult, -⟩, hrecord⟩ :=
    runMEVM_accepted (sampleBackend [1, 2, 3]) haccepted rfl hwallet hkey rfl rfl rfl
  obtain rfl : result = [1, 2, 3] := hresult
  exact ⟨hsigns [9], ⟨tx, hrun, hsender, hcompletes⟩, hrecord⟩

end Suift
