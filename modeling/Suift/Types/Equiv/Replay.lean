import Suift.Types.Equiv.Signing

/-!
# Replaying a confidential transaction on another chain

None of the three signing hashes covers a chain id: `suaveSigner.Hash` leaves it out for a record and
for a request, and for a SUAVE transaction it hashes the record the same way.  `Sender` does compare
the chain id fields with the signer's, but whoever submits a transaction may rewrite those.  The
signatures of an accepted transaction therefore remain good, for the same sender, on every chain
whose id is put into all of its chain id fields (`sender_replayed_iff`).
-/

namespace Suift

/-- One of the three confidential types. -/
def TxData.IsConfidential : TxData → Prop
  | .ethereum _ => False
  | _ => True

/-- All chain id fields of a confidential transaction. -/
def TxData.chainIds : TxData → List ℕ
  | .ethereum _ => []
  | .record tx => [tx.chainID]
  | .request tx => [tx.confidentialComputeRecord.chainID]
  | .suave tx => [tx.chainID, tx.confidentialComputeRequest.chainID]

def ConfidentialComputeRecord.withChainId (tx : ConfidentialComputeRecord) (chainId : ℕ) :
    ConfidentialComputeRecord :=
  { tx with chainID := chainId }

/-- The transaction with `chainId` in all of its chain id fields and everything else kept. -/
def TxData.withChainId (chainId : ℕ) : TxData → TxData
  | .ethereum tx => .ethereum tx
  | .record tx => .record (tx.withChainId chainId)
  | .request tx =>
    .request { tx with
      confidentialComputeRecord := tx.confidentialComputeRecord.withChainId chainId }
  | .suave tx =>
    .suave { tx with
      chainID := chainId
      confidentialComputeRequest := tx.confidentialComputeRequest.withChainId chainId }

/-- The two transactions differ at most in their chain id fields. -/
def TxData.SameButChainIds (tx tx' : TxData) : Prop :=
  tx.withChainId 0 = tx'.withChainId 0

namespace SuaveSigner

variable {C : Crypto} {c₁ c₂ : ℕ} {a : Address}

theorem hashRecord_withChainId (tx : ConfidentialComputeRecord) (chainId : ℕ) :
    hashRecord C (tx.withChainId chainId) = hashRecord C tx := rfl

/-- Everything but the chain id field is the same on every chain. -/
theorem recordSender_eq_ok_iff {tx : ConfidentialComputeRecord} :
    recordSender C c₁ tx = .ok a ↔ tx.chainID = c₁ ∧
      recoverPlain C (hashRecord C tx) tx.r tx.s (tx.v + 27) true = .ok a := by
  unfold recordSender
  rw [Fallible.ite_throw_eq_ok_iff, not_not]
  rfl

/-- The record's signature is good for `a` on the second chain exactly when the chain id field
says so. -/
theorem recordSender_replayed_iff (c₂ : ℕ) {tx tx' : ConfidentialComputeRecord}
    (h : recordSender C c₁ tx = .ok a) (hsame : tx.withChainId 0 = tx'.withChainId 0) :
    recordSender C c₂ tx' = .ok a ↔ tx'.chainID = c₂ := by
  obtain ⟨-, hrecover⟩ := recordSender_eq_ok_iff.mp h
  have hhash : hashRecord C tx' = hashRecord C tx := by
    rw [← hashRecord_withChainId tx' 0, ← hsame, hashRecord_withChainId]
  have hv : tx'.v = tx.v := (congrArg ConfidentialComputeRecord.v hsame).symm
  have hr : tx'.r = tx.r := (congrArg ConfidentialComputeRecord.r hsame).symm
  have hs : tx'.s = tx.s := (congrArg ConfidentialComputeRecord.s hsame).symm
  rw [recordSender_eq_ok_iff, hhash, hv, hr, hs]
  exact and_iff_left hrecover

/-- **Replay across chains.**  Take any confidential transaction that is accepted on one chain, and
change nothing but its chain id fields.  The result is accepted on another chain, for the same sender,
exactly when all of these fields hold that chain's id. -/
theorem sender_replayed_iff {tx tx' : Transaction} (hconfidential : tx.IsConfidential)
    (h : sender C c₁ tx = .ok a) (hsame : tx.SameButChainIds tx') :
    sender C c₂ tx' = .ok a ↔ ∀ c ∈ tx'.chainIds, c = c₂ := by
  cases tx with
  | ethereum tx => exact hconfidential.elim
  | record tx =>
    cases tx' with
    | record tx' =>
      have hsame' : tx.withChainId 0 = tx'.withChainId 0 := TxData.record.inj hsame
      have hreplayed := recordSender_replayed_iff c₂ h hsame'
      simpa [sender, TxData.chainIds] using hreplayed
    | ethereum | request | suave => exact absurd hsame nofun
  | request tx =>
    cases tx' with
    | request tx' =>
      obtain ⟨hrecord, hinputs⟩ := ConfidentialComputeRequest.mk.inj (TxData.request.inj hsame)
      have hhash : tx'.confidentialComputeRecord.confidentialInputsHash =
          tx.confidentialComputeRecord.confidentialInputsHash :=
        (congrArg ConfidentialComputeRecord.confidentialInputsHash hrecord).symm
      unfold sender at h ⊢
      rw [Fallible.ite_throw_eq_ok_iff, not_not] at h ⊢
      rw [hhash, ← hinputs, recordSender_replayed_iff c₂ h.2 hrecord]
      simpa [TxData.chainIds] using fun _ => h.1
    | ethereum | record | suave => exact absurd hsame nofun
  | suave tx =>
    cases tx' with
    | suave tx' =>
      obtain ⟨hnode, hrecord, hresult, -, hv, hr, hs⟩ :=
        SuaveTransaction.mk.inj (TxData.suave.inj hsame)
      obtain ⟨-, hsigner, hsender⟩ := sender_suave_eq_ok_iff.mp h
      -- the outer signature is over the node, the record's hash and the result
      have hhash : hashSuave C tx' = hashSuave C tx := by
        unfold hashSuave
        rw [← hnode, ← hresult, ← hashRecord_withChainId tx'.confidentialComputeRequest 0,
          ← hrecord, hashRecord_withChainId]
      have hsigner' : resultSigner C c₂ tx' = .ok tx'.executionNode := by
        rw [← hnode, ← hsigner]
        show recoverPlain C (hashSuave C tx') tx'.r tx'.s (tx'.v + 27) true =
          recoverPlain C (hashSuave C tx) tx.r tx.s (tx.v + 27) true
        rw [hhash, ← hv, ← hr, ← hs]
      rw [sender_suave_eq_ok_iff, recordSender_replayed_iff c₂ hsender hrecord]
      simp [TxData.chainIds, hsigner']
    | ethereum | record | request => exact absurd hsame nofun

/-- The sample record, signed for chain `7`, with chain `8` put into it. -/
theorem sender_replayed_sampleRecord :
    sender sampleCrypto 8 (.record (sampleRecord.withChainId 8)) = .ok (sampleAddress 1) ↔
      ∀ c ∈ (TxData.record (sampleRecord.withChainId 8)).chainIds, c = 8 := by
  have haccepted : sender sampleCrypto 7 (.record sampleRecord) = .ok (sampleAddress 1) := by
    decide +kernel
  exact sender_replayed_iff (by trivial) haccepted rfl

/-- A user's record for chain `7` and a node's result for it are accepted on chain `8` as well, with
the signatures they have. -/
theorem exists_replayed :
    sender sampleCrypto 7 (.record sampleRecord) = .ok (sampleAddress 1) ∧
      sender sampleCrypto 8 ((TxData.record sampleRecord).withChainId 8) = .ok (sampleAddress 1) ∧
      sender sampleCrypto 7 (.suave (sampleSuave 2)) = .ok (sampleAddress 1) ∧
      sender sampleCrypto 8 ((TxData.suave (sampleSuave 2)).withChainId 8) =
        .ok (sampleAddress 1) := by
  decide +kernel

end SuaveSigner

end Suift
