import Suift.Lib.Fallible
import Suift.Types.Signing

/-!
# What an accepted SUAVE transaction says about its signers

`sender_suave_eq_ok_iff` lists everything `suaveSigner.Sender` checks of a SUAVE transaction: the
outer chain id, that the result's signature recovers to the *outer* `ExecutionNode`, and the
record's own chain id and signature.  The `ExecutionNode` inside the record, the one the user
signed, is compared with nothing, so the result comes from the node the user asked for exactly when
the two fields happen to agree (`resultSigner_eq_requested_iff`).
-/

namespace Suift.SuaveSigner

variable {C : Crypto} {chainId : ℕ} {tx : SuaveTransaction} {a : Address}

/-- Everything `Sender` checks of a SUAVE transaction. -/
theorem sender_suave_eq_ok_iff :
    sender C chainId (.suave tx) = .ok a ↔ tx.chainID = chainId ∧
      resultSigner C chainId tx = .ok tx.executionNode ∧
      recordSender C chainId tx.confidentialComputeRequest = .ok a := by
  unfold sender
  by_cases hc : tx.chainID = chainId
  · simp only [hc, ne_eq, not_true_eq_false, ↓reduceIte, ite_not, Fallible.bind_eq_ok_iff, true_and]
    constructor
    · rintro ⟨n, hn, h⟩
      split_ifs at h with heq
      · exact ⟨heq ▸ hn, h⟩
      · simp at h
    · rintro ⟨hn, h⟩
      exact ⟨tx.executionNode, hn, by simpa using h⟩
  · simp [hc]

/-- **Who signed an accepted result.**  When `Sender` accepts a SUAVE transaction in the name of
`a`, the record inside was signed by `a`, and the account that signed the result is the execution
node which that record names if and only if the outer execution node is that same node. -/
theorem resultSigner_eq_requested_iff (h : sender C chainId (.suave tx) = .ok a) :
    recordSender C chainId tx.confidentialComputeRequest = .ok a ∧
      (resultSigner C chainId tx = .ok tx.confidentialComputeRequest.executionNode ↔
        tx.executionNode = tx.confidentialComputeRequest.executionNode) := by
  obtain ⟨_, hresult, hrecord⟩ := sender_suave_eq_ok_iff.mp h
  refine ⟨hrecord, ?_⟩
  rw [hresult, Except.ok.injEq]

/-! ### A transaction signed by another node -/

/-- A hash small enough to evaluate. -/
def sampleKeccak (b : Bytes) : Hash :=
  b.foldl (fun n x => n * 1099511628211 + BitVec.ofNat 256 (x.toNat + 1)) 14695981039346656037

/-- A signature scheme small enough to evaluate: the key `k` signs `h` as `R = k` and
`S = h mod 2^128 + 1`, and recovery refuses a signature made over another hash. -/
def sampleCrypto : Crypto where
  keccak256 := sampleKeccak
  ecrecover h sig :=
    if (sig.drop 32).take 32 = Rlp.bigEndian 32 (h.toNat % 2 ^ 128 + 1) then .ok (4 :: sig.take 32)
    else .error (GoError.new "recovery failed")
  londonSender _ _ := .error (GoError.new "transaction type not supported")
  londonHash _ _ := 0

/-- The address of the key `k`. -/
def sampleAddress (k : ℕ) : Address := (sampleKeccak (Rlp.bigEndian 32 k)).setWidth 160

/-- Sign a record with the key `k`. -/
def sampleSignRecord (k : ℕ) (tx : ConfidentialComputeRecord) : ConfidentialComputeRecord :=
  { tx with v := 0, r := k, s := (hashRecord sampleCrypto tx).toNat % 2 ^ 128 + 1 }

/-- Sign a SUAVE transaction with the key `k`. -/
def sampleSignSuave (k : ℕ) (tx : SuaveTransaction) : SuaveTransaction :=
  { tx with v := 0, r := k, s := (hashSuave sampleCrypto tx).toNat % 2 ^ 128 + 1 }

/-- The record of the user with key `1`, who asks the node with key `2`. -/
def sampleRecord : ConfidentialComputeRecord :=
  sampleSignRecord 1
    { nonce := 0, gasPrice := 0, gas := 0, to_ := none, value := 0, data := [],
      executionNode := sampleAddress 2, confidentialInputsHash := 0, chainID := 7,
      v := 0, r := 0, s := 0 }

/-- A result for `sampleRecord` made and signed by the node with key `k`. -/
def sampleSuave (k : ℕ) : SuaveTransaction :=
  sampleSignSuave k
    { executionNode := sampleAddress k, confidentialComputeRequest := sampleRecord,
      confidentialComputeResult := [0x2a], chainID := 7, v := 0, r := 0, s := 0 }

/-- The requested node's result is accepted, and the node it names signed it. -/
theorem resultSigner_eq_requested_of_key_two :
    recordSender sampleCrypto 7 (sampleSuave 2).confidentialComputeRequest = .ok (sampleAddress 1) ∧
      (resultSigner sampleCrypto 7 (sampleSuave 2) =
          .ok (sampleSuave 2).confidentialComputeRequest.executionNode ↔
        (sampleSuave 2).executionNode =
          (sampleSuave 2).confidentialComputeRequest.executionNode) := by
  have haccepted : sender sampleCrypto 7 (.suave (sampleSuave 2)) = .ok (sampleAddress 1) := by
    decide +kernel
  exact resultSigner_eq_requested_iff haccepted

/-- The node with key `3` wraps the user's record, which asks for the node with key `2`, signs a
result of its own and is accepted in the user's name. -/
theorem exists_result_of_other_node :
    ¬ ∀ (C : Crypto) (chainId : ℕ) (tx : SuaveTransaction) (a : Address),
      sender C chainId (.suave tx) = .ok a →
        resultSigner C chainId tx = .ok tx.confidentialComputeRequest.executionNode := by
  intro h
  have haccepted : sender sampleCrypto 7 (.suave (sampleSuave 3)) = .ok (sampleAddress 1) := by
    decide +kernel
  have hsigner : resultSigner sampleCrypto 7 (sampleSuave 3) ≠ .ok (sampleAddress 2) := by
    decide +kernel
  exact hsigner (h _ _ _ _ haccepted)

end Suift.SuaveSigner
