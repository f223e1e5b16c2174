import Suift.Lib.RlpLemmas
import Suift.Types.Binary

/-!
# The binary encoding of confidential transactions is unique

`UnmarshalBinary` undoes `MarshalBinary` on requests and SUAVE transactions, and what it accepts under one
of their type bytes is what `MarshalBinary` makes of the result (`unmarshalBinary_marshalBinary`).  Both
follow from the two laws of the RLP decoder, applied to the structs.

The encodings are Go slices, so their length is an `int`.
-/

namespace Suift

open Fallible Rlp

/-- The length of a Go slice is a signed 64-bit integer. -/
def FitsSlice (b : Bytes) : Prop := b.length < 2 ^ 63

theorem FitsSlice.length_tail_lt {type : UInt8} {payload : Bytes} (h : FitsSlice (type :: payload)) :
    payload.length < 2 ^ 64 := by
  unfold FitsSlice at h
  rw [List.length_cons] at h
  omega

instance (b : Bytes) : Decidable (FitsSlice b) := inferInstanceAs (Decidable (b.length < 2 ^ 63))

/-! ### The structs and their values -/

theorem ConfidentialComputeRequest.ofVal_toVal (tx : ConfidentialComputeRequest) :
    .ofVal tx.toVal = tx := rfl

theorem ConfidentialComputeRequest.toVal_ofVal (v : requestSchema.Val) :
    (ConfidentialComputeRequest.ofVal v).toVal = v := rfl

theorem SuaveTransaction.ofVal_toVal (tx : SuaveTransaction) : .ofVal tx.toVal = tx := rfl

theorem SuaveTransaction.toVal_ofVal (v : suaveSchema.Val) : (SuaveTransaction.ofVal v).toVal = v := rfl

/-- The fields that are hashed are those that are encoded. -/
theorem items_toVal_record (tx : ConfidentialComputeRecord) :
    recordSchema.items tx.toVal = recordFields tx := by
  have hto : nilAddressSchema.item tx.to_ = itemOfTo tx.to_ := by
    cases tx.to_ <;> rfl
  show [_, _, _, nilAddressSchema.item tx.to_, _, _, _, _, _, _, _, _] = recordFields tx
  rw [hto]
  rfl

/-- `Transaction.Hash` of a request is taken over its binary encoding. -/
theorem requestTxHash_eq (C : Crypto) (tx : ConfidentialComputeRequest) :
    requestTxHash C tx =
      C.keccak256 (encodeTyped confidentialComputeRequestTxType requestSchema tx.toVal) := by
  have hitems : requestSchema.items tx.toVal =
      [.list (recordSchema.items tx.confidentialComputeRecord.toVal), .bytes tx.confidentialInputs] := rfl
  rw [encodeTyped, hitems, items_toVal_record]
  rfl

/-- `Transaction.Hash` of a SUAVE transaction is taken over its binary encoding. -/
theorem suaveTxHash_eq (C : Crypto) (tx : SuaveTransaction) :
    suaveTxHash C tx = C.keccak256 (encodeTyped suaveTxType suaveSchema tx.toVal) := by
  have hitems : suaveSchema.items tx.toVal =
      [.word 20 tx.executionNode.toNat, .list (recordSchema.items tx.confidentialComputeRequest.toVal),
        .bytes tx.confidentialComputeResult, .nat tx.chainID, .nat tx.v, .nat tx.r, .nat tx.s] := rfl
  rw [encodeTyped, hitems, items_toVal_record]
  rfl

/-! ### Decoding -/

theorem decodeStruct_eq_ok_iff {typ : String} {fields : Fields} {b : Bytes} {v : fields.Val}
    (hb : b.length < 2 ^ 64) :
    decodeStruct typ fields b = .ok v ↔ b = encode (.list (fields.items v)) :=
  mapError_eq_ok_iff.trans
    (Decoder.decodeBytes_eq_ok_iff (Schema.decode_sound _) (Schema.decode_complete _) hb)

/-- The encoding of a list is not empty. -/
theorem encode_list_ne_nil (l : List Item) : encode (.list l) ≠ [] := by
  rw [encode, header]
  split <;> simp

section

variable {U : EthBinary} {payload : Bytes} {tx : Transaction}

/-- A type byte with a struct of its own is followed by the encoding of one. -/
theorem unmarshalBinary_struct_iff {α : Type} {type : UInt8} {typ : String} {fields : Fields}
    {inner : α → Transaction} {toVal : α → fields.Val} {ofVal : fields.Val → α}
    (hshort : unmarshalBinary U [type] = .error errShortTypedTx)
    (hdecode : ∀ x rest, unmarshalBinary U (type :: x :: rest) =
      (fun v => inner (ofVal v)) <$> decodeStruct typ fields (x :: rest))
    (htoVal : ∀ v, toVal (ofVal v) = v) (hofVal : ∀ a, ofVal (toVal a) = a)
    (hlength : payload.length < 2 ^ 64) :
    unmarshalBinary U (type :: payload) = .ok tx ↔
      ∃ a, tx = inner a ∧ payload = encode (.list (fields.items (toVal a))) := by
  cases payload with
  | nil =>
    rw [hshort]
    refine ⟨nofun, ?_⟩
    rintro ⟨a, -, hpayload⟩
    exact absurd hpayload.symm (encode_list_ne_nil _)
  | cons x rest =>
    rw [hdecode, map_eq_ok_iff]
    constructor
    · rintro ⟨v, hv, rfl⟩
      refine ⟨ofVal v, rfl, ?_⟩
      rw [htoVal]
      exact (decodeStruct_eq_ok_iff hlength).mp hv
    · rintro ⟨a, rfl, hpayload⟩
      exact ⟨toVal a, (decodeStruct_eq_ok_iff hlength).mpr hpayload, congrArg inner (hofVal a)⟩

theorem unmarshalBinary_request_iff (hlength : payload.length < 2 ^ 64) :
    unmarshalBinary U (confidentialComputeRequestTxType :: payload) = .ok tx ↔
      ∃ request, tx = .request request ∧ payload = encode (.list (requestSchema.items request.toVal)) :=
  unmarshalBinary_struct_iff rfl (fun _ _ => rfl) ConfidentialComputeRequest.toVal_ofVal
    ConfidentialComputeRequest.ofVal_toVal hlength

theorem unmarshalBinary_suave_iff (hlength : payload.length < 2 ^ 64) :
    unmarshalBinary U (suaveTxType :: payload) = .ok tx ↔
      ∃ suaveTx, tx = .suave suaveTx ∧ payload = encode (.list (suaveSchema.items suaveTx.toVal)) :=
  unmarshalBinary_struct_iff rfl (fun _ _ => rfl) SuaveTransaction.toVal_ofVal
    SuaveTransaction.ofVal_toVal hlength

end

/-- What is not an upstream transaction comes from behind one of the two type bytes. -/
theorem head?_of_unmarshalBinary {U : EthBinary} {b : Bytes} {tx : Transaction}
    (h : unmarshalBinary U b = .ok tx) :
    (∃ ethTx, tx = .ethereum ethTx) ∨ b.head? = some confidentialComputeRequestTxType ∨
      b.head? = some suaveTxType := by
  have hethereum : ∀ {x : Except GoError EthTx}, TxData.ethereum <$> x = .ok tx →
      ∃ ethTx, tx = .ethereum ethTx := by
    intro x hx
    obtain ⟨ethTx, -, rfl⟩ := map_eq_ok_iff.mp hx
    exact ⟨ethTx, rfl⟩
  unfold unmarshalBinary at h
  by_cases hlegacy : b.head?.any (0x7f < ·)
  · rw [if_pos hlegacy] at h
    exact .inl (hethereum h)
  rw [if_neg hlegacy] at h
  match b with
  | [] => cases h
  | [x] => cases h
  | type :: x :: rest =>
    simp only [decodeTyped] at h
    by_cases hupstream : type = 1 ∨ type = 2 ∨ type = 3
    · rw [if_pos hupstream] at h
      exact .inl (hethereum h)
    rw [if_neg hupstream] at h
    by_cases hrequest : type = confidentialComputeRequestTxType
    · exact .inr (.inl (congrArg some hrequest))
    rw [if_neg hrequest] at h
    by_cases hsuave : type = suaveTxType
    · exact .inr (.inr (congrArg some hsuave))
    rw [if_neg hsuave] at h
    cases h

/-- What is accepted under one of the two type bytes is the encoding of the result. -/
theorem marshalBinary_of_unmarshalBinary {U : EthBinary} {b : Bytes} {tx : Transaction} (hb : FitsSlice b)
    (htype : b.head? = some confidentialComputeRequestTxType ∨ b.head? = some suaveTxType)
    (h : unmarshalBinary U b = .ok tx) : marshalBinary U tx = .ok b := by
  obtain ⟨type, payload, rfl⟩ : ∃ type payload, b = type :: payload := by
    cases b with
    | nil => simp at htype
    | cons type payload => exact ⟨type, payload, rfl⟩
  have hlength := hb.length_tail_lt
  rcases htype with htype | htype
  · obtain rfl : type = confidentialComputeRequestTxType := Option.some.inj htype
    obtain ⟨request, htx, hpayload⟩ := (unmarshalBinary_request_iff hlength).mp h
    rw [htx, hpayload, marshalBinary, encodeTyped]
  · obtain rfl : type = suaveTxType := Option.some.inj htype
    obtain ⟨suaveTx, htx, hpayload⟩ := (unmarshalBinary_suave_iff hlength).mp h
    rw [htx, hpayload, marshalBinary, encodeTyped]

/-- Requests and SUAVE transactions have one binary encoding: it is decoded to the transaction it was made
from, and nothing else that is accepted under their type bytes is. -/
theorem unmarshalBinary_marshalBinary (U : EthBinary) :
    (∀ tx : Transaction, (∃ request, tx = .request request) ∨ (∃ suaveTx, tx = .suave suaveTx) →
      ∃ b, marshalBinary U tx = .ok b ∧ (FitsSlice b → unmarshalBinary U b = .ok tx)) ∧
    (∀ (b : Bytes) (tx : Transaction), FitsSlice b →
      b.head? = some confidentialComputeRequestTxType ∨ b.head? = some suaveTxType →
      unmarshalBinary U b = .ok tx → marshalBinary U tx = .ok b) ∧
    ∀ (b b' : Bytes) (tx : Transaction), FitsSlice b → FitsSlice b' →
      (∃ request, tx = .request request) ∨ (∃ suaveTx, tx = .suave suaveTx) →
      unmarshalBinary U b = .ok tx → unmarshalBinary U b' = .ok tx → b = b' := by
  refine ⟨?_, fun b tx hb htype h => marshalBinary_of_unmarshalBinary hb htype h, ?_⟩
  · rintro tx (⟨request, rfl⟩ | ⟨suaveTx, rfl⟩)
    · refine ⟨_, rfl, fun hb => ?_⟩
      exact (unmarshalBinary_request_iff hb.length_tail_lt).mpr ⟨request, rfl, rfl⟩
    · refine ⟨_, rfl, fun hb => ?_⟩
      exact (unmarshalBinary_suave_iff hb.length_tail_lt).mpr ⟨suaveTx, rfl, rfl⟩
  · intro b b' tx hb hb' htx h h'
    have hencoded : ∀ {c : Bytes}, FitsSlice c → unmarshalBinary U c = .ok tx →
        marshalBinary U tx = .ok c := by
      intro c hc hcdecode
      rcases head?_of_unmarshalBinary hcdecode with ⟨ethTx, rfl⟩ | htype
      · rcases htx with ⟨_, htx⟩ | ⟨_, htx⟩ <;> cases htx
      · exact marshalBinary_of_unmarshalBinary hc htype hcdecode
    exact Except.ok.inj ((hencoded hb h).symm.trans (hencoded hb' h'))

/-- Upstream types that are never there. -/
def noEthereum : EthBinary where
  marshal _ := .error errTxTypeNotSupported
  unmarshalLegacy _ := .error errTxTypeNotSupported
  decode _ _ := .error errTxTypeNotSupported

/-- A request that creates a contract.  Its inputs, its record and the whole are longer than 55 bytes. -/
def sampleCreation : ConfidentialComputeRequest where
  confidentialComputeRecord :=
    { nonce := 300, gasPrice := 2 ^ 70, gas := 0, to_ := none, value := 127, data := [0x7f],
      executionNode := 1, confidentialInputsHash := 2, chainID := 128, v := 1, r := 5, s := 6 }
  confidentialInputs := List.replicate 60 0xff

theorem unmarshalBinary_marshalBinary_sampleCreation :
    let b := encodeTyped confidentialComputeRequestTxType requestSchema sampleCreation.toVal
    b.length = 143 ∧ unmarshalBinary noEthereum b = .ok (.request sampleCreation) ∧
      marshalBinary noEthereum (.request sampleCreation) = .ok b := by
  intro b
  have hlength : b.length = 143 := by decide +kernel
  have hfits : FitsSlice b := by
    rw [FitsSlice, hlength]
    decide
  obtain ⟨hdecoded, hencoded, -⟩ := unmarshalBinary_marshalBinary noEthereum
  obtain ⟨c, hc, hroundTrip⟩ := hdecoded (.request sampleCreation) (.inl ⟨_, rfl⟩)
  obtain rfl : b = c := Except.ok.inj hc
  exact ⟨hlength, hroundTrip hfits, hencoded b _ hfits (.inl rfl) (hroundTrip hfits)⟩

end Suift
