import Suift.Lib.Fallible
import Suift.Types.Json
import Suift.Types.Equiv.Signing

/-!
# Reading a transaction back from its JSON

A request is read back as it was written, if its numbers have at most 256 bits and its signature is
absent or makes sense (`unmarshalTx_marshalTx_request`).  A record is read as a request
(`unmarshalTx_marshalTx_record`), and a SUAVE transaction is never read back
(`unmarshalTx_marshalTx_suave`), since it wraps a record.  The round trip through the text is exact for
requests only (`unmarshalJSON_marshalJSON_iff`).
-/

namespace Suift

open Text Json Hexutil

namespace TxJson

variable {E : EthCodec}

theorem decodeMember_name (t : TxJson) (f : TxField) (x : Value) :
    (format E).decodeMember t (ascii f.name, x) = set E f t x := (format E).decodeMember_member t f x

theorem pointer_ofBig (n : ℕ) :
    pointer unmarshalBig (ofBig n) = if n < 2 ^ 256 then some (some n) else none := by
  show (unmarshalBig (ofBig n)).map some = _
  rw [unmarshalBig_ofBig]
  split_ifs <;> rfl

theorem pointer_ofUint64 (n : UInt64) : pointer unmarshalUint64 (ofUint64 n) = some (some n) := by
  show (unmarshalUint64 (ofUint64 n)).map some = _
  rw [unmarshalUint64_ofUint64, Option.map_some]

theorem pointer_ofBytes (b : Bytes) : pointer unmarshalBytes (ofBytes b) = some (some b) := by
  show (unmarshalBytes (ofBytes b)).map some = _
  rw [unmarshalBytes_ofBytes, Option.map_some]

theorem pointer_ofHash (h : Hash) : pointer unmarshalHash (ofHash h) = some (some h) := by
  show (unmarshalHash (ofHash h)).map some = _
  rw [unmarshalHash_ofHash, Option.map_some]

theorem pointer_ofAddress (a : Address) : pointer unmarshalAddress (ofAddress a) = some (some a) := by
  show (unmarshalAddress (ofAddress a)).map some = _
  rw [unmarshalAddress_ofAddress, Option.map_some]

theorem pointer_orNull_ofAddress (a : Option Address) :
    pointer unmarshalAddress (orNull ofAddress a) = some a := by
  cases a with
  | none => rfl
  | some a => exact pointer_ofAddress a

end TxJson

theorem TxJson.orNull_some {α : Type} (enc : α → Value) (a : α) : TxJson.orNull enc (some a) = enc a := rfl

theorem TxJson.orNull_none {α : Type} (enc : α → Value) : TxJson.orNull enc none = .null := rfl

theorem TxJson.omitEmpty_some {α : Type} (f : TxField) (enc : α → Value) (a : α) :
    TxJson.omitEmpty f enc (some a) = [(ascii f.name, enc a)] := rfl

theorem TxJson.omitEmpty_none {α : Type} (f : TxField) (enc : α → Value) :
    TxJson.omitEmpty f enc none = [] := rfl

theorem TxJson.pointer_null {α : Type} (decode : Value → Option α) :
    TxJson.pointer decode .null = some none := rfl

/-- A step that is only taken if `p` holds. -/
theorem bind_map_ite_eq_some_iff {α β γ : Type} {p : Prop} [Decidable p] {a : α} {f : α → β}
    {g : β → Option γ} {c : γ} :
    (((if p then some a else none : Option α).map f).bind g = some c) ↔ p ∧ g (f a) = some c := by
  by_cases h : p <;> simp [h]

/-- The numbers of a record that JSON can carry. -/
def ConfidentialComputeRecord.Fits (tx : ConfidentialComputeRecord) : Prop :=
  tx.chainID < 2 ^ 256 ∧ tx.gasPrice < 2 ^ 256 ∧ tx.value < 2 ^ 256 ∧ tx.v < 2 ^ 256 ∧
    tx.r < 2 ^ 256 ∧ tx.s < 2 ^ 256

/-- The fields of a record, under the type and with the inputs of the record or of a request. -/
def recordJsonWith (tx : ConfidentialComputeRecord) (type_ : UInt64) (inputs : Option Bytes) : TxJson :=
  { recordJson tx with type_ := type_, confidentialInputs := inputs }

theorem decode_recordJsonWith_eq_some_iff {E : EthCodec} {tx : ConfidentialComputeRecord}
    {type_ : UInt64} {inputs : Option Bytes} {h : Hash} {dec : TxJson} :
    (TxJson.format E).decode {} ((recordJsonWith tx type_ inputs).marshal h) = some dec ↔
      tx.Fits ∧ dec = recordJsonWith tx type_ inputs := by
  unfold TxJson.marshal RecordFormat.decode
  cases inputs <;>
  · simp only [recordJsonWith, recordJson, TxJson.omitEmpty_some, TxJson.omitEmpty_none,
      TxJson.orNull_some, List.append_nil, List.cons_append, List.nil_append, List.foldlM_cons,
      List.foldlM_nil, TxJson.decodeMember_name, TxJson.set, TxJson.pointer_ofBig,
      TxJson.pointer_ofUint64, TxJson.pointer_ofBytes, TxJson.pointer_ofHash, TxJson.pointer_ofAddress,
      TxJson.pointer_orNull_ofAddress, TxJson.pointer_null, unmarshalUint64_ofUint64,
      unmarshalHash_ofHash, Option.map_some, Option.bind_eq_bind, Option.bind_some]
    -- what is left are the six big numbers
    simp only [bind_map_ite_eq_some_iff, Option.pure_def, Option.some.injEq]
    unfold ConfidentialComputeRecord.Fits
    simp only [and_assoc, eq_comm]

/-- A request that JSON can carry: its numbers fit, and it has no signature or one that makes sense. -/
def ConfidentialComputeRequest.JsonSafe (tx : ConfidentialComputeRequest) : Prop :=
  let record := tx.confidentialComputeRecord
  record.Fits ∧ checkSignature record.v record.r record.s = .ok ()

/-- What is read from the fields of a record is the record. -/
theorem unmarshalRecord_recordJsonWith_eq_ok_iff {tx record : ConfidentialComputeRecord}
    {type_ : UInt64} {inputs : Option Bytes} :
    unmarshalRecord (recordJsonWith tx type_ inputs) = .ok record ↔
      checkSignature tx.v tx.r tx.s = .ok () ∧ record = tx := by
  unfold unmarshalRecord recordJsonWith recordJson required
  simp only [Fallible.bind_eq_ok_iff, Fallible.pure_eq_ok_iff, pure_bind, Option.getD_some]
  constructor
  · rintro ⟨⟨⟩, hcheck, heq⟩
    exact ⟨hcheck, heq.symm⟩
  · rintro ⟨hcheck, rfl⟩
    exact ⟨(), hcheck, rfl⟩

/-- What is read is a request or of an upstream type, never a record or a SUAVE transaction. -/
theorem eq_of_unmarshalTxTo_eq_ok {E : EthCodec} {n : ℕ} {input : Value} {tx : Transaction}
    (h : unmarshalTxTo E n input = .ok tx) : (∃ e, tx = .ethereum e) ∨ ∃ r, tx = .request r := by
  induction n generalizing input tx with
  | zero => simp [unmarshalTxTo] at h
  | succ n ih =>
    rw [unmarshalTxTo] at h
    cases hdec : (TxJson.format E).decode {} input with
    | none => simp [hdec] at h
    | some dec =>
      simp only [hdec] at h
      split_ifs at h
      · simp only [Fallible.bind_eq_ok_iff, Fallible.pure_eq_ok_iff] at h
        obtain ⟨e, -, rfl⟩ := h
        exact .inl ⟨e, rfl⟩
      · simp only [Fallible.bind_eq_ok_iff, Fallible.pure_eq_ok_iff] at h
        obtain ⟨r, -, rfl⟩ := h
        exact .inr ⟨_, rfl⟩
      · simp only [Fallible.bind_eq_ok_iff, Fallible.pure_eq_ok_iff] at h
        obtain ⟨r, -, rfl⟩ := h
        exact .inr ⟨_, rfl⟩
      · -- the wrapped transaction would have to be a record
        simp only [Fallible.bind_eq_ok_iff] at h
        obtain ⟨node, hnode, wrapped, hwrapped, inner, hinner, hrest⟩ := h
        rcases ih hinner with ⟨e, rfl⟩ | ⟨r, rfl⟩
        · exact absurd hrest (by simp)
        · exact absurd hrest (by simp)

theorem unmarshalTxTo_request {E : EthCodec} {n : ℕ} {input : Value} {dec : TxJson}
    (hdec : (TxJson.format E).decode {} input = some dec)
    (htype : dec.type_ = confidentialComputeRequestTxType.toUInt64) :
    unmarshalTxTo E (n + 1) input = (do
      return .request { confidentialComputeRecord := ← unmarshalRecord dec
                        confidentialInputs := dec.confidentialInputs.getD [] }) := by
  rw [unmarshalTxTo]
  simp only [hdec, htype]
  rw [if_neg (by decide), if_neg (by decide), if_pos trivial]

theorem unmarshalTxTo_record {E : EthCodec} {n : ℕ} {input : Value} {dec : TxJson}
    (hdec : (TxJson.format E).decode {} input = some dec)
    (htype : dec.type_ = confidentialComputeRecordTxType.toUInt64) :
    unmarshalTxTo E (n + 1) input = (do
      return .request { confidentialComputeRecord := ← unmarshalRecord dec
                        confidentialInputs := [] }) := by
  rw [unmarshalTxTo]
  simp only [hdec, htype]
  rw [if_neg (by decide), if_pos trivial]

/-- What is read from a text that holds a record, under either type. -/
theorem unmarshalTxTo_recordJsonWith {E : EthCodec} {n : ℕ} {tx : ConfidentialComputeRecord}
    {type_ : UInt64} {inputs : Option Bytes} {h : Hash} {inputs' : Bytes} {tx' : Transaction}
    (hread : ∀ {input}, (TxJson.format E).decode {} input = some (recordJsonWith tx type_ inputs) →
      unmarshalTxTo E (n + 1) input = (do
        return .request { confidentialComputeRecord := ← unmarshalRecord (recordJsonWith tx type_ inputs)
                          confidentialInputs := inputs' })) :
    unmarshalTxTo E (n + 1) ((recordJsonWith tx type_ inputs).marshal h) = .ok tx' ↔
      (tx.Fits ∧ checkSignature tx.v tx.r tx.s = .ok ()) ∧ tx' = .request ⟨tx, inputs'⟩ := by
  by_cases hfits : tx.Fits
  · rw [hread (decode_recordJsonWith_eq_some_iff.mpr ⟨hfits, rfl⟩)]
    simp only [Fallible.bind_eq_ok_iff, Fallible.pure_eq_ok_iff,
      unmarshalRecord_recordJsonWith_eq_ok_iff]
    constructor
    · rintro ⟨_, ⟨hcheck, rfl⟩, rfl⟩
      exact ⟨⟨hfits, hcheck⟩, rfl⟩
    · rintro ⟨⟨-, hcheck⟩, rfl⟩
      exact ⟨_, ⟨hcheck, rfl⟩, rfl⟩
  · have hdec : (TxJson.format E).decode {} ((recordJsonWith tx type_ inputs).marshal h) = none := by
      rw [Option.eq_none_iff_forall_ne_some]
      intro dec hdec
      exact hfits (decode_recordJsonWith_eq_some_iff.mp hdec).1
    rw [unmarshalTxTo]
    simp only [hdec, Fallible.throw_eq_ok_iff, false_iff]
    rintro ⟨⟨hfits', -⟩, -⟩
    exact hfits hfits'

/-- **A request in JSON** is read back unchanged or not at all. -/
theorem unmarshalTx_marshalTx_request {C : Crypto} {E : EthCodec} {tx : ConfidentialComputeRequest}
    {tx' : Transaction} :
    unmarshalTx E (marshalTx C E (.request tx)) = .ok tx' ↔ tx.JsonSafe ∧ tx' = .request tx := by
  exact unmarshalTxTo_recordJsonWith (n := 9999) fun hdec => unmarshalTxTo_request hdec rfl

/-- **A record in JSON** is read as a request without inputs. -/
theorem unmarshalTx_marshalTx_record {C : Crypto} {E : EthCodec} {tx : ConfidentialComputeRecord}
    {tx' : Transaction} :
    unmarshalTx E (marshalTx C E (.record tx)) = .ok tx' ↔
      (tx.Fits ∧ checkSignature tx.v tx.r tx.s = .ok ()) ∧ tx' = .request ⟨tx, []⟩ := by
  exact unmarshalTxTo_recordJsonWith (n := 9999) fun hdec => unmarshalTxTo_record hdec rfl

theorem type_of_decode_suaveJson {C : Crypto} {E : EthCodec} {tx : SuaveTransaction} {h : Hash}
    {dec : TxJson} (hdec : (TxJson.format E).decode {} ((suaveJson C tx).marshal h) = some dec) :
    dec.type_ = suaveTxType.toUInt64 := by
  have hwrapped : TxJson.pointer some ((recordJson tx.confidentialComputeRequest).marshal
      (recordTxHash C tx.confidentialComputeRequest)) =
      some (some ((recordJson tx.confidentialComputeRequest).marshal
        (recordTxHash C tx.confidentialComputeRequest))) := rfl
  unfold TxJson.marshal RecordFormat.decode at hdec
  simp only [suaveJson, TxJson.omitEmpty_some, TxJson.omitEmpty_none, TxJson.orNull_some,
    TxJson.orNull_none, List.append_nil, List.cons_append, List.nil_append, List.foldlM_cons,
    List.foldlM_nil, TxJson.decodeMember_name, TxJson.set, TxJson.pointer_ofBig, TxJson.pointer_ofBytes,
    TxJson.pointer_ofAddress, TxJson.pointer_null, hwrapped, unmarshalUint64_ofUint64,
    unmarshalHash_ofHash, Option.map_some, Option.bind_eq_bind, Option.bind_some,
    bind_map_ite_eq_some_iff, id, Option.pure_def, Option.some.injEq] at hdec
  obtain ⟨-, -, -, -, rfl⟩ := hdec
  rfl

/-- **A SUAVE transaction in JSON** cannot be read. -/
theorem unmarshalTx_marshalTx_suave {C : Crypto} {E : EthCodec} {tx : SuaveTransaction}
    {tx' : Transaction} : unmarshalTx E (marshalTx C E (.suave tx)) ≠ .ok tx' := by
  show unmarshalTxTo E (9999 + 1) ((suaveJson C tx).marshal (suaveTxHash C tx)) ≠ .ok tx'
  rw [unmarshalTxTo]
  cases hdec : (TxJson.format E).decode {} ((suaveJson C tx).marshal (suaveTxHash C tx)) with
  | none => simp
  | some dec =>
    simp only [type_of_decode_suaveJson hdec]
    rw [if_neg (by decide), if_neg (by decide), if_neg (by decide), if_pos trivial]
    intro h
    simp only [Fallible.bind_eq_ok_iff] at h
    obtain ⟨node, hnode, wrapped, hwrapped, inner, hinner, hrest⟩ := h
    rcases eq_of_unmarshalTxTo_eq_ok hinner with ⟨e, rfl⟩ | ⟨r, rfl⟩
    · exact absurd hrest (by simp)
    · exact absurd hrest (by simp)

/-! ### What is written is well formed -/

namespace TxJson

theorem token_name (f : TxField) : Token (ascii f.name) := token_of_plain (by cases f <;> decide +kernel)

theorem wf_orNull {α : Type} {enc : α → Value} (h : ∀ a, (enc a).WF) (o : Option α) :
    (orNull enc o).WF := by
  cases o with
  | none => exact wf_null
  | some a => exact h a

theorem wf_omitEmpty {α : Type} {f : TxField} {enc : α → Value} {o : Option α}
    (h : ∀ a ∈ o, (enc a).WF) : ∀ m ∈ omitEmpty f enc o, Token m.1 ∧ m.2.WF := by
  cases o with
  | none => exact fun m hm => absurd hm List.not_mem_nil
  | some a =>
    intro m hm
    obtain rfl := List.mem_singleton.mp hm
    exact ⟨token_name f, h a rfl⟩

theorem wf_marshal {enc : TxJson} (h : ∀ w ∈ enc.wrapped, w.WF) (hash : Hash) :
    (enc.marshal hash).WF := by
  apply wf_obj
  have hnull := wf_null
  simp only [List.forall_mem_append, List.forall_mem_cons, List.not_mem_nil, false_implies, implies_true,
    and_true]
  refine ⟨⟨⟨⟨⟨⟨⟨⟨?_, ?_⟩, ?_⟩, ?_⟩, ?_⟩, ?_⟩, ?_⟩, ?_⟩, ?_⟩
  · exact ⟨token_name _, wf_ofUint64 _⟩
  · exact wf_omitEmpty fun n _ => wf_ofBig n
  · exact ⟨⟨token_name _, wf_orNull wf_ofUint64 _⟩, ⟨token_name _, wf_orNull wf_ofAddress _⟩,
      ⟨token_name _, wf_orNull wf_ofUint64 _⟩, ⟨token_name _, wf_orNull wf_ofBig _⟩,
      ⟨token_name _, hnull⟩, ⟨token_name _, hnull⟩, ⟨token_name _, wf_orNull wf_ofBig _⟩,
      ⟨token_name _, wf_orNull wf_ofBytes _⟩⟩
  · exact wf_omitEmpty fun a _ => wf_ofAddress a
  · exact wf_omitEmpty fun h _ => wf_ofHash h
  · exact wf_omitEmpty fun b _ => wf_ofBytes b
  · exact wf_omitEmpty h
  · exact wf_omitEmpty fun b _ => wf_ofBytes b
  · exact ⟨⟨token_name _, wf_orNull wf_ofBig _⟩, ⟨token_name _, wf_orNull wf_ofBig _⟩,
      ⟨token_name _, wf_orNull wf_ofBig _⟩, ⟨token_name _, wf_ofHash _⟩⟩

end TxJson

theorem wf_marshalTx (C : Crypto) (E : EthCodec) (tx : Transaction) : (marshalTx C E tx).WF := by
  cases tx with
  | ethereum tx => exact E.wf_marshal tx
  | record tx => exact TxJson.wf_marshal (fun w hw => absurd hw (by simp [recordJson])) _
  | request tx => exact TxJson.wf_marshal (fun w hw => absurd hw (by simp [requestJson, recordJson])) _
  | suave tx =>
    apply TxJson.wf_marshal
    intro w hw
    obtain rfl : (recordJson tx.confidentialComputeRequest).marshal
        (recordTxHash C tx.confidentialComputeRequest) = w := by simpa [suaveJson] using hw
    exact TxJson.wf_marshal (fun w hw => absurd hw (by simp [recordJson])) _

/-! ### The round trip -/

/-- No signature, or values that a signature can have. -/
def UnsignedOrValid (sig : ℕ × ℕ × ℕ) : Prop :=
  sig = (0, 0, 0) ∨ sig.1 < 256 ∧ validateSignatureValues (UInt8.ofNat sig.1) sig.2.1 sig.2.2 false = true

theorem of_validateSignatureValues {v : UInt8} {r s : ℕ} {homestead : Bool}
    (h : validateSignatureValues v r s homestead = true) :
    r < secp256k1N ∧ s < secp256k1N ∧ (v = 0 ∨ v = 1) := by
  unfold validateSignatureValues at h
  by_cases hpos : (r < 1 || s < 1) = true
  · rw [if_pos hpos] at h
    exact absurd h Bool.false_ne_true
  · rw [if_neg hpos] at h
    by_cases hhigh : (homestead && decide (s > secp256k1halfN)) = true
    · rw [if_pos hhigh] at h
      exact absurd h Bool.false_ne_true
    · rw [if_neg hhigh] at h
      simpa [and_assoc] using h

/-- Such values have at most 256 bits and pass the check of the decoder. -/
theorem UnsignedOrValid.spec {v r s : ℕ} (h : UnsignedOrValid (v, r, s)) :
    (v < 2 ^ 256 ∧ r < 2 ^ 256 ∧ s < 2 ^ 256) ∧ checkSignature v r s = .ok () := by
  have horder : secp256k1N < 2 ^ 256 := by decide
  rcases h with hzero | ⟨hv, hvalid⟩
  · obtain ⟨rfl, rfl, rfl⟩ : v = 0 ∧ r = 0 ∧ s = 0 := by simpa using hzero
    exact ⟨by decide, rfl⟩
  · obtain ⟨hr, hs, hbyte⟩ := of_validateSignatureValues hvalid
    have hcases : v = 0 ∨ v = 1 := by
      have hnat : (UInt8.ofNat v).toNat = v := by
        rw [UInt8.toNat_ofNat']
        exact Nat.mod_eq_of_lt hv
      rcases hbyte with hbyte | hbyte
      · exact .inl (by rw [← hnat, hbyte]; rfl)
      · exact .inr (by rw [← hnat, hbyte]; rfl)
    have hunprotected : isProtectedV v = false := by
      rcases hcases with rfl | rfl <;> rfl
    refine ⟨⟨by omega, hr.trans horder, hs.trans horder⟩, ?_⟩
    have hsanity : sanityCheckSignature v r s = .ok () := by
      simp only [sanityCheckSignature, hunprotected, hvalid]
      rfl
    rw [checkSignature, hsanity]
    by_cases hsigned : v ≠ 0 ∨ r ≠ 0 ∨ s ≠ 0
    · rw [if_pos hsigned]
      rfl
    · rw [if_neg hsigned]
      rfl

theorem unmarshalJSON_marshalJSON (C : Crypto) (E : EthCodec) (tx : Transaction) :
    unmarshalJSON E (marshalJSON C E tx) = unmarshalTx E (marshalTx C E tx) := by
  rw [unmarshalJSON, marshalJSON, parse_print (wf_marshalTx C E tx)]

/-- **The round trip through JSON.**  A confidential transaction that is unsigned or has valid signature
values is read back as it was, type and all fields, exactly if it is a request whose chain id, gas price
and value have at most 256 bits. -/
theorem unmarshalJSON_marshalJSON_iff {C : Crypto} {E : EthCodec} {tx : Transaction}
    (htx : ∀ e, tx ≠ .ethereum e) (hsig : UnsignedOrValid tx.rawSignatureValues) :
    unmarshalJSON E (marshalJSON C E tx) = .ok tx ↔
      ∃ request, tx = .request request ∧ request.confidentialComputeRecord.chainID < 2 ^ 256 ∧
        request.confidentialComputeRecord.gasPrice < 2 ^ 256 ∧
        request.confidentialComputeRecord.value < 2 ^ 256 := by
  rw [unmarshalJSON_marshalJSON]
  cases tx with
  | ethereum e => exact absurd rfl (htx e)
  | record tx =>
    -- a record is read as a request
    rw [unmarshalTx_marshalTx_record]
    exact iff_of_false (fun h => nomatch h.2) (fun ⟨_, h, _⟩ => nomatch h)
  | suave tx =>
    exact iff_of_false unmarshalTx_marshalTx_suave (fun ⟨_, h, _⟩ => nomatch h)
  | request tx =>
    obtain ⟨⟨hv, hr, hs⟩, hcheck⟩ := UnsignedOrValid.spec hsig
    rw [unmarshalTx_marshalTx_request]
    constructor
    · rintro ⟨⟨⟨hchain, hprice, hvalue, -⟩, -⟩, -⟩
      exact ⟨tx, rfl, hchain, hprice, hvalue⟩
    · rintro ⟨request, heq, hchain, hprice, hvalue⟩
      obtain rfl : tx = request := TxData.request.inj heq
      exact ⟨⟨⟨hchain, hprice, hvalue, hv, hr, hs⟩, hcheck⟩, rfl⟩

/-- A signed request with one byte of inputs. -/
theorem unmarshalJSON_marshalJSON_sampleRecord :
    unmarshalJSON mockCodec (marshalJSON SuaveSigner.sampleCrypto mockCodec
      (.request ⟨SuaveSigner.sampleRecord, [42]⟩)) = .ok (.request ⟨SuaveSigner.sampleRecord, [42]⟩) :=
  (unmarshalJSON_marshalJSON_iff (by simp) (by unfold UnsignedOrValid; decide +kernel)).mpr
    ⟨_, rfl, by decide +kernel, by decide +kernel, by decide +kernel⟩

/-- A signed record comes back as a request, and a signed SUAVE transaction does not come back. -/
theorem exists_json_not_read_back :
    UnsignedOrValid (TxData.record SuaveSigner.sampleRecord).rawSignatureValues ∧
      unmarshalJSON mockCodec (marshalJSON SuaveSigner.sampleCrypto mockCodec
        (.record SuaveSigner.sampleRecord)) = .ok (.request ⟨SuaveSigner.sampleRecord, []⟩) ∧
      UnsignedOrValid (TxData.suave (SuaveSigner.sampleSuave 2)).rawSignatureValues ∧
      ∀ tx, unmarshalJSON mockCodec (marshalJSON SuaveSigner.sampleCrypto mockCodec
        (.suave (SuaveSigner.sampleSuave 2))) ≠ .ok tx := by
  have hrecord : UnsignedOrValid (TxData.record SuaveSigner.sampleRecord).rawSignatureValues := by
    unfold UnsignedOrValid
    decide +kernel
  refine ⟨hrecord, ?_, by unfold UnsignedOrValid; decide +kernel, fun tx => ?_⟩
  · obtain ⟨⟨hv, hr, hs⟩, hcheck⟩ := UnsignedOrValid.spec hrecord
    rw [unmarshalJSON_marshalJSON, unmarshalTx_marshalTx_record]
    exact ⟨⟨⟨by decide +kernel, by decide +kernel, by decide +kernel, hv, hr, hs⟩, hcheck⟩, rfl⟩
  · rw [unmarshalJSON_marshalJSON]
    exact unmarshalTx_marshalTx_suave

end Suift
