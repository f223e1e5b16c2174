import Suift.CStore.Json
import Suift.Types.Equiv.Json

/-!
# What arrives at the other stores

A message that is published and read again comes out with its strings coerced to UTF-8, provided that
all its transactions can be read (`subscribe_publish_eq_some_iff`).  Its JSON is the same as before
exactly if nothing had to be coerced (`print_messageJson_coerced_eq_iff`).
-/

namespace Suift

open Text Json Hexutil Rlp Utf8

/-- The bid as it is read from its JSON. -/
def Bid.coerced (bid : Bid) : Bid := { bid with version := coerce bid.version }

def StoreWrite.coerced (sw : StoreWrite) : StoreWrite :=
  { sw with bid := sw.bid.coerced, key := coerce sw.key }

def DAMessage.coerced (message : DAMessage) : DAMessage :=
  { message with storeWrites := message.storeWrites.map (List.map StoreWrite.coerced) }

/-- A transaction that comes back from JSON. -/
def JsonSafe : Option Transaction → Prop
  | some (.request tx) => tx.JsonSafe
  | _ => False

/-! ### Reading what was written -/

theorem decodeId_idJson (id cur : BidId) : decodeId cur (idJson id) = some id := by
  have hlen : (bigEndian 16 id.toNat).length = 16 := length_bigEndian 16 _
  have hlt : id.toNat < 256 ^ 16 := by simpa using id.isLt
  rw [decodeId, idJson, decodeByteArray_map hlen, Option.map_some, ofBigEndian_bigEndian hlt,
    BitVec.ofNat_toNat, BitVec.setWidth_eq]

theorem uuidGroup_append {n : ℕ} {a : GoString} (h : a.length = n) (s : GoString) :
    uuidGroup n (a ++ 45 :: s) = some (a, s) := by
  have hget : (a ++ 45 :: s)[n]? = some 45 := by
    rw [List.getElem?_append_right (by omega), h]
    simp
  have hdrop : (a ++ 45 :: s).drop (n + 1) = s := by
    rw [show a ++ 45 :: s = (a ++ [45]) ++ s by simp, List.drop_left' (by simp [h])]
  rw [uuidGroup, if_pos hget, List.take_left' h, hdrop]

theorem parseUUID_uuidText (u : UUID) : parseUUID (uuidText u) = some u := by
  have hlen : (hexDigits 32 u.toNat).length = 32 := length_hexDigits 32 _
  have hlt : u.toNat < 16 ^ 32 := by simpa using u.isLt
  have hvalue := ofDigits_hexDigits hlt
  unfold uuidText
  generalize hexDigits 32 u.toNat = d at hlen hvalue
  have hjoin : d.take 8 ++ (d.drop 8).take 4 ++ (d.drop 12).take 4 ++ (d.drop 16).take 4 ++
      (d.drop 20).take 12 = d := by
    have htail : (d.drop 20).take 12 = d.drop 20 := List.take_of_length_le (by simp [hlen])
    rw [htail, List.append_assoc, List.append_assoc, List.append_assoc,
      show d.drop 20 = (d.drop 16).drop 4 by simp, List.take_append_drop,
      show d.drop 16 = (d.drop 12).drop 4 by simp, List.take_append_drop,
      show d.drop 12 = (d.drop 8).drop 4 by simp, List.take_append_drop, List.take_append_drop]
  unfold parseUUID
  rw [if_pos (by simp [hlen])]
  unfold parseGroups
  rw [uuidGroup_append (by simp [hlen])]
  simp only [Option.bind_eq_bind, Option.bind_some]
  rw [uuidGroup_append (by simp [hlen])]
  simp only [Option.bind_some]
  rw [uuidGroup_append (by simp [hlen])]
  simp only [Option.bind_some]
  rw [uuidGroup_append (by simp [hlen])]
  simp only [Option.bind_some]
  rw [hjoin, hvalue, Option.map_some, BitVec.ofNat_toNat, BitVec.setWidth_eq]

theorem plain_uuidText (u : UUID) : ∀ b ∈ uuidText u, 0x20 ≤ b ∧ b < 0x80 ∧ b ≠ 34 ∧ b ≠ 92 := by
  have hdigit : ∀ d < 16, 0x20 ≤ hexDigit d ∧ hexDigit d < 0x80 ∧ hexDigit d ≠ 34 ∧ hexDigit d ≠ 92 := by
    decide
  have hdigits : ∀ b ∈ hexDigits 32 u.toNat, 0x20 ≤ b ∧ b < 0x80 ∧ b ≠ 34 ∧ b ≠ 92 := by
    intro b hb
    obtain ⟨d, hd, rfl⟩ := mem_hexDigits b hb
    exact hdigit d hd
  have hhyphen : (0x20 : UInt8) ≤ 45 ∧ (45 : UInt8) < 0x80 ∧ (45 : UInt8) ≠ 34 ∧ (45 : UInt8) ≠ 92 := by
    decide
  intro b hb
  simp only [uuidText, List.mem_append, List.mem_cons] at hb
  rcases hb with hb | rfl | hb | rfl | hb | rfl | hb | rfl | hb
  · exact hdigits b (List.mem_of_mem_take hb)
  · exact hhyphen
  · exact hdigits b (List.mem_of_mem_drop (List.mem_of_mem_take hb))
  · exact hhyphen
  · exact hdigits b (List.mem_of_mem_drop (List.mem_of_mem_take hb))
  · exact hhyphen
  · exact hdigits b (List.mem_of_mem_drop (List.mem_of_mem_take hb))
  · exact hhyphen
  · exact hdigits b (List.mem_of_mem_drop hb)

theorem decodeUUID_uuidText (u cur : UUID) : decodeUUID cur (.str (uuidText u)) = some u := by
  rw [decodeUUID, unquote_plain (plain_uuidText u), Option.bind_some, parseUUID_uuidText]

theorem decodeByteSlice_bytesJson (b cur : Bytes) : decodeByteSlice cur (bytesJson b) = some b := by
  have hplain : ∀ c ∈ Base64.encode b, 0x20 ≤ c ∧ c < 0x80 ∧ c ≠ 34 ∧ c ≠ 92 :=
    Base64.forall_mem_encode (P := fun c => 0x20 ≤ c ∧ c < 0x80 ∧ c ≠ 34 ∧ c ≠ 92)
      (by decide) (by decide) b
  unfold bytesJson
  split_ifs with h
  · rw [h]
    rfl
  · rw [decodeByteSlice, unquote_plain hplain, Option.bind_some, Base64.decode_encode]

theorem decodeAddresses_encodeSlice (as cur : Slice Address) :
    decodeAddresses cur (encodeSlice ofAddress as) = some as := by
  unfold decodeAddresses
  rw [decodeSlice_encodeSlice fun a _ => unmarshalAddress_ofAddress a]
  cases as with
  | none => rfl
  | some as =>
    show (as.mapM fun a => some a).map some = some (some as)
    rw [mapM_some, Option.map_some]

theorem decodeString_stringJson (s cur : GoString) :
    decodeString cur (stringJson s) = some (coerce s) := unquote_escape s

section

variable {C : Crypto} {E : EthCodec}

theorem decode_bidJson (bid cur : Bid) :
    (bidFormat E).decode cur (bidJson C E bid) =
      (decodeTxPointer E (txPointerJson C E bid.creationTx)).map fun tx =>
        { bid.coerced with creationTx := tx } := by
  have hcondition : ∀ n, decodeUint 64 n (.num (decimal bid.decryptionCondition.toNat)) =
      some bid.decryptionCondition.toNat := decodeUint_decimal bid.decryptionCondition.toNat_lt
  show [(bidFormat E).member .id _, (bidFormat E).member .salt _,
    (bidFormat E).member .decryptionCondition _, (bidFormat E).member .allowedPeekers _,
    (bidFormat E).member .allowedStores _, (bidFormat E).member .version _,
    (bidFormat E).member .creationTx _, (bidFormat E).member .signature _].foldlM
      (bidFormat E).decodeMember cur = _
  simp only [List.foldlM_cons, List.foldlM_nil, RecordFormat.decodeMember_member]
  simp only [bidFormat, BidField.set, decodeId_idJson, hcondition, decodeAddresses_encodeSlice,
    decodeString_stringJson, decodeByteSlice_bytesJson, Option.map_some, Option.bind_eq_bind,
    Option.bind_some, UInt64.ofNat_toNat]
  cases decodeTxPointer E (txPointerJson C E bid.creationTx) <;> rfl

theorem decode_storeWriteJson (w cur : StoreWrite) :
    (writeFormat E).decode cur (storeWriteJson C E w) =
      (decodeTxPointer E (txPointerJson C E w.bid.creationTx)).map fun tx =>
        { w.coerced with bid := { w.bid.coerced with creationTx := tx } } := by
  show [(writeFormat E).member .bid _, (writeFormat E).member .caller _, (writeFormat E).member .key _,
    (writeFormat E).member .value _].foldlM (writeFormat E).decodeMember cur = _
  simp only [List.foldlM_cons, List.foldlM_nil, RecordFormat.decodeMember_member]
  simp only [writeFormat, WriteField.set, decode_bidJson, unmarshalAddress_ofAddress,
    decodeString_stringJson, unmarshalBytes_ofBytes, Option.map_some, Option.bind_eq_bind,
    Option.bind_some]
  cases decodeTxPointer E (txPointerJson C E w.bid.creationTx) <;> rfl

/-- The write that is read in the place of `w`. -/
def readWrite (C : Crypto) (E : EthCodec) (w : StoreWrite) : Option StoreWrite :=
  (decodeTxPointer E (txPointerJson C E w.bid.creationTx)).map fun tx =>
    { w.coerced with bid := { w.bid.coerced with creationTx := tx } }

def readWrites (C : Crypto) (E : EthCodec) : Slice StoreWrite → Option (Slice StoreWrite)
  | none => some none
  | some ws => (ws.mapM (readWrite C E)).map some

theorem decode_messageJson (message cur : DAMessage) :
    (messageFormat E).decode cur (messageJson C E message) =
      (decodeTxPointer E (txPointerJson C E message.sourceTx)).bind fun tx =>
        (readWrites C E message.storeWrites).map fun ws =>
          { message with sourceTx := tx, storeWrites := ws } := by
  have hwrites : ∀ cur, decodeSlice emptyWrite (writeFormat E).decode cur
      (encodeSlice (storeWriteJson C E) message.storeWrites) = readWrites C E message.storeWrites := by
    intro cur
    rw [decodeSlice_encodeSlice decode_storeWriteJson]
    cases message.storeWrites <;> rfl
  show [(messageFormat E).member .sourceTx _, (messageFormat E).member .storeWrites _,
    (messageFormat E).member .storeUUID _, (messageFormat E).member .signature _].foldlM
      (messageFormat E).decodeMember cur = _
  simp only [List.foldlM_cons, List.foldlM_nil, RecordFormat.decodeMember_member]
  simp only [messageFormat, MessageField.set, hwrites, decodeUUID_uuidText, unmarshalBytes_ofBytes,
    Option.map_some, Option.bind_eq_bind, Option.bind_some]
  cases decodeTxPointer E (txPointerJson C E message.sourceTx) with
  | none => rfl
  | some tx =>
    simp only [Option.map_some, Option.bind_some]
    cases readWrites C E message.storeWrites <;> rfl

/-! ### What can be read -/

/-- A transaction that names an execution node is read back unchanged or not at all. -/
theorem decodeTxPointer_eq_some_iff {tx tx' : Option Transaction} {a : Address}
    (h : executionNodeFromTransaction tx = .ok a) :
    decodeTxPointer E (txPointerJson C E tx) = some tx' ↔ JsonSafe tx ∧ tx' = tx := by
  match tx, h with
  | some (.request tx), _ =>
    show (unmarshalTx E (marshalTx C E (.request tx))).toOption.map some = some tx' ↔ _
    cases hread : unmarshalTx E (marshalTx C E (.request tx)) with
    | error e =>
      have hunsafe : ¬ tx.JsonSafe := by
        intro hsafe
        have hok : unmarshalTx E (marshalTx C E (.request tx)) = .ok (.request tx) :=
          unmarshalTx_marshalTx_request.mpr ⟨hsafe, rfl⟩
        rw [hread] at hok
        exact absurd hok (by simp)
      simp [Except.toOption, JsonSafe, hunsafe]
    | ok tx₂ =>
      obtain ⟨hsafe, rfl⟩ := unmarshalTx_marshalTx_request.mp hread
      simp [Except.toOption, JsonSafe, hsafe, eq_comm]
  | some (.suave tx), _ =>
    show (unmarshalTx E (marshalTx C E (.suave tx))).toOption.map some = some tx' ↔ _
    cases hread : unmarshalTx E (marshalTx C E (.suave tx)) with
    | error e => simp [Except.toOption, JsonSafe]
    | ok tx₂ => exact absurd hread unmarshalTx_marshalTx_suave

/-- The transactions of the message are of the two types that name an execution node. -/
structure DAMessage.Confidential (message : DAMessage) : Prop where
  sourceTx : ∃ a, executionNodeFromTransaction message.sourceTx = .ok a
  creationTx : ∀ w ∈ message.storeWrites.elems, ∃ a, executionNodeFromTransaction w.bid.creationTx = .ok a

/-- All transactions of the message come back from JSON. -/
structure DAMessage.JsonSafe (message : DAMessage) : Prop where
  sourceTx : Suift.JsonSafe message.sourceTx
  creationTx : ∀ w ∈ message.storeWrites.elems, Suift.JsonSafe w.bid.creationTx

theorem readWrite_eq_some_iff {w w' : StoreWrite} {a : Address}
    (h : executionNodeFromTransaction w.bid.creationTx = .ok a) :
    readWrite C E w = some w' ↔ JsonSafe w.bid.creationTx ∧ w' = w.coerced := by
  rw [readWrite, Option.map_eq_some_iff]
  constructor
  · rintro ⟨tx, htx, rfl⟩
    obtain ⟨hsafe, rfl⟩ := (decodeTxPointer_eq_some_iff h).mp htx
    exact ⟨hsafe, rfl⟩
  · rintro ⟨hsafe, rfl⟩
    exact ⟨_, (decodeTxPointer_eq_some_iff h).mpr ⟨hsafe, rfl⟩, rfl⟩

theorem mapM_readWrite_eq_some_iff {ws ws' : List StoreWrite}
    (h : ∀ w ∈ ws, ∃ a, executionNodeFromTransaction w.bid.creationTx = .ok a) :
    ws.mapM (readWrite C E) = some ws' ↔
      (∀ w ∈ ws, JsonSafe w.bid.creationTx) ∧ ws' = ws.map StoreWrite.coerced := by
  induction ws generalizing ws' with
  | nil => simp [eq_comm]
  | cons w ws ih =>
    rw [List.forall_mem_cons] at h
    obtain ⟨⟨a, ha⟩, hws⟩ := h
    simp only [List.mapM_cons, Option.bind_eq_bind, Option.bind_eq_some_iff, readWrite_eq_some_iff ha,
      ih hws, List.forall_mem_cons, List.map_cons, Option.pure_def, Option.some.injEq]
    constructor
    · rintro ⟨_, ⟨hsafe, rfl⟩, _, ⟨hrest, rfl⟩, rfl⟩
      exact ⟨⟨hsafe, hrest⟩, rfl⟩
    · rintro ⟨⟨hsafe, hrest⟩, rfl⟩
      exact ⟨_, ⟨hsafe, rfl⟩, _, ⟨hrest, rfl⟩, rfl⟩

theorem readWrites_eq_some_iff {ws ws' : Slice StoreWrite}
    (h : ∀ w ∈ ws.elems, ∃ a, executionNodeFromTransaction w.bid.creationTx = .ok a) :
    readWrites C E ws = some ws' ↔
      (∀ w ∈ ws.elems, JsonSafe w.bid.creationTx) ∧ ws' = ws.map (List.map StoreWrite.coerced) := by
  cases ws with
  | none => simp [readWrites, Slice.elems, eq_comm]
  | some ws =>
    rw [readWrites, Option.map_eq_some_iff]
    constructor
    · rintro ⟨_, hread, rfl⟩
      obtain ⟨hsafe, rfl⟩ := (mapM_readWrite_eq_some_iff h).mp hread
      exact ⟨hsafe, rfl⟩
    · rintro ⟨hsafe, rfl⟩
      exact ⟨_, (mapM_readWrite_eq_some_iff h).mpr ⟨hsafe, rfl⟩, rfl⟩

theorem decode_messageJson_eq_some_iff {message message' cur : DAMessage} (h : message.Confidential) :
    (messageFormat E).decode cur (messageJson C E message) = some message' ↔
      message.JsonSafe ∧ message' = message.coerced := by
  obtain ⟨a, ha⟩ := h.sourceTx
  rw [decode_messageJson]
  simp only [Option.bind_eq_some_iff, Option.map_eq_some_iff, decodeTxPointer_eq_some_iff ha,
    readWrites_eq_some_iff h.creationTx]
  constructor
  · rintro ⟨_, ⟨hsource, rfl⟩, _, ⟨hcreation, rfl⟩, rfl⟩
    exact ⟨⟨hsource, hcreation⟩, rfl⟩
  · rintro ⟨⟨hsource, hcreation⟩, rfl⟩
    exact ⟨_, ⟨hsource, rfl⟩, _, ⟨hcreation, rfl⟩, rfl⟩

/-! ### What is written is well formed -/

theorem wf_idJson (id : BidId) : (idJson id).WF := by
  rw [idJson]
  apply wf_arr
  intro v hv
  obtain ⟨b, -, rfl⟩ := List.mem_map.mp hv
  exact wf_num_decimal b.toNat

theorem wf_bytesJson (b : Bytes) : (bytesJson b).WF := by
  unfold bytesJson
  split_ifs
  · exact wf_null
  · apply wf_str
    exact token_of_plain (Base64.forall_mem_encode (P := fun c => 0x20 ≤ c ∧ c ≠ 34 ∧ c ≠ 92)
      (by decide) (by decide) b)

theorem wf_txPointerJson (tx : Option Transaction) : (txPointerJson C E tx).WF := by
  cases tx with
  | none => exact wf_null
  | some tx => exact wf_marshalTx C E tx

theorem wf_addresses (as : Slice Address) : (encodeSlice ofAddress as).WF :=
  wf_encodeSlice fun a _ => wf_ofAddress a

theorem wf_stringJson (s : GoString) : (stringJson s).WF := wf_str (token_escape_string s)

theorem wf_bidJson (bid : Bid) : (bidJson C E bid).WF := by
  unfold bidJson
  apply wf_obj
  have hname := (bidFormat E).token_name
  simp only [List.forall_mem_cons, List.not_mem_nil, false_implies, implies_true, and_true]
  exact ⟨⟨hname .id, wf_idJson _⟩, ⟨hname .salt, wf_idJson _⟩,
    ⟨hname .decryptionCondition, wf_num_decimal _⟩, ⟨hname .allowedPeekers, wf_addresses _⟩,
    ⟨hname .allowedStores, wf_addresses _⟩, ⟨hname .version, wf_stringJson _⟩,
    ⟨hname .creationTx, wf_txPointerJson _⟩, ⟨hname .signature, wf_bytesJson _⟩⟩

theorem wf_storeWriteJson (w : StoreWrite) : (storeWriteJson C E w).WF := by
  unfold storeWriteJson
  apply wf_obj
  have hname := (writeFormat E).token_name
  simp only [List.forall_mem_cons, List.not_mem_nil, false_implies, implies_true, and_true]
  exact ⟨⟨hname .bid, wf_bidJson _⟩, ⟨hname .caller, wf_ofAddress _⟩, ⟨hname .key, wf_stringJson _⟩,
    ⟨hname .value, wf_ofBytes _⟩⟩

theorem wf_messageJson (message : DAMessage) : (messageJson C E message).WF := by
  unfold messageJson
  apply wf_obj
  have hname := (messageFormat E).token_name
  have huuid : Token (uuidText message.storeUUID) := by
    apply token_of_plain
    intro b hb
    obtain ⟨hcontrol, -, hquote, hbackslash⟩ := plain_uuidText message.storeUUID b hb
    exact ⟨hcontrol, hquote, hbackslash⟩
  simp only [List.forall_mem_cons, List.not_mem_nil, false_implies, implies_true, and_true]
  exact ⟨⟨hname .sourceTx, wf_txPointerJson _⟩,
    ⟨hname .storeWrites, wf_encodeSlice fun w _ => wf_storeWriteJson w⟩, ⟨hname .storeUUID, wf_str huuid⟩,
    ⟨hname .signature, wf_ofBytes _⟩⟩

/-! ### The transport -/

theorem hex2Bytes_hexBytes (b : Bytes) : hex2Bytes (hexBytes b) = b := by
  induction b with
  | nil => rfl
  | cons x b ih =>
    have hx : x.toNat < 256 := x.toNat_lt
    have hhi := hexValue_hexDigit (x.toNat / 16 % 16) (by omega)
    have hlo := hexValue_hexDigit (x.toNat % 16) (by omega)
    have hvalue : x.toNat / 16 % 16 * 16 + x.toNat % 16 = x.toNat := by omega
    rw [hexBytes, List.flatMap_cons, hexDigits_two]
    show hex2Bytes (_ :: _ :: hexBytes b) = _
    simp only [hex2Bytes, hhi, hlo, ih, hvalue, UInt8.ofNat_toNat]

/-- **What a subscriber reads** of a published message: its strings coerced to UTF-8, if all of its
transactions come back from JSON, and nothing otherwise. -/
theorem subscribe_publish_eq_some_iff {message message' : DAMessage} (h : message.Confidential) :
    subscribe E (publish C E message) = some message' ↔
      message.JsonSafe ∧ message' = message.coerced := by
  rw [subscribe, publish, hex2Bytes_hexBytes, parse_print (wf_messageJson message), Option.bind_some,
    decode_messageJson_eq_some_iff h]

end

/-! ### Writing it again -/

/-- All strings of the message are UTF-8. -/
def DAMessage.Valid (message : DAMessage) : Prop :=
  ∀ w ∈ message.storeWrites.elems, Utf8.Valid w.key ∧ Utf8.Valid w.bid.version

theorem StoreWrite.coerced_of_valid {w : StoreWrite} (hkey : Utf8.Valid w.key)
    (hversion : Utf8.Valid w.bid.version) : w.coerced = w := by
  unfold StoreWrite.coerced Bid.coerced
  rw [Utf8.coerce_of_valid hkey, Utf8.coerce_of_valid hversion]

theorem DAMessage.coerced_of_valid {message : DAMessage} (h : message.Valid) :
    message.coerced = message := by
  have hwrites : message.storeWrites.map (List.map StoreWrite.coerced) = message.storeWrites := by
    unfold DAMessage.Valid at h
    cases hws : message.storeWrites with
    | none => rfl
    | some ws =>
      rw [hws] at h
      rw [Option.map_some]
      congr 1
      conv_rhs => rw [← List.map_id ws]
      apply List.map_congr_left
      intro w hw
      exact StoreWrite.coerced_of_valid (h w hw).1 (h w hw).2
  rw [DAMessage.coerced, hwrites]

theorem JsonSafe.executionNode {tx : Option Transaction} (h : Suift.JsonSafe tx) :
    ∃ node, executionNodeFromTransaction tx = .ok node := by
  match tx, h with
  | some (.request tx), _ => exact ⟨_, rfl⟩

/-- A message that JSON can carry arrives as it was sent. -/
theorem subscribe_publish_of_valid {C : Crypto} {E : EthCodec} {message : DAMessage}
    (hsafe : message.JsonSafe) (hvalid : message.Valid) :
    subscribe E (publish C E message) = some message := by
  have hconfidential : message.Confidential :=
    ⟨hsafe.sourceTx.executionNode, fun w hw => (hsafe.creationTx w hw).executionNode⟩
  rw [subscribe_publish_eq_some_iff hconfidential, DAMessage.coerced_of_valid hvalid]
  exact ⟨hsafe, rfl⟩

theorem valid_of_storeWriteJson_coerced {C : Crypto} {E : EthCodec} {w : StoreWrite}
    (h : storeWriteJson C E w.coerced = storeWriteJson C E w) :
    Utf8.Valid w.key ∧ Utf8.Valid w.bid.version := by
  simp only [storeWriteJson, bidJson, StoreWrite.coerced, Bid.coerced, stringJson, Value.obj.injEq,
    List.cons.injEq, Prod.mk.injEq, Value.str.injEq, true_and, and_true] at h
  exact ⟨(escape_coerce_eq_iff _).mp h.2, (escape_coerce_eq_iff _).mp h.1⟩

/-- What has been read is written as it was written before exactly if all strings are UTF-8. -/
theorem print_messageJson_coerced_eq_iff {C : Crypto} {E : EthCodec} {message : DAMessage} :
    print (messageJson C E message.coerced) = print (messageJson C E message) ↔ message.Valid := by
  constructor
  · intro h
    have hjson := print_inj (wf_messageJson _) (wf_messageJson _) h
    simp only [messageJson, DAMessage.coerced, Value.obj.injEq, List.cons.injEq, Prod.mk.injEq, true_and,
      and_true] at hjson
    unfold DAMessage.Valid
    cases hws : message.storeWrites with
    | none => exact fun w hw => absurd hw List.not_mem_nil
    | some ws =>
      simp only [hws, Option.map_some, encodeSlice, List.map_map, Value.arr.injEq] at hjson
      intro w hw
      exact valid_of_storeWriteJson_coerced (List.map_inj_left.mp hjson w hw)
  · intro h
    rw [DAMessage.coerced_of_valid h]

end Suift
