import Suift.CStore.Equiv.Acceptance
import Suift.CStore.Equiv.BidId
import Suift.Lib.JsonStrings

/-!
# What a received message has in common with the signed one

A signature covers the JSON of a message.  Other messages have the same JSON, but among those that a node
receives they all write the same values for the same callers under the same keys of the same bids
(`exists_sameWrite`): JSON blurs strings that are not UTF-8 only, and no such string is ever read from it
(`valid_of_subscribe`).
-/

namespace Suift

open Text Json Hexutil Utf8

/-! ### Strings that are read -/

theorem valid_of_decode_bid {E : EthCodec} {bid bid' : Bid} {v : Value} (hbid : Utf8.Valid bid.version)
    (h : (bidFormat E).decode bid v = some bid') : Utf8.Valid bid'.version := by
  refine RecordFormat.decode_keeps (P := fun b : Bid => Utf8.Valid b.version) ?_ hbid h
  intro f b x b' hb hset
  change BidField.set E f b x = some b' at hset
  cases f with
  | version =>
    rw [BidField.set, Option.map_eq_some_iff] at hset
    obtain ⟨s, hs, rfl⟩ := hset
    exact valid_of_decodeString hb hs
  | _ =>
    rw [BidField.set, Option.map_eq_some_iff] at hset
    obtain ⟨_, -, rfl⟩ := hset
    exact hb

/-- The strings of a write are UTF-8. -/
def StoreWrite.Valid (w : StoreWrite) : Prop := Utf8.Valid w.key ∧ Utf8.Valid w.bid.version

theorem valid_of_decode_write {E : EthCodec} {w w' : StoreWrite} {v : Value} (hw : w.Valid)
    (h : (writeFormat E).decode w v = some w') : w'.Valid := by
  refine RecordFormat.decode_keeps (P := StoreWrite.Valid) ?_ hw h
  intro f w x w' hw hset
  change WriteField.set E f w x = some w' at hset
  cases f with
  | bid =>
    rw [WriteField.set, Option.map_eq_some_iff] at hset
    obtain ⟨bid, hbid, rfl⟩ := hset
    exact ⟨hw.1, valid_of_decode_bid hw.2 hbid⟩
  | key =>
    rw [WriteField.set, Option.map_eq_some_iff] at hset
    obtain ⟨key, hkey, rfl⟩ := hset
    exact ⟨valid_of_decodeString hw.1 hkey, hw.2⟩
  | _ =>
    rw [WriteField.set, Option.map_eq_some_iff] at hset
    obtain ⟨_, -, rfl⟩ := hset
    exact hw

theorem valid_emptyWrite : emptyWrite.Valid := by
  have hnil : Utf8.Valid [] := fun p hp => absurd hp List.not_mem_nil
  exact ⟨hnil, hnil⟩

theorem valid_emptyMessage : emptyMessage.Valid := fun _ hw => absurd hw List.not_mem_nil

/-- **Every message that is read consists of UTF-8 strings**, whatever has been sent. -/
theorem valid_of_subscribe {E : EthCodec} {payload : GoString} {message : DAMessage}
    (h : subscribe E payload = some message) : message.Valid := by
  unfold subscribe at h
  rw [Option.bind_eq_some_iff] at h
  obtain ⟨v, -, hdecode⟩ := h
  refine RecordFormat.decode_keeps (P := DAMessage.Valid) ?_ valid_emptyMessage hdecode
  intro f m x m' hm hset
  change MessageField.set E f m x = some m' at hset
  cases f with
  | storeWrites =>
    rw [MessageField.set, Option.map_eq_some_iff] at hset
    obtain ⟨ws, hws, rfl⟩ := hset
    exact decodeSlice_keeps (P := StoreWrite.Valid) valid_emptyWrite
      (fun _ _ _ => valid_of_decode_write) hm hws
  | _ =>
    rw [MessageField.set, Option.map_eq_some_iff] at hset
    obtain ⟨_, -, rfl⟩ := hset
    exact hm

/-! ### What the JSON shows -/

/-- The two writes store the same value for the same caller under the same key, on bids that are the same
but for the transaction that created them and its signature. -/
structure StoreWrite.SameWrite (w w' : StoreWrite) : Prop where
  bid : w'.bid.toInnerBid = w.bid.toInnerBid
  caller : w'.caller = w.caller
  key : w'.key = w.key
  value : w'.value = w.value

section

variable {C : Crypto} {E : EthCodec}

theorem ofAddress_inj {a b : Address} (h : ofAddress a = ofAddress b) : a = b := by
  apply Option.some.inj
  rw [← unmarshalAddress_ofAddress a, h, unmarshalAddress_ofAddress]

theorem ofBytes_inj {a b : Bytes} (h : ofBytes a = ofBytes b) : a = b := by
  apply Option.some.inj
  rw [← unmarshalBytes_ofBytes a, h, unmarshalBytes_ofBytes]

/-- A string that is UTF-8 is the only one with its JSON. -/
theorem stringJson_inj {s t : GoString} (hs : Utf8.Valid s) (h : stringJson s = stringJson t) : s = t := by
  rw [stringJson, stringJson, Value.str.injEq, escape_eq_iff] at h
  exact eq_of_runes_eq hs h

theorem toInnerBid_eq_of_bidJson_eq {b c : Bid} (hb : Utf8.Valid b.version)
    (h : bidJson C E b = bidJson C E c) : c.toInnerBid = b.toInnerBid := by
  simp only [bidJson, Value.obj.injEq, List.cons.injEq, Prod.mk.injEq, Value.num.injEq, true_and,
    and_true] at h
  obtain ⟨hid, hsalt, hcondition, hpeekers, hstores, hversion, -, -⟩ := h
  unfold Bid.toInnerBid
  rw [idJson_inj hid, idJson_inj hsalt, decimal_toNat_inj hcondition, encodeSlice_ofAddress_inj hpeekers,
    encodeSlice_ofAddress_inj hstores, stringJson_inj hb hversion]

theorem sameWrite_of_storeWriteJson_eq {w w' : StoreWrite} (hw : w.Valid)
    (h : storeWriteJson C E w = storeWriteJson C E w') : w.SameWrite w' := by
  simp only [storeWriteJson, Value.obj.injEq, List.cons.injEq, Prod.mk.injEq, true_and, and_true] at h
  obtain ⟨hbid, hcaller, hkey, hvalue⟩ := h
  exact ⟨toInnerBid_eq_of_bidJson_eq hw.2 hbid, (ofAddress_inj hcaller).symm, (stringJson_inj hw.1 hkey).symm,
    (ofBytes_inj hvalue).symm⟩

/-- **Messages with the same signed text make the same writes**, if one of them has been received. -/
theorem exists_sameWrite {newSHA1 : UUID → Bytes → UUID} {m m' : DAMessage} (hm : m.Valid)
    (h : serializeMessageForSigning (jsonEncoding C E newSHA1) m' =
      serializeMessageForSigning (jsonEncoding C E newSHA1) m) {w : StoreWrite}
    (hw : w ∈ m.storeWrites.elems) : ∃ w' ∈ m'.storeWrites.elems, w.SameWrite w' := by
  have hprint := signedMessage_inj (Except.ok.inj h)
  have hjson := print_inj (wf_messageJson _) (wf_messageJson _) hprint
  simp only [messageJson, Value.obj.injEq, List.cons.injEq, Prod.mk.injEq, true_and, and_true] at hjson
  obtain ⟨-, hwrites, -⟩ := hjson
  cases hws : m.storeWrites with
  | none =>
    rw [hws] at hw
    exact absurd hw List.not_mem_nil
  | some ws =>
    cases hws' : m'.storeWrites with
    | none =>
      rw [hws, hws'] at hwrites
      exact absurd hwrites (by simp [encodeSlice])
    | some ws' =>
      rw [hws, hws', encodeSlice, encodeSlice, Value.arr.injEq] at hwrites
      have hmem : storeWriteJson C E w ∈ ws'.map (storeWriteJson C E) := by
        rw [hwrites]
        rw [hws] at hw
        exact List.mem_map_of_mem hw
      obtain ⟨w', hw', heq⟩ := List.mem_map.mp hmem
      exact ⟨w', hw', sameWrite_of_storeWriteJson_eq (hm w hw) heq.symm⟩

end

end Suift
