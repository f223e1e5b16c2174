import Suift.Lib.JsonDecode
import Suift.Types.Basic

/-!
# Hexadecimal strings in JSON

`common/hexutil`: byte slices, quantities and the fixed-size types of `common` as JSON strings with the
prefix `0x`.  A quantity has no leading zeros, and reading it is limited to 64 or 256 bits.

The readers look at a JSON string as it is written, so that escapes in it are not understood.
-/

namespace Suift.Hexutil

open Text Json

/-- `hex.Encode`. -/
def hexBytes (b : Bytes) : GoString := b.flatMap fun x => hexDigits 2 x.toNat

/-- `hex.Decode`. -/
def decodeHex : GoString → Option Bytes
  | [] => some []
  | [_] => none
  | a :: b :: s => do
    let x ← hexValue a
    let y ← hexValue b
    let rest ← decodeHex s
    return UInt8.ofNat (x * 16 + y) :: rest

def bytesHave0xPrefix (input : GoString) : Bool :=
  input.take 2 == ascii "0x" || input.take 2 == ascii "0X"

/-- The digits of a string of bytes; the empty string is allowed. -/
def checkText (input : GoString) : Option GoString :=
  if input = [] then some []
  else if !bytesHave0xPrefix input then none
  else if (input.drop 2).length % 2 ≠ 0 then none
  else some (input.drop 2)

/-- The digits of a quantity; the empty string is allowed. -/
def checkNumberText (input : GoString) : Option GoString :=
  if input = [] then some []
  else if !bytesHave0xPrefix input then none
  else if input.drop 2 = [] then none
  else if 1 < (input.drop 2).length ∧ (input.drop 2).head? = some 48 then none
  else some (input.drop 2)

/-! ### Writing -/

/-- `hexutil.Bytes`. -/
def ofBytes (b : Bytes) : Value := .str (ascii "0x" ++ hexBytes b)

/-- `hexutil.Big`. -/
def ofBig (n : ℕ) : Value := .str (ascii "0x" ++ hexadecimal n)

/-- `hexutil.Uint64`. -/
def ofUint64 (n : UInt64) : Value := .str (ascii "0x" ++ hexadecimal n.toNat)

/-- `common.Address`. -/
def ofAddress (a : Address) : Value := .str (ascii "0x" ++ hexAddress a)

/-- `common.Hash`. -/
def ofHash (h : Hash) : Value := .str (ascii "0x" ++ hexDigits 64 h.toNat)

/-! ### Reading -/

def unmarshalBytes : Value → Option Bytes
  | .str raw => (checkText raw).bind decodeHex
  | _ => none

/-- The big-endian number in `size` bytes. -/
def unmarshalFixedJSON (size : ℕ) : Value → Option ℕ
  | .str raw => do
    let digits ← checkText raw
    if digits.length / 2 = size then ofDigits 16 hexValue digits else none
  | _ => none

/-- A quantity of at most `limit` digits. -/
def unmarshalQuantity (limit : ℕ) : Value → Option ℕ
  | .str raw => do
    let digits ← checkNumberText raw
    if limit < digits.length then none else ofDigits 16 hexValue digits
  | _ => none

def unmarshalBig (v : Value) : Option ℕ := unmarshalQuantity 64 v

def unmarshalUint64 (v : Value) : Option UInt64 := (unmarshalQuantity 16 v).map UInt64.ofNat

def unmarshalAddress (v : Value) : Option Address :=
  (unmarshalFixedJSON 20 v).map (BitVec.ofNat 160)

def unmarshalHash (v : Value) : Option Hash := (unmarshalFixedJSON 32 v).map (BitVec.ofNat 256)

/-! ### What is written is read back -/

theorem checkText_of_even {digits : GoString} (h : digits.length % 2 = 0) :
    checkText (ascii "0x" ++ digits) = some digits := by
  have hdrop : (ascii "0x" ++ digits).drop 2 = digits := rfl
  unfold checkText
  rw [hdrop, if_neg (by simp [ascii]), if_neg (by simp [bytesHave0xPrefix, ascii]), if_neg (by simp [h])]

theorem checkNumberText_hexadecimal (n : ℕ) :
    checkNumberText (ascii "0x" ++ hexadecimal n) = some (hexadecimal n) := by
  have hdrop : (ascii "0x" ++ hexadecimal n).drop 2 = hexadecimal n := rfl
  have hnil : hexadecimal n ≠ [] := by
    intro h
    have hn := ofDigits_hexadecimal n
    rw [h] at hn
    obtain rfl : 0 = n := Option.some.inj hn
    exact absurd h (by decide)
  have hzero : ¬ (1 < (hexadecimal n).length ∧ (hexadecimal n).head? = some 48) := by
    rintro ⟨hlen, hhead⟩
    by_cases hn : n = 0
    · subst hn
      exact absurd hlen (by decide)
    · obtain ⟨b, hb, hne⟩ : ∃ b, (digits 16 n).head? = some b ∧ b ≠ 48 :=
        head?_digits (by decide) (by decide) hn
      rw [hexadecimal_eq_digits, hb] at hhead
      exact hne (Option.some.inj hhead)
  unfold checkNumberText
  rw [hdrop, if_neg (by simp [ascii]), if_neg (by simp [bytesHave0xPrefix, ascii]), if_neg hnil,
    if_neg hzero]

theorem hexDigits_two (n : ℕ) : hexDigits 2 n = [hexDigit (n / 16 % 16), hexDigit (n % 16)] := rfl

theorem decodeHex_hexBytes (b : Bytes) : decodeHex (hexBytes b) = some b := by
  induction b with
  | nil => rfl
  | cons x b ih =>
    have hx : x.toNat < 256 := x.toNat_lt
    have hhi := hexValue_hexDigit (x.toNat / 16 % 16) (by omega)
    have hlo := hexValue_hexDigit (x.toNat % 16) (by omega)
    have hvalue : x.toNat / 16 % 16 * 16 + x.toNat % 16 = x.toNat := by omega
    rw [hexBytes, List.flatMap_cons, hexDigits_two]
    show decodeHex (_ :: _ :: hexBytes b) = _
    simp only [decodeHex, hhi, hlo, ih, Option.bind_eq_bind, Option.bind_some, hvalue,
      UInt8.ofNat_toNat]
    rfl

theorem length_hexBytes (b : Bytes) : (hexBytes b).length = 2 * b.length := by
  induction b with
  | nil => rfl
  | cons x b ih =>
    rw [hexBytes, List.flatMap_cons, List.length_append, length_hexDigits, ← hexBytes, ih,
      List.length_cons]
    omega

theorem unmarshalBytes_ofBytes (b : Bytes) : unmarshalBytes (ofBytes b) = some b := by
  have heven : (hexBytes b).length % 2 = 0 := by
    rw [length_hexBytes]
    omega
  rw [ofBytes, unmarshalBytes, checkText_of_even heven, Option.bind_some, decodeHex_hexBytes]

theorem unmarshalFixedJSON_hexDigits {size n : ℕ} (h : n < 16 ^ (2 * size)) :
    unmarshalFixedJSON size (.str (ascii "0x" ++ hexDigits (2 * size) n)) = some n := by
  have hlen := length_hexDigits (2 * size) n
  rw [unmarshalFixedJSON, checkText_of_even (by omega)]
  simp only [Option.bind_eq_bind, Option.bind_some]
  rw [if_pos (by omega), ofDigits_hexDigits h]

theorem unmarshalAddress_ofAddress (a : Address) : unmarshalAddress (ofAddress a) = some a := by
  have hlt : a.toNat < 16 ^ (2 * 20) := by simpa using a.isLt
  have hfixed := unmarshalFixedJSON_hexDigits hlt
  rw [unmarshalAddress, ofAddress, hexAddress, hfixed, Option.map_some, BitVec.ofNat_toNat,
    BitVec.setWidth_eq]

theorem unmarshalHash_ofHash (h : Hash) : unmarshalHash (ofHash h) = some h := by
  have hlt : h.toNat < 16 ^ (2 * 32) := by simpa using h.isLt
  have hfixed := unmarshalFixedJSON_hexDigits hlt
  rw [unmarshalHash, ofHash, hfixed, Option.map_some, BitVec.ofNat_toNat, BitVec.setWidth_eq]

theorem unmarshalQuantity_hexadecimal (limit n : ℕ) :
    unmarshalQuantity limit (.str (ascii "0x" ++ hexadecimal n)) =
      if limit < (hexadecimal n).length then none else some n := by
  rw [unmarshalQuantity, checkNumberText_hexadecimal]
  simp only [Option.bind_eq_bind, Option.bind_some]
  split_ifs with hlimit
  · rfl
  · exact ofDigits_hexadecimal n

/-- The digits of `n` fit exactly when the number does. -/
theorem length_hexadecimal_le_iff {n k : ℕ} : (hexadecimal n).length ≤ k + 1 ↔ n < 16 ^ (k + 1) := by
  rw [hexadecimal_eq_digits]
  constructor
  · intro h
    exact lt_of_lt_of_le (lt_pow_length_digits (by decide) n) (Nat.pow_le_pow_right (by decide) h)
  · intro h
    exact length_digits_le (by decide) h

theorem unmarshalUint64_ofUint64 (n : UInt64) : unmarshalUint64 (ofUint64 n) = some n := by
  have hlt : n.toNat < 16 ^ (15 + 1) := by simpa using n.toNat_lt
  have hlen := length_hexadecimal_le_iff.mpr hlt
  rw [unmarshalUint64, ofUint64, unmarshalQuantity_hexadecimal, if_neg (by omega), Option.map_some,
    UInt64.ofNat_toNat]

/-- A big number is written whatever its size, but read only up to 256 bits. -/
theorem unmarshalBig_ofBig (n : ℕ) : unmarshalBig (ofBig n) = if n < 2 ^ 256 then some n else none := by
  have hlen : (hexadecimal n).length ≤ 63 + 1 ↔ n < 16 ^ (63 + 1) := length_hexadecimal_le_iff
  have hpow : (16 : ℕ) ^ (63 + 1) = 2 ^ 256 := by decide
  rw [hpow] at hlen
  rw [unmarshalBig, ofBig, unmarshalQuantity_hexadecimal]
  by_cases h : n < 2 ^ 256
  · rw [if_pos h, if_neg (by have := hlen.mpr h; omega)]
  · rw [if_neg h, if_pos (by have := hlen.not.mpr h; omega)]

/-! ### What is written is well formed -/

theorem wf_hex {s : GoString} (h : ∀ b ∈ s, ∃ d < 16, b = hexDigit d) :
    (Value.str (ascii "0x" ++ s)).WF := by
  apply wf_str
  apply token_append_plain (by decide +kernel)
  apply token_of_plain
  intro b hb
  obtain ⟨d, hd, rfl⟩ := h b hb
  exact plain_hexDigit d hd

theorem mem_hexDigits {w n : ℕ} : ∀ b ∈ hexDigits w n, ∃ d < 16, b = hexDigit d := by
  induction w generalizing n with
  | zero => exact fun b hb => absurd hb List.not_mem_nil
  | succ w ih =>
    intro b hb
    rw [hexDigits, List.mem_append, List.mem_singleton] at hb
    rcases hb with hb | rfl
    · exact ih b hb
    · exact ⟨n % 16, Nat.mod_lt _ (by decide), rfl⟩

theorem mem_hexadecimal {n : ℕ} : ∀ b ∈ hexadecimal n, ∃ d < 16, b = hexDigit d := by
  have hdigit : ∀ d < 16, ∃ e < 16, digitByte d = hexDigit e := by decide
  rw [hexadecimal_eq_digits]
  exact forall_mem_digits (by decide) hdigit n

theorem wf_ofBytes (b : Bytes) : (ofBytes b).WF := by
  apply wf_hex
  intro c hc
  obtain ⟨x, -, hx⟩ := List.mem_flatMap.mp hc
  exact mem_hexDigits c hx

theorem wf_ofBig (n : ℕ) : (ofBig n).WF := wf_hex mem_hexadecimal

theorem wf_ofUint64 (n : UInt64) : (ofUint64 n).WF := wf_hex mem_hexadecimal

theorem wf_ofAddress (a : Address) : (ofAddress a).WF := wf_hex mem_hexDigits

theorem wf_ofHash (h : Hash) : (ofHash h).WF := wf_hex mem_hexDigits

end Suift.Hexutil
