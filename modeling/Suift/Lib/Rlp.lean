import Mathlib.Data.List.Induction
import Mathlib.Data.Nat.Log
import Mathlib.Tactic.Ring

/-!
# Recursive length prefix encoding

`Item` is the tree that RLP encodes: byte strings and lists.  Integers enter as their shortest
big-endian byte string, so zero is the empty string (`Item.nat`), and fixed-size arrays as all of
their bytes (`Item.word`).

A byte string is the shortest form of a number exactly if it does not start with a zero
(`eq_natBytes_iff`).
-/

namespace Suift.Rlp

/-- What RLP encodes: byte strings and lists of items. -/
inductive Item
  | bytes (b : List UInt8)
  | list (l : List Item)

/-- The `w` lowest bytes of `n`, most significant first. -/
def bigEndian : ℕ → ℕ → List UInt8
  | 0, _ => []
  | w + 1, n => bigEndian w (n / 256) ++ [UInt8.ofNat (n % 256)]

/-- The number that a big-endian byte string stands for. -/
def ofBigEndian (b : List UInt8) : ℕ := b.foldl (fun n x => n * 256 + x.toNat) 0

/-- The bytes of a number are got back at the width they had. -/
theorem bigEndian_ofBigEndian (b : List UInt8) : bigEndian b.length (ofBigEndian b) = b := by
  induction b using List.reverseRecOn with
  | nil => rfl
  | append_singleton b x ih =>
    have hx : x.toNat < 256 := x.toNat_lt
    have hvalue : ofBigEndian (b ++ [x]) = ofBigEndian b * 256 + x.toNat := by
      rw [ofBigEndian, List.foldl_append]
      rfl
    have hdiv : (ofBigEndian b * 256 + x.toNat) / 256 = ofBigEndian b := by omega
    have hmod : (ofBigEndian b * 256 + x.toNat) % 256 = x.toNat := by omega
    rw [List.length_append, List.length_singleton, bigEndian, hvalue, hdiv, hmod, ih,
      UInt8.ofNat_toNat]

@[simp]
theorem length_bigEndian (w n : ℕ) : (bigEndian w n).length = w := by
  induction w generalizing n with
  | zero => rfl
  | succ w ih => rw [bigEndian, List.length_append, ih, List.length_singleton]

/-- A number that fits is got back from its bytes. -/
theorem ofBigEndian_bigEndian {w n : ℕ} (h : n < 256 ^ w) : ofBigEndian (bigEndian w n) = n := by
  induction w generalizing n with
  | zero =>
    have hn : n = 0 := by omega
    rw [hn]
    rfl
  | succ w ih =>
    have hdiv : n / 256 < 256 ^ w := by
      rw [Nat.pow_succ] at h
      omega
    have hvalue : ofBigEndian (bigEndian w (n / 256) ++ [UInt8.ofNat (n % 256)]) =
        ofBigEndian (bigEndian w (n / 256)) * 256 + (UInt8.ofNat (n % 256)).toNat := by
      rw [ofBigEndian, List.foldl_append]
      rfl
    rw [bigEndian, hvalue, ih hdiv, UInt8.toNat_ofNat']
    omega

/-- How many bytes the shortest big-endian form of `n` has. -/
def byteLength (n : ℕ) : ℕ := if n = 0 then 0 else n.log2 / 8 + 1

/-- The shortest big-endian form of `n`; empty for zero. -/
def natBytes (n : ℕ) : List UInt8 := bigEndian (byteLength n) n

theorem ofBigEndian_append (a b : List UInt8) :
    ofBigEndian (a ++ b) = ofBigEndian a * 256 ^ b.length + ofBigEndian b := by
  induction b using List.reverseRecOn with
  | nil => simp [ofBigEndian]
  | append_singleton b x ih =>
    have hlast : ∀ c : List UInt8, ofBigEndian (c ++ [x]) = ofBigEndian c * 256 + x.toNat := by
      intro c
      rw [ofBigEndian, List.foldl_append]
      rfl
    rw [← List.append_assoc, hlast, hlast, ih, List.length_append, List.length_singleton, pow_succ]
    ring

theorem ofBigEndian_cons (x : UInt8) (b : List UInt8) :
    ofBigEndian (x :: b) = x.toNat * 256 ^ b.length + ofBigEndian b := by
  rw [← List.singleton_append, ofBigEndian_append]
  simp [ofBigEndian]

theorem ofBigEndian_singleton (x : UInt8) : ofBigEndian [x] = x.toNat := by simp [ofBigEndian]

theorem ofBigEndian_lt (b : List UInt8) : ofBigEndian b < 256 ^ b.length := by
  induction b with
  | nil => simp [ofBigEndian]
  | cons x b ih =>
    have hx : x.toNat < 256 := x.toNat_lt
    have hmul : (x.toNat + 1) * 256 ^ b.length ≤ 256 * 256 ^ b.length := Nat.mul_le_mul_right _ hx
    rw [Nat.add_mul] at hmul
    rw [ofBigEndian_cons, List.length_cons, pow_succ]
    omega

theorem byteLength_eq_succ_iff {n k : ℕ} :
    byteLength n = k + 1 ↔ 256 ^ k ≤ n ∧ n < 256 ^ (k + 1) := by
  have hpow : ∀ m, (256 : ℕ) ^ m = 2 ^ (8 * m) := by
    intro m
    rw [pow_mul]
    rfl
  rw [hpow, hpow, byteLength]
  by_cases hn : n = 0
  · have : 0 < 2 ^ (8 * k) := Nat.two_pow_pos _
    rw [if_pos hn]
    omega
  · rw [if_neg hn, ← Nat.le_log2 hn, ← Nat.log2_lt hn]
    omega

theorem byteLength_pos {n : ℕ} (h : n ≠ 0) : 0 < byteLength n := by
  rw [byteLength, if_neg h]
  omega

theorem lt_pow_byteLength (n : ℕ) : n < 256 ^ byteLength n := by
  by_cases hn : n = 0
  · rw [hn]
    decide
  · obtain ⟨k, hk⟩ : ∃ k, byteLength n = k + 1 := ⟨n.log2 / 8, if_neg hn⟩
    rw [hk]
    exact (byteLength_eq_succ_iff.mp hk).2

@[simp]
theorem ofBigEndian_natBytes (n : ℕ) : ofBigEndian (natBytes n) = n :=
  ofBigEndian_bigEndian (lt_pow_byteLength n)

@[simp]
theorem length_natBytes (n : ℕ) : (natBytes n).length = byteLength n := length_bigEndian _ _

/-- A byte string without a leading zero is the shortest form of its number. -/
theorem natBytes_ofBigEndian {b : List UInt8} (h : b.head? ≠ some 0) : natBytes (ofBigEndian b) = b := by
  cases b with
  | nil => rfl
  | cons x b =>
    have hx : 1 ≤ x.toNat := by
      rw [Nat.one_le_iff_ne_zero]
      intro hx
      have hzero : x = 0 := UInt8.toNat_inj.mp hx
      exact h (by rw [hzero, List.head?_cons])
    have hlow : 256 ^ b.length ≤ ofBigEndian (x :: b) := by
      rw [ofBigEndian_cons]
      exact Nat.le_add_right_of_le (Nat.le_mul_of_pos_left _ hx)
    have hlength : byteLength (ofBigEndian (x :: b)) = (x :: b).length :=
      byteLength_eq_succ_iff.mpr ⟨hlow, ofBigEndian_lt (x :: b)⟩
    rw [natBytes, hlength]
    exact bigEndian_ofBigEndian (x :: b)

theorem head?_natBytes_ne (n : ℕ) : (natBytes n).head? ≠ some 0 := by
  intro h
  obtain ⟨b, hb⟩ : ∃ b, natBytes n = 0 :: b := List.head?_eq_some_iff.mp h
  have hlength : byteLength n = b.length + 1 := by
    rw [← length_natBytes, hb, List.length_cons]
  have hn : n = ofBigEndian b := by
    rw [← ofBigEndian_natBytes n, hb, ofBigEndian_cons]
    simp
  have hlow := (byteLength_eq_succ_iff.mp hlength).1
  have hlt := ofBigEndian_lt b
  omega

theorem byteLength_le {n k : ℕ} (h : n < 256 ^ k) : byteLength n ≤ k := by
  by_contra hk
  obtain ⟨m, hm⟩ : ∃ m, byteLength n = m + 1 := ⟨byteLength n - 1, by omega⟩
  have hlow := (byteLength_eq_succ_iff.mp hm).1
  have hpow : 256 ^ k ≤ 256 ^ m := Nat.pow_le_pow_right (by decide) (by omega)
  omega

theorem eq_natBytes_iff {b : List UInt8} {n : ℕ} :
    b = natBytes n ↔ b.head? ≠ some 0 ∧ ofBigEndian b = n := by
  constructor
  · rintro rfl
    exact ⟨head?_natBytes_ne n, ofBigEndian_natBytes n⟩
  · rintro ⟨hhead, rfl⟩
    exact (natBytes_ofBigEndian hhead).symm

/-- The bytes of an array and the array they are read into. -/
theorem ofNat_ofBigEndian_eq_iff {n : ℕ} {b : List UInt8} {a : BitVec (8 * n)} (h : b.length = n) :
    BitVec.ofNat (8 * n) (ofBigEndian b) = a ↔ b = bigEndian n a.toNat := by
  have hpow : 2 ^ (8 * n) = 256 ^ n := by rw [pow_mul]; rfl
  have hlt : ofBigEndian b < 2 ^ (8 * n) := by
    rw [hpow, ← h]
    exact ofBigEndian_lt b
  rw [← BitVec.toNat_inj, BitVec.toNat_ofNat, Nat.mod_eq_of_lt hlt]
  constructor
  · intro ha
    rw [← ha, ← h, bigEndian_ofBigEndian]
  · rintro rfl
    exact ofBigEndian_bigEndian (hpow ▸ a.isLt)

/-- An unsigned integer. -/
def Item.nat (n : ℕ) : Item := .bytes (natBytes n)

/-- An array of `w` bytes, leading zeros included. -/
def Item.word (w n : ℕ) : Item := .bytes (bigEndian w n)

/-- The header of a payload of `len` bytes: `short + len` in one byte up to 55, else
`long + k` and the `k` bytes of the length. -/
def header (short long len : ℕ) : List UInt8 :=
  if len < 56 then [UInt8.ofNat (short + len)]
  else UInt8.ofNat (long + byteLength len) :: natBytes len

/-- The encoding of a byte string: a single byte below `0x80` stands for itself. -/
def encodeBytes : List UInt8 → List UInt8
  | [b] => if b < 0x80 then [b] else [0x81, b]
  | b => header 0x80 0xb7 b.length ++ b

/-- Only a single byte below `0x80` has no header. -/
theorem encodeBytes_eq_header {b : List UInt8} (h : ∀ x, b = [x] → ¬ x < 0x80) :
    encodeBytes b = header 0x80 0xb7 b.length ++ b := by
  match b with
  | [] => rfl
  | [x] =>
    rw [encodeBytes, if_neg (h x rfl)]
    rfl
  | x :: y :: b => rfl

mutual

/-- The encoding of an item. -/
def encode : Item → List UInt8
  | .bytes b => encodeBytes b
  | .list l => header 0xc0 0xf7 (encodeAll l).length ++ encodeAll l

/-- The encodings of the elements of a list, one after the other. -/
def encodeAll : List Item → List UInt8
  | [] => []
  | x :: l => encode x ++ encodeAll l

end

end Suift.Rlp
