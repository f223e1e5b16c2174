import Mathlib.Data.List.Basic
import Mathlib.Tactic.Ring

/-!
# Byte strings and their formatting verbs

A string of the modelled program is a list of bytes with no encoding attached, so that a key or a
version may hold any bytes at all.  `hexDigits w n` is the fixed-width hexadecimal verb (`%x` on
an array of `w / 2` bytes) and `decimal n` is `%d`.

The one fact the storage layers need is that a fixed-width prefix can be cut off again:
`hexDigits_append_inj` recovers both the number and the rest of a formatted key.

A separator that does not occur on one side of it can be found again (`append_cons_inj_of_notMem`).

`ofDigits` reads a number back.  What is known about the digits of a number without leading zeros
goes through `digits_induction`, which takes off the last digit.
-/

namespace Suift.Text

/-- The bytes of a string literal of ASCII characters. -/
def ascii (s : String) : List UInt8 := s.toList.map fun c => UInt8.ofNat c.toNat

/-- The lower-case hexadecimal digit of `d < 16`. -/
def hexDigit (d : ℕ) : UInt8 := if d < 10 then UInt8.ofNat (48 + d) else UInt8.ofNat (87 + d)

/-- The `w` lowest hexadecimal digits of `n`, most significant first. -/
def hexDigits : ℕ → ℕ → List UInt8
  | 0, _ => []
  | w + 1, n => hexDigits w (n / 16) ++ [hexDigit (n % 16)]

/-- The decimal digits of `n`, most significant first (`%d`). -/
def decimal (n : ℕ) : List UInt8 := (Nat.toDigits 10 n).map fun c => UInt8.ofNat c.toNat

/-- The hexadecimal digits of `n` without leading zeros, most significant first. -/
def hexadecimal (n : ℕ) : List UInt8 := (Nat.toDigits 16 n).map fun c => UInt8.ofNat c.toNat

@[simp]
theorem length_hexDigits (w n : ℕ) : (hexDigits w n).length = w := by
  induction w generalizing n with
  | zero => rfl
  | succ w ih => rw [hexDigits, List.length_append, ih, List.length_singleton]

theorem hexDigit_inj : ∀ a < 16, ∀ b < 16, hexDigit a = hexDigit b → a = b := by decide

/-- The digits of a number below `16 ^ w` determine it. -/
theorem hexDigits_inj {w m n : ℕ} (hm : m < 16 ^ w) (hn : n < 16 ^ w)
    (h : hexDigits w m = hexDigits w n) : m = n := by
  induction w generalizing m n with
  | zero => omega
  | succ w ih =>
    rw [hexDigits, hexDigits] at h
    obtain ⟨hhi, hlo⟩ := List.append_inj' h rfl
    have hdiv : m / 16 = n / 16 := by
      apply ih _ _ hhi
      · rw [pow_succ] at hm; omega
      · rw [pow_succ] at hn; omega
    have hmod : m % 16 = n % 16 :=
      hexDigit_inj _ (Nat.mod_lt _ (by decide)) _ (Nat.mod_lt _ (by decide)) (List.singleton_inj.mp hlo)
    omega

/-- A fixed-width hexadecimal prefix can be cut off again: the number and the rest are both
determined by the formatted string. -/
theorem hexDigits_append_inj {w m n : ℕ} {s t : List UInt8} (hm : m < 16 ^ w) (hn : n < 16 ^ w)
    (h : hexDigits w m ++ s = hexDigits w n ++ t) : m = n ∧ s = t := by
  obtain ⟨hpre, hrest⟩ := List.append_inj h (by rw [length_hexDigits, length_hexDigits])
  exact ⟨hexDigits_inj hm hn hpre, hrest⟩

/-! ### Reading numbers -/

/-- The value of a decimal digit. -/
def decimalValue (b : UInt8) : Option ℕ :=
  if 48 ≤ b ∧ b ≤ 57 then some (b.toNat - 48) else none

/-- The value of a hexadecimal digit in either case. -/
def hexValue (b : UInt8) : Option ℕ :=
  if 48 ≤ b ∧ b ≤ 57 then some (b.toNat - 48)
  else if 97 ≤ b ∧ b ≤ 102 then some (b.toNat - 87)
  else if 65 ≤ b ∧ b ≤ 70 then some (b.toNat - 55)
  else none

/-- The number with the digits `s`, most significant first. -/
def ofDigits (base : ℕ) (value : UInt8 → Option ℕ) (s : List UInt8) : Option ℕ :=
  s.foldlM (fun n b => (value b).map fun d => n * base + d) 0

theorem ofDigits_concat {base : ℕ} {value : UInt8 → Option ℕ} {s : List UInt8} {b : UInt8} {n d : ℕ}
    (hs : ofDigits base value s = some n) (hb : value b = some d) :
    ofDigits base value (s ++ [b]) = some (n * base + d) := by
  unfold ofDigits at hs ⊢
  rw [List.foldlM_append, hs]
  simp [hb]

theorem hexValue_hexDigit : ∀ d < 16, hexValue (hexDigit d) = some d := by decide

theorem ofDigits_hexDigits {w n : ℕ} (h : n < 16 ^ w) :
    ofDigits 16 hexValue (hexDigits w n) = some n := by
  induction w generalizing n with
  | zero =>
    have hn : n = 0 := by omega
    rw [hn]
    rfl
  | succ w ih =>
    have hdiv : n / 16 < 16 ^ w := by
      rw [pow_succ] at h
      omega
    have hmod : n % 16 < 16 := Nat.mod_lt _ (by decide)
    rw [hexDigits, ofDigits_concat (ih hdiv) (hexValue_hexDigit _ hmod)]
    congr 1
    omega

/-- The byte of a digit. -/
def digitByte (d : ℕ) : UInt8 := UInt8.ofNat d.digitChar.toNat

/-- The digits of `n`, most significant first, without leading zeros. -/
def digits (base n : ℕ) : List UInt8 := (Nat.toDigits base n).map fun c => UInt8.ofNat c.toNat

theorem decimal_eq_digits (n : ℕ) : decimal n = digits 10 n := rfl

theorem hexadecimal_eq_digits (n : ℕ) : hexadecimal n = digits 16 n := rfl

theorem digits_of_lt {base n : ℕ} (h : n < base) : digits base n = [digitByte n] := by
  rw [digits, Nat.toDigits_of_lt_base h]
  rfl

theorem digits_of_le {base n : ℕ} (hb : 1 < base) (h : base ≤ n) :
    digits base n = digits base (n / base) ++ [digitByte (n % base)] := by
  rw [digits, Nat.toDigits_of_base_le hb h, List.map_append]
  rfl

/-- Induction along the digits: a number has one digit, or it has a last one and those before. -/
theorem digits_induction {base : ℕ} (hb : 1 < base) {P : ℕ → Prop} (hone : ∀ n < base, P n)
    (hmore : ∀ n, base ≤ n → P (n / base) → P n) (n : ℕ) : P n := by
  induction n using Nat.strong_induction_on with
  | _ n ih =>
    by_cases h : n < base
    · exact hone n h
    · exact hmore n (by omega) (ih _ (Nat.div_lt_self (by omega) hb))

theorem ofDigits_digits {base : ℕ} {value : UInt8 → Option ℕ} (hb : 1 < base)
    (hvalue : ∀ d < base, value (digitByte d) = some d) (n : ℕ) :
    ofDigits base value (digits base n) = some n := by
  induction n using digits_induction hb with
  | hone n h =>
    rw [digits_of_lt h]
    have hdigit := @ofDigits_concat base value [] (digitByte n) 0 n rfl (hvalue n h)
    simpa using hdigit
  | hmore n h ih =>
    have hmod : n % base < base := Nat.mod_lt _ (by omega)
    rw [digits_of_le hb h, ofDigits_concat ih (hvalue _ hmod), Nat.div_add_mod']

theorem ofDigits_decimal (n : ℕ) : ofDigits 10 decimalValue (decimal n) = some n :=
  ofDigits_digits (by decide) (by decide) n

theorem ofDigits_hexadecimal (n : ℕ) : ofDigits 16 hexValue (hexadecimal n) = some n :=
  ofDigits_digits (by decide) (by decide) n

theorem forall_mem_digits {base : ℕ} (hb : 1 < base) {P : UInt8 → Prop}
    (hP : ∀ d < base, P (digitByte d)) (n : ℕ) : ∀ b ∈ digits base n, P b := by
  induction n using digits_induction hb with
  | hone n h =>
    rw [digits_of_lt h]
    simpa using hP n h
  | hmore n h ih =>
    have hmod : n % base < base := Nat.mod_lt _ (by omega)
    rw [digits_of_le hb h]
    intro b hmem
    rcases List.mem_append.mp hmem with hmem | hmem
    · exact ih b hmem
    · rw [List.mem_singleton.mp hmem]
      exact hP _ hmod

/-- The first digit: a number other than zero does not begin with the digit zero. -/
theorem head?_digits {base : ℕ} (hb : 1 < base) (hzero : ∀ d < base, digitByte d = 48 → d = 0) {n : ℕ}
    (hn : n ≠ 0) : ∃ b, (digits base n).head? = some b ∧ b ≠ 48 := by
  induction n using digits_induction hb with
  | hone n h =>
    rw [digits_of_lt h]
    exact ⟨_, rfl, fun h48 => hn (hzero n h h48)⟩
  | hmore n h ih =>
    have hdiv : n / base ≠ 0 := by
      have hpos := Nat.div_pos h (by omega)
      omega
    obtain ⟨b, hb', hne⟩ := ih hdiv
    refine ⟨b, ?_, hne⟩
    rw [digits_of_le hb h, List.head?_append, hb']
    rfl

theorem length_digits_le {base : ℕ} (hb : 1 < base) {n k : ℕ} (h : n < base ^ (k + 1)) :
    (digits base n).length ≤ k + 1 := by
  induction k generalizing n with
  | zero =>
    rw [digits_of_lt (by simpa using h)]
    simp
  | succ k ih =>
    by_cases hlt : n < base
    · rw [digits_of_lt hlt]
      simp
    · have hdiv : n / base < base ^ (k + 1) := by
        rw [pow_succ] at h
        exact Nat.div_lt_of_lt_mul (by rwa [Nat.mul_comm])
      have hlen := ih hdiv
      rw [digits_of_le hb (by omega), List.length_append, List.length_singleton]
      omega

theorem lt_pow_length_digits {base : ℕ} (hb : 1 < base) (n : ℕ) :
    n < base ^ (digits base n).length := by
  induction n using digits_induction hb with
  | hone n h =>
    rw [digits_of_lt h]
    simpa using h
  | hmore n h ih =>
    rw [digits_of_le hb h, List.length_append, List.length_singleton, pow_succ]
    exact Nat.lt_mul_of_div_lt ih (by omega)

/-! ### Separators -/

/-- A separator that does not occur before it tells where a text is to be cut. -/
theorem append_cons_inj_of_notMem {α : Type} {a : α} {xs xs' ys ys' : List α} (h : a ∉ xs)
    (h' : a ∉ xs') (heq : xs ++ a :: ys = xs' ++ a :: ys') : xs = xs' ∧ ys = ys' := by
  induction xs generalizing xs' with
  | nil =>
    cases xs' with
    | nil => exact ⟨rfl, (List.cons.inj heq).2⟩
    | cons x xs' =>
      obtain ⟨rfl, -⟩ := List.cons.inj heq
      exact absurd List.mem_cons_self h'
  | cons x xs ih =>
    cases xs' with
    | nil =>
      obtain ⟨rfl, -⟩ := List.cons.inj heq
      exact absurd List.mem_cons_self h
    | cons x' xs' =>
      obtain ⟨rfl, htail⟩ := List.cons.inj heq
      obtain ⟨rfl, rfl⟩ := ih (fun hx => h (List.mem_cons_of_mem _ hx))
        (fun hx => h' (List.mem_cons_of_mem _ hx)) htail
      exact ⟨rfl, rfl⟩

/-- The same for a separator that does not occur after it. -/
theorem append_cons_inj_of_notMem_right {α : Type} {a : α} {xs xs' ys ys' : List α} (h : a ∉ ys)
    (h' : a ∉ ys') (heq : xs ++ a :: ys = xs' ++ a :: ys') : xs = xs' ∧ ys = ys' := by
  have hreverse : ys.reverse ++ a :: xs.reverse = ys'.reverse ++ a :: xs'.reverse := by
    simpa using congrArg List.reverse heq
  obtain ⟨hys, hxs⟩ := append_cons_inj_of_notMem (by simpa using h) (by simpa using h') hreverse
  exact ⟨List.reverse_inj.mp hxs, List.reverse_inj.mp hys⟩

end Suift.Text
