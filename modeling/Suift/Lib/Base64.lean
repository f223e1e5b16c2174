import Mathlib.Data.List.Basic

/-!
# Base64

The standard encoding with padding: three bytes are written as four characters, and one or two left
over at the end are padded with `=`.
-/

namespace Suift.Base64

/-- The character for six bits. -/
def char (d : ℕ) : UInt8 :=
  if d < 26 then UInt8.ofNat (65 + d)
  else if d < 52 then UInt8.ofNat (71 + d)
  else if d < 62 then UInt8.ofNat (d - 4)
  else if d = 62 then 43
  else 47

/-- The six bits of a character. -/
def value (c : UInt8) : Option ℕ :=
  if 65 ≤ c ∧ c ≤ 90 then some (c.toNat - 65)
  else if 97 ≤ c ∧ c ≤ 122 then some (c.toNat - 71)
  else if 48 ≤ c ∧ c ≤ 57 then some (c.toNat + 4)
  else if c = 43 then some 62
  else if c = 47 then some 63
  else none

def encode : List UInt8 → List UInt8
  | [] => []
  | [a] => [char (a.toNat / 4), char (a.toNat % 4 * 16), 61, 61]
  | [a, b] =>
    [char (a.toNat / 4), char (a.toNat % 4 * 16 + b.toNat / 16), char (b.toNat % 16 * 4), 61]
  | a :: b :: c :: s =>
    char (a.toNat / 4) :: char (a.toNat % 4 * 16 + b.toNat / 16) ::
      char (b.toNat % 16 * 4 + c.toNat / 64) :: char (c.toNat % 64) :: encode s

/-- Read groups of four characters; only the last group may be padded. -/
def decodeGroups : List UInt8 → Option (List UInt8)
  | [] => some []
  | a :: b :: c :: d :: s =>
    if s = [] ∧ d = 61 then
      if c = 61 then do
        let x ← value a
        let y ← value b
        return [UInt8.ofNat (x * 4 + y / 16)]
      else do
        let x ← value a
        let y ← value b
        let z ← value c
        return [UInt8.ofNat (x * 4 + y / 16), UInt8.ofNat (y % 16 * 16 + z / 4)]
    else do
      let x ← value a
      let y ← value b
      let z ← value c
      let w ← value d
      let rest ← decodeGroups s
      return UInt8.ofNat (x * 4 + y / 16) :: UInt8.ofNat (y % 16 * 16 + z / 4) ::
        UInt8.ofNat (z % 4 * 64 + w) :: rest
  | _ => none

/-- Line breaks in the text are ignored. -/
def decode (s : List UInt8) : Option (List UInt8) :=
  decodeGroups (s.filter fun c => c != 10 && c != 13)

theorem value_char : ∀ d < 64, value (char d) = some d := by decide

theorem char_ne : ∀ d < 64, char d ≠ 61 ∧ char d ≠ 10 ∧ char d ≠ 13 := by decide

theorem decodeGroups_encode (b : List UInt8) : decodeGroups (encode b) = some b := by
  induction b using encode.induct with
  | case1 => rfl
  | case2 a =>
    have ha : a.toNat < 256 := a.toNat_lt
    have hx : a.toNat / 4 * 4 + a.toNat % 4 * 16 / 16 = a.toNat := by omega
    simp only [encode, decodeGroups, value_char _ (show a.toNat / 4 < 64 by omega),
      value_char _ (show a.toNat % 4 * 16 < 64 by omega), and_self, if_true, Option.bind_eq_bind,
      Option.bind_some, hx, UInt8.ofNat_toNat]
    rfl
  | case3 a b =>
    have ha : a.toNat < 256 := a.toNat_lt
    have hb : b.toNat < 256 := b.toNat_lt
    have hx : a.toNat / 4 * 4 + (a.toNat % 4 * 16 + b.toNat / 16) / 16 = a.toNat := by omega
    have hy : (a.toNat % 4 * 16 + b.toNat / 16) % 16 * 16 + b.toNat % 16 * 4 / 4 = b.toNat := by omega
    simp only [encode, decodeGroups, value_char _ (show a.toNat / 4 < 64 by omega),
      value_char _ (show a.toNat % 4 * 16 + b.toNat / 16 < 64 by omega),
      value_char _ (show b.toNat % 16 * 4 < 64 by omega),
      (char_ne _ (show b.toNat % 16 * 4 < 64 by omega)).1, and_self, if_true, if_false,
      Option.bind_eq_bind, Option.bind_some, hx, hy, UInt8.ofNat_toNat]
    rfl
  | case4 a b c s ih =>
    have ha : a.toNat < 256 := a.toNat_lt
    have hb : b.toNat < 256 := b.toNat_lt
    have hc : c.toNat < 256 := c.toNat_lt
    have hx : a.toNat / 4 * 4 + (a.toNat % 4 * 16 + b.toNat / 16) / 16 = a.toNat := by omega
    have hy : (a.toNat % 4 * 16 + b.toNat / 16) % 16 * 16 + (b.toNat % 16 * 4 + c.toNat / 64) / 4 =
        b.toNat := by omega
    have hz : (b.toNat % 16 * 4 + c.toNat / 64) % 4 * 64 + c.toNat % 64 = c.toNat := by omega
    simp only [encode, decodeGroups, value_char _ (show a.toNat / 4 < 64 by omega),
      value_char _ (show a.toNat % 4 * 16 + b.toNat / 16 < 64 by omega),
      value_char _ (show b.toNat % 16 * 4 + c.toNat / 64 < 64 by omega),
      value_char _ (show c.toNat % 64 < 64 by omega),
      (char_ne _ (show c.toNat % 64 < 64 by omega)).1, and_false, if_false, Option.bind_eq_bind,
      Option.bind_some, ih, hx, hy, hz, UInt8.ofNat_toNat]
    rfl

/-- What all characters of an encoding satisfy. -/
theorem forall_mem_encode {P : UInt8 → Prop} (hchar : ∀ d < 64, P (char d)) (hpad : P 61)
    (b : List UInt8) : ∀ c ∈ encode b, P c := by
  induction b using encode.induct with
  | case1 => exact fun c hc => absurd hc List.not_mem_nil
  | case2 a =>
    have ha : a.toNat < 256 := a.toNat_lt
    have h1 := hchar (a.toNat / 4) (by omega)
    have h2 := hchar (a.toNat % 4 * 16) (by omega)
    simp [encode, h1, h2, hpad]
  | case3 a b =>
    have ha : a.toNat < 256 := a.toNat_lt
    have hb : b.toNat < 256 := b.toNat_lt
    have h1 := hchar (a.toNat / 4) (by omega)
    have h2 := hchar (a.toNat % 4 * 16 + b.toNat / 16) (by omega)
    have h3 := hchar (b.toNat % 16 * 4) (by omega)
    simp [encode, h1, h2, h3, hpad]
  | case4 a b c s ih =>
    have ha : a.toNat < 256 := a.toNat_lt
    have hb : b.toNat < 256 := b.toNat_lt
    have hc : c.toNat < 256 := c.toNat_lt
    have h1 := hchar (a.toNat / 4) (by omega)
    have h2 := hchar (a.toNat % 4 * 16 + b.toNat / 16) (by omega)
    have h3 := hchar (b.toNat % 16 * 4 + c.toNat / 64) (by omega)
    have h4 := hchar (c.toNat % 64) (by omega)
    simpa [encode, h1, h2, h3, h4] using ih

theorem decode_encode (b : List UInt8) : decode (encode b) = some b := by
  have hfilter : (encode b).filter (fun c => c != 10 && c != 13) = encode b := by
    rw [List.filter_eq_self]
    intro c hc
    have hne : c ≠ 10 ∧ c ≠ 13 :=
      forall_mem_encode (P := fun c => c ≠ 10 ∧ c ≠ 13) (fun d hd => (char_ne d hd).2) (by decide) b c hc
    simp [hne]
  rw [decode, hfilter, decodeGroups_encode]

end Suift.Base64
