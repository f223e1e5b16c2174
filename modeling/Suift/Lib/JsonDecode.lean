import Suift.Lib.Base64
import Suift.Lib.JsonLemmas

/-!
# Decoding JSON values into records

A decoder takes the current value of the variable it decodes into: `null` leaves a string, a number, an
array or a record as it is, and a record keeps the fields that the object does not name.  Members are
decoded in the order in which they come, so the last one of a name counts, and names are compared
without regard to case.

A decoder returns `none` where decoding as a whole fails.
-/

namespace Suift.Json

open Text Utf8

/-- Upper case, for comparing names.  Besides the ASCII letters the Kelvin sign and the long `s` are
equal to ASCII letters in another case. -/
def foldName : List UInt8 → List UInt8
  | 0xe2 :: 0x84 :: 0xaa :: s => 75 :: foldName s
  | 0xc5 :: 0xbf :: s => 83 :: foldName s
  | b :: s => (if 97 ≤ b && b ≤ 122 then b - 32 else b) :: foldName s
  | [] => []

/-- The field of the list `fields` that a member of this name is decoded into. -/
def lookup {φ : Type} (fields : List φ) (name : φ → String) (raw : List UInt8) : Option φ :=
  (unquote raw).bind fun n => fields.find? fun f => foldName (ascii (name f)) == foldName n

/-- How a record `σ` with the fields `φ` is decoded.  The names need no escapes and are different. -/
structure RecordFormat (φ σ : Type) where
  fields : List φ
  name : φ → String
  /-- Decode a value into one field of a record. -/
  set : φ → σ → Value → Option σ
  token_name : ∀ f, Token (ascii (name f))
  lookup_name : ∀ f, lookup fields name (ascii (name f)) = some f

namespace RecordFormat

variable {φ σ : Type} (R : RecordFormat φ σ)

/-- Decode a member; one of an unknown name is skipped. -/
def decodeMember (s : σ) (m : List UInt8 × Value) : Option σ :=
  match lookup R.fields R.name m.1 with
  | none => some s
  | some f => R.set f s m.2

/-- Decode an object into the record `s`. -/
def decode (s : σ) : Value → Option σ
  | .null => some s
  | .obj members => members.foldlM R.decodeMember s
  | _ => none

/-- A member that is written under the name of a field. -/
def member (f : φ) (v : Value) : List UInt8 × Value := (ascii (R.name f), v)

@[simp]
theorem decodeMember_member (s : σ) (f : φ) (v : Value) :
    R.decodeMember s (R.member f v) = R.set f s v := by
  rw [decodeMember, member, R.lookup_name]

end RecordFormat

section Slices

variable {α : Type} (zero : α) (elem : α → Value → Option α)

/-- Decode the elements of an array into those of `cur`, as far as there are any. -/
def decodeElems : List α → List Value → Option (List α)
  | _, [] => some []
  | cur, v :: vs => do
    let a ← elem (cur.headD zero) v
    let as ← decodeElems cur.tail vs
    return a :: as

/-- Decode into a slice, where `null` is the absent one. -/
def decodeSlice (cur : Option (List α)) : Value → Option (Option (List α))
  | .null => some none
  | .arr vs => (decodeElems zero elem (cur.getD []) vs).map some
  | _ => none

variable {zero elem}

/-- Elements that do not depend on what is there are decoded one by one. -/
theorem decodeElems_map {as : List α} {enc : α → Value} {g : α → Option α}
    (h : ∀ a cur, elem cur (enc a) = g a) (cur : List α) :
    decodeElems zero elem cur (as.map enc) = as.mapM g := by
  induction as generalizing cur with
  | nil => cases cur <;> rfl
  | cons a as ih =>
    rw [List.map_cons, decodeElems, h, List.mapM_cons]
    simp only [ih]

end Slices

/-- A slice written as an array, or `null`. -/
def encodeSlice {α : Type} (enc : α → Value) : Option (List α) → Value
  | none => .null
  | some as => .arr (as.map enc)

theorem decodeSlice_encodeSlice {α : Type} {zero : α} {elem : α → Value → Option α} {enc : α → Value}
    {g : α → Option α} (h : ∀ a cur, elem cur (enc a) = g a) (s cur : Option (List α)) :
    decodeSlice zero elem cur (encodeSlice enc s) =
      match s with
      | none => some none
      | some as => (as.mapM g).map some := by
  cases s with
  | none => rfl
  | some as => rw [encodeSlice, decodeSlice, decodeElems_map h]

theorem mapM_some {α : Type} (as : List α) : as.mapM (fun a => some a) = some as := by
  induction as with
  | nil => rfl
  | cons a as ih =>
    rw [List.mapM_cons, ih]
    rfl

def decodeString (cur : List UInt8) : Value → Option (List UInt8)
  | .null => some cur
  | .str raw => unquote raw
  | _ => none

/-- Decode an unsigned number of `bits` bits. -/
def decodeUint (bits : ℕ) (cur : ℕ) : Value → Option ℕ
  | .null => some cur
  | .num raw => (ofDigits 10 decimalValue raw).filter fun n => n < 2 ^ bits
  | _ => none

theorem decodeUint_decimal {bits n : ℕ} (h : n < 2 ^ bits) (cur : ℕ) :
    decodeUint bits cur (.num (decimal n)) = some n := by
  rw [decodeUint, ofDigits_decimal]
  simp [h]

/-- Decode a signed number of `bits` bits. -/
def decodeInt (bits : ℕ) : Value → Option ℤ
  | .num (45 :: raw) =>
    ((ofDigits 10 decimalValue raw).filter fun n => n ≤ 2 ^ (bits - 1)).map fun n => -(n : ℤ)
  | .num raw => ((ofDigits 10 decimalValue raw).filter fun n => n < 2 ^ (bits - 1)).map fun n => (n : ℤ)
  | _ => none

/-- Decode a byte. -/
def decodeByte (cur : UInt8) (v : Value) : Option UInt8 := (decodeUint 8 cur.toNat v).map UInt8.ofNat

theorem decodeByte_decimal (b cur : UInt8) : decodeByte cur (.num (decimal b.toNat)) = some b := by
  rw [decodeByte, decodeUint_decimal b.toNat_lt, Option.map_some, UInt8.ofNat_toNat]

/-- Decode an array of `n` bytes: what is missing at the end is zero, what is too much is ignored. -/
def decodeByteArray (n : ℕ) (cur : List UInt8) : Value → Option (List UInt8)
  | .null => some cur
  | .arr vs => (decodeElems 0 decodeByte cur vs).map fun bs => (bs ++ List.replicate n 0).take n
  | _ => none

theorem decodeByteArray_map {n : ℕ} {bs : List UInt8} (h : bs.length = n) (cur : List UInt8) :
    decodeByteArray n cur (.arr (bs.map fun b => .num (decimal b.toNat))) = some bs := by
  have helems : decodeElems 0 decodeByte cur (bs.map fun b => .num (decimal b.toNat)) = some bs := by
    rw [decodeElems_map decodeByte_decimal, mapM_some]
  rw [decodeByteArray, helems, Option.map_some, List.take_left' h]

/-- Decode a slice of bytes: a string in base64, or an array. -/
def decodeByteSlice (cur : List UInt8) : Value → Option (List UInt8)
  | .null => some []
  | .str raw => (unquote raw).bind Base64.decode
  | .arr vs => decodeElems 0 decodeByte cur vs
  | _ => none

/-! ### Well-formed values -/

theorem wf_encodeSlice {α : Type} {enc : α → Value} {s : Option (List α)}
    (h : ∀ a ∈ s.getD [], (enc a).WF) : (encodeSlice enc s).WF := by
  cases s with
  | none => exact wf_null
  | some as =>
    apply wf_arr
    intro v hv
    obtain ⟨a, ha, rfl⟩ := List.mem_map.mp hv
    exact h a ha

/-- ASCII text that needs no escapes is read as it is. -/
theorem unquote_plain {s : List UInt8} (h : ∀ b ∈ s, 0x20 ≤ b ∧ b < 0x80 ∧ b ≠ 34 ∧ b ≠ 92) :
    unquote s = some s := by
  have hvalid : Valid s := by
    have hs := valid_append_of_ascii (fun b hb => (h b hb).2.1) (s := [])
      (fun p hp => absurd hp List.not_mem_nil)
    rwa [List.append_nil] at hs
  rw [unquote, coerce_of_valid hvalid]
  clear hvalid
  induction s with
  | nil => rfl
  | cons b s ih =>
    rw [List.forall_mem_cons] at h
    obtain ⟨⟨hcontrol, -, hquote, hbackslash⟩, hs⟩ := h
    rw [unescape_plain hbackslash hquote (UInt8.not_lt.mpr hcontrol), ih hs]
    rfl

/-! ### Names of fields -/

section Names

variable {φ : Type} {fields : List φ} {name : φ → String}

theorem find?_eq_some_of_nodup {β : Type} [BEq β] [LawfulBEq β] {key : φ → β} {f : φ}
    (hmem : f ∈ fields) (hnodup : (fields.map key).Nodup) :
    fields.find? (fun g => key g == key f) = some f := by
  induction fields with
  | nil => exact absurd hmem List.not_mem_nil
  | cons g gs ih =>
    rw [List.map_cons, List.nodup_cons] at hnodup
    rcases List.mem_cons.mp hmem with rfl | hgs
    · exact List.find?_cons_of_pos (beq_self_eq_true (key f))
    · have hne : ¬ (key g == key f) = true := by
        intro heq
        exact hnodup.1 (eq_of_beq heq ▸ List.mem_map_of_mem hgs)
      exact (List.find?_cons_of_neg (p := fun g => key g == key f) hne).trans (ih hgs hnodup.2)

/-- A field with a plain name is found under it if no two names are equal up to case. -/
theorem lookup_eq_some {f : φ}
    (hplain : ∀ b ∈ ascii (name f), 0x20 ≤ b ∧ b < 0x80 ∧ b ≠ 34 ∧ b ≠ 92) (hmem : f ∈ fields)
    (hnodup : (fields.map fun g => foldName (ascii (name g))).Nodup) :
    lookup fields name (ascii (name f)) = some f := by
  rw [lookup, unquote_plain hplain, Option.bind_some]
  exact find?_eq_some_of_nodup hmem hnodup

end Names

end Suift.Json
