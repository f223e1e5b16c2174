import Suift.Lib.Abi
import Suift.Lib.Fallible

/-!
# Packed values are unpacked to what they were

`Holds output i b` says that the bytes `b` stand at `i`.  A value is `Located` at an index if the decoder finds
it from there: in its place, or at the offset in its place.  The parts of `headTail` are all located
(`Holds.located_cons`), and what is located is read (`toGoType_and_unpackFields_of_holds`).

The decoder also reads offsets that nobody packed.  Every slice that it takes is within bounds nevertheless
(`not_fails_toGoType_and_unpackFields`).
-/

namespace Suift.Abi

open Rlp Fallible

/-- A property of all types, from one of all lists of fields with it. -/
theorem Typ.induction {P : Typ → Prop} {Q : Fields → Prop} (uint : ∀ size, P (.uint size)) (address : P .address)
    (fixedBytes : ∀ size, P (.fixedBytes size)) (bytes : P .bytes) (string : P .string)
    (slice : ∀ elem, P elem → P (.slice elem))
    (tuple : ∀ first others, P first → Q others → P (.tuple first others)) (nil : Q .nil)
    (cons : ∀ first others, P first → Q others → Q (.cons first others)) : (∀ t, P t) ∧ ∀ ts, Q ts :=
  ⟨fun t => Typ.rec uint address fixedBytes bytes string slice tuple nil cons t,
    fun ts => Fields.rec uint address fixedBytes bytes string slice tuple nil cons ts⟩

/-! ### Bytes at a place -/

def Holds (output : List UInt8) (i : ℕ) (b : List UInt8) : Prop :=
  ∃ before behind, before.length = i ∧ output = before ++ (b ++ behind)

namespace Holds

variable {output a b : List UInt8} {i : ℕ}

theorem left (h : Holds output i (a ++ b)) : Holds output i a := by
  obtain ⟨before, behind, hi, rfl⟩ := h
  exact ⟨before, b ++ behind, hi, by rw [List.append_assoc]⟩

theorem right (h : Holds output i (a ++ b)) : Holds output (i + a.length) b := by
  obtain ⟨before, behind, rfl, rfl⟩ := h
  exact ⟨before ++ a, behind, List.length_append, by simp only [List.append_assoc]⟩

theorem le (h : Holds output i b) : i + b.length ≤ output.length := by
  obtain ⟨before, behind, rfl, rfl⟩ := h
  simp only [List.length_append]
  omega

theorem subslice (h : Holds output i b) : subslice output i (i + b.length) = .ok b := by
  have hle := h.le
  obtain ⟨before, behind, rfl, rfl⟩ := h
  rw [Abi.subslice, if_pos ⟨Nat.le_add_right _ _, hle⟩, List.drop_left, Nat.add_sub_cancel_left, List.take_left]

/-- What stands at `i` is at the start of what is there from `i` on. -/
theorem drop (h : Holds output i b) : Holds (output.drop i) 0 b := by
  obtain ⟨before, behind, rfl, rfl⟩ := h
  exact ⟨[], behind, rfl, List.drop_left⟩

end Holds

theorem length_packNum (n : ℕ) : (packNum n).length = 32 := length_bigEndian 32 n

theorem ofBigEndian_packNum {n : ℕ} (h : n < 2 ^ 256) : ofBigEndian (packNum n) = n :=
  ofBigEndian_bigEndian (by norm_num at h ⊢; exact h)

theorem subslice_drop {output : List UInt8} {start : ℕ} (h : start ≤ output.length) :
    subslice output start output.length = .ok (output.drop start) := by
  rw [subslice, if_pos ⟨h, le_rfl⟩, List.take_of_length_le (List.length_drop).le]

/-- The word at an index of which a number is known. -/
theorem Holds.word {output : List UInt8} {index n : ℕ} (h : Holds output index (packNum n)) :
    requireWord index output = .ok () ∧ Abi.subslice output index (index + 32) = .ok (packNum n) := by
  have hle := h.le
  have hword := h.subslice
  rw [length_packNum] at hle hword
  exact ⟨if_neg (by omega), hword⟩

/-! ### Sizes -/

theorem le_getTypeSize (t : Typ) : 32 ≤ getTypeSize t := by
  refine (Typ.induction (P := fun t => 32 ≤ getTypeSize t) (Q := fun _ => True) ?uint ?address ?fixedBytes
    ?bytes ?string ?slice ?tuple ?nil ?cons).1 t
  case tuple =>
    intro first others hfirst _
    rw [getTypeSize]
    split <;> omega
  all_goals simp [getTypeSize]

theorem getTypeSize_of_dynamic {t : Typ} (h : isDynamicType t = true) : getTypeSize t = 32 := by
  cases t with
  | tuple first others =>
    rw [isDynamicType] at h
    rw [getTypeSize, if_pos h]
  | _ => rfl

theorem length_rightPadBytes (b : List UInt8) (l : ℕ) : (rightPadBytes b l).length = max b.length l := by
  rw [rightPadBytes, List.length_append, List.length_replicate]
  omega

/-- The places of packed values take the room that is left for them, if static values do. -/
theorem length_heads_cons {t : Typ} {v : t.Val} (hstatic : isDynamicType t = false → (pack t v).length = getTypeSize t)
    {parts : List Part} {size : ℕ} (hparts : ∀ offset, (heads offset parts).length = size) (offset : ℕ) :
    (heads offset (⟨isDynamicType t, pack t v⟩ :: parts)).length = getTypeSize t + size := by
  rw [heads]
  cases hdynamic : isDynamicType t with
  | true =>
    rw [if_pos rfl, List.length_append, length_packNum, hparts, getTypeSize_of_dynamic hdynamic]
  | false =>
    rw [if_neg Bool.false_ne_true, List.length_append, hparts, hstatic hdynamic]

/-- No values stand behind the places if all are static. -/
theorem tails_packParts {ts : Fields} (h : anyDynamic ts = false) (vs : ts.Val) : tails (packParts ts vs) = [] := by
  refine (Typ.induction (P := fun _ => True)
    (Q := fun ts => anyDynamic ts = false → ∀ vs : ts.Val, tails (packParts ts vs) = []) ?uint ?address ?fixedBytes
    ?bytes ?string ?slice ?tuple ?nil ?cons).2 ts h vs
  case nil =>
    intro _ vs
    rfl
  case cons =>
    rintro first others - ih hstatic ⟨v, vs⟩
    rw [anyDynamic, Bool.or_eq_false_iff] at hstatic
    rw [packParts, tails, hstatic.1, ih hstatic.2]
    rfl
  all_goals simp

theorem length_pack_and_heads :
    (∀ t, isDynamicType t = false → ∀ v, (pack t v).length = getTypeSize t) ∧
      ∀ ts (vs : ts.Val) offset, (heads offset (packParts ts vs)).length = sizeOfFields ts := by
  refine Typ.induction ?uint ?address ?fixedBytes ?bytes ?string ?slice ?tuple ?nil ?cons
  case uint =>
    intro size _ n
    exact length_packNum _
  case address =>
    intro _ a
    exact length_packNum _
  case fixedBytes =>
    intro size _ b
    have hsize := size.isLt
    rw [pack, length_rightPadBytes, length_bigEndian, getTypeSize]
    · omega
    · simp
  case tuple =>
    rintro first others hfirst hothers hstatic ⟨v, vs⟩
    rw [isDynamicType] at hstatic
    have hfields := (Bool.or_eq_false_iff.mp hstatic).2
    have htails : tails (⟨isDynamicType first, pack first v⟩ :: packParts others vs) = [] := by
      rw [tails, (Bool.or_eq_false_iff.mp hstatic).1, tails_packParts hfields]
      rfl
    rw [pack, headTail, htails, List.append_nil, length_heads_cons (fun h => hfirst h v) (hothers vs), getTypeSize,
      if_neg (by rw [hstatic]; exact Bool.false_ne_true)]
  case nil =>
    intro _ _
    rfl
  case cons =>
    rintro first others hfirst hothers ⟨v, vs⟩ offset
    exact length_heads_cons (fun h => hfirst h v) (hothers vs) offset
  all_goals simp [isDynamicType]

theorem length_pack_of_static {t : Typ} (h : isDynamicType t = false) (v : t.Val) :
    (pack t v).length = getTypeSize t :=
  length_pack_and_heads.1 t h v

theorem length_heads_packParts (ts : Fields) (vs : ts.Val) (offset : ℕ) :
    (heads offset (packParts ts vs)).length = sizeOfFields ts :=
  length_pack_and_heads.2 ts vs offset

/-! ### Where a value is found -/

/-- The value `v` is in its place at `index`, or at the offset that is there. -/
def Located (t : Typ) (v : t.Val) (output : List UInt8) (index : ℕ) : Prop :=
  if isDynamicType t then ∃ offset, Holds output index (packNum offset) ∧ Holds output offset (pack t v)
  else Holds output index (pack t v)

/-- The first of the parts that are laid out is located, and the others are laid out behind it. -/
theorem Holds.located_cons {t : Typ} {v : t.Val} {parts : List Part} {output : List UInt8} {index offset : ℕ}
    (hheads : Holds output index (heads offset (⟨isDynamicType t, pack t v⟩ :: parts)))
    (htails : Holds output offset (tails (⟨isDynamicType t, pack t v⟩ :: parts))) :
    Located t v output index ∧ ∃ offset', Holds output (index + getTypeSize t) (heads offset' parts) ∧
      Holds output offset' (tails parts) := by
  rw [heads] at hheads
  rw [tails] at htails
  rw [Located]
  cases hdynamic : isDynamicType t with
  | true =>
    rw [hdynamic, if_pos rfl] at hheads htails
    rw [if_pos rfl, getTypeSize_of_dynamic hdynamic, ← length_packNum offset]
    exact ⟨⟨offset, hheads.left, htails.left⟩, _, hheads.right, htails.right⟩
  | false =>
    rw [hdynamic, if_neg Bool.false_ne_true] at hheads htails
    rw [if_neg Bool.false_ne_true, ← length_pack_of_static hdynamic v]
    exact ⟨hheads.left, offset, hheads.right, htails⟩

/-- Parts that are laid out with their places at the start. -/
theorem Holds.headTail {output : List UInt8} {start size : ℕ} {parts : List Part}
    (h : Holds output start (headTail size parts)) (hsize : (heads size parts).length = size) :
    Holds (output.drop start) 0 (heads size parts) ∧ Holds (output.drop start) size (tails parts) := by
  have hright := h.drop.right
  rw [hsize, Nat.zero_add] at hright
  exact ⟨h.drop.left, hright⟩

variable {output : List UInt8} {index offset n : ℕ}

theorem lengthPrefixPointsTo_of_holds (hlen : output.length < 2 ^ 63) (hoffset : Holds output index (packNum offset))
    (hlength : Holds output offset (packNum n)) (htotal : offset + 32 + n ≤ output.length) :
    lengthPrefixPointsTo index output = .ok (offset + 32, n) := by
  have hlarge : (2 : ℕ) ^ 63 < 2 ^ 256 := Nat.pow_lt_pow_right (by decide) (by decide)
  have hn : ofBigEndian (packNum n) = n := ofBigEndian_packNum (by omega)
  have hstart : ofBigEndian (packNum offset) = offset := ofBigEndian_packNum (by omega)
  simp only [lengthPrefixPointsTo, bind_eq_ok_iff, ite_throw_eq_ok_iff, pure_eq_ok_iff]
  refine ⟨packNum offset, hoffset.word.2, ?_, ?_, packNum n, ?_, ?_, ?_, ?_⟩
  · rw [hstart]; omega
  · rw [hstart]; omega
  · rw [hstart, Nat.add_sub_cancel]
    exact hlength.word.2
  · rw [hstart, hn]; omega
  · rw [hstart, hn]; omega
  · rw [hstart, hn]

theorem tuplePointsTo_of_holds (hlen : output.length < 2 ^ 63) (hoffset : Holds output index (packNum offset))
    (hle : offset ≤ output.length) : tuplePointsTo index output = .ok offset := by
  have hlarge : (2 : ℕ) ^ 63 < 2 ^ 256 := Nat.pow_lt_pow_right (by decide) (by decide)
  have hstart : ofBigEndian (packNum offset) = offset := ofBigEndian_packNum (by omega)
  simp only [tuplePointsTo, bind_eq_ok_iff, ite_throw_eq_ok_iff, pure_eq_ok_iff]
  refine ⟨_, hoffset.word.2, ?_, ?_, hstart⟩
  · rw [hstart]; omega
  · rw [hstart]; omega

/-- The contents of `bytes` and of a `string`. -/
theorem Holds.packBytesSlice {b : List UInt8} (hlen : output.length < 2 ^ 63)
    (hoffset : Holds output index (packNum offset)) (hb : Holds output offset (packBytesSlice b)) :
    lengthPrefixPointsTo index output = .ok (offset + 32, b.length) ∧
      Abi.subslice output (offset + 32) (offset + 32 + b.length) = .ok b := by
  have hcontents := hb.right.left
  rw [length_packNum] at hcontents
  exact ⟨lengthPrefixPointsTo_of_holds hlen hoffset hb.left hcontents.le, hcontents.subslice⟩

/-! ### Reading what was packed -/

/-- A loop reads the elements that are laid out. -/
theorem unpackElems_of_holds {t : Typ} {read : ℕ → Except Error t.Val} {vs : List t.Val}
    (hread : ∀ index v, Located t v output index → read index = .ok v)
    (hheads : Holds output index (heads offset (vs.map fun v => ⟨isDynamicType t, pack t v⟩)))
    (htails : Holds output offset (tails (vs.map fun v => ⟨isDynamicType t, pack t v⟩))) :
    unpackElems read (getTypeSize t) index vs.length = .ok vs := by
  induction vs generalizing index offset with
  | nil => rfl
  | cons v vs ih =>
    obtain ⟨hlocated, offset', hheads', htails'⟩ := hheads.located_cons htails
    simp only [List.length_cons, unpackElems, bind_eq_ok_iff, pure_eq_ok_iff]
    exact ⟨v, hread index v hlocated, vs, ih hheads' htails', rfl⟩

theorem length_heads_map (t : Typ) (vs : List t.Val) (offset : ℕ) :
    (heads offset (vs.map fun v => ⟨isDynamicType t, pack t v⟩)).length = getTypeSize t * vs.length := by
  induction vs generalizing offset with
  | nil => rfl
  | cons v vs ih =>
    rw [List.map_cons, length_heads_cons (fun h => length_pack_of_static h v) ih, List.length_cons]
    ring

theorem toGoType_uint {size : UintSize} {n : BitVec size.bits} (h : Holds output index (packNum n.toNat)) :
    toGoType (.uint size) index output = .ok n := by
  have hlt : n.toNat < 2 ^ size.bits := n.isLt
  have hbits : 2 ^ size.bits ≤ 2 ^ 256 := Nat.pow_le_pow_right (by decide) (by cases size <;> decide)
  have hvalue : ofBigEndian (packNum n.toNat) = n.toNat := ofBigEndian_packNum (by omega)
  rw [toGoType]
  refine bind_eq_ok_iff.mpr ⟨(), h.word.1, bind_eq_ok_iff.mpr ⟨_, h.word.2, ?_⟩⟩
  rw [readInteger, hvalue, if_neg (by omega), BitVec.ofNat_toNat, BitVec.setWidth_eq]

theorem toGoType_address {a : BitVec 160} (h : Holds output index (packNum a.toNat)) :
    toGoType .address index output = .ok a := by
  have hlt : a.toNat < 2 ^ 160 := a.isLt
  have hbits : (2 : ℕ) ^ 160 ≤ 2 ^ 256 := Nat.pow_le_pow_right (by decide) (by decide)
  have hvalue : ofBigEndian (packNum a.toNat) = a.toNat := ofBigEndian_packNum (by omega)
  rw [toGoType]
  refine bind_eq_ok_iff.mpr ⟨(), h.word.1, bind_eq_ok_iff.mpr ⟨_, h.word.2, ?_⟩⟩
  rw [hvalue, BitVec.ofNat_toNat, BitVec.setWidth_eq]
  rfl

theorem toGoType_fixedBytes {size : Fin 33} {b : BitVec (8 * size.val)}
    (h : Holds output index (rightPadBytes (bigEndian size b.toNat) 32)) :
    toGoType (.fixedBytes size) index output = .ok b := by
  have hsize := size.isLt
  have hlength : (rightPadBytes (bigEndian size b.toNat) 32).length = 32 := by
    rw [length_rightPadBytes, length_bigEndian]
    omega
  have hle := h.le
  have hword := h.subslice
  rw [hlength] at hle hword
  have hfirst : subslice (rightPadBytes (bigEndian size b.toNat) 32) 0 size = .ok (bigEndian size b.toNat) := by
    rw [subslice, hlength, if_pos ⟨Nat.zero_le _, by omega⟩, List.drop_zero, Nat.sub_zero, rightPadBytes]
    exact congrArg Except.ok (List.take_left' (length_bigEndian _ _))
  rw [toGoType]
  refine bind_eq_ok_iff.mpr ⟨(), if_neg (by omega), bind_eq_ok_iff.mpr ⟨_, hword, ?_⟩⟩
  rw [readFixedBytes]
  refine bind_eq_ok_iff.mpr ⟨_, hfirst, congrArg Except.ok ?_⟩
  exact (ofNat_ofBigEndian_eq_iff (length_bigEndian _ _)).mpr rfl

theorem toGoType_slice {elem : Typ} {vs : List elem.Val} (hlen : output.length < 2 ^ 63)
    (helem : ∀ v index, Located elem v (output.drop (offset + 32)) index →
      toGoType elem index (output.drop (offset + 32)) = .ok v)
    (hoffset : Holds output index (packNum offset)) (hpacked : Holds output offset (pack (.slice elem) vs)) :
    toGoType (.slice elem) index output = .ok vs := by
  have hpacked : Holds output offset (packNum vs.length ++ headTail (getTypeSize elem * vs.length)
      (vs.map fun v => ⟨isDynamicType elem, pack elem v⟩)) := hpacked
  have hlayout := hpacked.right
  rw [length_packNum] at hlayout
  obtain ⟨hheads, htails⟩ := hlayout.headTail (length_heads_map elem vs _)
  -- there is a word for each element, so that the length is not too large
  have hle := hlayout.le
  have hwords := Nat.mul_le_mul_right vs.length (le_getTypeSize elem)
  rw [headTail, List.length_append, length_heads_map] at hle
  have hpoints := lengthPrefixPointsTo_of_holds hlen hoffset hpacked.left (by omega)
  rw [toGoType]
  refine bind_eq_ok_iff.mpr ⟨(), hoffset.word.1, bind_eq_ok_iff.mpr ⟨_, hpoints, ?_⟩⟩
  refine bind_eq_ok_iff.mpr ⟨_, subslice_drop (by omega), ?_⟩
  rw [forEachUnpack, if_neg (by rw [List.length_drop]; omega)]
  exact unpackElems_of_holds (fun i v hlocated => helem v i hlocated) hheads htails

theorem toGoType_tuple {first : Typ} {others : Fields} {v : first.Val} {vs : others.Val}
    (hlen : output.length < 2 ^ 63)
    (hfirst : ∀ output, output.length < 2 ^ 63 → Located first v output 0 → toGoType first 0 output = .ok v)
    (hothers : ∀ output index offset, output.length < 2 ^ 63 → Holds output index (heads offset (packParts others vs)) →
      Holds output offset (tails (packParts others vs)) → unpackFields others index output = .ok vs)
    (hlocated : Located (.tuple first others) (v, vs) output index) :
    toGoType (.tuple first others) index output = .ok (v, vs) := by
  have hsize : ∀ size, (heads size (⟨isDynamicType first, pack first v⟩ :: packParts others vs)).length =
      getTypeSize first + sizeOfFields others :=
    length_heads_cons (fun h => length_pack_of_static h v) (length_heads_packParts others vs)
  -- both kinds of tuples are read from where their components start
  have hread : ∀ start, Holds output start (pack (.tuple first others) (v, vs)) →
      (do let output ← subslice output start output.length
          let v ← toGoType first 0 output
          let vs ← unpackFields others (getTypeSize first) output
          return (v, vs)) = Except.ok (v, vs) := by
    intro start hstart
    rw [pack] at hstart
    have hle := hstart.le
    obtain ⟨hheads, htails⟩ := hstart.headTail (hsize _)
    obtain ⟨hv, offset', hheads', htails'⟩ := hheads.located_cons htails
    rw [Nat.zero_add] at hheads'
    have hdrop : (output.drop start).length < 2 ^ 63 := by
      rw [List.length_drop]
      omega
    simp only [bind_eq_ok_iff, pure_eq_ok_iff]
    exact ⟨_, subslice_drop (by omega), v, hfirst _ hdrop hv, vs, hothers _ _ _ hdrop hheads' htails', rfl⟩
  unfold Located at hlocated
  rw [isDynamicType] at hlocated
  rw [toGoType]
  cases hdynamic : isDynamicType first || anyDynamic others with
  | true =>
    rw [hdynamic, if_pos rfl] at hlocated
    obtain ⟨offset, hoffset, hpacked⟩ := hlocated
    have hle := hpacked.le
    refine bind_eq_ok_iff.mpr ⟨(), hoffset.word.1, bind_eq_ok_iff.mpr ⟨offset, ?_, hread offset hpacked⟩⟩
    exact tuplePointsTo_of_holds hlen hoffset (by omega)
  | false =>
    rw [hdynamic, if_neg Bool.false_ne_true] at hlocated
    have hword : requireWord index output = .ok () := by
      have hle := hlocated.le
      have hwords := le_getTypeSize first
      rw [pack, headTail, List.length_append, hsize] at hle
      exact if_neg (by omega)
    exact bind_eq_ok_iff.mpr ⟨(), hword, bind_eq_ok_iff.mpr ⟨index, rfl, hread index hlocated⟩⟩

/-- **What is located is read.** -/
theorem toGoType_and_unpackFields_of_holds :
    (∀ t (v : t.Val) output index, output.length < 2 ^ 63 → Located t v output index →
      toGoType t index output = .ok v) ∧
    ∀ ts (vs : ts.Val) output index offset, output.length < 2 ^ 63 →
      Holds output index (heads offset (packParts ts vs)) → Holds output offset (tails (packParts ts vs)) →
        unpackFields ts index output = .ok vs := by
  refine Typ.induction ?uint ?address ?fixedBytes ?bytes ?string ?slice ?tuple ?nil ?cons
  case uint =>
    intro size n output index _ hlocated
    exact toGoType_uint hlocated
  case address =>
    intro a output index _ hlocated
    exact toGoType_address hlocated
  case fixedBytes =>
    intro size b output index _ hlocated
    exact toGoType_fixedBytes hlocated
  case bytes =>
    rintro b output index hlen ⟨offset, hoffset, hb⟩
    obtain ⟨hpoints, hcontents⟩ := Holds.packBytesSlice hlen hoffset hb
    rw [toGoType]
    exact bind_eq_ok_iff.mpr ⟨(), hoffset.word.1, bind_eq_ok_iff.mpr ⟨_, hpoints, hcontents⟩⟩
  case string =>
    rintro b output index hlen ⟨offset, hoffset, hb⟩
    obtain ⟨hpoints, hcontents⟩ := Holds.packBytesSlice hlen hoffset hb
    rw [toGoType]
    exact bind_eq_ok_iff.mpr ⟨(), hoffset.word.1, bind_eq_ok_iff.mpr ⟨_, hpoints, hcontents⟩⟩
  case slice =>
    rintro elem helem vs output index hlen ⟨offset, hoffset, hpacked⟩
    refine toGoType_slice hlen ?_ hoffset hpacked
    intro v i hlocated
    exact helem v _ i (by rw [List.length_drop]; omega) hlocated
  case tuple =>
    rintro first others hfirst hothers ⟨v, vs⟩ output index hlen hlocated
    exact toGoType_tuple hlen (fun output hlen h => hfirst v output 0 hlen h) (hothers vs) hlocated
  case nil =>
    intro vs output index offset _ _ _
    rfl
  case cons =>
    rintro first others hfirst hothers ⟨v, vs⟩ output index offset hlen hheads htails
    obtain ⟨hlocated, offset', hheads', htails'⟩ := hheads.located_cons htails
    rw [unpackFields]
    refine bind_eq_ok_iff.mpr ⟨v, hfirst v output index hlen hlocated, bind_eq_ok_iff.mpr ⟨vs, ?_, rfl⟩⟩
    exact hothers vs output _ offset' hlen hheads' htails'

theorem unpack_of_ne_nil {ts : Fields} {data : List UInt8} (h : data ≠ []) :
    ts.unpack data = unpackFields ts 0 data := by
  cases data with
  | nil => exact absurd rfl h
  | cons b data => cases ts <;> rfl

/-- **Arguments are got back.** -/
theorem unpack_pack {ts : Fields} (vs : ts.Val) (hlen : (ts.pack vs).length < 2 ^ 63) :
    ts.unpack (ts.pack vs) = .ok vs := by
  cases ts with
  | nil => rfl
  | cons first others =>
    have hholds : Holds (Fields.pack (.cons first others) vs) 0 (headTail _ (packParts (.cons first others) vs)) :=
      ⟨[], [], rfl, (List.append_nil _).symm⟩
    have hsize := length_heads_packParts (.cons first others) vs (sizeOfFields (.cons first others))
    have hne : Fields.pack (.cons first others) vs ≠ [] := by
      have hwords := le_getTypeSize first
      rw [sizeOfFields] at hsize
      rw [← List.length_pos_iff, Fields.pack, headTail, List.length_append, sizeOfFields, hsize]
      omega
    obtain ⟨hheads, htails⟩ := hholds.headTail hsize
    rw [unpack_of_ne_nil hne]
    exact toGoType_and_unpackFields_of_holds.2 _ vs _ 0 _ hlen hheads htails

/-! ### Slices are within bounds -/

/-- The error that stops the program. -/
def Error.IsSliceBounds : Error → Prop
  | .error _ => False
  | .sliceBounds _ _ => True

theorem fails_subslice_iff {b : List UInt8} {low high : ℕ} :
    Fails Error.IsSliceBounds (subslice b low high) ↔ ¬ (low ≤ high ∧ high ≤ b.length) := by
  rw [subslice]
  split
  · simp [Fails, *]
  · simp [Fails, Error.IsSliceBounds, *]

theorem subslice_eq_ok_iff {b c : List UInt8} {low high : ℕ} :
    subslice b low high = .ok c ↔ (low ≤ high ∧ high ≤ b.length) ∧ (b.drop low).take (high - low) = c := by
  rw [subslice]
  split <;> simp [*]

theorem requireWord_eq_ok_iff : requireWord index output = .ok () ↔ index + 32 ≤ output.length := by
  rw [requireWord]
  split <;> simp <;> omega

/-- The test comes first, so what follows it is about a word that is there. -/
theorem not_fails_of_requireWord {α : Type} {f : Unit → Except Error α}
    (h : index + 32 ≤ output.length → ¬ Fails Error.IsSliceBounds (f ())) :
    ¬ Fails Error.IsSliceBounds (requireWord index output >>= f) := by
  rw [fails_bind_iff]
  rintro (hword | ⟨⟨⟩, hword, hf⟩)
  · rw [requireWord] at hword
    split at hword <;> simp [Fails, Error.IsSliceBounds] at hword
  · exact h (requireWord_eq_ok_iff.mp hword) hf

/-- The word is within bounds. -/
theorem not_fails_of_word {α : Type} {f : List UInt8 → Except Error α} (hword : index + 32 ≤ output.length)
    (h : ∀ word, word.length = 32 → ¬ Fails Error.IsSliceBounds (f word)) :
    ¬ Fails Error.IsSliceBounds (subslice output index (index + 32) >>= f) := by
  rw [fails_bind_iff, fails_subslice_iff]
  rintro (hbounds | ⟨word, hok, hf⟩)
  · omega
  · obtain ⟨-, rfl⟩ := subslice_eq_ok_iff.mp hok
    refine h _ ?_ hf
    rw [List.length_take, List.length_drop]
    omega

theorem not_fails_lengthPrefixPointsTo (hword : index + 32 ≤ output.length) :
    ¬ Fails Error.IsSliceBounds (lengthPrefixPointsTo index output) := by
  rw [lengthPrefixPointsTo]
  refine not_fails_of_word hword ?_
  intro word _
  simp only [fails_ite_throw_iff, fails_bind_iff, fails_subslice_iff, Error.IsSliceBounds]
  rintro (⟨-, hfalse⟩ | ⟨hend, ⟨-, hfalse⟩ | ⟨-, hbounds | ⟨_, -, ⟨-, hfalse⟩ | ⟨-, ⟨-, hfalse⟩ | ⟨-, hpure⟩⟩⟩⟩⟩)
  case inr.inr.inl => omega
  case inr.inr.inr.inr.inr => exact not_fails_pure _ hpure
  all_goals exact hfalse

/-- Where `lengthPrefixPointsTo` points to is within bounds. -/
theorem le_of_lengthPrefixPointsTo {start : ℕ} (h : lengthPrefixPointsTo index output = .ok (start, n)) :
    start + n ≤ output.length := by
  simp only [lengthPrefixPointsTo, bind_eq_ok_iff, ite_throw_eq_ok_iff, pure_eq_ok_iff, Prod.mk.injEq] at h
  obtain ⟨word, -, -, -, word', -, -, htotal, rfl, rfl⟩ := h
  omega

theorem not_fails_tuplePointsTo (hword : index + 32 ≤ output.length) :
    ¬ Fails Error.IsSliceBounds (tuplePointsTo index output) := by
  rw [tuplePointsTo]
  refine not_fails_of_word hword ?_
  intro word _
  simp only [fails_ite_throw_iff, Error.IsSliceBounds]
  rintro (⟨-, hfalse⟩ | ⟨-, ⟨-, hfalse⟩ | ⟨-, hpure⟩⟩)
  case inr.inr => exact not_fails_pure _ hpure
  all_goals exact hfalse

theorem le_of_tuplePointsTo (h : tuplePointsTo index output = .ok offset) : offset ≤ output.length := by
  simp only [tuplePointsTo, bind_eq_ok_iff, ite_throw_eq_ok_iff, pure_eq_ok_iff] at h
  obtain ⟨word, -, hle, -, rfl⟩ := h
  omega

theorem not_fails_unpackElems {α : Type} {read : ℕ → Except Error α}
    (h : ∀ i, ¬ Fails Error.IsSliceBounds (read i)) (elemSize i size : ℕ) :
    ¬ Fails Error.IsSliceBounds (unpackElems read elemSize i size) := by
  induction size generalizing i with
  | zero => exact not_fails_pure _
  | succ size ih =>
    simp only [unpackElems, fails_bind_iff]
    rintro (hread | ⟨v, -, hrest | ⟨vs, -, hpure⟩⟩)
    · exact h i hread
    · exact ih _ hrest
    · exact not_fails_pure _ hpure

theorem not_fails_readInteger (size : UintSize) (word : List UInt8) :
    ¬ Fails Error.IsSliceBounds (readInteger size word) := by
  rw [readInteger]
  split
  · rintro ⟨e, he, hbounds⟩
    obtain rfl := Except.error.inj he
    exact hbounds
  · exact not_fails_pure _

theorem not_fails_readFixedBytes (size : Fin 33) {word : List UInt8} (h : word.length = 32) :
    ¬ Fails Error.IsSliceBounds (readFixedBytes size word) := by
  have hsize := size.isLt
  rw [readFixedBytes, fails_bind_iff, fails_subslice_iff, h]
  rintro (hbounds | ⟨_, -, hpure⟩)
  · omega
  · exact not_fails_pure _ hpure

theorem not_fails_forEachUnpack {α : Type} {read : ℕ → List UInt8 → Except Error α}
    (h : ∀ i output, ¬ Fails Error.IsSliceBounds (read i output)) (elemSize : ℕ) {start : ℕ}
    (hstart : start ≤ output.length) (size : ℕ) :
    ¬ Fails Error.IsSliceBounds (do
      forEachUnpack read elemSize (← subslice output start output.length) size) := by
  rw [fails_bind_iff, fails_subslice_iff]
  rintro (hbounds | ⟨output', -, hloop⟩)
  · omega
  · rw [forEachUnpack, fails_ite_throw_iff] at hloop
    rcases hloop with ⟨-, hfalse⟩ | ⟨-, hloop⟩
    · exact hfalse
    · exact not_fails_unpackElems (fun i => h i output') _ _ _ hloop

/-- The contents to which a prefix points are within bounds. -/
theorem not_fails_of_lengthPrefix {α : Type} {f : ℕ × ℕ → Except Error α} (hword : index + 32 ≤ output.length)
    (h : ∀ start length, start + length ≤ output.length → ¬ Fails Error.IsSliceBounds (f (start, length))) :
    ¬ Fails Error.IsSliceBounds (lengthPrefixPointsTo index output >>= f) := by
  rw [fails_bind_iff]
  rintro (hpoints | ⟨⟨start, length⟩, hpoints, hf⟩)
  · exact not_fails_lengthPrefixPointsTo hword hpoints
  · exact h start length (le_of_lengthPrefixPointsTo hpoints) hf

theorem not_fails_toGoType_and_unpackFields :
    (∀ t index output, ¬ Fails Error.IsSliceBounds (toGoType t index output)) ∧
      ∀ ts index output, ¬ Fails Error.IsSliceBounds (unpackFields ts index output) := by
  have hcontents : ∀ (output : List UInt8) (start length : ℕ), start + length ≤ output.length →
      ¬ Fails Error.IsSliceBounds (subslice output start (start + length)) := by
    intro output start length hle
    rw [fails_subslice_iff]
    omega
  refine Typ.induction ?uint ?address ?fixedBytes ?bytes ?string ?slice ?tuple ?nil ?cons
  case uint =>
    intro size index output
    rw [toGoType]
    exact not_fails_of_requireWord fun hword =>
      not_fails_of_word hword fun word _ => not_fails_readInteger size word
  case address =>
    intro index output
    rw [toGoType]
    exact not_fails_of_requireWord fun hword => not_fails_of_word hword fun word _ => not_fails_pure _
  case fixedBytes =>
    intro size index output
    rw [toGoType]
    exact not_fails_of_requireWord fun hword =>
      not_fails_of_word hword fun word hlength => not_fails_readFixedBytes size hlength
  case bytes =>
    intro index output
    rw [toGoType]
    exact not_fails_of_requireWord fun hword => not_fails_of_lengthPrefix hword (hcontents output)
  case string =>
    intro index output
    rw [toGoType]
    exact not_fails_of_requireWord fun hword => not_fails_of_lengthPrefix hword (hcontents output)
  case slice =>
    intro elem ih index output
    rw [toGoType]
    exact not_fails_of_requireWord fun hword => not_fails_of_lengthPrefix hword fun start length hle =>
      not_fails_forEachUnpack ih _ (by omega) length
  case tuple =>
    intro first others hfirst hothers index output
    rw [toGoType]
    refine not_fails_of_requireWord fun hword => ?_
    have hcomponents : ∀ start ≤ output.length, ¬ Fails Error.IsSliceBounds (do
        let output ← subslice output start output.length
        let v ← toGoType first 0 output
        let vs ← unpackFields others (getTypeSize first) output
        return (v, vs)) := by
      intro start hle
      simp only [fails_bind_iff, fails_subslice_iff]
      rintro (hbounds | ⟨output', -, hv | ⟨v, -, hvs | ⟨vs, -, hpure⟩⟩⟩)
      · omega
      · exact hfirst 0 output' hv
      · exact hothers _ output' hvs
      · exact not_fails_pure _ hpure
    cases hdynamic : isDynamicType first || anyDynamic others with
    | true =>
      intro hfails
      rcases fails_bind_iff.mp hfails with hpoints | ⟨start, hpoints, hrest⟩
      · exact not_fails_tuplePointsTo hword hpoints
      · exact hcomponents start (le_of_tuplePointsTo hpoints) hrest
    | false => exact hcomponents index (by omega)
  case nil =>
    intro index output
    exact not_fails_pure _
  case cons =>
    intro first others hfirst hothers index output
    rw [unpackFields]
    intro hfails
    rcases fails_bind_iff.mp hfails with hv | ⟨v, -, hrest⟩
    · exact hfirst index output hv
    · rcases fails_bind_iff.mp hrest with hvs | ⟨vs, -, hpure⟩
      · exact hothers _ output hvs
      · exact not_fails_pure _ hpure

/-- **No data stops the decoder**: it gives values or an error. -/
theorem not_fails_unpack (ts : Fields) (data : List UInt8) : ¬ Fails Error.IsSliceBounds (ts.unpack data) := by
  by_cases hdata : data = []
  · subst hdata
    cases ts <;> simp [Fails, Fields.unpack, Error.IsSliceBounds]
  · rw [unpack_of_ne_nil hdata]
    exact not_fails_toGoType_and_unpackFields.2 ts 0 data

end Suift.Abi
