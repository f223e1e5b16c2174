import Suift.Lib.RlpTags

/-!
# What a decoder accepts

All values that are not structs are byte strings, and their decoders are compared with `bytes`: an
integer is read from the shortest form of its number, an array from all of its bytes and a pointer from
the empty string or from the array it points to.

For a struct two facts are proved by recursion on its type.  Its decoder is `Sound`: it returns a value
only for the encoding of that value.  And it is `Complete`: every encoding that fits is accepted.  They
differ in the limit of the enclosing list, which a nested struct may overrun and make wrap around.  The
enclosing struct is then not at its end, however much is read.
-/

namespace Suift.Rlp

open Fallible

namespace Decoder

/-- What is read behind the tag of a string: the single bytes that need no header are refused. -/
theorem payload_string_eq_ok_iff {s s' : Stream} {size : UInt64} {x : UInt8} {b : List UInt8} :
    payload { kind := .string, size := size, byteval := x } s = .ok (b, s') ↔
      b.length = size.toNat ∧ (∀ x, b = [x] → ¬ x < 0x80) ∧ s.Reads b s' := by
  have hcanon : b.length = size.toNat →
      ((∀ x, b = [x] → ¬ x < 0x80) ↔ ¬ (size = 1 ∧ b.headD 0 < 128)) := by
    intro hsize
    constructor
    · rintro hsmall ⟨rfl, hx⟩
      obtain ⟨x, rfl⟩ := List.length_eq_one_iff.mp hsize
      exact hsmall x rfl hx
    · rintro hcanon x rfl hx
      exact hcanon ⟨UInt64.toNat_inj.mp hsize.symm, hx⟩
  simp only [payload, bind_apply_eq_ok_iff, readFull_eq_ok_iff, ite_throw_apply_eq_ok_iff,
    pure_apply_eq_ok_iff]
  constructor
  · rintro ⟨c, s₁, ⟨hsize, hreads⟩, hc, rfl, rfl⟩
    exact ⟨hsize, (hcanon hsize).mpr hc, hreads⟩
  · rintro ⟨hsize, hsmall, hreads⟩
    exact ⟨b, s', ⟨hsize, hreads⟩, (hcanon hsize).mp hsmall, rfl, rfl⟩

theorem bytes_sound {s s' : Stream} {b : List UInt8} (hs : s.ahead = none)
    (h : bytes s = .ok (b, s')) : s.Reads (encodeBytes b) s' := by
  obtain ⟨⟨kind, size, byteval⟩, s₁, htag, h⟩ := bind_apply_eq_ok_iff.mp h
  obtain ⟨hvalid, -, s₀, hreads, -, rfl⟩ := (kind_eq_ok_iff hs).mp htag
  cases kind with
  | byte =>
    obtain ⟨rfl, rfl⟩ := Prod.mk.inj (Except.ok.inj h)
    obtain rfl := hreads.2.2
    rw [encodeBytes, if_pos hvalid.2]
    exact hreads
  | string =>
    obtain ⟨hsize, hsmall, hpayload⟩ := payload_string_eq_ok_iff.mp h
    rw [encodeBytes_eq_header hsmall, hsize, Stream.reads_append]
    exact ⟨s₀, hreads, hpayload⟩
  | list => cases h

theorem bytes_complete {s s' : Stream} {b : List UInt8} (hs : s.ahead = none)
    (hlength : s.input.length < 2 ^ 64) (hreads : s.Reads (encodeBytes b) s') :
    bytes s = .ok (b, s') := by
  unfold bytes
  rw [bind_apply_eq_ok_iff]
  by_cases hsmall : ∃ x, b = [x] ∧ x < 0x80
  · obtain ⟨x, rfl, hx⟩ := hsmall
    rw [encodeBytes, if_pos hx] at hreads
    refine ⟨{ kind := .byte, size := 0, byteval := x }, _, (kind_eq_ok_iff hs).mpr
      ⟨⟨rfl, hx⟩, fun _ _ => UInt64.zero_le, s', hreads, Nat.zero_le _, rfl⟩, ?_⟩
    obtain rfl := hreads.2.2
    rfl
  · have hsmall' : ∀ x, b = [x] → ¬ x < 0x80 := fun x hb hx => hsmall ⟨x, hb, hx⟩
    rw [encodeBytes_eq_header hsmall'] at hreads
    have htotal := hreads.1.length_le
    have hroom := hreads.2.1
    rw [List.length_append] at htotal hroom
    have hsize : (UInt64.ofNat b.length).toNat = b.length := UInt64.toNat_ofNat_of_lt' (by
      show b.length < 2 ^ 64
      omega)
    obtain ⟨s₀, hheader, hpayload⟩ := Stream.reads_append.mp hreads
    refine ⟨{ kind := .string, size := UInt64.ofNat b.length, byteval := 0 }, _,
      (kind_eq_ok_iff hs).mpr ⟨rfl, ?_, s₀, ?_, ?_, rfl⟩,
      payload_string_eq_ok_iff.mpr ⟨hsize.symm, hsmall', hpayload⟩⟩
    · intro limit hlimit
      have := hroom limit hlimit
      rw [UInt64.le_iff_toNat_le, hsize]
      omega
    · show s.Reads (header 0x80 0xb7 (UInt64.ofNat b.length).toNat) s₀
      rw [hsize]
      exact hheader
    · rw [hsize]
      exact hpayload.1.length_le

/-- A byte string is read from its encoding and from nothing else. -/
theorem bytes_eq_ok_iff {s s' : Stream} {b : List UInt8} (hs : s.ahead = none)
    (hlength : s.input.length < 2 ^ 64) : bytes s = .ok (b, s') ↔ s.Reads (encodeBytes b) s' :=
  ⟨bytes_sound hs, bytes_complete hs hlength⟩

/-! ### Integers and arrays are byte strings -/

/-- Two decoders that look at the tag first agree if they do on every tag. -/
theorem kind_bind_congr {α β : Type} {f : Tag → Decoder α} {g : Tag → Decoder β} {s : Stream}
    {r : α × Stream} {r' : β × Stream}
    (h : ∀ tag s₁, kind s₁ = .ok (tag, s₁) → (f tag s₁ = .ok r ↔ g tag s₁ = .ok r')) :
    (kind >>= f) s = .ok r ↔ (kind >>= g) s = .ok r' := by
  rw [bind_apply_eq_ok_iff, bind_apply_eq_ok_iff]
  constructor
  · rintro ⟨tag, s₁, htag, hf⟩
    exact ⟨tag, s₁, htag, (h tag s₁ (kind_of_kind htag)).mp hf⟩
  · rintro ⟨tag, s₁, htag, hg⟩
    exact ⟨tag, s₁, htag, (h tag s₁ (kind_of_kind htag)).mpr hg⟩

/-- A number of up to eight bytes that is not refused as a single byte. -/
theorem eq_natBytes_iff_of_length_le {b : List UInt8} {v : UInt64} (h : b.length ≤ 8) :
    b = natBytes v.toNat ∧ (∀ x, b = [x] → ¬ x < 0x80) ↔
      (1 < b.length → b.head? ≠ some 0) ∧ v.toNat = ofBigEndian b ∧ (b.length = 0 ∨ 128 ≤ v.toNat) := by
  constructor
  · rintro ⟨rfl, hsingle⟩
    refine ⟨fun _ => head?_natBytes_ne _, (ofBigEndian_natBytes _).symm, ?_⟩
    by_contra hcanon
    have hone : (natBytes v.toNat).length = 1 := by
      have hle : byteLength v.toNat ≤ 1 := byteLength_le (by omega)
      rw [length_natBytes] at hcanon ⊢
      omega
    obtain ⟨x, hx⟩ := List.length_eq_one_iff.mp hone
    have hvalue : v.toNat = x.toNat := by
      rw [← ofBigEndian_natBytes v.toNat, hx, ofBigEndian_singleton]
    apply hsingle x hx
    rw [UInt8.lt_iff_toNat_lt, ← hvalue]
    show v.toNat < 128
    omega
  · rintro ⟨hhead, hvalue, hcanon⟩
    -- a number of one byte is at least 128, so that its byte is not zero
    have hone : ∀ x, b = [x] → 128 ≤ x.toNat := by
      rintro x rfl
      rw [ofBigEndian_singleton] at hvalue
      rw [List.length_singleton] at hcanon
      omega
    have hzero : b.head? ≠ some 0 := by
      match b with
      | [] => simp
      | [x] =>
        intro hx
        obtain rfl : x = 0 := Option.some.inj hx
        exact absurd (hone 0 rfl) (by decide)
      | x :: y :: b => exact hhead (by simp)
    exact ⟨eq_natBytes_iff.mpr ⟨hzero, hvalue.symm⟩,
      fun x hx => UInt8.not_lt.mpr (UInt8.le_iff_toNat_le.mpr (hone x hx))⟩

/-- An integer of up to eight bytes is read from the shortest form of its number. -/
theorem uint_eq_ok_iff {s s' : Stream} {v : UInt64} :
    uint 64 s = .ok (v, s') ↔ bytes s = .ok (natBytes v.toNat, s') := by
  apply kind_bind_congr
  rintro ⟨kind, size, x⟩ s₁ -
  cases kind with
  | byte =>
    simp only [payload, bind_apply_eq_ok_iff, ite_throw_apply_eq_ok_iff, pure_apply_eq_ok_iff]
    have hx : [x] = natBytes v.toNat ↔ ¬ x = 0 ∧ x.toUInt64 = v := by
      rw [eq_natBytes_iff, ofBigEndian_singleton, ← UInt64.toNat_inj, UInt8.toNat_toUInt64]
      simp
    rw [hx]
    constructor
    · rintro ⟨hzero, u, s₂, hs₂, hv, hs'⟩
      exact ⟨u, s₂, hs₂, ⟨hzero, hv⟩, hs'⟩
    · rintro ⟨u, s₂, hs₂, ⟨hzero, hv⟩, hs'⟩
      exact ⟨hzero, u, s₂, hs₂, hv, hs'⟩
  | string =>
    have hsmall : ∀ w : UInt64, ¬ (0 < size ∧ w < 128) ↔ size.toNat = 0 ∨ 128 ≤ w.toNat := by
      intro w
      have hpos : 0 < size ↔ 0 < size.toNat := UInt64.lt_iff_toNat_lt
      have hlt : w < 128 ↔ w.toNat < 128 := UInt64.lt_iff_toNat_lt
      rw [hpos, hlt]
      omega
    rw [payload_string_eq_ok_iff]
    simp only [bind_apply_eq_ok_iff, ite_throw_apply_eq_ok_iff, mapError_apply_eq_ok_iff,
      pure_apply_eq_ok_iff, hsmall, Nat.not_lt]
    constructor
    · rintro ⟨h8, w, s₂, hw, hcanon, rfl, rfl⟩
      obtain ⟨b, hb, hhead, hreads, hvalue⟩ := (readUint_eq_ok_iff h8).mp hw
      rw [← hb] at hhead hcanon
      obtain ⟨rfl, hsingle⟩ := (eq_natBytes_iff_of_length_le (by omega)).mpr ⟨hhead, hvalue, hcanon⟩
      exact ⟨hb, hsingle, hreads⟩
    · rintro ⟨hb, hsingle, hreads⟩
      have h8 : size.toNat ≤ 8 := by
        rw [← hb, length_natBytes]
        exact byteLength_toNat_le v
      obtain ⟨hhead, hvalue, hcanon⟩ := (eq_natBytes_iff_of_length_le (by omega)).mp ⟨rfl, hsingle⟩
      rw [hb] at hhead hcanon
      exact ⟨h8, v, s', (readUint_eq_ok_iff h8).mpr ⟨_, hb, hhead, hreads, hvalue⟩, hcanon, rfl, rfl⟩
  | list => exact ⟨nofun, nofun⟩

/-- An integer of any size is read from the shortest form of its number. -/
theorem bigInt_eq_ok_iff {s s' : Stream} {n : ℕ} :
    bigInt s = .ok (n, s') ↔ bytes s = .ok (natBytes n, s') := by
  apply kind_bind_congr
  intro tag s₁ _
  have hbytes : ∀ b, bigIntBytes tag s₁ = .ok (b, s') ↔ payload tag s₁ = .ok (b, s') := by
    obtain ⟨kind, size, x⟩ := tag
    intro b
    cases kind with
    | byte => exact Iff.rfl
    | string =>
      rw [payload_string_eq_ok_iff]
      show (if size = 0 then _ else if size ≤ 32 then _ else _ : Decoder (List UInt8)) s₁ = _ ↔ _
      by_cases hzero : size = 0
      · rw [if_pos hzero, hzero]
        show Except.ok ([], { s₁ with ahead := none }) = Except.ok (b, s') ↔ _
        rw [Except.ok.injEq, Prod.mk.injEq]
        constructor
        · rintro ⟨rfl, rfl⟩
          exact ⟨rfl, nofun, Stream.reads_nil.mpr rfl⟩
        · rintro ⟨hb, -, hreads⟩
          obtain rfl := List.eq_nil_of_length_eq_zero hb
          exact ⟨rfl, (Stream.reads_nil.mp hreads).symm⟩
      rw [if_neg hzero]
      by_cases h32 : size ≤ 32
      · rw [if_pos h32]
        exact payload_string_eq_ok_iff (x := x)
      · rw [if_neg h32, readFull_eq_ok_iff]
        have hlong : b.length = size.toNat → ∀ x, b = [x] → ¬ x < 0x80 := by
          rintro hb x rfl
          have hone : size = 1 := UInt64.toNat_inj.mp hb.symm
          exact absurd (by rw [hone]; decide) h32
        exact ⟨fun h => ⟨h.1, hlong h.1, h.2⟩, fun h => ⟨h.1, h.2.2⟩⟩
    | list => exact Iff.rfl
  simp only [bind_apply_eq_ok_iff, ite_throw_apply_eq_ok_iff, pure_apply_eq_ok_iff]
  constructor
  · rintro ⟨b, s₂, hb, hzero, rfl, rfl⟩
    rw [natBytes_ofBigEndian hzero]
    exact (hbytes b).mp hb
  · intro h
    exact ⟨natBytes n, s', (hbytes _).mpr h, head?_natBytes_ne n, ofBigEndian_natBytes n, rfl⟩

/-- An array is read from all of its bytes. -/
theorem byteArray_eq_ok_iff {s s' : Stream} {typ : String} {n : ℕ} {a : BitVec (8 * n)} :
    byteArray typ n s = .ok (a, s') ↔ bytes s = .ok (bigEndian n a.toNat, s') := by
  apply kind_bind_congr
  rintro ⟨kind, size, x⟩ s₁ -
  cases kind with
  | byte =>
    simp only [payload, ite_throw_apply_eq_ok_iff, bind_apply_eq_ok_iff, pure_apply_eq_ok_iff,
      rearm_apply_eq_ok_iff]
    constructor
    · rintro ⟨hzero, hone, u, s₂, hs₂, ha, hs'⟩
      obtain rfl : n = 1 := by omega
      rw [← ofBigEndian_singleton, ofNat_ofBigEndian_eq_iff (b := [x]) (n := 1) rfl] at ha
      exact ⟨u, s₂, hs₂, ha, hs'⟩
    · rintro ⟨u, s₂, hs₂, hx, hs'⟩
      obtain rfl : n = 1 := by
        rw [← length_bigEndian n a.toNat, ← hx]
        rfl
      refine ⟨by decide, by decide, u, s₂, hs₂, ?_, hs'⟩
      rw [← ofBigEndian_singleton]
      exact (ofNat_ofBigEndian_eq_iff rfl).mpr hx
  | string =>
    simp only [payload, ite_throw_apply_eq_ok_iff, bind_apply_eq_ok_iff, pure_apply_eq_ok_iff]
    constructor
    · rintro ⟨hle, hge, b, s₂, hb, hcanon, ha, hs'⟩
      have hlength : b.length = n := by
        have := (readFull_eq_ok_iff.mp hb).1
        omega
      exact ⟨b, s₂, hb, hcanon, (ofNat_ofBigEndian_eq_iff hlength).mp ha, hs'⟩
    · rintro ⟨b, s₂, hb, hcanon, ha, hs'⟩
      have hlength : b.length = n := by rw [ha, length_bigEndian]
      have hsize := (readFull_eq_ok_iff.mp hb).1
      exact ⟨by omega, by omega, b, s₂, hb, hcanon, (ofNat_ofBigEndian_eq_iff hlength).mpr ha, hs'⟩
  | list => exact ⟨nofun, nofun⟩

/-- Only an empty string is empty. -/
theorem payload_eq_ok_nil_iff {s s' : Stream} {tag : Tag} :
    payload tag s = .ok ([], s') ↔
      tag.kind = .string ∧ tag.size = 0 ∧ { s with ahead := none } = s' := by
  obtain ⟨kind, size, x⟩ := tag
  cases kind with
  | byte =>
    simp only [payload, bind_apply_eq_ok_iff, pure_apply_eq_ok_iff]
    simp
  | string =>
    rw [payload_string_eq_ok_iff, Stream.reads_nil, ← UInt64.toNat_inj]
    constructor
    · rintro ⟨hsize, -, rfl⟩
      exact ⟨rfl, hsize.symm, rfl⟩
    · rintro ⟨-, hsize, rfl⟩
      exact ⟨hsize.symm, nofun, rfl⟩
  | list => exact ⟨nofun, nofun⟩

/-- A pointer is `nil` for the empty string, and else read like what it points to. -/
theorem nilPtr_eq_ok_iff {s s' : Stream} {typ : String} {n : ℕ} (pos : 0 < n)
    {o : Option (BitVec (8 * n))} :
    nilPtr typ n s = .ok (o, s') ↔
      bytes s = .ok (o.elim [] fun a => bigEndian n a.toNat, s') := by
  have hkind : ∀ (f : Tag → Decoder (Option (BitVec (8 * n)))) (g : DecodeError → DecodeError),
      (kind.mapError g >>= f) s = .ok (o, s') ↔ (kind >>= f) s = .ok (o, s') := by
    intro f g
    rw [bind_apply_eq_ok_iff, bind_apply_eq_ok_iff]
    simp only [mapError, mapError_eq_ok_iff]
  have hne : ∀ a : BitVec (8 * n), bigEndian n a.toNat ≠ [] := by
    intro a ha
    have hlength := length_bigEndian n a.toNat
    rw [ha, List.length_nil] at hlength
    omega
  unfold nilPtr
  rw [hkind]
  apply kind_bind_congr
  intro tag s₁ htag
  by_cases hnil : tag.kind ≠ .byte ∧ tag.size = 0
  · rw [if_pos hnil]
    simp only [ite_throw_apply_eq_ok_iff, bind_apply_eq_ok_iff, pure_apply_eq_ok_iff,
      rearm_apply_eq_ok_iff, not_not]
    constructor
    · rintro ⟨hstring, -, s₂, hs₂, rfl, rfl⟩
      exact payload_eq_ok_nil_iff.mpr ⟨hstring, hnil.2, hs₂⟩
    · intro h
      cases o with
      | none =>
        obtain ⟨hstring, -, rfl⟩ := payload_eq_ok_nil_iff.mp h
        exact ⟨hstring, (), _, rfl, rfl, rfl⟩
      | some a =>
        obtain ⟨kind, size, x⟩ := tag
        cases kind with
        | byte => exact absurd rfl hnil.1
        | string =>
          have hlength := (payload_string_eq_ok_iff.mp h).1
          rw [show size = 0 from hnil.2] at hlength
          exact absurd (List.eq_nil_of_length_eq_zero hlength) (hne a)
        | list => cases h
  · rw [if_neg hnil]
    have hbytes : ∀ b, bytes s₁ = .ok (b, s') ↔ payload tag s₁ = .ok (b, s') := by
      intro b
      unfold bytes
      rw [bind_apply_eq_ok_iff, htag]
      simp
    simp only [bind_apply_eq_ok_iff, pure_apply_eq_ok_iff, byteArray_eq_ok_iff]
    constructor
    · rintro ⟨a, s₂, ha, rfl, rfl⟩
      exact (hbytes _).mp ha
    · intro h
      cases o with
      | none =>
        obtain ⟨hstring, hsize, -⟩ := payload_eq_ok_nil_iff.mp h
        exact absurd ⟨by rw [hstring]; decide, hsize⟩ hnil
      | some a => exact ⟨a, s', (hbytes _).mpr h, rfl, rfl⟩

/-! ### Structs -/

/-- Opening a list sets its size aside, whether or not it fits behind its header. -/
theorem list_eq_ok_iff {s s' : Stream} {size : UInt64} (hs : s.ahead = none) :
    list s = .ok (size, s') ↔
      (∀ limit ∈ s.stack.head?, size ≤ limit) ∧
        ∃ s₁, s.Reads (header 0xc0 0xf7 size.toNat) s₁ ∧ size.toNat ≤ s₁.input.length ∧
          s' = s₁.enter size := by
  unfold list
  simp only [bind_apply_eq_ok_iff, ite_throw_apply_eq_ok_iff, pure_apply_eq_ok_iff, kind_eq_ok_iff hs]
  constructor
  · rintro ⟨tag, s₁, ⟨hvalid, hlimit, s₀, hreads, hinput, rfl⟩, hkind, u, s₂, hs₂, rfl, rfl⟩
    rw [not_not] at hkind
    obtain ⟨kind, size, x⟩ := tag
    obtain rfl : kind = .list := hkind
    obtain ⟨-, rfl⟩ := Prod.mk.inj (Except.ok.inj hs₂)
    exact ⟨hlimit, _, hreads, hinput, rfl⟩
  · rintro ⟨hlimit, s₁, hreads, hinput, rfl⟩
    exact ⟨{ kind := .list, size := size, byteval := 0 }, _, ⟨rfl, hlimit, s₁, hreads, hinput, rfl⟩,
      fun hkind => hkind rfl, (), _, rfl, rfl, rfl⟩

theorem listEnd_eq_ok_iff {s s' : Stream} {u : Unit} :
    listEnd s = .ok (u, s') ↔ s.stack = 0 :: s'.stack ∧ s'.input = s.input ∧ s'.ahead = none := by
  unfold listEnd
  obtain ⟨input, stack, ahead⟩ := s
  obtain ⟨input', stack', ahead'⟩ := s'
  cases stack with
  | nil => simp
  | cons limit outer =>
    by_cases hpos : 0 < limit
    · have hne : limit ≠ 0 := UInt64.pos_iff_ne_zero.mp hpos
      simp [hpos, hne]
    · have hzero : limit = 0 := by
        by_contra hne
        exact hpos (UInt64.pos_iff_ne_zero.mpr hne)
      simp [hzero]
      grind

end Decoder

/-- The types whose values are byte strings. -/
def Schema.IsString : Schema → Prop
  | .struct _ _ => False
  | _ => True

/-- A value that is a byte string is read from its encoding and from nothing else. -/
theorem Schema.decode_eq_ok_iff (type : Schema) (h : type.IsString) {s s' : Stream} {v : type.Val}
    (hs : s.ahead = none) (hlength : s.input.length < 2 ^ 64) :
    type.decode s = .ok (v, s') ↔ s.Reads (encode (type.item v)) s' := by
  have hbytes : ∀ b, Decoder.bytes s = .ok (b, s') ↔ s.Reads (encodeBytes b) s' :=
    fun b => Decoder.bytes_eq_ok_iff hs hlength
  cases type with
  | uint64 =>
    exact (Decoder.mapError_apply_eq_ok_iff.trans Decoder.uint_eq_ok_iff).trans (hbytes _)
  | bigInt =>
    exact (Decoder.mapError_apply_eq_ok_iff.trans Decoder.bigInt_eq_ok_iff).trans (hbytes _)
  | bytes => exact Decoder.mapError_apply_eq_ok_iff.trans (hbytes v)
  | array typ n => exact Decoder.byteArray_eq_ok_iff.trans (hbytes _)
  | nilPtr typ n pos =>
    refine (Decoder.nilPtr_eq_ok_iff pos).trans ((hbytes _).trans ?_)
    cases v <;> exact Iff.rfl
  | struct typ fields => exact h.elim

/-- What the decoder accepts is an encoding of what it returns, and it reads no more than that. -/
def Decoder.Sound {α : Type} (dec : Decoder α) (encoding : α → List UInt8) : Prop :=
  ∀ s s' v, s.ahead = none → s.input.length < 2 ^ 64 → dec s = .ok (v, s') →
    encoding v <+: s.input ∧ s' = s.advance (encoding v).length

/-- The decoder accepts every encoding that fits into the innermost list. -/
def Decoder.Complete {α : Type} (dec : Decoder α) (encoding : α → List UInt8) : Prop :=
  ∀ s s' v, s.ahead = none → s.input.length < 2 ^ 64 → s.Reads (encoding v) s' → dec s = .ok (v, s')

theorem Schema.sound_of_isString (type : Schema) (h : type.IsString) :
    type.decode.Sound fun v => encode (type.item v) := by
  intro s s' v hs hlength hdecode
  obtain ⟨hinit, -, hs'⟩ := (type.decode_eq_ok_iff h hs hlength).mp hdecode
  exact ⟨hinit, hs'⟩

theorem Schema.complete_of_isString (type : Schema) (h : type.IsString) :
    type.decode.Complete fun v => encode (type.item v) := by
  intro s s' v hs hlength hreads
  exact (type.decode_eq_ok_iff h hs hlength).mpr hreads

/-- The limits of the lists tell where a struct ends.  The size in its header is that of its fields, since
both are below `2 ^ 64` and agree modulo that. -/
theorem Decoder.struct_sound {α : Type} {typ : String} {fields : Decoder α} {encoding : α → List UInt8}
    (h : fields.Sound encoding) :
    (Decoder.struct typ fields).Sound fun v =>
      header 0xc0 0xf7 (encoding v).length ++ encoding v := by
  intro s s' v hs hlength hdecode
  unfold Decoder.struct at hdecode
  simp only [Decoder.bind_apply_eq_ok_iff, Decoder.mapError_apply_eq_ok_iff,
    Decoder.list_eq_ok_iff hs, Decoder.listEnd_eq_ok_iff, Decoder.pure_apply_eq_ok_iff] at hdecode
  obtain ⟨size, s₁, ⟨-, s₀, hheader, -, rfl⟩, w, s₂, hfields, -, s₃, ⟨hstack, hinput, hahead⟩,
    rfl, rfl⟩ := hdecode
  obtain ⟨hinit, -, rfl⟩ := hheader
  have hlength₁ := Nat.lt_of_le_of_lt (s.length_advance_le (header 0xc0 0xf7 size.toNat).length) hlength
  obtain ⟨hrest, rfl⟩ := h ((s.advance _).enter size) _ _ rfl hlength₁ hfields
  obtain ⟨hlimit, houter⟩ := List.cons.inj hstack
  have hsize' : size = UInt64.ofNat (encoding w).length := by
    grind
  have hsize : size.toNat = (encoding w).length := by
    rw [hsize']
    exact UInt64.toNat_ofNat_of_lt' (Nat.lt_of_le_of_lt hrest.length_le hlength₁)
  show header 0xc0 0xf7 (encoding w).length ++ encoding w <+: s.input ∧
    s₃ = s.advance (header 0xc0 0xf7 (encoding w).length ++ encoding w).length
  rw [hsize] at hinit hrest houter hinput
  refine ⟨(Stream.append_prefix_iff hinit).mpr hrest, ?_⟩
  rw [List.length_append, ← Stream.advance_advance]
  ext1
  · exact hinput
  · rw [← houter, hsize']
    rfl
  · exact hahead

theorem Decoder.struct_complete {α : Type} {typ : String} {fields : Decoder α}
    {encoding : α → List UInt8} (h : fields.Complete encoding) :
    (Decoder.struct typ fields).Complete fun v =>
      header 0xc0 0xf7 (encoding v).length ++ encoding v := by
  intro s s' v hs hlength hreads
  have hroom := hreads.2.1
  rw [List.length_append] at hroom
  obtain ⟨s₁, hheader, hfields⟩ := Stream.reads_append.mp hreads
  have hlength₁ : s₁.input.length < 2 ^ 64 := by
    rw [hheader.2.2]
    exact Nat.lt_of_le_of_lt (s.length_advance_le _) hlength
  have hsize : (UInt64.ofNat (encoding v).length).toNat = (encoding v).length :=
    UInt64.toNat_ofNat_of_lt' (Nat.lt_of_le_of_lt hfields.1.length_le hlength₁)
  -- inside the struct there is room for exactly its fields
  have hinside : (s₁.enter (UInt64.ofNat (encoding v).length)).Reads (encoding v)
      { s' with stack := 0 :: s'.stack } := by
    refine ⟨hfields.1, ?_, ?_⟩
    · intro limit hlimit
      obtain rfl := Option.some.inj hlimit
      rw [hsize]
    · rw [hfields.2.2]
      simp [Stream.advance, Stream.enter]
  unfold Decoder.struct
  simp only [Decoder.bind_apply_eq_ok_iff, Decoder.mapError_apply_eq_ok_iff,
    Decoder.list_eq_ok_iff hs, Decoder.listEnd_eq_ok_iff, Decoder.pure_apply_eq_ok_iff]
  refine ⟨UInt64.ofNat (encoding v).length, _, ⟨?_, s₁, ?_, ?_, rfl⟩, v, _,
    h _ _ _ rfl hlength₁ hinside, (), s', ⟨rfl, rfl, ?_⟩, rfl, rfl⟩
  · intro limit hlimit
    have := hroom limit hlimit
    rw [UInt64.le_iff_toNat_le, hsize]
    omega
  · rw [hsize]
    exact hheader
  · rw [hsize]
    exact hfields.1.length_le
  · rw [hfields.2.2]
    rfl

theorem Decoder.andFields_sound {α β : Type} {typ name : String} {dec : Decoder α} {rest : Decoder β}
    {encoding : α → List UInt8} {encodings : β → List UInt8} (h : dec.Sound encoding)
    (hrest : rest.Sound encodings) :
    (Decoder.andFields typ name dec rest).Sound fun v => encoding v.1 ++ encodings v.2 := by
  intro s s' v hs hlength hdecode
  unfold Decoder.andFields Decoder.field at hdecode
  simp only [Decoder.bind_apply_eq_ok_iff, Decoder.mapError_apply_eq_ok_iff,
    Decoder.pure_apply_eq_ok_iff] at hdecode
  obtain ⟨a, s₁, ha, b, s₂, hb, rfl, rfl⟩ := hdecode
  obtain ⟨hinit, rfl⟩ := h _ _ _ hs hlength ha
  have hlength₁ := Nat.lt_of_le_of_lt (s.length_advance_le (encoding a).length) hlength
  obtain ⟨hinit', rfl⟩ := hrest _ _ _ rfl hlength₁ hb
  refine ⟨(Stream.append_prefix_iff hinit).mpr hinit', ?_⟩
  rw [Stream.advance_advance, List.length_append]

theorem Decoder.andFields_complete {α β : Type} {typ name : String} {dec : Decoder α} {rest : Decoder β}
    {encoding : α → List UInt8} {encodings : β → List UInt8} (h : dec.Complete encoding)
    (hrest : rest.Complete encodings) :
    (Decoder.andFields typ name dec rest).Complete fun v => encoding v.1 ++ encodings v.2 := by
  rintro s s' ⟨a, b⟩ hs hlength hreads
  obtain ⟨s₁, ha, hb⟩ := Stream.reads_append.mp hreads
  unfold Decoder.andFields Decoder.field
  simp only [Decoder.bind_apply_eq_ok_iff, Decoder.mapError_apply_eq_ok_iff,
    Decoder.pure_apply_eq_ok_iff]
  have hs₁ : s₁.ahead = none := by rw [ha.2.2]; rfl
  have hlength₁ : s₁.input.length < 2 ^ 64 := by
    rw [ha.2.2]
    exact Nat.lt_of_le_of_lt (s.length_advance_le _) hlength
  exact ⟨a, s₁, h _ _ _ hs hlength ha, b, s', hrest _ _ _ hs₁ hlength₁ hb, rfl, rfl⟩

theorem Fields.nil_sound (typ : String) :
    (Fields.nil.decode typ).Sound fun v => encodeAll (Fields.nil.items v) := by
  intro s s' v hs hlength hdecode
  obtain ⟨rfl, rfl⟩ := Decoder.pure_apply_eq_ok_iff.mp hdecode
  refine ⟨List.nil_prefix, ?_⟩
  show s = s.advance 0
  rw [Stream.advance_zero, ← hs]

theorem Fields.nil_complete (typ : String) :
    (Fields.nil.decode typ).Complete fun v => encodeAll (Fields.nil.items v) := by
  intro s s' v hs hlength hreads
  apply Decoder.pure_apply_eq_ok_iff.mpr
  refine ⟨rfl, ?_⟩
  rw [Stream.reads_nil.mp hreads, ← hs]

mutual

theorem Schema.decode_sound : (type : Schema) → type.decode.Sound fun v => encode (type.item v)
  | .uint64 => Schema.sound_of_isString .uint64 trivial
  | .bigInt => Schema.sound_of_isString .bigInt trivial
  | .bytes => Schema.sound_of_isString .bytes trivial
  | .array typ n => Schema.sound_of_isString (.array typ n) trivial
  | .nilPtr typ n pos => Schema.sound_of_isString (.nilPtr typ n pos) trivial
  | .struct typ fields => Decoder.struct_sound (fields.decode_sound typ)

theorem Fields.decode_sound (typ : String) :
    (fields : Fields) → (fields.decode typ).Sound fun v => encodeAll (fields.items v)
  | .nil => Fields.nil_sound typ
  | .cons _ type rest => Decoder.andFields_sound type.decode_sound (rest.decode_sound typ)

end

mutual

theorem Schema.decode_complete : (type : Schema) → type.decode.Complete fun v => encode (type.item v)
  | .uint64 => Schema.complete_of_isString .uint64 trivial
  | .bigInt => Schema.complete_of_isString .bigInt trivial
  | .bytes => Schema.complete_of_isString .bytes trivial
  | .array typ n => Schema.complete_of_isString (.array typ n) trivial
  | .nilPtr typ n pos => Schema.complete_of_isString (.nilPtr typ n pos) trivial
  | .struct typ fields => Decoder.struct_complete (fields.decode_complete typ)

theorem Fields.decode_complete (typ : String) :
    (fields : Fields) → (fields.decode typ).Complete fun v => encodeAll (fields.items v)
  | .nil => Fields.nil_complete typ
  | .cons _ type rest => Decoder.andFields_complete type.decode_complete (rest.decode_complete typ)

end

/-- A decoder that is sound and complete accepts the encodings and nothing else. -/
theorem Decoder.decodeBytes_eq_ok_iff {α : Type} {typ : String} {dec : Decoder α}
    {encoding : α → List UInt8} {b : List UInt8} {v : α} (hsound : dec.Sound encoding)
    (hcomplete : dec.Complete encoding) (hlength : b.length < 2 ^ 64) :
    dec.decodeBytes typ b = .ok v ↔ b = encoding v := by
  simp only [Decoder.decodeBytes, bind_eq_ok_iff, mapError_eq_ok_iff, Prod.exists, ite_throw_eq_ok_iff,
    pure_eq_ok_iff, not_not]
  constructor
  · rintro ⟨w, s, hdecode, hrest, rfl⟩
    obtain ⟨hinit, rfl⟩ := hsound _ _ _ rfl hlength hdecode
    have hle : b.length ≤ (encoding w).length := List.drop_eq_nil_iff.mp hrest
    exact (hinit.eq_of_length_le hle).symm
  · rintro rfl
    have hroom : Stream.HasRoom { input := encoding v, stack := [], ahead := none } (encoding v).length := by
      rintro _ ⟨⟩
    exact ⟨v, _, hcomplete _ _ _ rfl hlength ⟨List.prefix_refl _, hroom, rfl⟩, List.drop_length, rfl⟩

end Suift.Rlp
