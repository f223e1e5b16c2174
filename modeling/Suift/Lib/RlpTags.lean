import Suift.Lib.Fallible
import Suift.Lib.RlpStream

/-!
# Tags

A tag is read from its shortest form and from nothing else (`readKind_sound`, `readKind_complete`).
`Stream.Reads` says what reading does to a stream: the bytes are taken off the input and off the limit
of the innermost list, where they have to fit.
-/

namespace Suift.Rlp

open Fallible

namespace Stream

/-- `n` more bytes fit into the innermost list. -/
def HasRoom (s : Stream) (n : ℕ) : Prop := ∀ limit ∈ s.stack.head?, n ≤ limit.toNat

/-- The stream `s` continues with the bytes `b`, which fit into the innermost list, and `s'` is left of
it once they have been read. -/
def Reads (s : Stream) (b : List UInt8) (s' : Stream) : Prop :=
  b <+: s.input ∧ s.HasRoom b.length ∧ s' = s.advance b.length

@[simp]
theorem advance_ahead (s : Stream) (n : ℕ) : (s.advance n).ahead = none := rfl

theorem advance_advance (s : Stream) (m n : ℕ) : (s.advance m).advance n = s.advance (m + n) := by
  ext1
  · exact List.drop_drop ..
  · cases hs : s.stack with
    | nil => simp [advance, hs]
    | cons limit outer =>
      have hsub : limit - UInt64.ofNat m - UInt64.ofNat n = limit - UInt64.ofNat (m + n) := by
        rw [UInt64.ofNat_add]
        grind
      simp [advance, hs, hsub]
  · rfl

theorem advance_zero (s : Stream) : s.advance 0 = { s with ahead := none } := by
  ext1
  · rfl
  · cases hs : s.stack with
    | nil => simp [advance, hs]
    | cons limit outer => simp [advance, hs]
  · rfl

theorem reads_nil {s s' : Stream} : s.Reads [] s' ↔ s' = { s with ahead := none } := by
  constructor
  · rintro ⟨-, -, rfl⟩
    exact advance_zero s
  · rintro rfl
    exact ⟨List.nil_prefix, fun _ _ => Nat.zero_le _, (advance_zero s).symm⟩

theorem toNat_sub_ofNat {limit : UInt64} {n : ℕ} (h : n ≤ limit.toNat) :
    (limit - UInt64.ofNat n).toNat = limit.toNat - n := by
  have hn : (UInt64.ofNat n).toNat = n :=
    UInt64.toNat_ofNat_of_lt' (Nat.lt_of_le_of_lt h limit.toNat_lt)
  rw [UInt64.toNat_sub_of_le, hn]
  rw [UInt64.le_iff_toNat_le, hn]
  exact h

theorem length_advance_le (s : Stream) (n : ℕ) : (s.advance n).input.length ≤ s.input.length := by
  rw [advance, List.length_drop]
  omega

/-- What follows a prefix of the input. -/
theorem append_prefix_iff {s : Stream} {a b : List UInt8} (h : a <+: s.input) :
    a ++ b <+: s.input ↔ b <+: (s.advance a.length).input := by
  obtain ⟨rest, hrest⟩ := h
  simp only [advance]
  rw [← hrest, List.drop_left, List.prefix_append_right_inj]

/-- Bytes are read one part after the other. -/
theorem reads_append {s s' : Stream} {a b : List UInt8} :
    s.Reads (a ++ b) s' ↔ ∃ s₁, s.Reads a s₁ ∧ s₁.Reads b s' := by
  have hroom : s.HasRoom a.length →
      (s.HasRoom (a ++ b).length ↔ (s.advance a.length).HasRoom b.length) := by
    intro ha
    unfold HasRoom advance
    cases hs : s.stack with
    | nil => simp
    | cons limit outer =>
      have hlimit : a.length ≤ limit.toNat := ha limit (by rw [hs]; rfl)
      have hsub := toNat_sub_ofNat hlimit
      simp only [List.head?_cons, List.modifyHead_cons, Option.mem_some_iff, forall_eq', hsub,
        List.length_append]
      omega
  constructor
  · rintro ⟨hinput, hlimit, rfl⟩
    have ha : a <+: s.input := (List.prefix_append a b).trans hinput
    have halimit : s.HasRoom a.length := by
      intro limit hl
      have := hlimit limit hl
      rw [List.length_append] at this
      omega
    refine ⟨s.advance a.length, ⟨ha, halimit, rfl⟩, (append_prefix_iff ha).mp hinput,
      (hroom halimit).mp hlimit, ?_⟩
    rw [advance_advance, List.length_append]
  · rintro ⟨s₁, ⟨ha, halimit, rfl⟩, hb, hblimit, rfl⟩
    refine ⟨(append_prefix_iff ha).mpr hb, (hroom halimit).mpr hblimit, ?_⟩
    rw [advance_advance, List.length_append]

end Stream

namespace Decoder

theorem bind_apply_eq_ok_iff {α β : Type} {x : Decoder α} {f : α → Decoder β} {s : Stream}
    {r : β × Stream} : (x >>= f) s = .ok r ↔ ∃ a s₁, x s = .ok (a, s₁) ∧ f a s₁ = .ok r := by
  show (x s >>= fun p => f p.1 p.2) = .ok r ↔ _
  rw [bind_eq_ok_iff]
  simp

theorem pure_apply_eq_ok_iff {α : Type} {a b : α} {s s' : Stream} :
    (pure a : Decoder α) s = .ok (b, s') ↔ a = b ∧ s = s' := by
  show Except.ok (a, s) = .ok (b, s') ↔ _
  rw [Except.ok.injEq, Prod.mk.injEq]

theorem mapError_apply_eq_ok_iff {α : Type} {f : DecodeError → DecodeError} {dec : Decoder α} {s : Stream}
    {r : α × Stream} : dec.mapError f s = .ok r ↔ dec s = .ok r :=
  mapError_eq_ok_iff

/-- A check that throws when `p` holds is passed exactly when `p` fails. -/
theorem ite_throw_apply_eq_ok_iff {α β : Type} {p : Prop} [Decidable p] {e : DecodeError}
    {f : α → Decoder β} {x : Decoder β} {s : Stream} {r : β × Stream} :
    (if p then throw e >>= f else x) s = .ok r ↔ ¬ p ∧ x s = .ok r := by
  by_cases h : p
  · rw [if_pos h]
    exact ⟨nofun, fun hx => absurd h hx.1⟩
  · rw [if_neg h]
    exact ⟨fun hx => ⟨h, hx⟩, fun hx => hx.2⟩

theorem rearm_apply_eq_ok_iff {s s' : Stream} {u : Unit} :
    rearm s = .ok (u, s') ↔ { s with ahead := none } = s' := by
  show Except.ok ((), { s with ahead := none }) = .ok (u, s') ↔ _
  rw [Except.ok.injEq, Prod.mk.injEq]
  exact ⟨fun h => h.2, fun h => ⟨rfl, h⟩⟩

theorem readFull_eq_ok_iff {n : UInt64} {s s' : Stream} {b : List UInt8} :
    readFull n s = .ok (b, s') ↔ b.length = n.toNat ∧ s.Reads b s' := by
  have hroom : ¬ (s.stack.head?.any (· < n)) = true ↔ s.HasRoom n.toNat := by
    cases hs : s.stack with
    | nil => simp [Stream.HasRoom, hs]
    | cons limit outer => simp [Stream.HasRoom, hs, UInt64.le_iff_toNat_le]
  simp only [readFull, ite_throw_eq_ok_iff, hroom, pure_eq_ok_iff, Prod.mk.injEq, Nat.not_lt, Stream.Reads]
  constructor
  · rintro ⟨hlimit, hlength, rfl, rfl⟩
    have hb : (s.input.take n.toNat).length = n.toNat := List.length_take_of_le hlength
    rw [hb]
    exact ⟨rfl, List.take_prefix _ _, hlimit, rfl⟩
  · rintro ⟨hb, hinput, hlimit, rfl⟩
    rw [← hb]
    exact ⟨hlimit, hinput.length_le, (List.prefix_iff_eq_take.mp hinput).symm, rfl⟩

theorem readByte_eq_ok_iff {s s' : Stream} {x : UInt8} :
    readByte s = .ok (x, s') ↔ s.Reads [x] s' := by
  simp only [readByte, bind_apply_eq_ok_iff, readFull_eq_ok_iff, pure_apply_eq_ok_iff]
  constructor
  · rintro ⟨b, s₁, ⟨hlength, hreads⟩, rfl, rfl⟩
    obtain ⟨y, rfl⟩ := List.length_eq_one_iff.mp hlength
    exact hreads
  · intro hreads
    exact ⟨[x], s', ⟨rfl, hreads⟩, rfl, rfl⟩

theorem readTagByte_eq_ok_iff {s s' : Stream} {x : UInt8} :
    readTagByte s = .ok (x, s') ↔ s.Reads [x] s' := by
  rw [readTagByte, mapError_eq_ok_iff, readByte_eq_ok_iff]

theorem toNat_ofNat_ofBigEndian {b : List UInt8} (h : b.length ≤ 8) :
    (UInt64.ofNat (ofBigEndian b)).toNat = ofBigEndian b := by
  apply UInt64.toNat_ofNat_of_lt'
  calc ofBigEndian b < 256 ^ b.length := ofBigEndian_lt b
    _ ≤ 256 ^ 8 := Nat.pow_le_pow_right (by decide) h
    _ = 2 ^ 64 := by decide

/-- A number of up to eight bytes, where more than one byte may not start with zero. -/
theorem readUint_eq_ok_iff {n : ℕ} (h₈ : n ≤ 8) {s s' : Stream} {v : UInt64} :
    readUint n s = .ok (v, s') ↔
      ∃ b, b.length = n ∧ (1 < n → b.head? ≠ some 0) ∧ s.Reads b s' ∧ v.toNat = ofBigEndian b := by
  by_cases hzero : n = 0
  · subst hzero
    simp only [readUint, bind_apply_eq_ok_iff, rearm_apply_eq_ok_iff, pure_apply_eq_ok_iff]
    constructor
    · rintro ⟨-, s₁, rfl, rfl, rfl⟩
      exact ⟨[], rfl, fun h => absurd h (by decide), Stream.reads_nil.mpr rfl, rfl⟩
    · rintro ⟨b, hb, -, hreads, hv⟩
      obtain rfl := List.eq_nil_of_length_eq_zero hb
      exact ⟨(), _, rfl, (UInt64.toNat_inj.mp hv).symm, (Stream.reads_nil.mp hreads).symm⟩
  by_cases hone : n = 1
  · subst hone
    simp only [readUint, bind_apply_eq_ok_iff, readByte_eq_ok_iff, pure_apply_eq_ok_iff]
    constructor
    · rintro ⟨x, s₁, hreads, rfl, rfl⟩
      exact ⟨[x], rfl, fun h => absurd h (by decide), hreads, by simp [ofBigEndian]⟩
    · rintro ⟨b, hb, -, hreads, hv⟩
      obtain ⟨x, rfl⟩ := List.length_eq_one_iff.mp hb
      refine ⟨x, s', hreads, UInt64.toNat_inj.mp ?_, rfl⟩
      rw [hv, ofBigEndian_singleton, UInt8.toNat_toUInt64]
  · have hsize : (UInt64.ofNat n).toNat = n :=
      UInt64.toNat_ofNat_of_lt' (Nat.lt_of_le_of_lt h₈ (by decide))
    simp only [readUint, bind_apply_eq_ok_iff, readFull_eq_ok_iff, ite_throw_apply_eq_ok_iff,
      pure_apply_eq_ok_iff, hsize]
    constructor
    · rintro ⟨b, s₁, ⟨hb, hreads⟩, hhead, rfl, rfl⟩
      exact ⟨b, hb, fun _ => hhead, hreads, toNat_ofNat_ofBigEndian (by omega)⟩
    · rintro ⟨b, hb, hhead, hreads, hv⟩
      refine ⟨b, s', ⟨hb, hreads⟩, hhead (by omega), ?_, rfl⟩
      rw [← hv, UInt64.ofNat_toNat]

/-- The size of a long value is read from its shortest form. -/
theorem longSize_eq_ok_iff {n : ℕ} (h₁ : 1 ≤ n) (h₈ : n ≤ 8) {s s' : Stream} {size : UInt64} :
    longSize n s = .ok (size, s') ↔
      56 ≤ size.toNat ∧ byteLength size.toNat = n ∧ s.Reads (natBytes size.toNat) s' := by
  have hlt : ∀ v : UInt64, ¬ v < 56 ↔ 56 ≤ v.toNat :=
    fun v => UInt64.not_lt.trans UInt64.le_iff_toNat_le
  simp only [longSize, bind_apply_eq_ok_iff, ite_throw_apply_eq_ok_iff, pure_apply_eq_ok_iff, hlt,
    readUint_eq_ok_iff h₈]
  constructor
  · rintro ⟨v, s₁, ⟨b, hb, hzero, hreads, hvalue⟩, hle, rfl, rfl⟩
    -- a single byte is not zero either, since the size is at least 56
    have hhead : b.head? ≠ some 0 := by
      by_cases hn : 1 < n
      · exact hzero hn
      · obtain ⟨x, rfl⟩ := List.length_eq_one_iff.mp (by omega : b.length = 1)
        intro hx
        obtain rfl : x = 0 := Option.some.inj hx
        rw [hvalue] at hle
        exact absurd hle (by decide)
    obtain rfl : b = natBytes v.toNat := by rw [hvalue, natBytes_ofBigEndian hhead]
    exact ⟨hle, (length_natBytes _).symm.trans hb, hreads⟩
  · rintro ⟨hle, hn, hreads⟩
    have hlength : (natBytes size.toNat).length = n := by rw [length_natBytes, hn]
    exact ⟨size, s', ⟨_, hlength, fun _ => head?_natBytes_ne _, hreads, (ofBigEndian_natBytes _).symm⟩,
      hle, rfl, rfl⟩

end Decoder

/-- The bytes of a tag. -/
def Tag.bytes (tag : Tag) : List UInt8 :=
  match tag.kind with
  | .byte => [tag.byteval]
  | .string => header 0x80 0xb7 tag.size.toNat
  | .list => header 0xc0 0xf7 tag.size.toNat

/-- Only the tag of a single byte carries a value. -/
def Tag.Valid (tag : Tag) : Prop :=
  match tag.kind with
  | .byte => tag.size = 0 ∧ tag.byteval < 0x80
  | .string | .list => tag.byteval = 0

namespace Decoder

theorem byteLength_toNat_le (size : UInt64) : byteLength size.toNat ≤ 8 :=
  byteLength_le (Nat.lt_of_lt_of_eq size.toNat_lt (by decide))

/-- The first byte of a tag whose kind starts at `c`. -/
theorem toNat_ofNat_add {c n : ℕ} (h : c + n < 256) : (UInt8.ofNat (c + n)).toNat = c + n := by
  rw [UInt8.toNat_ofNat', Nat.mod_eq_of_lt h]

theorem ofNat_add_toNat_sub {b c : UInt8} (h : c ≤ b) : UInt8.ofNat (c.toNat + (b - c).toNat) = b := by
  apply UInt8.toNat_inj.mp
  have hb : b.toNat < 256 := b.toNat_lt
  have hle : c.toNat ≤ b.toNat := UInt8.le_iff_toNat_le.mp h
  rw [UInt8.toNat_sub_of_le _ _ h, UInt8.toNat_ofNat']
  omega

/-- A short tag is the byte that it was read from. -/
theorem header_of_short {b c : UInt8} (long : ℕ) (h : c ≤ b) (h56 : (b - c).toNat < 56) :
    header c.toNat long (b - c).toUInt64.toNat = [b] := by
  rw [UInt8.toNat_toUInt64, header, if_pos h56, ofNat_add_toNat_sub h]

/-- A long tag is the byte that it was read from and the size behind it. -/
theorem header_of_long {b c : UInt8} {short size : ℕ} (h : c ≤ b) (h56 : 56 ≤ size)
    (hn : byteLength size = (b - c).toNat) :
    header short c.toNat size = b :: natBytes size := by
  rw [header, if_neg (by omega), hn, ofNat_add_toNat_sub h]

theorem readKind_sound {s s' : Stream} {tag : Tag} (h : readKind s = .ok (tag, s')) :
    tag.Valid ∧ s.Reads tag.bytes s' := by
  unfold readKind at h
  rw [bind_apply_eq_ok_iff] at h
  obtain ⟨b, s₁, hb, h⟩ := h
  rw [readTagByte_eq_ok_iff] at hb
  have hbyte : b.toNat < 256 := b.toNat_lt
  -- the size of a long string or list
  have hlong : ∀ {c : UInt8} {k : Kind} (short : ℕ), c.toNat < b.toNat → b.toNat ≤ c.toNat + 8 →
      (longSize (b - c).toNat >>= fun size => pure { kind := k, size := size, byteval := 0 } :
        Decoder Tag) s₁ = .ok (tag, s') →
      ∃ size, tag = { kind := k, size := size, byteval := 0 } ∧
        s.Reads (header short c.toNat size.toNat) s' := by
    intro c k short hlt hle h
    have hcb : c ≤ b := UInt8.le_iff_toNat_le.mpr (by omega)
    have hsub := UInt8.toNat_sub_of_le _ _ hcb
    rw [bind_apply_eq_ok_iff] at h
    obtain ⟨size, s₂, hsize, h⟩ := h
    obtain ⟨rfl, rfl⟩ := Prod.mk.inj (Except.ok.inj h)
    obtain ⟨h56, hn, hreads⟩ := (longSize_eq_ok_iff (by omega) (by omega)).mp hsize
    refine ⟨size, rfl, ?_⟩
    rw [header_of_long hcb h56 hn, ← List.singleton_append, Stream.reads_append]
    exact ⟨s₁, hb, hreads⟩
  have hshort : ∀ {c : UInt8} {k : Kind} (long : ℕ), c ≤ b → b.toNat < c.toNat + 56 →
      (pure { kind := k, size := (b - c).toUInt64, byteval := 0 } : Decoder Tag) s₁ = .ok (tag, s') →
      ∃ size, tag = { kind := k, size := size, byteval := 0 } ∧
        s.Reads (header c.toNat long size.toNat) s' := by
    intro c k long hle hlt h
    have hsub := UInt8.toNat_sub_of_le _ _ hle
    obtain ⟨rfl, rfl⟩ := Prod.mk.inj (Except.ok.inj h)
    refine ⟨_, rfl, ?_⟩
    rw [header_of_short long hle (by omega)]
    exact hb
  by_cases h80 : b < 0x80
  · rw [if_pos h80] at h
    obtain ⟨rfl, rfl⟩ := Prod.mk.inj (Except.ok.inj h)
    exact ⟨⟨rfl, h80⟩, hb⟩
  rw [if_neg h80] at h
  by_cases hb8 : b < 0xb8
  · rw [if_pos hb8] at h
    obtain ⟨size, rfl, hreads⟩ := hshort 0xb7 (UInt8.not_lt.mp h80) (UInt8.lt_iff_toNat_lt.mp hb8) h
    exact ⟨rfl, hreads⟩
  rw [if_neg hb8] at h
  by_cases hc0 : b < 0xc0
  · rw [if_pos hc0] at h
    obtain ⟨size, rfl, hreads⟩ := hlong (c := 0xb7) 0x80
      (UInt8.le_iff_toNat_le.mp (UInt8.not_lt.mp hb8)) (Nat.le_of_lt_succ (UInt8.lt_iff_toNat_lt.mp hc0)) h
    exact ⟨rfl, hreads⟩
  rw [if_neg hc0] at h
  by_cases hf8 : b < 0xf8
  · rw [if_pos hf8] at h
    obtain ⟨size, rfl, hreads⟩ := hshort 0xf7 (UInt8.not_lt.mp hc0) (UInt8.lt_iff_toNat_lt.mp hf8) h
    exact ⟨rfl, hreads⟩
  · rw [if_neg hf8] at h
    obtain ⟨size, rfl, hreads⟩ := hlong (c := 0xf7) 0xc0
      (UInt8.le_iff_toNat_le.mp (UInt8.not_lt.mp hf8)) (Nat.le_of_lt_succ hbyte) h
    exact ⟨rfl, hreads⟩

theorem toNat_sub_eq {b c : UInt8} {n : ℕ} (h : b.toNat = c.toNat + n) : (b - c).toNat = n := by
  rw [UInt8.toNat_sub_of_le _ _ (UInt8.le_iff_toNat_le.mpr (by omega)), h]
  omega

theorem readKind_complete {s s' : Stream} {tag : Tag} (hvalid : tag.Valid)
    (hreads : s.Reads tag.bytes s') : readKind s = .ok (tag, s') := by
  -- the first byte `b` of the tag says which branch is taken
  have hlt : ∀ {b c : UInt8}, b.toNat < c.toNat → b < c := UInt8.lt_iff_toNat_lt.mpr
  have hnot : ∀ {b c : UInt8}, c.toNat ≤ b.toNat → ¬ b < c :=
    fun h hlt => Nat.not_lt.mpr h (UInt8.lt_iff_toNat_lt.mp hlt)
  have hsub : ∀ {b c : UInt8} {size : UInt64}, b.toNat = c.toNat + size.toNat →
      (b - c).toUInt64 = size := by
    intro b c size h
    rw [← UInt64.toNat_inj, UInt8.toNat_toUInt64, toNat_sub_eq h]
  have hsize : ∀ {b c : UInt8} {size : UInt64} {k : Kind} {s₁ : Stream},
      56 ≤ size.toNat → b.toNat = c.toNat + byteLength size.toNat →
      s₁.Reads (natBytes size.toNat) s' →
      (longSize (b - c).toNat >>= fun size => pure { kind := k, size := size, byteval := 0 } :
        Decoder Tag) s₁ = .ok ({ kind := k, size := size, byteval := 0 }, s') := by
    intro b c size k s₁ h56 hb hreads
    have hpos := byteLength_pos (by omega : size.toNat ≠ 0)
    rw [toNat_sub_eq hb, bind_apply_eq_ok_iff]
    exact ⟨size, s', (longSize_eq_ok_iff hpos (byteLength_toNat_le size)).mpr ⟨h56, rfl, hreads⟩, rfl⟩
  obtain ⟨kind, size, byteval⟩ := tag
  have h8 := byteLength_toNat_le size
  unfold readKind
  rw [bind_apply_eq_ok_iff]
  cases kind with
  | byte =>
    obtain ⟨hzero, hb⟩ : size = 0 ∧ byteval < 0x80 := hvalid
    refine ⟨byteval, s', readTagByte_eq_ok_iff.mpr hreads, ?_⟩
    rw [if_pos hb, hzero]
    rfl
  | string =>
    obtain rfl : byteval = 0 := hvalid
    replace hreads : s.Reads (header 0x80 0xb7 size.toNat) s' := hreads
    by_cases h56 : size.toNat < 56
    · rw [header, if_pos h56] at hreads
      have hb := toNat_ofNat_add (by omega : 0x80 + size.toNat < 256)
      refine ⟨_, s', readTagByte_eq_ok_iff.mpr hreads, ?_⟩
      rw [if_neg (hnot (by rw [hb]; exact Nat.le_add_right ..)),
        if_pos (hlt (by rw [hb]; exact Nat.add_lt_add_left h56 _)), hsub hb]
      rfl
    · rw [header, if_neg h56, ← List.singleton_append, Stream.reads_append] at hreads
      obtain ⟨s₁, hfirst, hreads⟩ := hreads
      have hb := toNat_ofNat_add (by omega : 0xb7 + byteLength size.toNat < 256)
      have hpos := byteLength_pos (by omega : size.toNat ≠ 0)
      refine ⟨_, s₁, readTagByte_eq_ok_iff.mpr hfirst, ?_⟩
      rw [if_neg (hnot (by rw [hb]; exact Nat.le_add_right_of_le (by decide))),
        if_neg (hnot (by rw [hb]; exact Nat.add_le_add_left hpos _)),
        if_pos (hlt (by rw [hb]; exact Nat.add_lt_add_left (Nat.lt_succ_of_le h8) _))]
      exact hsize (by omega) hb hreads
  | list =>
    obtain rfl : byteval = 0 := hvalid
    replace hreads : s.Reads (header 0xc0 0xf7 size.toNat) s' := hreads
    by_cases h56 : size.toNat < 56
    · rw [header, if_pos h56] at hreads
      have hb := toNat_ofNat_add (by omega : 0xc0 + size.toNat < 256)
      refine ⟨_, s', readTagByte_eq_ok_iff.mpr hreads, ?_⟩
      rw [if_neg (hnot (by rw [hb]; exact Nat.le_add_right_of_le (by decide))),
        if_neg (hnot (by rw [hb]; exact Nat.le_add_right_of_le (by decide))),
        if_neg (hnot (by rw [hb]; exact Nat.le_add_right ..)),
        if_pos (hlt (by rw [hb]; exact Nat.add_lt_add_left h56 _)), hsub hb]
      rfl
    · rw [header, if_neg h56, ← List.singleton_append, Stream.reads_append] at hreads
      obtain ⟨s₁, hfirst, hreads⟩ := hreads
      have hb := toNat_ofNat_add (by omega : 0xf7 + byteLength size.toNat < 256)
      have hpos := byteLength_pos (by omega : size.toNat ≠ 0)
      refine ⟨_, s₁, readTagByte_eq_ok_iff.mpr hfirst, ?_⟩
      rw [if_neg (hnot (by rw [hb]; exact Nat.le_add_right_of_le (by decide))),
        if_neg (hnot (by rw [hb]; exact Nat.le_add_right_of_le (by decide))),
        if_neg (hnot (by rw [hb]; exact Nat.le_add_right_of_le (by decide))),
        if_neg (hnot (by rw [hb]; exact Nat.add_le_add_left hpos _))]
      exact hsize (by omega) hb hreads

theorem bytes_ne_nil (tag : Tag) : tag.bytes ≠ [] := by
  have hheader : ∀ short long len, header short long len ≠ [] := by
    intro short long len
    unfold header
    split <;> simp
  unfold Tag.bytes
  split
  · simp
  · exact hheader _ _ _
  · exact hheader _ _ _

/-- What is known of the value ahead once its tag has been read. -/
theorem kind_eq_ok_iff {s s' : Stream} {tag : Tag} (hs : s.ahead = none) :
    kind s = .ok (tag, s') ↔
      tag.Valid ∧ (∀ limit ∈ s.stack.head?, tag.size ≤ limit) ∧
        ∃ s₁, s.Reads tag.bytes s₁ ∧ tag.size.toNat ≤ s₁.input.length ∧
          s' = { s₁ with ahead := some tag } := by
  have hsize : ∀ t : Tag, ¬ (s.stack.head?.any (· < t.size)) = true ↔
      ∀ limit ∈ s.stack.head?, t.size ≤ limit := by
    intro t
    cases s.stack <;> simp
  rw [kind, hs]
  show (if s.stack.head? = some 0 then _ else _) = _ ↔ _
  constructor
  · intro h
    by_cases hzero : s.stack.head? = some 0
    · rw [if_pos hzero] at h
      cases h
    · rw [if_neg hzero] at h
      simp only [bind_eq_ok_iff, ite_throw_eq_ok_iff, pure_eq_ok_iff, Prod.exists, hsize, Nat.not_lt,
        Prod.mk.injEq] at h
      obtain ⟨t, s₁, ht, hlimit, hinput, rfl, rfl⟩ := h
      obtain ⟨hvalid, hreads⟩ := readKind_sound ht
      exact ⟨hvalid, hlimit, s₁, hreads, hinput, rfl⟩
  · rintro ⟨hvalid, hlimit, s₁, hreads, hinput, rfl⟩
    have hzero : s.stack.head? ≠ some 0 := by
      intro hzero
      have hroom := hreads.2.1 0 hzero
      exact bytes_ne_nil tag (List.eq_nil_of_length_eq_zero (Nat.le_zero.mp hroom))
    rw [if_neg hzero]
    simp only [bind_eq_ok_iff, ite_throw_eq_ok_iff, pure_eq_ok_iff, Prod.exists, hsize, Nat.not_lt]
    exact ⟨tag, s₁, readKind_complete hvalid hreads, hlimit, hinput, rfl⟩

/-- Once the tag has been read, it is there to be read again. -/
theorem kind_of_kind {s s₁ : Stream} {tag : Tag} (h : kind s = .ok (tag, s₁)) :
    kind s₁ = .ok (tag, s₁) := by
  have hahead : s₁.ahead = some tag := by
    cases hs : s.ahead with
    | none =>
      obtain ⟨-, -, s₀, -, -, rfl⟩ := (kind_eq_ok_iff hs).mp h
      rfl
    | some t =>
      rw [kind, hs] at h
      obtain ⟨rfl, rfl⟩ := Prod.mk.inj (Except.ok.inj h)
      exact hs
  rw [kind, hahead]

end Decoder

end Suift.Rlp
