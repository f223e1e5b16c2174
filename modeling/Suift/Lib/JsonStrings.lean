import Suift.Lib.JsonDecode
import Mathlib.Data.List.Induction

/-!
# The strings that come out of JSON

Whatever text stands between the quotes, the string that is read from it is well-formed UTF-8
(`valid_of_unquote`).  Invalid bytes are replaced before the escape sequences are looked for, an escape
sequence consists of ASCII characters, and what it stands for is a rune.

What every step of decoding keeps is kept by decoding (`RecordFormat.decode_keeps`, `decodeSlice_keeps`),
so that all strings in a decoded record are well formed.
-/

namespace Suift.Json

open Text Utf8

/-! ### The rune of an escape sequence -/

theorem completes_two {a b : UInt8} {r : ℕ} (hr : 0x80 ≤ r ∧ r < 0x800) (ha : a.toNat = 0xc0 + r / 64)
    (hb : b.toNat = 0x80 + r % 64) : completes a [b] := by
  simp only [completes, shape, UInt8.lt_iff_toNat_lt, UInt8.le_iff_toNat_le, ← UInt8.toNat_inj,
    UInt8.reduceToNat, List.length_cons, List.length_nil, zero_add, List.head?_cons,
    Option.all_some, List.all_cons, List.all_nil, Bool.and_true]
  grind

/-- Of three bytes the first one is `0xed` for the runes before the surrogates and for the surrogates. -/
theorem completes_three {a b c : UInt8} {r : ℕ} (hr : 0x800 ≤ r ∧ r < 0x10000)
    (hsurrogate : r < 0xd800 ∨ 0xe000 ≤ r) (ha : a.toNat = 0xe0 + r / 4096)
    (hb : b.toNat = 0x80 + r / 64 % 64) (hc : c.toNat = 0x80 + r % 64) : completes a [b, c] := by
  simp only [completes, shape, UInt8.lt_iff_toNat_lt, UInt8.le_iff_toNat_le, ← UInt8.toNat_inj,
    UInt8.reduceToNat, List.length_cons, List.length_nil, zero_add, Nat.reduceAdd, List.head?_cons,
    Option.all_some, List.all_cons, List.all_nil, Bool.and_true]
  grind

theorem completes_four {a b c d : UInt8} {r : ℕ} (hr : 0x10000 ≤ r ∧ r < 0x110000)
    (ha : a.toNat = 0xf0 + r / 262144) (hb : b.toNat = 0x80 + r / 4096 % 64)
    (hc : c.toNat = 0x80 + r / 64 % 64) (hd : d.toNat = 0x80 + r % 64) : completes a [b, c, d] := by
  simp only [completes, shape, UInt8.lt_iff_toNat_lt, UInt8.le_iff_toNat_le, ← UInt8.toNat_inj,
    UInt8.reduceToNat, List.length_cons, List.length_nil, zero_add, Nat.reduceAdd, List.head?_cons,
    Option.all_some, List.all_cons, List.all_nil, Bool.and_true]
  grind

/-- The encoding of a number that is no surrogate is a rune. -/
theorem valid_encodeRune_append {r : ℕ} (hr : r < 0x110000) (hsurrogate : r < 0xd800 ∨ 0xe000 ≤ r)
    {s : List UInt8} (hs : Valid s) : Valid (encodeRune r ++ s) := by
  have hbyte : ∀ n < 256, (UInt8.ofNat n).toNat = n := fun n hn => UInt8.toNat_ofNat_of_lt' hn
  unfold encodeRune
  split_ifs with h1 h2 h3
  · have hlt : UInt8.ofNat r < 0x80 := by
      rw [UInt8.lt_iff_toNat_lt, hbyte _ (by omega)]
      exact h1
    exact valid_cons_append (ascii_completes hlt) hs
  · exact valid_cons_append (completes_two (by omega) (hbyte _ (by omega)) (hbyte _ (by omega))) hs
  · exact valid_cons_append (completes_three (by omega) hsurrogate (hbyte _ (by omega))
      (hbyte _ (by omega)) (hbyte _ (by omega))) hs
  · exact valid_cons_append (completes_four (by omega) (hbyte _ (by omega))
      (hbyte _ (by omega)) (hbyte _ (by omega)) (hbyte _ (by omega))) hs

theorem valid_replacement_append {s : List UInt8} (hs : Valid s) :
    Valid (Piece.replacement.bytes ++ s) := by
  have hcompletes : completes 0xef [0xbf, 0xbd] := by decide
  exact valid_cons_append hcompletes hs

/-! ### Reading an escape sequence -/

theorem lt_of_hexValue {c : UInt8} {d : ℕ} (h : hexValue c = some d) : c < 0x80 ∧ d < 16 := by
  unfold hexValue at h
  simp only [UInt8.le_iff_toNat_le, UInt8.reduceToNat] at h
  rw [UInt8.lt_iff_toNat_lt]
  split_ifs at h with hdigit hlower hupper
  all_goals
    obtain rfl := Option.some.inj h
    exact ⟨by simp only [UInt8.reduceToNat]; omega, by omega⟩

/-- Digits are ASCII, and there are not more numbers than digits allow. -/
theorem ofDigits_hex_eq_some {s : List UInt8} {r : ℕ} (h : ofDigits 16 hexValue s = some r) :
    r < 16 ^ s.length ∧ ∀ c ∈ s, c < 0x80 := by
  induction s using List.reverseRecOn generalizing r with
  | nil =>
    obtain rfl : 0 = r := Option.some.inj h
    exact ⟨by decide, fun c hc => absurd hc List.not_mem_nil⟩
  | append_singleton s c ih =>
    unfold ofDigits at h ih
    rw [List.foldlM_append, Option.bind_eq_bind, Option.bind_eq_some_iff] at h
    obtain ⟨m, hm, hc⟩ := h
    simp only [List.foldlM_cons, List.foldlM_nil, Option.bind_eq_bind, Option.pure_def,
      Option.bind_fun_some, Option.map_eq_some_iff] at hc
    obtain ⟨d, hd, rfl⟩ := hc
    obtain ⟨hlt, hascii⟩ := ih hm
    obtain ⟨hc, hd⟩ := lt_of_hexValue hd
    refine ⟨?_, ?_⟩
    · rw [List.length_append, List.length_singleton, pow_succ]
      omega
    · intro b hb
      rcases List.mem_append.mp hb with hb | hb
      · exact hascii b hb
      · obtain rfl := List.mem_singleton.mp hb
        exact hc

theorem hex4_eq_some {s : List UInt8} {r : ℕ} (h : hex4 s = some r) :
    r < 0x10000 ∧ ∀ c ∈ s.take 4, c < 0x80 := by
  unfold hex4 at h
  split_ifs at h with hlength
  obtain ⟨hlt, hascii⟩ := ofDigits_hex_eq_some h
  rw [List.length_take, min_eq_left hlength] at hlt
  exact ⟨hlt, hascii⟩

theorem simpleEscape_eq_some {e c : UInt8} (h : simpleEscape e = some c) : e < 0x80 ∧ c < 0x80 := by
  unfold simpleEscape at h
  split_ifs at h with hsame hb hf hn hr ht
  · obtain rfl := Option.some.inj h
    rcases hsame with rfl | rfl | rfl <;> decide
  all_goals
    subst_vars
    obtain rfl := Option.some.inj h
    decide

theorem lowSurrogate_eq_some {s : List UInt8} {r : ℕ} (h : lowSurrogate s = some r) :
    0xdc00 ≤ r ∧ r < 0xe000 ∧ ∀ c ∈ s.take 6, c < 0x80 := by
  unfold lowSurrogate at h
  split_ifs at h with hstart
  rw [Option.filter_eq_some_iff] at h
  simp only [Bool.and_eq_true, decide_eq_true_eq] at h
  obtain ⟨hhex, hlow, hhigh⟩ := h
  refine ⟨hlow, hhigh, ?_⟩
  have hsplit : s.take 6 = [92, 117] ++ (s.drop 2).take 4 := by
    rw [← hstart, ← List.take_add]
  intro c hc
  rw [hsplit, List.mem_append] at hc
  rcases hc with hc | hc
  · rw [List.mem_pair] at hc
    rcases hc with rfl | rfl
    · decide
    · decide
  · exact (hex4_eq_some hhex).2 c hc

theorem valid_of_append_ascii {t s : List UInt8} (ht : ∀ b ∈ t, b < 0x80) (h : Valid (t ++ s)) : Valid s := by
  induction t with
  | nil => exact h
  | cons b t ih =>
    rw [List.forall_mem_cons] at ht
    apply ih ht.2
    unfold Valid at h
    rw [List.cons_append, show b :: (t ++ s) = b :: ([] ++ (t ++ s)) from rfl,
      pieces_rune_append (ascii_completes ht.1), List.forall_mem_cons] at h
    exact h.2

/-- What follows the ASCII characters at the front of a well-formed string is well formed. -/
theorem valid_drop_of_ascii {s : List UInt8} (n : ℕ) (hs : Valid s) (h : ∀ c ∈ s.take n, c < 0x80) :
    Valid (s.drop n) := by
  rw [← List.take_append_drop n s] at hs
  exact valid_of_append_ascii h hs

/-- What an escape sequence stands for is well formed, and so is what comes after it. -/
theorem escapeSequence_eq_some {s text : List UInt8} {n : ℕ} (hs : Valid s)
    (h : escapeSequence s = some (text, n)) :
    Valid (s.drop n) ∧ ∀ u, Valid u → Valid (text ++ u) := by
  cases s with
  | nil => exact absurd h (by simp [escapeSequence])
  | cons e s =>
    unfold escapeSequence at h
    dsimp only at h
    split_ifs at h with hunicode
    · subst hunicode
      rw [Option.map_eq_some_iff] at h
      obtain ⟨r, hr, h⟩ := h
      obtain ⟨hlt, hdigits⟩ := hex4_eq_some hr
      have hfive : ∀ c ∈ (117 :: s).take 5, c < 0x80 := by
        rw [List.take_succ_cons, List.forall_mem_cons]
        exact ⟨by decide, hdigits⟩
      have hrest := valid_drop_of_ascii 5 hs hfive
      split_ifs at h with hhigh hlow
      · cases hpair : lowSurrogate (s.drop 4) with
        | none =>
          rw [hpair] at h
          obtain ⟨rfl, rfl⟩ := Prod.mk.inj h
          exact ⟨hrest, fun u => valid_replacement_append⟩
        | some r' =>
          rw [hpair] at h
          obtain ⟨rfl, rfl⟩ := Prod.mk.inj h
          obtain ⟨hlow, hhigh', hsecond⟩ := lowSurrogate_eq_some hpair
          refine ⟨?_, fun u => valid_encodeRune_append (by omega) (by omega)⟩
          have hdrop := valid_drop_of_ascii 6 hrest hsecond
          rwa [List.drop_drop] at hdrop
      · obtain ⟨rfl, rfl⟩ := Prod.mk.inj h
        exact ⟨hrest, fun u => valid_replacement_append⟩
      · obtain ⟨rfl, rfl⟩ := Prod.mk.inj h
        exact ⟨hrest, fun u => valid_encodeRune_append (by omega) (by omega)⟩
    · rw [Option.map_eq_some_iff] at h
      obtain ⟨c, hc, h⟩ := h
      obtain ⟨rfl, rfl⟩ := Prod.mk.inj h
      obtain ⟨he, hc⟩ := simpleEscape_eq_some hc
      refine ⟨?_, fun u hu => valid_cons_append (ascii_completes hc) hu⟩
      apply valid_drop_of_ascii 1 hs
      intro b hb
      obtain rfl := List.mem_singleton.mp hb
      exact he

theorem exists_rune_of_valid {b : UInt8} {s : List UInt8} (hs : Valid (b :: s)) :
    ∃ tail rest, s = tail ++ rest ∧ completes b tail ∧ Valid rest := by
  unfold Valid at hs
  cases h : tailLength b s with
  | none =>
    rw [pieces_cons_of_none h, List.forall_mem_cons] at hs
    exact absurd hs.1 (by simp [Piece.isRune])
  | some n =>
    rw [pieces_cons_of_some h, List.forall_mem_cons] at hs
    exact ⟨s.take n, s.drop n, (List.take_append_drop n s).symm, (tailLength_eq_some h).1, hs.2⟩

/-- The string that is read is well formed, by induction along the runes of the text.  Only ASCII
characters take part in escape sequences. -/
theorem valid_of_unescape {s t : List UInt8} (hs : Valid s) (h : unescape s = some t) : Valid t := by
  induction hn : s.length using Nat.strongRecOn generalizing s t with
  | _ n ih =>
    cases s with
    | nil =>
      obtain rfl : [] = t := Option.some.inj h
      exact hs
    | cons b s =>
      by_cases hascii : b < 0x80
      · have hrest : Valid s := valid_drop_of_ascii 1 hs (by simpa using hascii)
        rw [unescape, unescapeAfter] at h
        split_ifs at h with hbackslash hcontrol
        · simp only [Option.bind_eq_bind, Option.bind_eq_some_iff] at h
          obtain ⟨⟨text, k⟩, hseq, rest, hread, hout⟩ := h
          obtain ⟨hdrop, htext⟩ := escapeSequence_eq_some hrest hseq
          obtain rfl : text ++ rest = t := Option.some.inj hout
          rw [unescapeAfter_eq] at hread
          have hlength : (s.drop k).length < n := by
            rw [List.length_drop]
            simp only [List.length_cons] at hn
            omega
          exact htext rest (ih _ hlength hdrop hread rfl)
        · rw [Option.map_eq_some_iff] at h
          obtain ⟨rest, hread, rfl⟩ := h
          have hlength : s.length < n := by
            simp only [List.length_cons] at hn
            omega
          exact valid_cons_append (ascii_completes hascii) (ih _ hlength hrest hread rfl)
      · -- a rune of several bytes stays as it is
        obtain ⟨tail, rest, rfl, hcompletes, hrest⟩ := exists_rune_of_valid hs
        have htail : tail ≠ [] := by
          rintro rfl
          exact hascii (lt_of_completes_nil hcompletes)
        rw [← List.cons_append, unescape_append (le_of_completes hcompletes htail),
          Option.map_eq_some_iff] at h
        obtain ⟨u, hread, rfl⟩ := h
        have hlength : rest.length < n := by
          simp only [List.length_cons, List.length_append] at hn
          omega
        exact valid_cons_append hcompletes (ih _ hlength hrest hread rfl)

/-- **A string that has been read from JSON is UTF-8.** -/
theorem valid_of_unquote {raw s : List UInt8} (h : unquote raw = some s) : Valid s := by
  apply valid_of_unescape _ h
  intro p hp
  rw [pieces_coerce] at hp
  obtain ⟨q, -, rfl⟩ := List.mem_map.mp hp
  exact q.isRune_repaired

theorem valid_of_decodeString {cur s : List UInt8} {v : Value} (hcur : Valid cur)
    (h : decodeString cur v = some s) : Valid s := by
  cases v with
  | null =>
    obtain rfl := Option.some.inj h
    exact hcur
  | str raw => exact valid_of_unquote h
  | _ => exact absurd h (by simp [decodeString])

/-! ### What decoding keeps -/

theorem RecordFormat.decode_keeps {φ σ : Type} {R : RecordFormat φ σ} {P : σ → Prop}
    (hset : ∀ f s v s', P s → R.set f s v = some s' → P s') {s s' : σ} {v : Value} (hs : P s)
    (h : R.decode s v = some s') : P s' := by
  cases v with
  | null =>
    obtain rfl := Option.some.inj h
    exact hs
  | obj members =>
    change members.foldlM R.decodeMember s = some s' at h
    induction members generalizing s with
    | nil =>
      obtain rfl := Option.some.inj h
      exact hs
    | cons m members ih =>
      rw [List.foldlM_cons, Option.bind_eq_bind, Option.bind_eq_some_iff] at h
      obtain ⟨s₁, hm, hrest⟩ := h
      refine ih ?_ hrest
      unfold RecordFormat.decodeMember at hm
      split at hm
      · obtain rfl := Option.some.inj hm
        exact hs
      · exact hset _ s _ s₁ hs hm
  | _ => exact absurd h (by simp [RecordFormat.decode])

section Slices

variable {α : Type} {zero : α} {elem : α → Value → Option α} {P : α → Prop}

theorem decodeElems_keeps (hzero : P zero) (helem : ∀ cur v a, P cur → elem cur v = some a → P a)
    {vs : List Value} {cur as : List α} (hcur : ∀ a ∈ cur, P a)
    (h : decodeElems zero elem cur vs = some as) : ∀ a ∈ as, P a := by
  induction vs generalizing cur as with
  | nil =>
    obtain rfl : [] = as := by cases cur <;> exact Option.some.inj h
    exact fun a ha => absurd ha List.not_mem_nil
  | cons v vs ih =>
    simp only [decodeElems, Option.bind_eq_bind, Option.bind_eq_some_iff] at h
    obtain ⟨a, ha, rest, hrest, hout⟩ := h
    obtain rfl : a :: rest = as := Option.some.inj hout
    rw [List.forall_mem_cons]
    refine ⟨helem _ v a ?_ ha, ih (fun b hb => hcur b (List.mem_of_mem_tail hb)) hrest⟩
    cases cur with
    | nil => exact hzero
    | cons b cur => exact hcur b List.mem_cons_self

theorem decodeSlice_keeps (hzero : P zero) (helem : ∀ cur v a, P cur → elem cur v = some a → P a)
    {cur s : Option (List α)} {v : Value} (hcur : ∀ a ∈ cur.getD [], P a)
    (h : decodeSlice zero elem cur v = some s) : ∀ a ∈ s.getD [], P a := by
  cases v with
  | null =>
    obtain rfl := Option.some.inj h
    exact fun a ha => absurd ha List.not_mem_nil
  | arr vs =>
    unfold decodeSlice at h
    rw [Option.map_eq_some_iff] at h
    obtain ⟨as, has, rfl⟩ := h
    exact decodeElems_keeps hzero helem hcur has
  | _ => exact absurd h (by simp [decodeSlice])

end Slices

end Suift.Json
