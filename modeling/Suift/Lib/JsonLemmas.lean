import Suift.Lib.Json

/-!
# Reading JSON texts back

Strings: every way in which a byte string is written is undone by the reader, piece by piece, and ends
up as one token between the quotes.  Trees: `scanValue_print`, by induction on the tree.
-/

namespace Suift.Json

open Text Utf8

/-! ### Escapes are undone -/

theorem unescapeAfter_eq (n : ℕ) (s : List UInt8) : unescapeAfter n s = unescape (s.drop n) := by
  induction s generalizing n with
  | nil => cases n <;> rfl
  | cons b s ih =>
    cases n with
    | zero => rfl
    | succ n => exact ih n

theorem unescape_plain {b : UInt8} (hbackslash : b ≠ 92) (hquote : b ≠ 34) (hcontrol : ¬ b < 0x20)
    (s : List UInt8) : unescape (b :: s) = (unescape s).map (b :: ·) := by
  rw [unescape, unescapeAfter, if_neg hbackslash, if_neg (by simp [hquote, hcontrol])]
  rfl

theorem unescape_of_escapeSequence {s text : List UInt8} {n : ℕ}
    (h : escapeSequence s = some (text, n)) :
    unescape (92 :: s) = (unescape (s.drop n)).map (text ++ ·) := by
  rw [unescape, unescapeAfter, if_pos rfl, h, ← unescapeAfter_eq]
  cases hrest : unescapeAfter n s <;> simp [hrest]

theorem unescape_simple {e c : UInt8} (hu : e ≠ 117) (h : simpleEscape e = some c) (s : List UInt8) :
    unescape (92 :: e :: s) = (unescape s).map (c :: ·) := by
  have hseq : escapeSequence (e :: s) = some ([c], 1) := by
    rw [escapeSequence, if_neg hu, h]
    rfl
  exact unescape_of_escapeSequence hseq

theorem unescape_unicode {a b c d : UInt8} {r : ℕ} (h : ofDigits 16 hexValue [a, b, c, d] = some r)
    (hr : r < 0xd800 ∨ 0xe000 ≤ r) (s : List UInt8) :
    unescape (92 :: 117 :: a :: b :: c :: d :: s) = (unescape s).map (encodeRune r ++ ·) := by
  have hhex : hex4 (a :: b :: c :: d :: s) = some r := by
    rw [hex4, if_pos (by simp)]
    exact h
  have hseq : escapeSequence (117 :: a :: b :: c :: d :: s) = some (encodeRune r, 5) := by
    rw [escapeSequence, if_pos rfl, hhex, Option.map_some, if_neg (by omega), if_neg (by omega)]
  exact unescape_of_escapeSequence hseq

theorem ofDigits_control :
    ∀ n < 128, ofDigits 16 hexValue [48, 48, hexDigit (n / 16), hexDigit (n % 16)] = some n := by
  decide

theorem unescape_escapeAscii {b : UInt8} (hb : b < 0x80) (s : List UInt8) :
    unescape (escapeAscii b ++ s) = (unescape s).map (b :: ·) := by
  have hlt : b.toNat < 128 := UInt8.lt_iff_toNat_lt.mp hb
  unfold escapeAscii
  split_ifs with hquote hnewline hreturn htab hcontrol
  · have hsimple : simpleEscape b = some b := by
      rcases hquote with rfl | rfl <;> decide
    have hu : b ≠ 117 := by
      rcases hquote with rfl | rfl <;> decide
    exact unescape_simple hu hsimple s
  · subst hnewline
    exact unescape_simple (by decide) (by decide) s
  · subst hreturn
    exact unescape_simple (by decide) (by decide) s
  · subst htab
    exact unescape_simple (by decide) (by decide) s
  · have hrune : encodeRune b.toNat = [b] := by
      rw [encodeRune, if_pos hlt, UInt8.ofNat_toNat]
    have hunicode := unescape_unicode (ofDigits_control _ hlt) (by omega) s
    rw [hrune] at hunicode
    exact hunicode
  · rw [not_or] at hquote hcontrol
    exact unescape_plain hquote.2 hquote.1 hcontrol.1 s

theorem unescape_append {t : List UInt8} (ht : ∀ b ∈ t, 0x80 ≤ b) (s : List UInt8) :
    unescape (t ++ s) = (unescape s).map (t ++ ·) := by
  induction t with
  | nil => simp
  | cons b t ih =>
    rw [List.forall_mem_cons] at ht
    have hb : 128 ≤ b.toNat := UInt8.le_iff_toNat_le.mp ht.1
    have hplain : b ≠ 92 ∧ b ≠ 34 ∧ ¬ b < 0x20 := by
      refine ⟨?_, ?_, ?_⟩
      · rintro rfl
        exact absurd hb (by decide)
      · rintro rfl
        exact absurd hb (by decide)
      · rw [UInt8.lt_iff_toNat_lt, not_lt]
        exact le_trans (by decide) hb
    rw [List.cons_append, unescape_plain hplain.1 hplain.2.1 hplain.2.2, ih ht.2, Option.map_map]
    rfl

/-! ### The bytes of a rune -/

theorem lt_of_completes_nil {b : UInt8} (h : completes b []) : b < 0x80 := by
  unfold completes shape at h
  split_ifs at h with hb
  all_goals first | exact hb | simp at h

theorem ascii_completes {b : UInt8} (h : b < 0x80) : completes b [] := by
  unfold completes shape
  rw [if_pos h]
  rfl

theorem le_of_completes {b : UInt8} {tail : List UInt8} (h : completes b tail) (htail : tail ≠ []) :
    ∀ c ∈ b :: tail, 0x80 ≤ c := by
  unfold completes shape at h
  rw [List.forall_mem_cons]
  by_cases hb : b < 0x80
  · rw [if_pos hb] at h
    simp only [Bool.and_eq_true, decide_eq_true_eq] at h
    exact absurd (List.length_eq_zero_iff.mp h.1.1) htail
  · refine ⟨UInt8.not_lt.mp hb, ?_⟩
    intro c hc
    have hall : (tail.all fun c => 0x80 ≤ c && c ≤ 0xbf) = true := by
      rw [if_neg hb] at h
      split at h
      · exact absurd h (by simp)
      · exact (Bool.and_eq_true _ _ ▸ h).2
    have hc' := List.all_eq_true.mp hall c hc
    simp only [Bool.and_eq_true, decide_eq_true_eq] at hc'
    exact hc'.1

/-! ### Strings are read back -/

theorem escapePiece_rune (b : UInt8) (tail : List UInt8) :
    escapePiece (.rune b tail) =
      if tail = [] then escapeAscii b
      else if b = 0xe2 ∧ tail = [0x80, 0xa8] then ascii "\\u2028"
      else if b = 0xe2 ∧ tail = [0x80, 0xa9] then ascii "\\u2029"
      else b :: tail := rfl

theorem escapePiece_invalid (b : UInt8) : escapePiece (.invalid b) = ascii "\\ufffd" := rfl

theorem unescape_escapePiece {p : Piece} (hp : p.WF) (s : List UInt8) :
    unescape (escapePiece p ++ s) = (unescape s).map (p.repaired.bytes ++ ·) := by
  cases p with
  | invalid b =>
    have hdigits : ofDigits 16 hexValue [102, 102, 102, 100] = some 0xfffd := by decide
    exact unescape_unicode hdigits (by omega) s
  | rune b tail =>
    rw [escapePiece_rune]
    split_ifs with hnil hline hparagraph
    · subst hnil
      exact unescape_escapeAscii (lt_of_completes_nil hp) s
    · obtain ⟨rfl, rfl⟩ := hline
      have hdigits : ofDigits 16 hexValue [50, 48, 50, 56] = some 0x2028 := by decide
      exact unescape_unicode hdigits (by omega) s
    · obtain ⟨rfl, rfl⟩ := hparagraph
      have hdigits : ofDigits 16 hexValue [50, 48, 50, 57] = some 0x2029 := by decide
      exact unescape_unicode hdigits (by omega) s
    · exact unescape_append (le_of_completes hp hnil) s

theorem unescape_flatMap_escapePiece {ps : List Piece} (hwf : ∀ p ∈ ps, p.WF) :
    unescape (ps.flatMap escapePiece) = some (ps.flatMap fun p => p.repaired.bytes) := by
  induction ps with
  | nil => rfl
  | cons p ps ih =>
    rw [List.forall_mem_cons] at hwf
    rw [List.flatMap_cons, unescape_escapePiece hwf.1, ih hwf.2, List.flatMap_cons]
    rfl

theorem valid_cons_append {b : UInt8} {tail s : List UInt8} (h : completes b tail) (hs : Valid s) :
    Valid (b :: (tail ++ s)) := by
  unfold Valid
  rw [pieces_rune_append h, List.forall_mem_cons]
  exact ⟨rfl, hs⟩

theorem valid_append_of_ascii {t s : List UInt8} (ht : ∀ b ∈ t, b < 0x80) (hs : Valid s) :
    Valid (t ++ s) := by
  induction t with
  | nil => exact hs
  | cons b t ih =>
    rw [List.forall_mem_cons] at ht
    have hcons := valid_cons_append (ascii_completes ht.1) (ih ht.2)
    exact hcons

theorem hexDigit_lt : ∀ d < 16, hexDigit d < 0x80 := by decide

theorem escapeAscii_lt {b : UInt8} (hb : b < 0x80) : ∀ c ∈ escapeAscii b, c < 0x80 := by
  have hlt : b.toNat < 128 := UInt8.lt_iff_toNat_lt.mp hb
  have hhi := hexDigit_lt (b.toNat / 16) (by omega)
  have hlo := hexDigit_lt (b.toNat % 16) (by omega)
  unfold escapeAscii
  split_ifs <;> simp [hb, hhi, hlo]

theorem valid_escapePiece_append {p : Piece} (hp : p.WF) {s : List UInt8} (hs : Valid s) :
    Valid (escapePiece p ++ s) := by
  cases p with
  | invalid b =>
    rw [escapePiece_invalid]
    exact valid_append_of_ascii (by decide +kernel) hs
  | rune b tail =>
    rw [escapePiece_rune]
    split_ifs with hnil
    · subst hnil
      exact valid_append_of_ascii (escapeAscii_lt (lt_of_completes_nil hp)) hs
    · exact valid_append_of_ascii (by decide +kernel) hs
    · exact valid_append_of_ascii (by decide +kernel) hs
    · exact valid_cons_append hp hs

/-- What is written is UTF-8, also for strings that are not. -/
theorem valid_escape (s : List UInt8) : Valid (escape s) := by
  unfold escape
  have hwf := wf_of_mem_pieces s
  generalize pieces s = ps at hwf
  induction ps with
  | nil => exact fun p hp => absurd hp List.not_mem_nil
  | cons p ps ih =>
    rw [List.forall_mem_cons] at hwf
    exact valid_escapePiece_append hwf.1 (ih hwf.2)

/-- **Strings come back coerced.** -/
theorem unquote_escape (s : List UInt8) : unquote (escape s) = some (coerce s) := by
  rw [unquote, coerce_of_valid (valid_escape s)]
  exact unescape_flatMap_escapePiece (wf_of_mem_pieces s)

theorem isRune_of_escape_repaired {ps : List Piece}
    (h : (ps.flatMap fun p => escapePiece p.repaired) = ps.flatMap escapePiece) :
    ∀ p ∈ ps, p.isRune := by
  induction ps with
  | nil => exact fun p hp => absurd hp List.not_mem_nil
  | cons p ps ih =>
    rw [List.flatMap_cons, List.flatMap_cons] at h
    rw [List.forall_mem_cons]
    cases p with
    | rune b tail => exact ⟨rfl, ih (List.append_cancel_left h)⟩
    -- `U+FFFD` itself is not escaped, so the two texts differ in the first byte
    | invalid b => exact absurd (List.cons.inj h).1 (by decide)

/-- Writing the string that has been read gives the same text exactly for UTF-8. -/
theorem escape_coerce_eq_iff (s : List UInt8) : escape (coerce s) = escape s ↔ Valid s := by
  constructor
  · intro h
    unfold escape at h
    rw [pieces_coerce, List.flatMap_map] at h
    exact isRune_of_escape_repaired h
  · intro h
    rw [coerce_of_valid h]

theorem escapePiece_of_rune?_eq {p q : Piece} (h : p.rune? = q.rune?) : escapePiece p = escapePiece q := by
  cases p with
  | rune b tail =>
    rw [eq_of_rune?_eq h rfl]
  | invalid b =>
    cases q with
    | rune c tail => cases h
    | invalid c => rfl

/-- The texts of two strings are the same if they have the same runes. -/
theorem escape_of_runes_eq {s t : List UInt8} (h : runes s = runes t) : escape s = escape t := by
  have hpieces : ∀ ps qs : List Piece, ps.map Piece.rune? = qs.map Piece.rune? →
      ps.flatMap escapePiece = qs.flatMap escapePiece := by
    intro ps
    induction ps with
    | nil =>
      intro qs hqs
      rw [List.map_eq_nil_iff.mp hqs.symm]
    | cons p ps ih =>
      intro qs hqs
      cases qs with
      | nil => exact absurd hqs (by simp)
      | cons q qs =>
        obtain ⟨hhead, htail⟩ := List.cons.inj hqs
        rw [List.flatMap_cons, List.flatMap_cons, escapePiece_of_rune?_eq hhead, ih qs htail]
  exact hpieces _ _ h

/-- Pieces that are read alike and written alike have the same runes. -/
theorem rune?_eq_of_escape_eq {ps qs : List Piece} (hread : ps.map Piece.repaired = qs.map Piece.repaired)
    (hwrite : ps.flatMap escapePiece = qs.flatMap escapePiece) :
    ps.map Piece.rune? = qs.map Piece.rune? := by
  induction ps generalizing qs with
  | nil => rw [List.map_eq_nil_iff.mp hread.symm]
  | cons p ps ih =>
    cases qs with
    | nil => exact absurd hread (by simp)
    | cons q qs =>
      obtain ⟨hhead, htail⟩ := List.cons.inj hread
      rw [List.flatMap_cons, List.flatMap_cons] at hwrite
      -- the replacement character is not escaped, so it is not mistaken for an invalid byte
      have hpq : p.rune? = q.rune? := by
        cases p with
        | rune b t =>
          cases q with
          | rune c t' =>
            obtain ⟨rfl, rfl⟩ := Piece.rune.inj hhead
            rfl
          | invalid c =>
            obtain ⟨rfl, rfl⟩ := Piece.rune.inj hhead
            exact absurd (List.cons.inj hwrite).1 (by decide)
        | invalid b =>
          cases q with
          | rune c t' =>
            obtain ⟨rfl, rfl⟩ := Piece.rune.inj hhead
            exact absurd (List.cons.inj hwrite).1 (by decide)
          | invalid c => rfl
      rw [escapePiece_of_rune?_eq hpq] at hwrite
      rw [List.map_cons, List.map_cons, hpq, ih htail (List.append_cancel_left hwrite)]

/-- The text of a string says which runes it has and where there are invalid bytes, and no more. -/
theorem escape_eq_iff {s t : List UInt8} : escape s = escape t ↔ runes s = runes t := by
  refine ⟨fun h => rune?_eq_of_escape_eq ?_ h, escape_of_runes_eq⟩
  have hcoerce : coerce s = coerce t := by
    apply Option.some.inj
    rw [← unquote_escape, ← unquote_escape, h]
  rw [← pieces_coerce, ← pieces_coerce, hcoerce]

/-! ### Tokens -/

/-- `raw` is read as a whole when it stands between quotes. -/
def Token (raw : List UInt8) : Prop := ∀ rest, scanString (raw ++ 34 :: rest) = some (raw, rest)

theorem token_nil : Token [] := fun _ => rfl

theorem token_cons {b : UInt8} (hquote : b ≠ 34) (hbackslash : b ≠ 92) (hcontrol : ¬ b < 0x20)
    {t : List UInt8} (ht : Token t) : Token (b :: t) := by
  intro rest
  have hrest := ht rest
  unfold scanString at hrest ⊢
  rw [List.cons_append, scanStringFrom, if_neg hquote, if_neg (by simp [hcontrol, hbackslash]),
    decide_eq_false hbackslash, hrest]
  rfl

theorem token_escape {e : UInt8} {t : List UInt8} (h : ∀ rest, beginsEscape (e :: (t ++ rest)))
    (ht : Token t) : Token (92 :: e :: t) := by
  intro rest
  have hrest := ht rest
  have hbegins := h (34 :: rest)
  unfold scanString at hrest ⊢
  rw [List.cons_append, List.cons_append, scanStringFrom, if_neg (by decide), if_neg (by simp [hbegins]),
    decide_eq_true rfl, scanStringFrom, hrest]
  rfl

/-- Bytes that stand for themselves. -/
theorem token_append_plain {u t : List UInt8} (hu : ∀ b ∈ u, 0x20 ≤ b ∧ b ≠ 34 ∧ b ≠ 92)
    (ht : Token t) : Token (u ++ t) := by
  induction u with
  | nil => exact ht
  | cons b u ih =>
    rw [List.forall_mem_cons] at hu
    obtain ⟨⟨hcontrol, hquote, hbackslash⟩, hu⟩ := hu
    exact token_cons hquote hbackslash (UInt8.not_lt.mpr hcontrol) (ih hu)

theorem token_of_plain {u : List UInt8} (hu : ∀ b ∈ u, 0x20 ≤ b ∧ b ≠ 34 ∧ b ≠ 92) : Token u := by
  have h := token_append_plain hu token_nil
  rwa [List.append_nil] at h

theorem token_simple {e : UInt8} (hu : e ≠ 117) (h : (simpleEscape e).isSome) {t : List UInt8}
    (ht : Token t) : Token (92 :: e :: t) := by
  refine token_escape ?_ ht
  intro rest
  rw [beginsEscape, if_neg hu]
  exact h

theorem token_unicode {a b c d : UInt8} (h : (ofDigits 16 hexValue [a, b, c, d]).isSome)
    (hplain : ∀ x ∈ [a, b, c, d], 0x20 ≤ x ∧ x ≠ 34 ∧ x ≠ 92) {t : List UInt8} (ht : Token t) :
    Token (92 :: 117 :: a :: b :: c :: d :: t) := by
  refine token_escape ?_ (token_append_plain hplain ht)
  intro rest
  rw [beginsEscape, if_pos rfl, hex4, if_pos (by simp)]
  exact h

theorem plain_hexDigit : ∀ d < 16, 0x20 ≤ hexDigit d ∧ hexDigit d ≠ 34 ∧ hexDigit d ≠ 92 := by decide

theorem token_escapeAscii {b : UInt8} (hb : b < 0x80) {t : List UInt8} (ht : Token t) :
    Token (escapeAscii b ++ t) := by
  have hlt : b.toNat < 128 := UInt8.lt_iff_toNat_lt.mp hb
  unfold escapeAscii
  split_ifs with hquote hnewline hreturn htab hcontrol
  · rcases hquote with rfl | rfl
    · exact token_simple (by decide) (by decide) ht
    · exact token_simple (by decide) (by decide) ht
  · exact token_simple (by decide) (by decide) ht
  · exact token_simple (by decide) (by decide) ht
  · exact token_simple (by decide) (by decide) ht
  · refine token_unicode (by rw [ofDigits_control _ hlt]; rfl) ?_ ht
    have hhi := plain_hexDigit (b.toNat / 16) (by omega)
    have hlo := plain_hexDigit (b.toNat % 16) (by omega)
    simp [hhi, hlo]
  · rw [not_or] at hquote hcontrol
    exact token_cons hquote.1 hquote.2 hcontrol.1 ht

theorem token_escapePiece {p : Piece} (hp : p.WF) {t : List UInt8} (ht : Token t) :
    Token (escapePiece p ++ t) := by
  cases p with
  | invalid b => exact token_unicode (by decide +kernel) (by decide +kernel) ht
  | rune b tail =>
    rw [escapePiece_rune]
    split_ifs with hnil
    · subst hnil
      exact token_escapeAscii (lt_of_completes_nil hp) ht
    · exact token_unicode (by decide +kernel) (by decide +kernel) ht
    · exact token_unicode (by decide +kernel) (by decide +kernel) ht
    · refine token_append_plain ?_ ht
      intro c hc
      have hc' : 128 ≤ c.toNat := UInt8.le_iff_toNat_le.mp (le_of_completes hp hnil c hc)
      refine ⟨UInt8.le_iff_toNat_le.mpr (le_trans (by decide) hc'), ?_, ?_⟩
      · rintro rfl
        exact absurd hc' (by decide)
      · rintro rfl
        exact absurd hc' (by decide)

theorem token_escape_string (s : List UInt8) : Token (escape s) := by
  unfold escape
  have hwf := wf_of_mem_pieces s
  generalize pieces s = ps at hwf
  induction ps with
  | nil => exact token_nil
  | cons p ps ih =>
    rw [List.forall_mem_cons] at hwf
    exact token_escapePiece hwf.1 (ih hwf.2)

/-! ### Trees are read back -/

mutual

/-- All names, strings and numbers are written as they have to be. -/
def Value.WF : Value → Prop
  | .null => True
  | .bool _ => True
  | .num raw => isNumber raw ∧ ∀ b ∈ raw, isNumberByte b
  | .str raw => Token raw
  | .arr elems => elemsWF elems
  | .obj members => membersWF members

def elemsWF : List Value → Prop
  | [] => True
  | v :: vs => v.WF ∧ elemsWF vs

def membersWF : List (List UInt8 × Value) → Prop
  | [] => True
  | (name, v) :: ms => Token name ∧ v.WF ∧ membersWF ms

end

/-- A number that stands before `rest` ends there. -/
def EndsNumber (rest : List UInt8) : Prop := ∀ b ∈ rest.head?, isNumberByte b = false

theorem skipSpace_cons {b : UInt8} (h : isSpace b = false) (s : List UInt8) :
    skipSpace (b :: s) = b :: s := by
  rw [skipSpace, List.dropWhile_cons, if_neg (by simp [h])]

theorem takeWhile_append_of_endsNumber {raw rest : List UInt8} (hraw : ∀ b ∈ raw, isNumberByte b)
    (hrest : EndsNumber rest) : (raw ++ rest).takeWhile isNumberByte = raw := by
  rw [List.takeWhile_append_of_pos hraw]
  cases rest with
  | nil => simp
  | cons b rest =>
    have hb := hrest b rfl
    simp [hb]

theorem dropWhile_append_of_endsNumber {raw rest : List UInt8} (hraw : ∀ b ∈ raw, isNumberByte b)
    (hrest : EndsNumber rest) : (raw ++ rest).dropWhile isNumberByte = rest := by
  rw [List.dropWhile_append_of_pos hraw]
  cases rest with
  | nil => rfl
  | cons b rest =>
    have hb := hrest b rfl
    simp [hb]

/-- The bytes that a number can begin with begin no other value. -/
theorem isNumberByte_ne {b : UInt8} (h : isNumberByte b) :
    isSpace b = false ∧ b ≠ 34 ∧ b ≠ 91 ∧ b ≠ 123 ∧ b ≠ 110 ∧ b ≠ 116 ∧ b ≠ 102 := by
  refine ⟨?_, ?_, ?_, ?_, ?_, ?_, ?_⟩
  · by_contra hspace
    rw [Bool.not_eq_false] at hspace
    unfold isSpace at hspace
    simp only [Bool.or_eq_true, beq_iff_eq] at hspace
    rcases hspace with ((rfl | rfl) | rfl) | rfl <;> exact absurd h (by decide)
  all_goals
    rintro rfl
    exact absurd h (by decide)

theorem ne_nil_of_isNumber {raw : List UInt8} (h : isNumber raw) : raw ≠ [] := by
  rintro rfl
  exact absurd h (by decide)

theorem scanValue_num {raw rest : List UInt8} (h : isNumber raw) (hraw : ∀ b ∈ raw, isNumberByte b)
    (hrest : EndsNumber rest) (f : ℕ) :
    scanValue (f + 1) (raw ++ rest) = some (.num raw, rest) := by
  have htake := takeWhile_append_of_endsNumber hraw hrest
  have hdrop := dropWhile_append_of_endsNumber hraw hrest
  cases raw with
  | nil => exact absurd rfl (ne_nil_of_isNumber h)
  | cons b raw =>
    obtain ⟨hspace, hquote, hbracket, hbrace, hn, ht, hf⟩ :=
      isNumberByte_ne (hraw b List.mem_cons_self)
    rw [List.cons_append] at htake hdrop ⊢
    simp only [scanValue, skipSpace_cons hspace]
    rw [if_neg hquote, if_neg hbracket, if_neg hbrace, if_neg hn, if_neg ht, if_neg hf, htake, hdrop,
      if_pos h]

theorem scanValue_null (f : ℕ) (rest : List UInt8) :
    scanValue (f + 1) (ascii "null" ++ rest) = some (.null, rest) := rfl

theorem scanValue_bool (f : ℕ) (b : Bool) (rest : List UInt8) :
    scanValue (f + 1) (print (.bool b) ++ rest) = some (.bool b, rest) := by
  cases b <;> rfl

theorem scanValue_str {raw : List UInt8} (h : Token raw) (f : ℕ) (rest : List UInt8) :
    scanValue (f + 1) (34 :: (raw ++ 34 :: rest)) = some (.str raw, rest) := by
  have hscan := h rest
  simp only [scanValue, skipSpace_cons (by decide : isSpace 34 = false), if_true, hscan]
  rfl

theorem scanValue_bracket {t : List UInt8} (h : (skipSpace t).head? ≠ some 93) (f : ℕ) :
    scanValue (f + 1) (91 :: t) = (scanElems f t).map fun r => (.arr r.1, r.2) := by
  simp only [scanValue, skipSpace_cons (by decide : isSpace 91 = false)]
  rw [if_neg (by decide), if_pos trivial, if_neg h]

theorem scanValue_brace {t : List UInt8} (h : (skipSpace t).head? ≠ some 125) (f : ℕ) :
    scanValue (f + 1) (123 :: t) = (scanMembers f t).map fun r => (.obj r.1, r.2) := by
  simp only [scanValue, skipSpace_cons (by decide : isSpace 123 = false)]
  rw [if_neg (by decide), if_neg (by decide), if_pos trivial, if_neg h]

theorem length_print_pos {v : Value} (h : v.WF) : 0 < (print v).length := by
  cases v with
  | null => decide
  | bool b => cases b <;> decide
  | num raw => exact List.length_pos_of_ne_nil (ne_nil_of_isNumber h.1)
  | str raw => simp [print]
  | arr elems => simp [print]
  | obj members => simp [print]

/-- What comes first in a value is neither space nor a closing bracket. -/
theorem head?_print {v : Value} (h : v.WF) :
    ∃ b, (print v).head? = some b ∧ isSpace b = false ∧ b ≠ 93 := by
  cases v with
  | null => exact ⟨110, rfl, by decide, by decide⟩
  | bool b => cases b <;> exact ⟨_, rfl, by decide, by decide⟩
  | num raw =>
    cases raw with
    | nil => exact absurd h.1 (by decide)
    | cons b raw =>
      have hb := h.2 b List.mem_cons_self
      refine ⟨b, rfl, (isNumberByte_ne hb).1, ?_⟩
      rintro rfl
      exact absurd hb (by decide)
  | str raw => exact ⟨34, rfl, by decide, by decide⟩
  | arr elems => exact ⟨91, rfl, by decide, by decide⟩
  | obj members => exact ⟨123, rfl, by decide, by decide⟩

theorem skipSpace_print_append {v : Value} (h : v.WF) (s : List UInt8) :
    skipSpace (print v ++ s) = print v ++ s ∧ (print v ++ s).head? ≠ some 93 := by
  obtain ⟨b, hb, hspace, hclose⟩ := head?_print h
  obtain ⟨t, ht⟩ : ∃ t, print v = b :: t := by
    cases hprint : print v with
    | nil => simp [hprint] at hb
    | cons c t =>
      rw [hprint] at hb
      exact ⟨t, by rw [Option.some.inj hb]⟩
  rw [ht, List.cons_append]
  refine ⟨skipSpace_cons hspace _, ?_⟩
  simpa using hclose

theorem endsNumber_cons {b : UInt8} (h : isNumberByte b = false) (s : List UInt8) :
    EndsNumber (b :: s) := by
  intro c hc
  obtain rfl : b = c := by simpa using hc
  exact h

mutual

/-- **A printed value is read back**, with enough fuel and before anything that is not part of a
number. -/
theorem scanValue_print (v : Value) (hv : v.WF) (f : ℕ) (rest : List UInt8)
    (hf : 2 * (print v).length ≤ f) (hrest : EndsNumber rest) :
    scanValue f (print v ++ rest) = some (v, rest) := by
  have hpos := length_print_pos hv
  obtain ⟨f, rfl⟩ : ∃ g, f = g + 1 := ⟨f - 1, by omega⟩
  match v, hv with
  | .null, _ => exact scanValue_null f rest
  | .bool b, _ => exact scanValue_bool f b rest
  | .num raw, hv => exact scanValue_num hv.1 hv.2 hrest f
  | .str raw, hv =>
    rw [print, List.cons_append, List.append_assoc]
    exact scanValue_str hv f rest
  | .arr [], _ => rfl
  | .arr (v :: vs), hv =>
    have hlen : 2 * (printElems (v :: vs)).length + 1 ≤ f := by
      simp only [print, List.length_cons, List.length_append] at hf
      omega
    have helems := scanElems_print v vs hv.1 hv.2 f rest hlen
    have hopen : (skipSpace (printElems (v :: vs) ++ 93 :: rest)).head? ≠ some 93 := by
      obtain ⟨hskip, hclose⟩ := skipSpace_print_append hv.1
        ((if vs.isEmpty then [] else 44 :: printElems vs) ++ 93 :: rest)
      rw [printElems, List.append_assoc, hskip]
      exact hclose
    rw [print, List.cons_append, List.append_assoc, List.singleton_append, scanValue_bracket hopen,
      helems]
    rfl
  | .obj [], _ => rfl
  | .obj ((name, v) :: ms), hv =>
    have hlen : 2 * (printMembers ((name, v) :: ms)).length + 1 ≤ f := by
      simp only [print, List.length_cons, List.length_append] at hf
      omega
    have hmembers := scanMembers_print name v ms hv.1 hv.2.1 hv.2.2 f rest hlen
    have hopen : (skipSpace (printMembers ((name, v) :: ms) ++ 125 :: rest)).head? ≠ some 125 := by
      rw [printMembers, List.cons_append, skipSpace_cons (by decide)]
      simp
    rw [print, List.cons_append, List.append_assoc, List.singleton_append, scanValue_brace hopen,
      hmembers]
    rfl
termination_by f

theorem scanElems_print (v : Value) (vs : List Value) (hv : v.WF) (hvs : elemsWF vs) (f : ℕ)
    (rest : List UInt8) (hf : 2 * (printElems (v :: vs)).length + 1 ≤ f) :
    scanElems f (printElems (v :: vs) ++ 93 :: rest) = some (v :: vs, rest) := by
  obtain ⟨f, rfl⟩ : ∃ g, f = g + 1 := ⟨f - 1, by omega⟩
  match vs, hvs with
  | [], _ =>
    rw [printElems, List.isEmpty_nil, if_pos rfl, List.append_nil] at hf ⊢
    have hvalue := scanValue_print v hv f (93 :: rest) (by omega) (endsNumber_cons (by decide) _)
    rw [scanElems, hvalue]
    simp only [Option.bind_eq_bind, Option.bind_some, skipSpace_cons (by decide : isSpace 93 = false)]
    rfl
  | w :: ws, hvs =>
    have hprint : printElems (v :: w :: ws) = print v ++ 44 :: printElems (w :: ws) := by
      rw [printElems, List.isEmpty_cons, if_neg (by decide)]
    rw [hprint, List.length_append, List.length_cons] at hf
    have hvalue := scanValue_print v hv f (44 :: (printElems (w :: ws) ++ 93 :: rest)) (by omega)
      (endsNumber_cons (by decide) _)
    have helems := scanElems_print w ws hvs.1 hvs.2 f rest (by omega)
    rw [hprint, List.append_assoc, List.cons_append, scanElems, hvalue]
    simp only [Option.bind_eq_bind, Option.bind_some, skipSpace_cons (by decide : isSpace 44 = false),
      if_true, helems]
    rfl
termination_by f

theorem scanMembers_print (name : List UInt8) (v : Value) (ms : List (List UInt8 × Value))
    (hname : Token name) (hv : v.WF) (hms : membersWF ms) (f : ℕ) (rest : List UInt8)
    (hf : 2 * (printMembers ((name, v) :: ms)).length + 1 ≤ f) :
    scanMembers f (printMembers ((name, v) :: ms) ++ 125 :: rest) = some ((name, v) :: ms, rest) := by
  obtain ⟨f, rfl⟩ : ∃ g, f = g + 1 := ⟨f - 1, by omega⟩
  match ms, hms with
  | [], _ =>
    have hprint : printMembers [(name, v)] = 34 :: (name ++ 34 :: 58 :: print v) := by
      rw [printMembers, List.isEmpty_nil, if_pos rfl, List.append_nil]
    rw [hprint, List.length_cons, List.length_append, List.length_cons, List.length_cons] at hf
    have hscan := hname (58 :: (print v ++ 125 :: rest))
    have hvalue := scanValue_print v hv f (125 :: rest) (by omega) (endsNumber_cons (by decide) _)
    rw [hprint, List.cons_append, List.append_assoc, scanMembers]
    simp only [skipSpace_cons (by decide : isSpace 34 = false), if_true, List.cons_append, hscan,
      Option.bind_eq_bind, Option.bind_some, skipSpace_cons (by decide : isSpace 58 = false),
      List.head?_cons, List.tail_cons, hvalue, skipSpace_cons (by decide : isSpace 125 = false)]
    rfl
  | (name', w) :: ws, hms =>
    have hprint : printMembers ((name, v) :: (name', w) :: ws) =
        34 :: (name ++ 34 :: 58 :: (print v ++ 44 :: printMembers ((name', w) :: ws))) := by
      rw [printMembers, List.isEmpty_cons, if_neg (by decide)]
    rw [hprint] at hf
    simp only [List.length_cons, List.length_append] at hf
    have hscan := hname (58 :: (print v ++ 44 :: (printMembers ((name', w) :: ws) ++ 125 :: rest)))
    have hvalue := scanValue_print v hv f (44 :: (printMembers ((name', w) :: ws) ++ 125 :: rest))
      (by omega) (endsNumber_cons (by decide) _)
    have hmembers := scanMembers_print name' w ws hms.1 hms.2.1 hms.2.2 f rest (by omega)
    rw [hprint, List.cons_append, List.append_assoc, scanMembers]
    simp only [skipSpace_cons (by decide : isSpace 34 = false), if_true, List.cons_append,
      List.append_assoc, hscan, Option.bind_eq_bind, Option.bind_some,
      skipSpace_cons (by decide : isSpace 58 = false), List.head?_cons, List.tail_cons, hvalue,
      skipSpace_cons (by decide : isSpace 44 = false), hmembers]
    rfl
termination_by f

end

theorem parse_print {v : Value} (h : v.WF) : parse (print v) = some v := by
  have hscan := scanValue_print v h (2 * (print v).length) [] le_rfl
    (fun b hb => absurd hb (by simp))
  rw [List.append_nil] at hscan
  rw [parse, hscan]
  rfl

/-- A text determines the tree that it was printed from. -/
theorem print_inj {v w : Value} (hv : v.WF) (hw : w.WF) (h : print v = print w) : v = w := by
  have hparse := parse_print hv
  rw [h, parse_print hw] at hparse
  exact (Option.some.inj hparse).symm

/-! ### Numbers -/

theorem isDigit_decimal (n : ℕ) : ∀ b ∈ decimal n, isDigit b := by
  rw [decimal_eq_digits]
  exact forall_mem_digits (by decide) (by decide) n

theorem decimal_ne_nil (n : ℕ) : decimal n ≠ [] := by
  intro h
  have hn := ofDigits_decimal n
  rw [h] at hn
  obtain rfl : 0 = n := Option.some.inj hn
  exact absurd h (by decide)

theorem isNumber_decimal (n : ℕ) : isNumber (decimal n) := by
  have hdigit := isDigit_decimal n
  have htake : (decimal n).takeWhile isDigit = decimal n := by
    have h := @List.takeWhile_append_of_pos _ isDigit (decimal n) [] hdigit
    simpa using h
  have hdrop : (decimal n).dropWhile isDigit = [] := by
    have h := @List.dropWhile_append_of_pos _ isDigit (decimal n) [] hdigit
    simpa using h
  -- a digit is not a sign
  have hsign : (decimal n).head? ≠ some 45 := by
    intro hhead
    have h := hdigit 45 (List.mem_of_mem_head? hhead)
    exact absurd h (by decide)
  have hzero : decimal n = [48] ∨ (decimal n).head? ≠ some 48 := by
    by_cases hn : n = 0
    · subst hn
      exact .inl (by decide)
    · obtain ⟨b, hb, hne⟩ : ∃ b, (digits 10 n).head? = some b ∧ b ≠ 48 :=
        head?_digits (by decide) (by decide) hn
      right
      rw [decimal_eq_digits, hb]
      simpa using hne
  unfold isNumber
  simp only [hsign, if_false, htake, hdrop]
  have hne := decimal_ne_nil n
  rcases hzero with h | h
  · rw [h]
    decide
  · simp [hne, h, isFraction, isExponent]

theorem wf_num_decimal (n : ℕ) : (Value.num (decimal n)).WF := by
  refine ⟨isNumber_decimal n, ?_⟩
  intro b hb
  rw [isNumberByte, isDigit_decimal n b hb]
  rfl

/-! ### Building well-formed values -/

theorem wf_null : Value.null.WF := trivial

theorem wf_str {raw : List UInt8} (h : Token raw) : (Value.str raw).WF := h

theorem wf_arr {vs : List Value} (h : ∀ v ∈ vs, v.WF) : (Value.arr vs).WF := by
  show elemsWF vs
  induction vs with
  | nil => trivial
  | cons v vs ih =>
    rw [List.forall_mem_cons] at h
    exact ⟨h.1, ih h.2⟩

theorem wf_obj {ms : List (List UInt8 × Value)} (h : ∀ m ∈ ms, Token m.1 ∧ m.2.WF) :
    (Value.obj ms).WF := by
  show membersWF ms
  induction ms with
  | nil => trivial
  | cons m ms ih =>
    rw [List.forall_mem_cons] at h
    exact ⟨h.1.1, h.1.2, ih h.2⟩

-- a large tree is never to be unfolded in search of its well-formedness
attribute [irreducible] Value.WF

end Suift.Json
