import Mathlib.Data.List.Basic

/-!
# UTF-8 in byte strings

A byte string is read from the front in pieces: the well-formed encoding of a rune, or else a single
byte that starts none (`pieces`).  The pieces put together are the string again
(`flatMap_bytes_pieces`), and a string of well-formed runes is cut up into these
(`pieces_flatMap_bytes`).

`coerce` replaces every piece that is not a rune by the replacement character `U+FFFD`.  `runes` forgets
the values of the invalid bytes, which loses nothing exactly for well-formed strings (`eq_of_runes_eq`,
`exists_runes_eq_ne`).
-/

namespace Suift.Utf8

/-- What the next bytes of a string are. -/
inductive Piece
  | rune (b : UInt8) (tail : List UInt8)
  | invalid (b : UInt8)
  deriving DecidableEq, Repr

/-- The number of bytes after the first byte `b` of a rune, and the range of the next one.  The narrow
ranges exclude overlong forms, surrogates and what lies above `U+10FFFF`. -/
def shape (b : UInt8) : Option (ℕ × UInt8 × UInt8) :=
  if b < 0x80 then some (0, 0x80, 0xbf)
  else if b < 0xc2 then none
  else if b < 0xe0 then some (1, 0x80, 0xbf)
  else if b = 0xe0 then some (2, 0xa0, 0xbf)
  else if b = 0xed then some (2, 0x80, 0x9f)
  else if b < 0xf0 then some (2, 0x80, 0xbf)
  else if b = 0xf0 then some (3, 0x90, 0xbf)
  else if b < 0xf4 then some (3, 0x80, 0xbf)
  else if b = 0xf4 then some (3, 0x80, 0x8f)
  else none

/-- `tail` completes a rune that begins with `b`. -/
def completes (b : UInt8) (tail : List UInt8) : Bool :=
  match shape b with
  | none => false
  | some (n, lo, hi) =>
    tail.length = n && tail.head?.all (fun c => lo ≤ c && c ≤ hi) &&
      tail.all fun c => 0x80 ≤ c && c ≤ 0xbf

/-- How many bytes of `s` belong to the rune that begins with `b`, if there is one. -/
def tailLength (b : UInt8) (s : List UInt8) : Option ℕ :=
  match shape b with
  | none => none
  | some (n, _, _) => if completes b (s.take n) then some n else none

/-- The pieces of a string after its first `skip` bytes. -/
def piecesAfter : ℕ → List UInt8 → List Piece
  | _, [] => []
  | skip + 1, _ :: s => piecesAfter skip s
  | 0, b :: s =>
    match tailLength b s with
    | some n => .rune b (s.take n) :: piecesAfter n s
    | none => .invalid b :: piecesAfter 0 s

def pieces (s : List UInt8) : List Piece := piecesAfter 0 s

namespace Piece

def bytes : Piece → List UInt8
  | rune b tail => b :: tail
  | invalid b => [b]

def isRune : Piece → Bool
  | rune _ _ => true
  | invalid _ => false

/-- The replacement character `U+FFFD`. -/
def replacement : Piece := rune 0xef [0xbf, 0xbd]

/-- The piece itself if it is a rune, else the replacement character. -/
def repaired : Piece → Piece
  | rune b tail => rune b tail
  | invalid _ => replacement

/-- A rune is well formed. -/
def WF : Piece → Prop
  | rune b tail => completes b tail
  | invalid _ => True

end Piece

/-- The string with every invalid byte replaced by `U+FFFD`. -/
def coerce (s : List UInt8) : List UInt8 := (pieces s).flatMap fun p => p.repaired.bytes

/-- The string is well-formed UTF-8. -/
def Valid (s : List UInt8) : Prop := ∀ p ∈ pieces s, p.isRune

instance (s : List UInt8) : Decidable (Valid s) := inferInstanceAs (Decidable (∀ p ∈ pieces s, _))

theorem piecesAfter_eq (n : ℕ) (s : List UInt8) : piecesAfter n s = pieces (s.drop n) := by
  induction s generalizing n with
  | nil => cases n <;> rfl
  | cons b s ih =>
    cases n with
    | zero => rfl
    | succ n => exact ih n

theorem length_of_completes {b : UInt8} {tail : List UInt8} {n : ℕ} {lo hi : UInt8}
    (hshape : shape b = some (n, lo, hi)) (h : completes b tail) : tail.length = n := by
  unfold completes at h
  rw [hshape] at h
  simp only [Bool.and_eq_true, decide_eq_true_eq] at h
  exact h.1.1

theorem tailLength_eq_some {b : UInt8} {s : List UInt8} {n : ℕ} (h : tailLength b s = some n) :
    completes b (s.take n) ∧ (s.take n).length = n := by
  unfold tailLength at h
  cases hshape : shape b with
  | none => simp [hshape] at h
  | some r =>
    obtain ⟨m, lo, hi⟩ := r
    simp only [hshape] at h
    split_ifs at h with hc
    obtain rfl : m = n := Option.some.inj h
    exact ⟨hc, length_of_completes hshape hc⟩

/-- A rune at the front is read as such, whatever follows. -/
theorem tailLength_append {b : UInt8} {tail : List UInt8} (h : completes b tail) (s : List UInt8) :
    tailLength b (tail ++ s) = some tail.length := by
  unfold tailLength
  cases hshape : shape b with
  | none => simp [completes, hshape] at h
  | some r =>
    obtain ⟨n, lo, hi⟩ := r
    have hlen := length_of_completes hshape h
    simp only
    rw [List.take_left' hlen, if_pos h, hlen]

theorem pieces_cons_of_some {b : UInt8} {s : List UInt8} {n : ℕ} (h : tailLength b s = some n) :
    pieces (b :: s) = .rune b (s.take n) :: pieces (s.drop n) := by
  rw [← piecesAfter_eq, pieces, piecesAfter, h]

theorem pieces_cons_of_none {b : UInt8} {s : List UInt8} (h : tailLength b s = none) :
    pieces (b :: s) = .invalid b :: pieces s := by
  rw [pieces, piecesAfter, h]
  rfl

/-- Induction along the pieces of a string. -/
theorem pieces_induction {P : List UInt8 → Prop} (hnil : P [])
    (hrune : ∀ b tail s, completes b tail → P s → P (b :: (tail ++ s)))
    (hinvalid : ∀ b s, tailLength b s = none → P s → P (b :: s)) (s : List UInt8) : P s := by
  induction hn : s.length using Nat.strongRecOn generalizing s with
  | _ n ih =>
    cases s with
    | nil => exact hnil
    | cons b s =>
      rw [List.length_cons] at hn
      cases h : tailLength b s with
      | none => exact hinvalid b s h (ih _ (by omega) s rfl)
      | some k =>
        obtain ⟨hc, -⟩ := tailLength_eq_some h
        have hdrop : (s.drop k).length < n := by
          rw [List.length_drop]
          omega
        have hP := hrune b (s.take k) (s.drop k) hc (ih _ hdrop _ rfl)
        rwa [List.take_append_drop] at hP

theorem pieces_rune_append {b : UInt8} {tail : List UInt8} (h : completes b tail) (s : List UInt8) :
    pieces (b :: (tail ++ s)) = .rune b tail :: pieces s := by
  rw [pieces_cons_of_some (tailLength_append h s), List.take_left, List.drop_left]

theorem wf_of_mem_pieces (s : List UInt8) : ∀ p ∈ pieces s, p.WF := by
  induction s using pieces_induction with
  | hnil => exact fun p hp => absurd hp List.not_mem_nil
  | hrune b tail s h ih =>
    rw [pieces_rune_append h, List.forall_mem_cons]
    exact ⟨h, ih⟩
  | hinvalid b s h ih =>
    rw [pieces_cons_of_none h, List.forall_mem_cons]
    exact ⟨trivial, ih⟩

/-- The pieces put together are the string. -/
theorem flatMap_bytes_pieces (s : List UInt8) : (pieces s).flatMap Piece.bytes = s := by
  induction s using pieces_induction with
  | hnil => rfl
  | hrune b tail s h ih =>
    rw [pieces_rune_append h, List.flatMap_cons, ih]
    rfl
  | hinvalid b s h ih =>
    rw [pieces_cons_of_none h, List.flatMap_cons, ih]
    rfl

theorem tailLength_of_shape {b : UInt8} (h : shape b = none) (s : List UInt8) : tailLength b s = none := by
  rw [tailLength, h]

/-- Well-formed runes and bytes that start none, put together, are cut up into themselves. -/
theorem pieces_flatMap_bytes {ps : List Piece} (hwf : ∀ p ∈ ps, p.WF)
    (hinvalid : ∀ b, Piece.invalid b ∈ ps → shape b = none) : pieces (ps.flatMap Piece.bytes) = ps := by
  induction ps with
  | nil => rfl
  | cons p ps ih =>
    rw [List.forall_mem_cons] at hwf
    have hps := ih hwf.2 fun b hb => hinvalid b (List.mem_cons_of_mem _ hb)
    cases p with
    | invalid b =>
      show pieces (b :: ps.flatMap Piece.bytes) = _
      rw [pieces_cons_of_none (tailLength_of_shape (hinvalid b List.mem_cons_self) _), hps]
    | rune b tail =>
      show pieces (b :: (tail ++ ps.flatMap Piece.bytes)) = _
      rw [pieces_rune_append hwf.1, hps]

theorem Piece.isRune_repaired (p : Piece) : p.repaired.isRune := by
  cases p <;> rfl

theorem Piece.wf_repaired {p : Piece} (h : p.WF) : p.repaired.WF := by
  cases p with
  | rune b tail => exact h
  | invalid b =>
    show completes 0xef [0xbf, 0xbd] = true
    decide

theorem Piece.repaired_of_isRune {p : Piece} (h : p.isRune) : p.repaired = p := by
  cases p with
  | rune b tail => rfl
  | invalid b => exact absurd h (by simp [Piece.isRune])

/-- What `coerce` makes of a string has its pieces, repaired. -/
theorem pieces_coerce (s : List UInt8) : pieces (coerce s) = (pieces s).map Piece.repaired := by
  have heq : coerce s = ((pieces s).map Piece.repaired).flatMap Piece.bytes := by
    rw [List.flatMap_map]
    rfl
  rw [heq]
  apply pieces_flatMap_bytes
  · intro p hp
    obtain ⟨q, hq, rfl⟩ := List.mem_map.mp hp
    exact Piece.wf_repaired (wf_of_mem_pieces s q hq)
  · intro b hb
    obtain ⟨q, -, hq⟩ := List.mem_map.mp hb
    have hrune := q.isRune_repaired
    rw [hq] at hrune
    exact absurd hrune (by simp [Piece.isRune])

theorem coerce_of_valid {s : List UInt8} (h : Valid s) : coerce s = s := by
  have hpieces : ((pieces s).flatMap fun p => p.repaired.bytes) = (pieces s).flatMap Piece.bytes := by
    apply List.flatMap_congr
    intro p hp
    rw [Piece.repaired_of_isRune (h p hp)]
  rw [coerce, hpieces, flatMap_bytes_pieces]

/-! ### Strings that differ in invalid bytes only -/

/-- The rune of a piece; an invalid byte has none, whatever its value. -/
def Piece.rune? : Piece → Option (UInt8 × List UInt8)
  | rune b tail => some (b, tail)
  | invalid _ => none

/-- The runes of a string, with gaps where there are invalid bytes. -/
def runes (s : List UInt8) : List (Option (UInt8 × List UInt8)) := (pieces s).map Piece.rune?

theorem eq_of_rune?_eq {p q : Piece} (h : p.rune? = q.rune?) (hp : p.isRune) : p = q := by
  cases p with
  | invalid b => exact absurd hp (by simp [Piece.isRune])
  | rune b tail =>
    cases q with
    | invalid c => exact absurd h (by simp [Piece.rune?])
    | rune c tail' =>
      obtain ⟨rfl, rfl⟩ := Prod.mk.inj (Option.some.inj h)
      rfl

/-- The runes of a well-formed string determine it. -/
theorem eq_of_runes_eq {s t : List UInt8} (hs : Valid s) (h : runes s = runes t) : s = t := by
  have hpieces : ∀ ps qs : List Piece, (∀ p ∈ ps, p.isRune) → ps.map Piece.rune? = qs.map Piece.rune? →
      ps = qs := by
    intro ps
    induction ps with
    | nil =>
      intro qs _ hqs
      exact (List.map_eq_nil_iff.mp hqs.symm).symm
    | cons p ps ih =>
      intro qs hps hqs
      cases qs with
      | nil => exact absurd hqs (by simp)
      | cons q qs =>
        rw [List.forall_mem_cons] at hps
        obtain ⟨hhead, htail⟩ := List.cons.inj hqs
        rw [eq_of_rune?_eq hhead hps.1, ih qs hps.2 htail]
  rw [← flatMap_bytes_pieces s, hpieces _ _ hs h, flatMap_bytes_pieces]

/-- The piece with the byte `c` in the place of an invalid one. -/
def Piece.withByte (c : UInt8) : Piece → Piece
  | rune b tail => rune b tail
  | invalid _ => invalid c

theorem Piece.wf_withByte {c : UInt8} {p : Piece} (h : p.WF) : (p.withByte c).WF := by
  cases p with
  | rune b tail => exact h
  | invalid b => trivial

/-- The string with every invalid byte replaced by `c`. -/
def withByte (c : UInt8) (s : List UInt8) : List UInt8 :=
  (pieces s).flatMap fun p => (p.withByte c).bytes

theorem pieces_withByte {c : UInt8} (hc : shape c = none) (s : List UInt8) :
    pieces (withByte c s) = (pieces s).map (Piece.withByte c) := by
  have heq : withByte c s = ((pieces s).map (Piece.withByte c)).flatMap Piece.bytes := by
    rw [List.flatMap_map]
    rfl
  rw [heq]
  apply pieces_flatMap_bytes
  · intro p hp
    obtain ⟨q, hq, rfl⟩ := List.mem_map.mp hp
    exact Piece.wf_withByte (wf_of_mem_pieces s q hq)
  · intro b hb
    obtain ⟨q, -, hq⟩ := List.mem_map.mp hb
    cases q with
    | rune b tail => cases hq
    | invalid b' =>
      obtain rfl : c = b := Piece.invalid.inj hq
      exact hc

theorem runes_withByte {c : UInt8} (hc : shape c = none) (s : List UInt8) :
    runes (withByte c s) = runes s := by
  rw [runes, pieces_withByte hc, List.map_map, runes]
  apply List.map_congr_left
  rintro (⟨b, tail⟩ | b) _ <;> rfl

/-- A string with an invalid byte is not the only one with its runes. -/
theorem exists_runes_eq_ne {s : List UInt8} (h : ¬ Valid s) : ∃ t, runes t = runes s ∧ t ≠ s := by
  have hff : shape 0xff = none := by decide
  have hfe : shape 0xfe = none := by decide
  by_cases heq : withByte 0xff s = s
  · refine ⟨withByte 0xfe s, runes_withByte hfe s, ?_⟩
    intro heq'
    -- an invalid byte cannot be both `0xff` and `0xfe`
    have hpieces : (pieces s).map (Piece.withByte 0xff) = (pieces s).map (Piece.withByte 0xfe) := by
      rw [← pieces_withByte hff, ← pieces_withByte hfe, heq, heq']
    apply h
    intro p hp
    have hbyte := List.map_inj_left.mp hpieces p hp
    cases p with
    | rune b tail => rfl
    | invalid b => exact absurd (Piece.invalid.inj hbyte) (by decide)
  · exact ⟨withByte 0xff s, runes_withByte hff s, heq⟩

end Suift.Utf8
