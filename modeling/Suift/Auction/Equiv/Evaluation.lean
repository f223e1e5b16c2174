import Suift.Auction.Evaluation

/-!
# What an evaluation of the winners does

As long as `bids` is empty, `_getMinBid` can only return when the first and the last recorded value are
equal (`getMinBid_of_bids_nil`): the sort would read `bids` otherwise.  It then returns zero and leaves
the state as it is.  The recorded values do not change after the end of the auction, and so neither
does this: **every cutoff that `_getWinningBids` works with is zero**, whatever was bid.

With cutoff zero, each fetched bid is written to `bids` under its own index.  The array is never made
longer, so that **the evaluation reverts as soon as there are more fetched bids than entries**
(`getWinningBids_of_equalEnds`).  In a state whose `bids` is a prefix of the stored bids it only goes
through if the two are the same, and then it leaves them as they are (`getWinningBids_eq_ok_iff`).
-/

namespace Suift.Auction

open Fallible

/-- The first and the last recorded value are there and equal. -/
def EqualEnds (values : List ℕ) : Prop :=
  ∃ v, values[0]? = some v ∧ values[values.length - 1]? = some v

theorem EqualEnds.ne_nil {values : List ℕ} (h : EqualEnds values) : values ≠ [] := by
  rintro rfl
  obtain ⟨v, hfirst, -⟩ := h
  simp at hfirst

/-! ### The cutoff -/

theorem getMinBid_of_equalEnds (A : Immutables) {s : State} (h : EqualEnds s.allBidValues) :
    getMinBid A s = .ok (0, s) := by
  obtain ⟨v, hfirst, hlast⟩ := h
  have hl : index s.allBidValues 0 = .ok v := index_eq_ok_iff.mpr hfirst
  have hr : index s.allBidValues (s.allBidValues.length - 1) = .ok v := index_eq_ok_iff.mpr hlast
  simp [getMinBid, hl, hr]

theorem eq_of_sortRange_nil {fuel left right : ℕ} {bids : List AuctionBid}
    (h : sortRange fuel left right [] = .ok bids) : left = right := by
  cases fuel with
  | zero => simp [sortRange] at h
  | succ fuel =>
    by_contra hne
    -- The pivot is the first thing read.
    simp only [sortRange, if_neg hne, bind_eq_ok_iff, index_eq_ok_iff, List.getElem?_nil,
      reduceCtorEq, false_and, exists_false, and_false] at h

/-- While `bids` is empty, a cutoff is returned only for equal ends, and then it is zero. -/
theorem getMinBid_of_bids_nil {A : Immutables} {s s' : State} {minBid : ℕ} (hb : s.bids = [])
    (h : getMinBid A s = .ok (minBid, s')) :
    EqualEnds s.allBidValues ∧ minBid = 0 ∧ s' = s := by
  have hends : EqualEnds s.allBidValues := by
    simp only [getMinBid, bind_eq_ok_iff, index_eq_ok_iff] at h
    obtain ⟨left, hleft, right, hright, h⟩ := h
    by_cases heq : left = right
    · exact ⟨left, hleft, heq ▸ hright⟩
    · rw [if_neg heq, hb] at h
      simp only [bind_eq_ok_iff] at h
      obtain ⟨bids, hsort, -⟩ := h
      exact absurd (eq_of_sortRange_nil hsort) heq
  rw [getMinBid_of_equalEnds A hends] at h
  obtain ⟨rfl, rfl⟩ : 0 = minBid ∧ s = s' := by simpa using h
  exact ⟨hends, rfl, rfl⟩

/-! ### The loop -/

/-- With cutoff zero, the loop overwrites the entries from its index on with the fetched bids, and
reverts if there are too few. -/
theorem evaluate_append (fetched : List AuctionBid) :
    ∀ (written rest : List AuctionBid) (s : State), s.currMinBid = 0 → s.bids = written ++ rest →
      evaluate written.length fetched s =
        if fetched.length ≤ rest.length then
          .ok { s with bids := written ++ (fetched ++ rest.drop fetched.length) }
        else .error (.panic 0x32) := by
  -- Invariant: the entries in front of the index are the ones written so far.
  induction fetched with
  | nil =>
    intro written rest s _ hs
    rw [evaluate, List.length_nil, if_pos (Nat.zero_le _), List.nil_append, List.drop_zero, ← hs]
    rfl
  | cons bid fetched ih =>
    intro written rest s hcut hs
    -- No amount is below the cutoff, so that nothing is credited.
    have hwon : s.currMinBid ≤ bid.amount := hcut.le.trans (Nat.zero_le _)
    rw [evaluate, if_pos hwon, State.writeBid, hs]
    cases rest with
    | nil =>
      have hfull : ¬ written.length < (written ++ []).length := by simp
      rw [if_neg hfull, if_neg (by simp)]
      rfl
    | cons entry rest =>
      have hroom : written.length < (written ++ entry :: rest).length := by simp
      have hset : (written ++ entry :: rest).set written.length bid = (written ++ [bid]) ++ rest := by
        simp
      rw [if_pos hroom, hset]
      simp only [bind, Except.bind, pure, Except.pure, if_neg (not_lt.mpr hwon)]
      have hrest := ih (written ++ [bid]) rest { s with bids := (written ++ [bid]) ++ rest } hcut rfl
      rw [List.length_append, List.length_singleton] at hrest
      rw [hrest]
      simp

/-! ### The evaluation -/

/-- For equal ends, an evaluation writes the stored bids over the first entries of `bids`, as far as
there are any. -/
theorem getWinningBids_of_equalEnds (A : Immutables) {m : Msg} {s : State}
    (hends : EqualEnds s.allBidValues) (hm : m.isConfidential = true) :
    getWinningBids A m s =
      if s.stored.length ≤ s.bids.length then
        .ok (s.stored ++ s.bids.drop s.stored.length,
          { s with currMinBid := 0, bids := s.stored ++ s.bids.drop s.stored.length })
      else .error (.panic 0x32) := by
  have heval := evaluate_append s.stored [] s.bids { s with currMinBid := 0 } rfl rfl
  rw [List.length_nil] at heval
  simp only [getWinningBids, getMinBid_of_equalEnds A hends, bind, Except.bind, if_pos hm]
  rw [heval]
  by_cases hroom : s.stored.length ≤ s.bids.length
  · rw [if_pos hroom, if_pos hroom]
    rfl
  · rw [if_neg hroom, if_neg hroom]

/-- What holds of `bids` before and after every evaluation: it is a prefix of the stored bids, and
empty unless the recorded values have equal ends. -/
structure Evaluable (s : State) : Prop where
  isPrefix : s.bids <+: s.stored
  nil_or : s.bids = [] ∨ EqualEnds s.allBidValues

/-- The state after an evaluation of such a state. -/
def State.evaluated (s : State) : State :=
  { s with currMinBid := 0 }

/-- An evaluation returns exactly in a confidential execution, when the recorded values have equal ends
and `bids` already holds all stored bids. -/
theorem getWinningBids_eq_ok_iff {A : Immutables} {m : Msg} {s : State} (hs : Evaluable s)
    {bids : List AuctionBid} {s' : State} :
    getWinningBids A m s = .ok (bids, s') ↔
      EqualEnds s.allBidValues ∧ m.isConfidential = true ∧ s.bids = s.stored ∧ bids = s.bids ∧
        s' = s.evaluated := by
  constructor
  · intro h
    have hm : m.isConfidential = true := by
      by_contra hm
      simp [getWinningBids, hm] at h
    -- Either this is the first evaluation, or the ends were compared before.
    have hends : EqualEnds s.allBidValues := by
      rcases hs.nil_or with hnil | hends
      · simp only [getWinningBids, bind_eq_ok_iff, Prod.exists] at h
        obtain ⟨minBid, t, hmin, -⟩ := h
        exact (getMinBid_of_bids_nil hnil hmin).1
      · exact hends
    rw [getWinningBids_of_equalEnds A hends hm] at h
    split_ifs at h with hroom
    have hall : s.bids = s.stored := hs.isPrefix.eq_of_length_le hroom
    obtain ⟨rfl, rfl⟩ := Prod.mk.inj (Except.ok.inj h)
    refine ⟨hends, hm, hall, ?_, ?_⟩
    · simp [← hall]
    · simp [State.evaluated, ← hall]
  · rintro ⟨hends, hm, hall, rfl, rfl⟩
    rw [getWinningBids_of_equalEnds A hends hm, if_pos (hall ▸ le_rfl)]
    simp [State.evaluated, ← hall]

end Suift.Auction
