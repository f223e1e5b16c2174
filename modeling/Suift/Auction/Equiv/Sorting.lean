import Suift.Auction.Equiv.Calls

/-!
# The selection of the cutoff

`_getMinBid` is meant to return the `TICKET_SUPPLY`-th largest of the recorded values.  It takes the first
and the last of these values for the bounds of the range of `bids` that it sorts, and then selects from
the recorded values, in the order in which they came.

* `exists_sortRange_iff`: the sort succeeds exactly on a range that lies within `bids`.  Both cursors are
  stopped by what the previous swap has left behind, and the first swap makes both parts shorter.
* `getMinBid_correct_iff`: when the selected value is the right one.
-/

namespace Suift.Auction

open Fallible

/-! ### The cursors -/

/-- The entry at `k` stops the cursor that goes up. -/
def StopsUp (pivot : ℕ) (bids : List AuctionBid) (k : ℕ) : Prop :=
  ∃ bid, bids[k]? = some bid ∧ bid.amount ≤ pivot

/-- The entry at `k` stops the cursor that goes down. -/
def StopsDown (pivot : ℕ) (bids : List AuctionBid) (k : ℕ) : Prop :=
  ∃ bid, bids[k]? = some bid ∧ pivot ≤ bid.amount

theorem scanUp_eq_ok {pivot k : ℕ} {bids : List AuctionBid} (h : StopsUp pivot bids k) (i : ℕ) :
    ∃ n ≤ k, scanUp pivot bids i = .ok (i + n) ∧ StopsUp pivot bids n := by
  induction bids generalizing i k with
  | nil =>
    obtain ⟨bid, hbid, -⟩ := h
    cases hbid
  | cons bid bids ih =>
    rw [scanUp]
    by_cases hbid : pivot < bid.amount
    · rw [if_pos hbid]
      -- the stopper is not the first entry
      cases k with
      | zero =>
        obtain ⟨stop, hstop, hle⟩ := h
        obtain rfl : bid = stop := by simpa using hstop
        omega
      | succ k =>
        obtain ⟨n, hn, hscan, hstops⟩ := ih (k := k) h (i + 1)
        refine ⟨n + 1, by omega, ?_, hstops⟩
        rw [hscan]
        congr 1
        omega
    · rw [if_neg hbid]
      exact ⟨0, Nat.zero_le _, rfl, bid, rfl, not_lt.mp hbid⟩

theorem scanDown_eq_ok {pivot k j : ℕ} {bids : List AuctionBid} (h : StopsDown pivot bids k) (hkj : k ≤ j)
    (hj : j < bids.length) :
    ∃ j' ≤ j, k ≤ j' ∧ scanDown pivot bids j = .ok j' ∧ StopsDown pivot bids j' := by
  induction j with
  | zero =>
    obtain rfl : k = 0 := Nat.le_zero.mp hkj
    obtain ⟨bid, hbid, hle⟩ := h
    refine ⟨0, le_rfl, le_rfl, ?_, bid, hbid, hle⟩
    rw [scanDown, index_eq_ok_iff.mpr hbid]
    exact if_neg (not_lt.mpr hle)
  | succ j ih =>
    have hbid : bids[j + 1]? = some bids[j + 1] := List.getElem?_eq_getElem hj
    rw [scanDown, index_eq_ok_iff.mpr hbid]
    by_cases hlt : bids[j + 1].amount < pivot
    · have hk : k ≤ j := by
        by_contra hk
        obtain rfl : k = j + 1 := by omega
        obtain ⟨bid, hbid', hle⟩ := h
        obtain rfl := Option.some.inj (hbid.symm.trans hbid')
        omega
      obtain ⟨j', hj', hkj', hscan, hstops⟩ := ih hk (by omega)
      exact ⟨j', by omega, hkj', (if_pos hlt).trans hscan, hstops⟩
    · exact ⟨j + 1, le_rfl, hkj, if_neg hlt, bids[j + 1], hbid, not_lt.mp hlt⟩

theorem swap_eq_ok {pivot i j : ℕ} {bids : List AuctionBid} (hi : StopsUp pivot bids i)
    (hj : StopsDown pivot bids j) :
    ∃ bids', swap bids i j = .ok bids' ∧ bids'.length = bids.length ∧ StopsDown pivot bids' i ∧
      StopsUp pivot bids' j := by
  obtain ⟨x, hx, hxle⟩ := hi
  obtain ⟨y, hy, hyle⟩ := hj
  have hilt := (List.getElem?_eq_some_iff.mp hx).1
  have hjlt := (List.getElem?_eq_some_iff.mp hy).1
  refine ⟨(bids.set i y).set j x, ?_, by rw [List.length_set, List.length_set], ?_, ?_⟩
  · rw [swap, index_eq_ok_iff.mpr hx, index_eq_ok_iff.mpr hy]
    rfl
  · by_cases hij : j = i
    · subst hij
      obtain rfl := Option.some.inj (hx.symm.trans hy)
      exact ⟨x, by rw [List.getElem?_set_self (by rw [List.length_set]; exact hjlt)], hyle⟩
    · exact ⟨y, by rw [List.getElem?_set_ne hij, List.getElem?_set_self hilt], hyle⟩
  · exact ⟨x, by rw [List.getElem?_set_self (by rw [List.length_set]; exact hjlt)], hxle⟩

/-! ### The partition -/

/-- What a round of the partition of `left, …, right` starts with: as long as the cursors have not
crossed, each of them has something ahead that stops it within the range. -/
structure Stopped (pivot left right i j : ℕ) (bids : List AuctionBid) : Prop where
  right_lt : right < bids.length
  le_i : left ≤ i
  j_le : j ≤ right
  up : i ≤ j → ∃ k, i ≤ k ∧ k ≤ right ∧ StopsUp pivot bids k
  down : i ≤ j → ∃ k, left ≤ k ∧ k ≤ j ∧ StopsDown pivot bids k

/-- One round: both cursors come to a stop, not past what stops them, and unless they have crossed the
two entries are swapped. -/
theorem Stopped.round {pivot left right i j kup kdown : ℕ} {bids : List AuctionBid}
    (h : Stopped pivot left right i j bids) (hleft : 0 < left)
    (hiup : i ≤ kup) (hup : StopsUp pivot bids kup)
    (hldown : left ≤ kdown) (hdownj : kdown ≤ j) (hdown : StopsDown pivot bids kdown) :
    ∃ i' j', i ≤ i' ∧ i' ≤ kup ∧ kdown ≤ j' ∧ j' ≤ j ∧ scanUp pivot (bids.drop i) i = .ok i' ∧
      scanDown pivot bids j = .ok j' ∧
      ∃ bids', swap bids i' j' = .ok bids' ∧ checkedSub j' 1 = .ok (j' - 1) ∧
        bids'.length = bids.length ∧ Stopped pivot left right (i' + 1) (j' - 1) bids' := by
  have hjlt : j < bids.length := lt_of_le_of_lt h.j_le h.right_lt
  have hdrop : StopsUp pivot (bids.drop i) (kup - i) := by
    obtain ⟨bid, hbid, hle⟩ := hup
    exact ⟨bid, by rw [List.getElem?_drop, Nat.add_sub_cancel' hiup, hbid], hle⟩
  obtain ⟨n, hn, hscanUp, bid, hbid, hle⟩ := scanUp_eq_ok hdrop i
  rw [List.getElem?_drop] at hbid
  obtain ⟨j', hj', hkj', hscanDown, hstop⟩ := scanDown_eq_ok hdown hdownj hjlt
  obtain ⟨bids', hswap, hlength, hi', hj''⟩ := swap_eq_ok ⟨bid, hbid, hle⟩ hstop
  refine ⟨i + n, j', by omega, by omega, hkj', hj', hscanUp, hscanDown, bids', hswap, ?_, hlength, ?_⟩
  · -- the range does not begin at zero, so that the cursor can go down
    rw [checkedSub_eq_ok_iff]
    omega
  · -- what was swapped stops the cursors of the next round
    have hle_i := h.le_i
    have hj_le := h.j_le
    refine ⟨hlength ▸ h.right_lt, by omega, by omega, fun hij => ?_, fun hij => ?_⟩
    · exact ⟨j', by omega, by omega, hj''⟩
    · exact ⟨i + n, by omega, by omega, hi'⟩

theorem partition_of_lt {pivot fuel i j : ℕ} {bids : List AuctionBid} (h : j < i) :
    partition pivot (fuel + 1) i j bids = .ok (i, j, bids) := by
  rw [partition, if_neg (not_le.mpr h)]
  rfl

theorem partition_round {pivot fuel i j i' j' : ℕ} {bids bids' : List AuctionBid} (hij : i ≤ j)
    (hup : scanUp pivot (bids.drop i) i = .ok i') (hdown : scanDown pivot bids j = .ok j')
    (hswap : swap bids i' j' = .ok bids') (hsub : checkedSub j' 1 = .ok (j' - 1)) :
    partition pivot (fuel + 1) i j bids =
      if i' ≤ j' then partition pivot fuel (i' + 1) (j' - 1) bids' else partition pivot fuel i' j' bids := by
  rw [partition, if_pos hij, hup]
  simp only [hdown, hswap, hsub, bind, Except.bind]

/-- The partition of a range that lies within the array ends, and it moves neither cursor back. -/
theorem Stopped.exists_partition {pivot left right fuel i j : ℕ} {bids : List AuctionBid}
    (h : Stopped pivot left right i j bids) (hleft : 0 < left) (hfuel : j < i + fuel) :
    ∃ i' j' bids', partition pivot (fuel + 1) i j bids = .ok (i', j', bids') ∧ i ≤ i' ∧ j' ≤ j ∧
      bids'.length = bids.length := by
  -- Each round moves both cursors, or it is the last one.
  induction fuel generalizing i j bids with
  | zero =>
    rw [partition_of_lt (by omega)]
    exact ⟨i, j, bids, rfl, le_rfl, le_rfl, rfl⟩
  | succ fuel ih =>
    by_cases hij : i ≤ j
    · obtain ⟨kup, hiup, -, hup⟩ := h.up hij
      obtain ⟨kdown, hldown, hdownj, hdown⟩ := h.down hij
      obtain ⟨i₁, j₁, hi₁, -, hkj₁, hj₁, hscanUp, hscanDown, bids₁, hswap, hsub, hlength, h₁⟩ :=
        h.round hleft hiup hup hldown hdownj hdown
      rw [partition_round hij hscanUp hscanDown hswap hsub]
      by_cases hcross : i₁ ≤ j₁
      · obtain ⟨i', j', bids', hpart, hi', hj', hlength'⟩ := ih h₁ (by omega)
        rw [if_pos hcross]
        exact ⟨i', j', bids', hpart, by omega, by omega, hlength'.trans hlength⟩
      · rw [if_neg hcross, partition_of_lt (not_le.mp hcross)]
        exact ⟨i₁, j₁, bids, rfl, hi₁, hj₁, rfl⟩
    · rw [partition_of_lt (not_le.mp hij)]
      exact ⟨i, j, bids, rfl, le_rfl, le_rfl, rfl⟩

/-- The whole partition, with a pivot from within the range: both parts are shorter than the range,
since the pivot stops both cursors in the first round. -/
theorem exists_partition_of_mem {left right mid : ℕ} {bids : List AuctionBid} {pivot : AuctionBid}
    (hleft : 0 < left) (hmid : bids[mid]? = some pivot) (hle : left ≤ mid) (hge : mid ≤ right)
    (hright : right < bids.length) :
    ∃ i j bids', partition pivot.amount (bids.length + 2) left right bids = .ok (i, j, bids') ∧
      left < i ∧ j < right ∧ bids'.length = bids.length := by
  have hup : StopsUp pivot.amount bids mid := ⟨pivot, hmid, le_rfl⟩
  have hdown : StopsDown pivot.amount bids mid := ⟨pivot, hmid, le_rfl⟩
  have h : Stopped pivot.amount left right left right bids :=
    ⟨hright, le_rfl, le_rfl, fun _ => ⟨mid, hle, hge, hup⟩, fun _ => ⟨mid, hle, hge, hdown⟩⟩
  obtain ⟨i₁, j₁, hi₁, himid, hmidj, hj₁, hscanUp, hscanDown, bids₁, hswap, hsub, hlength, h₁⟩ :=
    h.round hleft hle hup hle hge hdown
  rw [partition_round (hle.trans hge) hscanUp hscanDown hswap hsub, if_pos (himid.trans hmidj)]
  have hfuel : j₁ - 1 < i₁ + 1 + bids.length := by omega
  obtain ⟨i, j, bids', hpart, hi, hj, hlength'⟩ := h₁.exists_partition hleft hfuel
  exact ⟨i, j, bids', hpart, by omega, by omega, hlength'.trans hlength⟩

/-! ### The sort -/

theorem exists_sortRange {fuel left right : ℕ} {bids : List AuctionBid} (hleft : 0 < left)
    (hle : left ≤ right) (hright : right < bids.length) (hfuel : right < left + fuel) :
    ∃ bids', sortRange fuel left right bids = .ok bids' ∧ bids'.length = bids.length := by
  -- The fuel bounds the length of the range.
  induction fuel generalizing left right bids with
  | zero => omega
  | succ fuel ih =>
    rw [sortRange]
    by_cases heq : left = right
    · exact ⟨bids, if_pos heq, rfl⟩
    · have hmid : left + (right - left) / 2 < bids.length := by omega
      have hwidth : checkedSub right left = .ok (right - left) := checkedSub_eq_ok_iff.mpr ⟨hle, rfl⟩
      have hpivot := List.getElem?_eq_getElem hmid
      obtain ⟨i, j, bids₁, hpart, hi, hj, hlength₁⟩ :=
        exists_partition_of_mem hleft hpivot (by omega) (by omega) hright
      obtain ⟨bids₂, hsort₂, hlength₂⟩ : ∃ bids₂,
          (if left < j then sortRange fuel left j bids₁ else pure bids₁) = .ok bids₂ ∧
            bids₂.length = bids₁.length := by
        by_cases hj' : left < j
        · rw [if_pos hj']
          exact ih hleft hj'.le (by omega) (by omega)
        · exact ⟨bids₁, if_neg hj', rfl⟩
      obtain ⟨bids₃, hsort₃, hlength₃⟩ : ∃ bids₃,
          (if i < right then sortRange fuel i right bids₂ else pure bids₂) = .ok bids₃ ∧
            bids₃.length = bids₂.length := by
        by_cases hi' : i < right
        · rw [if_pos hi']
          exact ih (by omega) hi'.le (by omega) (by omega)
        · exact ⟨bids₂, if_neg hi', rfl⟩
      refine ⟨bids₃, ?_, hlength₃.trans (hlength₂.trans hlength₁)⟩
      rw [if_neg heq, hwidth]
      simp only [bind, Except.bind, index_eq_ok_iff.mpr hpivot, hpart]
      by_cases hj' : left < j
      · rw [if_pos hj'] at hsort₂ ⊢
        rw [hsort₂]
        exact hsort₃
      · rw [if_neg hj'] at hsort₂ ⊢
        obtain rfl := pure_eq_ok_iff.mp hsort₂
        exact hsort₃

theorem lt_length_of_scanDown {pivot j j' : ℕ} {bids : List AuctionBid}
    (h : scanDown pivot bids j = .ok j') : j < bids.length := by
  cases j with
  | zero =>
    simp only [scanDown, bind_eq_ok_iff, index_eq_ok_iff] at h
    obtain ⟨bid, hbid, -⟩ := h
    exact (List.getElem?_eq_some_iff.mp hbid).1
  | succ j =>
    simp only [scanDown, bind_eq_ok_iff, index_eq_ok_iff] at h
    obtain ⟨bid, hbid, -⟩ := h
    exact (List.getElem?_eq_some_iff.mp hbid).1

/-- A sort that returns had a range within the array: the cursor that goes down reads its end. -/
theorem lt_length_of_sortRange {fuel left right : ℕ} {bids bids' : List AuctionBid}
    (hne : left ≠ right) (h : sortRange fuel left right bids = .ok bids') :
    left < right ∧ right < bids.length := by
  cases fuel with
  | zero => simp [sortRange] at h
  | succ fuel =>
    simp only [sortRange, if_neg hne, bind_eq_ok_iff, checkedSub_eq_ok_iff, Prod.exists] at h
    obtain ⟨width, ⟨hle, -⟩, pivot, -, i, j, bids₁, hpart, -⟩ := h
    refine ⟨lt_of_le_of_ne hle hne, ?_⟩
    simp only [partition, if_pos hle, bind_eq_ok_iff] at hpart
    obtain ⟨-, -, j', hdown, -⟩ := hpart
    exact lt_length_of_scanDown hdown

/-- **The sort succeeds exactly on a range within the array.** -/
theorem exists_sortRange_iff {left right : ℕ} {bids : List AuctionBid} (hleft : 0 < left)
    (hne : left ≠ right) :
    (∃ bids', sortRange (bids.length + 1) left right bids = .ok bids') ↔
      left < right ∧ right < bids.length := by
  constructor
  · rintro ⟨bids', h⟩
    exact lt_length_of_sortRange hne h
  · rintro ⟨hlt, hright⟩
    have hfuel : right < left + (bids.length + 1) := by omega
    obtain ⟨bids', h, -⟩ := exists_sortRange hleft hlt.le hright hfuel
    exact ⟨bids', h⟩

/-! ### The selection -/

/-- `x` is the `n`-th largest of the values, where equal values count as often as they occur. -/
def IsNthLargest (n : ℕ) (values : List ℕ) (x : ℕ) : Prop :=
  values.countP (x < ·) < n ∧ n ≤ values.countP (x ≤ ·)

instance (n : ℕ) (values : List ℕ) (x : ℕ) : Decidable (IsNthLargest n values x) :=
  inferInstanceAs (Decidable (_ ∧ _))

theorem IsNthLargest.mem {n : ℕ} {values : List ℕ} {x : ℕ} (h : IsNthLargest n values x) :
    x ∈ values := by
  by_contra hx
  have hcount : values.countP (x ≤ ·) = values.countP (x < ·) := by
    refine List.countP_congr fun v hv => ?_
    have hne : x ≠ v := fun hxv => hx (hxv ▸ hv)
    simp only [decide_eq_true_eq]
    omega
  have := h.1
  have := h.2
  omega

/-- `_getMinBid` returns the `TICKET_SUPPLY`-th largest of the recorded values and leaves these values
a permutation of what they were. -/
def MinBidCorrect (A : Immutables) (s : State) : Prop :=
  ∃ minBid s', getMinBid A s = .ok (minBid, s') ∧
    IsNthLargest A.ticketSupply s.allBidValues minBid ∧ s'.allBidValues.Perm s.allBidValues

/-- What the selection returns for different ends: the value recorded at index `TICKET_SUPPLY - 1`. -/
theorem exists_getMinBid_iff {A : Immutables} {s : State} {first last minBid : ℕ}
    (hfirst : s.allBidValues[0]? = some first)
    (hlast : s.allBidValues[s.allBidValues.length - 1]? = some last) (hpos : 0 < first)
    (hne : first ≠ last) :
    (∃ s', getMinBid A s = .ok (minBid, s')) ↔
      first < last ∧ last < s.bids.length ∧ s.allBidValues[A.ticketSupply - 1]? = some minBid := by
  rw [← and_assoc, ← exists_sortRange_iff hpos hne]
  constructor
  · rintro ⟨s', h⟩
    simp only [getMinBid, index_eq_ok_iff.mpr hfirst, index_eq_ok_iff.mpr hlast] at h
    simp only [bind_eq_ok_iff, Except.ok.injEq, exists_eq_left', if_neg hne, pure_eq_ok_iff,
      index_eq_ok_iff] at h
    obtain ⟨bids, hsort, value, hvalue, h⟩ := h
    obtain ⟨rfl, -⟩ := Prod.mk.inj h
    exact ⟨⟨bids, hsort⟩, hvalue⟩
  · rintro ⟨⟨bids, hsort⟩, hvalue⟩
    refine ⟨{ s with bids := bids }, ?_⟩
    simp only [getMinBid, index_eq_ok_iff.mpr hfirst, index_eq_ok_iff.mpr hlast, bind, Except.bind,
      if_neg hne, hsort, index_eq_ok_iff.mpr hvalue]
    rfl

/-- The selection changes nothing but the order of `bids`. -/
theorem getMinBid_eq_ok {A : Immutables} {s s' : State} {minBid : ℕ}
    (h : getMinBid A s = .ok (minBid, s')) : ∃ bids, s' = { s with bids := bids } := by
  simp only [getMinBid, bind_eq_ok_iff] at h
  obtain ⟨left, -, right, -, h⟩ := h
  by_cases heq : left = right
  · rw [if_pos heq, pure_eq_ok_iff] at h
    obtain ⟨-, rfl⟩ := Prod.mk.inj h
    exact ⟨s.bids, rfl⟩
  · simp only [if_neg heq, bind_eq_ok_iff, pure_eq_ok_iff] at h
    obtain ⟨bids, -, value, -, h⟩ := h
    obtain ⟨-, rfl⟩ := Prod.mk.inj h
    exact ⟨bids, rfl⟩

/-- **The selection of the cutoff.**  With at least `TICKET_SUPPLY` recorded values, none of them below
the reserve price, the cutoff is right exactly if the first of them is below the last, the last is an
index into `bids`, and the value at index `TICKET_SUPPLY - 1` happens to have the rank that is asked
for. -/
theorem getMinBid_correct_iff {A : Immutables} {s : State}
    (hlength : A.ticketSupply ≤ s.allBidValues.length)
    (hvalues : ∀ v ∈ s.allBidValues, A.ticketReservePrice ≤ v) :
    MinBidCorrect A s ↔
      ∃ first last value, s.allBidValues[0]? = some first ∧
        s.allBidValues[s.allBidValues.length - 1]? = some last ∧ first < last ∧
        last < s.bids.length ∧ s.allBidValues[A.ticketSupply - 1]? = some value ∧
        IsNthLargest A.ticketSupply s.allBidValues value := by
  have hsupply := A.supply_pos
  have hprice := A.reservePrice_pos
  have hpos : 0 < s.allBidValues.length := by omega
  have hfirst : s.allBidValues[0]? = some s.allBidValues[0] := List.getElem?_eq_getElem hpos
  have hlast : s.allBidValues[s.allBidValues.length - 1]? =
      some s.allBidValues[s.allBidValues.length - 1] := List.getElem?_eq_getElem (by omega)
  have hfirst_pos : 0 < s.allBidValues[0] := by
    have := hvalues _ (List.getElem_mem hpos)
    omega
  constructor
  · rintro ⟨minBid, s', hmin, hnth, -⟩
    by_cases hne : s.allBidValues[0] = s.allBidValues[s.allBidValues.length - 1]
    · -- equal ends: the cutoff is zero, which nobody has bid
      rw [getMinBid_of_equalEnds A ⟨_, hfirst, hne ▸ hlast⟩] at hmin
      obtain ⟨rfl, -⟩ := Prod.mk.inj (Except.ok.inj hmin)
      have := hvalues 0 hnth.mem
      omega
    · obtain ⟨hlt, hbound, hvalue⟩ :=
        (exists_getMinBid_iff hfirst hlast hfirst_pos hne).mp ⟨s', hmin⟩
      exact ⟨_, _, minBid, hfirst, hlast, hlt, hbound, hvalue, hnth⟩
  · rintro ⟨first, last, value, hfirst', hlast', hlt, hbound, hvalue, hnth⟩
    obtain rfl := Option.some.inj (hfirst.symm.trans hfirst')
    obtain ⟨s', hmin⟩ :=
      (exists_getMinBid_iff hfirst hlast' hfirst_pos hlt.ne).mpr ⟨hlt, hbound, hvalue⟩
    obtain ⟨bids, rfl⟩ := getMinBid_eq_ok hmin
    exact ⟨value, _, hmin, hnth, .refl _⟩

/-- Two tickets, and three values that came in ascending order; `bids` reaches past the largest. -/
theorem getMinBid_correct_ascending :
    MinBidCorrect { smallSale with ticketSupply := 2, supply_pos := by decide }
      { deployed 1 [] with allBidValues := [5, 6, 7], bids := List.replicate 8 ⟨1, 5, 0⟩ } :=
  (getMinBid_correct_iff (by decide) (by decide)).mpr
    ⟨5, 7, 6, rfl, rfl, by decide, by decide, rfl, by decide⟩

/-- One ticket and one bid: the cutoff is zero and not the bid. -/
theorem exists_wrong_minBid :
    ∃ actions,
      let s := after smallSale 1 [] actions
      s.allBidValues = [5] ∧ IsNthLargest smallSale.ticketSupply s.allBidValues 5 ∧
        (getMinBid smallSale s).map Prod.fst = .ok 0 ∧ ¬ MinBidCorrect smallSale s := by
  let actions := [callFrom 1 5 (.sendBid 5)]
  have hvalues : (after smallSale 1 [] actions).allBidValues = [5] := by decide +kernel
  have hends : EqualEnds (after smallSale 1 [] actions).allBidValues := by
    rw [hvalues]
    exact ⟨5, rfl, rfl⟩
  have hmin := getMinBid_of_equalEnds smallSale hends
  refine ⟨actions, hvalues, by rw [hvalues]; decide, by rw [hmin]; rfl, ?_⟩
  rintro ⟨minBid, s', h, hnth, -⟩
  rw [hmin] at h
  obtain ⟨rfl, -⟩ := Prod.mk.inj (Except.ok.inj h)
  have hmem := hnth.mem
  rw [hvalues] at hmem
  exact absurd hmem (by decide)

end Suift.Auction
