import Suift.Auction.Equiv.Sorting
import Suift.Auction.Ledger
import Mathlib.Order.Bounds.Basic

/-!
# Bids and what they cost

`sendBid` asks for the boost of the bidder with `_getBoosted`, which is `onlyOwner`, and for the cutoff
with `_getMinBid`, which compares the first and the last recorded value.  While the auction is open,
`bids` is empty, and the selection only gets through when the two are equal.

* `bidAccepted_iff`: the only bids that do not revert are those of the owner that repeat the value of the
  earlier bids.
* `not_minBidCorrect_after`: the cutoff is wrong in every state that a run reaches.
* `isLeast_totals_iff`: in a run from the deployment, `payForTickets` takes nothing from anybody.  In a state
  of an ended auction, what a winner must pay in total is the first bid stored for the bidder, and this
  includes the boost.
-/

namespace Suift.Auction

open Fallible Frames

/-! ### Equal values -/

theorem equalEnds_append_iff {values : List ℕ} {v : ℕ} :
    EqualEnds (values ++ [v]) ↔ ∀ w, values.head? = some w → w = v := by
  have hlast : (values ++ [v])[(values ++ [v]).length - 1]? = some v := by simp
  cases values with
  | nil => exact iff_of_true ⟨v, rfl, hlast⟩ (fun w hw => nomatch hw)
  | cons x xs =>
    constructor
    · rintro ⟨u, hfirst, hlast'⟩ w hw
      obtain rfl : x = u := Option.some.inj hfirst
      obtain rfl : x = w := Option.some.inj hw
      exact Option.some.inj (hlast'.symm.trans hlast)
    · intro h
      obtain rfl := h x rfl
      exact ⟨x, rfl, hlast⟩

/-- A list of equal values stays one if its ends stay equal. -/
theorem head?_of_equalEnds_append {values : List ℕ} {amount : ℕ}
    (h : ∀ v ∈ values, values.head? = some v) (hends : EqualEnds (values ++ [amount])) :
    ∀ v ∈ values ++ [amount], (values ++ [amount]).head? = some v := by
  intro v hv
  cases values with
  | nil =>
    rw [List.mem_singleton.mp hv]
    rfl
  | cons x xs =>
    obtain rfl := equalEnds_append_iff.mp hends x rfl
    rcases List.mem_append.mp hv with hold | hnew
    · exact h v hold
    · rw [List.mem_singleton.mp hnew]
      rfl

/-! ### Over a whole run -/

/-- What is recorded in every state: one value, however often it was bid, and the cutoff zero. -/
structure Uniform (s : State) : Prop where
  values : ∀ v ∈ s.allBidValues, s.allBidValues.head? = some v
  currMinBid : s.currMinBid = 0

theorem Change.uniform {A : Immutables} {s s' : State} {e : Entry} (h : Change A s e s')
    (hs : Uniform s) : Uniform s' := by
  cases h with
  | same => exact hs
  | settings | stored | minted | attended | withdrawn | refunded => exact ⟨hs.values, hs.currMinBid⟩
  | ended | paid | confirmed => exact ⟨hs.values, rfl⟩
  | bid hopen hends hlog =>
    exact ⟨head?_of_equalEnds_append hs.values hends, rfl⟩

theorem uniform_after (A : Immutables) (deployer : Address) (stored : List AuctionBid)
    (actions : List (Action Entry)) : Uniform (after A deployer stored actions) :=
  after_induct (fun _ _ _ _ h hs => h.uniform hs) ⟨nofun, rfl⟩ actions

/-- The bid of `m` is accepted and recorded, and it does not lower the cutoff. -/
def BidAccepted (A : Immutables) (m : Msg) (bidAmount : ℕ) (s : State) : Prop :=
  ∃ next s', sendBid A m bidAmount (s.receive m.value) = .ok (next, s') ∧
    s'.stored = s.stored ++ [⟨m.sender, bidAmount + s.boosted m.sender, m.timestamp⟩] ∧
    s'.allBidValues = s.allBidValues ++ [bidAmount + s.boosted m.sender] ∧
    s.currMinBid ≤ s'.currMinBid

/-- **Who can bid.**  While the auction is open, a confidential bid of at least the reserve price is
accepted exactly if the bidder is the owner and all recorded values are equal to the boosted bid.  The
cutoff does not decrease along the run. -/
theorem bidAccepted_iff (A : Immutables) (deployer : Address) (stored : List AuctionBid)
    (actions : List (Action Entry)) {m : Msg} {bidAmount : ℕ}
    (hopen : (after A deployer stored actions).auctionEnded = false)
    (hconf : m.isConfidential = true) (hreserve : A.ticketReservePrice ≤ bidAmount)
    (hfits : bidAmount + (after A deployer stored actions).boosted m.sender < uintSize) :
    (BidAccepted A m bidAmount (after A deployer stored actions) ∧
        ∀ n, (after A deployer stored (actions.take n)).currMinBid ≤
          (after A deployer stored actions).currMinBid) ↔
      m.sender = (after A deployer stored actions).owner ∧
        ∀ v ∈ (after A deployer stored actions).allBidValues,
          v = bidAmount + (after A deployer stored actions).boosted m.sender := by
  have hmono : ∀ n, (after A deployer stored (actions.take n)).currMinBid ≤
      (after A deployer stored actions).currMinBid := by
    intro n
    rw [(uniform_after A deployer stored (actions.take n)).currMinBid]
    exact Nat.zero_le _
  have huniform := uniform_after A deployer stored actions
  have hinv := (invariant_after A deployer stored actions).receive m.value
  generalize after A deployer stored actions = s at *
  rw [BidAccepted, and_iff_left hmono]
  constructor
  · rintro ⟨next, s', h, -, -, -⟩
    obtain ⟨-, -, howner, -, -, hends, -⟩ := (sendBid_eq_ok_iff hinv.bids_nil).mp h
    exact ⟨howner, fun v hv => equalEnds_append_iff.mp hends v (huniform.values v hv)⟩
  · rintro ⟨howner, hvalues⟩
    have hends : EqualEnds (s.allBidValues ++ [bidAmount + s.boosted m.sender]) :=
      equalEnds_append_iff.mpr fun w hw => hvalues w (List.mem_of_head? hw)
    obtain ⟨log, -, hupdate⟩ := updateMinBid_eq 0 ((s.receive m.value).recordBid
      ⟨m.sender, bidAmount + (s.receive m.value).boosted m.sender, m.timestamp⟩)
    have hsend := (sendBid_eq_ok_iff (A := A) hinv.bids_nil).mpr
      ⟨hopen, hreserve, howner, fun _ => hfits, hconf, hends, rfl⟩
    refine ⟨_, _, hsend, ?_⟩
    rw [hupdate, huniform.currMinBid]
    exact ⟨rfl, rfl, Nat.zero_le _⟩

/-- The owner bids nine for the second time. -/
theorem bidAccepted_nine :
    BidAccepted smallSale ⟨1, 0, 0, true⟩ 9 (after smallSale 1 [] [callFrom 1 5 (.sendBid 9)]) :=
  ((bidAccepted_iff smallSale 1 [] [callFrom 1 5 (.sendBid 9)] (by decide +kernel) rfl (by decide)
    (by decide +kernel)).mpr (by decide +kernel)).1

/-- The first bid of somebody else than the owner. -/
theorem exists_bid_reverted :
    let m : Msg := ⟨2, 5, 0, true⟩
    let s := after smallSale 1 [] []
    s.auctionEnded = false ∧ m.sender ≠ s.owner ∧ m.isConfidential = true ∧
      smallSale.ticketReservePrice ≤ 9 ∧ 9 + s.boosted m.sender < uintSize ∧
      sendBid smallSale m 9 (s.receive m.value) =
        .error (.error "Ownable: caller is not the owner") ∧ ¬ BidAccepted smallSale m 9 s := by
  refine ⟨rfl, by decide, rfl, by decide, by decide, rfl, ?_⟩
  rintro ⟨next, s', h, -⟩
  exact nomatch h

/-! ### The cutoff in every reachable state -/

theorem Change.allBidValues_eq {A : Immutables} {s s' : State} {e : Entry} (h : Change A s e s')
    (he : ∀ m bidAmount, e ≠ .call m (.sendBid bidAmount)) : s'.allBidValues = s.allBidValues := by
  cases h with
  | bid => exact absurd rfl (he _ _)
  | _ => rfl

/-- No value below the reserve price is ever recorded. -/
theorem enter_reservePrice_le {A : Immutables} {s : State} (hs : Invariant s)
    (hvalues : ∀ v ∈ s.allBidValues, A.ticketReservePrice ≤ v) (e : Entry) :
    (enter A e s).All (fun s' => ∀ v ∈ s'.allBidValues, A.ticketReservePrice ≤ v)
      Pending.NotBurning := by
  by_cases he : ∃ m bidAmount, e = .call m (.sendBid bidAmount)
  · obtain ⟨m, bidAmount, rfl⟩ := he
    refine all_ofExcept fun o ho => ?_
    simp only [call, dispatch, bind_eq_ok_iff, require_eq_ok_iff, map_eq_ok_iff] at ho
    obtain ⟨-, -, r, hr, rfl⟩ := ho
    obtain ⟨-, hreserve, -, -, -, -, rfl⟩ := (sendBid_eq_ok_iff (hs.receive m.value).bids_nil).mp hr
    obtain ⟨log, -, hupdate⟩ := updateMinBid_eq 0 ((s.receive m.value).recordBid
      ⟨m.sender, bidAmount + (s.receive m.value).boosted m.sender, m.timestamp⟩)
    rw [hupdate]
    intro v hv
    rcases List.mem_append.mp hv with hold | hnew
    · exact hvalues v hold
    · rw [List.mem_singleton.mp hnew]
      exact hreserve.trans (Nat.le_add_right _ _)
  · refine (enter_change hs e).mono fun _ s' h => ?_
    rw [h.allBidValues_eq fun m bidAmount h => he ⟨m, bidAmount, h⟩]
    exact hvalues

theorem reservePrice_le_after (A : Immutables) (deployer : Address) (stored : List AuctionBid)
    (actions : List (Action Entry)) :
    ∀ v ∈ (after A deployer stored actions).allBidValues, A.ticketReservePrice ≤ v := by
  let P : State → Prop := fun s => Invariant s ∧ ∀ v ∈ s.allBidValues, A.ticketReservePrice ≤ v
  have hdeployed : P (deployed deployer stored) := ⟨invariant_deployed deployer stored, nofun⟩
  refine (run_holds (P := P) (Q := Pending.NotBurning) (G := fun _ _ => True) ?_ ?_
    (holds_initial hdeployed) (meets_of_all (fun _ _ => trivial) _ _)).cur.2
  · rintro e s ⟨hs, hvalues⟩ -
    have hinv := (enter_change (A := A) hs e).mono fun _ s' h => h.invariant hs
    exact hinv.and (enter_reservePrice_le hs hvalues e)
  · rintro k ok s hk ⟨hs, hvalues⟩
    have hreturn : (resume A k ok s).All (Change A s (.storeElsewhere ⟨0, 0, 0⟩)) Pending.NotBurning :=
      resume_quiet hk trivial
    refine hreturn.mono fun _ s' h => ⟨h.invariant hs, ?_⟩
    rw [h.allBidValues_eq nofun]
    exact hvalues

/-- **The cutoff is never right**: in a state that a run reaches it is zero, if it can be computed. -/
theorem not_minBidCorrect_after (A : Immutables) (deployer : Address) (stored : List AuctionBid)
    (actions : List (Action Entry)) : ¬ MinBidCorrect A (after A deployer stored actions) := by
  have hvalues := reservePrice_le_after A deployer stored actions
  have hev := (invariant_after A deployer stored actions).evaluable
  generalize after A deployer stored actions = s at *
  rintro ⟨minBid, s', h, hnth, -⟩
  have hzero : minBid = 0 := by
    rcases hev.nil_or with hnil | hends
    · exact (getMinBid_of_bids_nil hnil h).2.1
    · rw [getMinBid_of_equalEnds A hends] at h
      exact (Prod.mk.inj (Except.ok.inj h)).1.symm
  have hle := hvalues minBid hnth.mem
  have hprice := A.reservePrice_pos
  omega

/-! ### What a winner pays -/

/-- What a bidder may pay in total: the deposit and a payment that is accepted. -/
def State.totals (A : Immutables) (bidder : Address) (s : State) : Set ℕ :=
  { total | ∃ m : Msg, m.sender = bidder ∧ (∃ r, payForTickets A m (s.receive m.value) = .ok r) ∧
    total = A.ticketReservePrice + m.value }

theorem mem_totals_iff {A : Immutables} {bidder : Address} {s : State} {total : ℕ} (hs : Settled s) :
    total ∈ s.totals A bidder ↔
      ∃ bid, s.bids.find? (·.beneficiary = bidder) = some bid ∧
        A.ticketReservePrice ≤ bid.amount ∧ bid.amount ≤ total := by
  constructor
  · rintro ⟨m, rfl, ⟨r, hr⟩, rfl⟩
    obtain ⟨-, ⟨bid, hfind, hle, hdue⟩, -⟩ := (payForTickets_eq_ok_iff hs.invariant).mp hr
    exact ⟨bid, hfind, hle, by omega⟩
  · rintro ⟨bid, hfind, hle, htotal⟩
    let m : Msg := ⟨bidder, total - A.ticketReservePrice, 0, true⟩
    have hrated : Rated m s := ⟨hs.auctionEnded, hs.equalEnds, rfl, hs.all⟩
    have hdue : bid.amount - A.ticketReservePrice ≤ m.value := Nat.sub_le_sub_right htotal _
    refine ⟨m, rfl, ⟨_, (payForTickets_eq_ok_iff hs.invariant).mpr
      ⟨hrated, ⟨bid, hfind, hle, hdue⟩, rfl⟩⟩, ?_⟩
    exact (Nat.add_sub_cancel' (hle.trans htotal)).symm

/-- The least total is the first winning bid of the bidder. -/
theorem isLeast_totals_iff_find {A : Immutables} {bidder : Address} {s : State} {v : ℕ}
    (hs : Settled s) (hv : A.ticketReservePrice ≤ v) :
    IsLeast (s.totals A bidder) v ↔
      ∃ bid, s.bids.find? (·.beneficiary = bidder) = some bid ∧ bid.amount = v := by
  constructor
  · rintro ⟨hmem, hleast⟩
    obtain ⟨bid, hfind, hle, hamount⟩ := (mem_totals_iff hs).mp hmem
    have hbid : bid.amount ∈ s.totals A bidder := (mem_totals_iff hs).mpr ⟨bid, hfind, hle, le_rfl⟩
    exact ⟨bid, hfind, le_antisymm hamount (hleast hbid)⟩
  · rintro ⟨bid, hfind, rfl⟩
    refine ⟨(mem_totals_iff hs).mpr ⟨bid, hfind, hv, le_rfl⟩, fun total htotal => ?_⟩
    obtain ⟨bid', hfind', -, hle⟩ := (mem_totals_iff hs).mp htotal
    obtain rfl := Option.some.inj (hfind.symm.trans hfind')
    exact hle

/-- In any state, an accepted bid is at least the reserve price, and it is stored with the boost. -/
theorem stored_of_sendBid {A : Immutables} {m : Msg} {v : ℕ} {s s' : State} {next : Fn}
    (h : sendBid A m v s = .ok (next, s')) :
    A.ticketReservePrice ≤ v ∧
      s'.stored = s.stored ++ [⟨m.sender, v + s.boosted m.sender, m.timestamp⟩] := by
  simp only [sendBid, sendBidToConfidentialStore, bind_eq_ok_iff, require_eq_ok_iff, pure_eq_ok_iff,
    boostedBid_eq_ok_iff, Prod.exists] at h
  obtain ⟨-, -, -, hreserve, amount, ⟨-, -, rfl⟩, t, ⟨-, -, rfl⟩, minBid, t, hmin, h⟩ := h
  obtain ⟨bids, rfl⟩ := getMinBid_eq_ok hmin
  obtain ⟨log, -, hupdate⟩ := updateMinBid_eq minBid _
  obtain ⟨-, rfl⟩ := Prod.mk.inj h
  rw [hupdate]
  exact ⟨hreserve, rfl⟩

/-- In a run from the deployment the auction does not end, so that nobody can pay. -/
theorem totals_after (A : Immutables) (deployer bidder : Address) (stored : List AuctionBid)
    (actions : List (Action Entry)) : (after A deployer stored actions).totals A bidder = ∅ := by
  refine Set.eq_empty_iff_forall_notMem.mpr ?_
  rintro total ⟨m, -, ⟨r, hr⟩, -⟩
  have hinv := invariant_after A deployer stored actions
  have hopen := (undecided_after A deployer stored actions).auctionEnded
  obtain ⟨hrated, -⟩ := (payForTickets_eq_ok_iff hinv).mp hr
  exact absurd (hopen.symm.trans hrated.auctionEnded) Bool.false_ne_true

/-- In the state `t` of an ended auction, the first bid that was stored for a bidder is what the bidder must
pay. -/
theorem isLeast_totals_of_settled {A : Immutables} {m : Msg} {v : ℕ} {next : Fn} {s s' t : State}
    (hbid : sendBid A m v s = .ok (next, s')) (ht : Settled t) (hwon : s'.stored <+: t.bids) :
    IsLeast (t.totals A m.sender) v ↔
      match s.stored.find? (·.beneficiary = m.sender) with
      | some bid => bid.amount = v
      | none => s.boosted m.sender = 0 := by
  obtain ⟨hreserve, hstored⟩ := stored_of_sendBid hbid
  rw [isLeast_totals_iff_find ht hreserve]
  -- the winners begin with the bids from before this one and the bid itself
  obtain ⟨rest, hrest⟩ := hwon
  rw [← hrest, hstored, List.append_assoc, List.find?_append]
  cases hfind : s.stored.find? (·.beneficiary = m.sender) with
  | some bid => simp
  | none => simp

end Suift.Auction
