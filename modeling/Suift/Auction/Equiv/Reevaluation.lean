import Suift.Auction.Ledger
import Suift.Auction.Equiv.Calls

/-!
# Evaluating the winners again and again

`_getWinningBids` is run by `auctionEnd`, `payForTickets` and `setAttendConcert`.  It means to credit
the bids that have lost.  It reverts at the first stored bid, though: the cutoff is zero, so that the bid
is written to `bids`, which is empty (`enter_auctionEnd`).  No evaluation ever credits anybody, and whoever
is outbid gets nothing (`losersCredited_iff`).

The owner may call for the end in any state in which the auction is open, whatever bids are stored by then
and whatever values are recorded, and any calls may follow.
-/

namespace Suift.Auction

open Frames

/-- The auction is open and nothing has been evaluated. -/
structure Open (s : State) : Prop where
  bids : s.bids = []
  auctionEnded : s.auctionEnded = false
  rebatePeriodEnded : s.rebatePeriodEnded = false
  credits : evaluationCredits s.log = []

theorem Open.invariant {s : State} (h : Open s) : Invariant s := by
  refine ⟨?_, fun _ => h.bids, fun hended => ?_, h.rebatePeriodEnded⟩
  · rw [h.bids]
    exact List.nil_prefix
  · exact absurd (h.auctionEnded.symm.trans hended) Bool.false_ne_true

theorem evaluationCredits_attendanceEffects (participant : Address) (bids : List AuctionBid)
    (log : List Effect) :
    evaluationCredits (attendanceEffects participant bids ++ log) = evaluationCredits log := by
  have hnone : (attendanceEffects participant bids).filterMap Effect.evaluationCredit? = [] := by
    rw [List.filterMap_eq_nil_iff]
    intro e he
    obtain ⟨amount, rfl⟩ := mem_attendanceEffects he
    rfl
  rw [evaluationCredits, List.filterMap_append, hnone, List.nil_append]
  rfl

/-- No call books a credit for a losing bid. -/
theorem Change.evaluationCredits_eq {A : Immutables} {s s' : State} {e : Entry}
    (h : Change A s e s') : evaluationCredits s'.log = evaluationCredits s.log := by
  cases h with
  | bid hopen hends hlog =>
    rcases hlog with rfl | rfl
    · rfl
    · rfl
  | attended => exact evaluationCredits_attendanceEffects _ _ _
  | _ => rfl

theorem evaluationCredits_run (A : Immutables) {s₀ : State} (h₀ : Open s₀)
    (actions : List (Action Entry)) :
    Invariant ((machine A).run ⟨s₀, []⟩ actions).cur ∧
      evaluationCredits ((machine A).run ⟨s₀, []⟩ actions).cur.log = [] := by
  refine run_induct_all (P := fun s => evaluationCredits s.log = []) ?_ h₀.invariant h₀.credits actions
  intro e s s' _ hchange hs
  rw [hchange.evaluationCredits_eq, hs]

/-- With a bid in the store, the auction cannot be ended. -/
theorem enter_auctionEnd {A : Immutables} {m : Msg} {s : State} (hs : Open s) (hstored : s.stored ≠ []) :
    enter A (.call m .auctionEnd) s = .revert := by
  by_contra hrun
  have hchange := change_of_ne_revert (c := ⟨s, []⟩) hs.invariant hrun
  generalize ((machine A).step ⟨s, []⟩ _).cur = s' at hchange
  cases hchange with
  | same he | settings he | refunded he => exact he.elim
  | ended hends hall => exact hstored (hall.symm.trans hs.bids)

/-- A second evaluation finds everything as the first one left it. -/
theorem getWinningBids_again {A : Immutables} {m : Msg} {s s' : State} {bids : List AuctionBid}
    (hs : Invariant s) (h : getWinningBids A m s = .ok (bids, s')) :
    getWinningBids A m s' = .ok (bids, s') := by
  obtain ⟨hends, hm, hall, rfl, rfl⟩ := (getWinningBids_eq_ok_iff hs.evaluable).mp h
  have hev : Evaluable s.evaluated := ⟨hs.isPrefix, .inr hends⟩
  exact (getWinningBids_eq_ok_iff hev).mpr ⟨hends, hm, hall, rfl, rfl⟩

/-- **Evaluations and losing bids.**  The end of the auction is called for, and any calls follow.  With a
bid in the store the end reverts; the losing bids have been credited once each exactly if there were
none. -/
theorem losersCredited_iff (A : Immutables) {s₀ : State} (h₀ : Open s₀) (m : Msg)
    (actions : List (Action Entry)) :
    (s₀.stored ≠ [] → enter A (.call m .auctionEnd) s₀ = .revert) ∧
      (State.LosersCredited A s₀
          ((machine A).run ⟨s₀, []⟩ (.enter (.call m .auctionEnd) :: actions)).cur ↔
        s₀.outbid A = []) := by
  refine ⟨enter_auctionEnd h₀, ?_⟩
  obtain ⟨hinv, hcredits⟩ := evaluationCredits_run A h₀ (.enter (.call m .auctionEnd) :: actions)
  generalize ((machine A).run ⟨s₀, []⟩ (.enter (.call m .auctionEnd) :: actions)).cur = s
    at hinv hcredits
  constructor
  · -- A losing bid would have to be on record once, and there is no record.
    intro h
    refine List.eq_nil_iff_forall_not_mem.mpr fun x hx => ?_
    have hone := h.once x hx
    rw [hcredits, List.count_nil] at hone
    exact absurd hone Nat.zero_ne_one
  · intro hnone
    refine ⟨fun x hx => ?_, fun x _ hx => ?_, fun m bids s' h => ?_⟩
    · rw [hnone] at hx
      exact absurd hx List.not_mem_nil
    · rw [hcredits] at hx
      exact absurd hx List.not_mem_nil
    · have hagain := getWinningBids_again hinv h
      obtain ⟨-, -, -, -, rfl⟩ := (getWinningBids_eq_ok_iff hinv.evaluable).mp h
      exact ⟨rfl, rfl, hagain⟩

/-- One ticket and one bid. -/
theorem losersCredited_of_one_bid :
    let s₀ := after smallSale 1 [] [callFrom 1 5 (.sendBid 9)]
    State.LosersCredited smallSale s₀ ((machine smallSale).run ⟨s₀, []⟩
      [callFrom 1 0 .auctionEnd, callFrom 1 4 .payForTickets]).cur :=
  (losersCredited_iff smallSale ⟨rfl, rfl, rfl, rfl⟩ ⟨1, 0, 0, true⟩ _).2.mpr (by decide +kernel)

/-- One ticket, a bid of nine and a stored bid of seven.  The owner calls for the end of the auction: it
reverts, and the lower bid is not credited, then or later. -/
theorem exists_loser_uncredited :
    let s₀ := after smallSale 1 [] [callFrom 1 5 (.sendBid 9), .enter (.storeElsewhere ⟨2, 7, 0⟩)]
    let m : Msg := ⟨1, 0, 0, true⟩
    let s := ((machine smallSale).run ⟨s₀, []⟩
      [.enter (.call m .auctionEnd), callFrom 1 4 .payForTickets]).cur
    s₀.stored = [⟨1, 9, 0⟩, ⟨2, 7, 0⟩] ∧ m.sender = s₀.owner ∧
      auctionEnd smallSale m s₀ = .error (.panic 0x32) ∧ (1, 2, 7) ∈ s₀.outbid smallSale ∧
      s.accountForWithdrawals 2 = 0 ∧ evaluationCredits s.log = [] ∧
      ¬ State.LosersCredited smallSale s₀ s := by
  intro s₀ m s
  have hlost : (1, 2, 7) ∈ s₀.outbid smallSale := by decide +kernel
  have hcredits : evaluationCredits s.log = [] := by decide +kernel
  refine ⟨by decide +kernel, rfl, rfl, hlost, by decide +kernel, hcredits, fun h => ?_⟩
  have hone := h.once _ hlost
  rw [hcredits] at hone
  exact absurd hone (by decide)

end Suift.Auction
