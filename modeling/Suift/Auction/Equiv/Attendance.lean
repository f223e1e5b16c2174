import Suift.Auction.Equiv.Rebates

/-!
# The rebate for attendance

`_onChainSetAttendConcert` credits the participant with the amounts of all winning bids of the
participant, each time it runs.  Neither what the participant has paid nor the face value of the ticket
enters.

The winners do not change in the course of a run, and the credit is their amount times the number of marks
(`attendanceCreditedTo_run`).  In a run from the deployment there are none, and nobody is credited anything.
What becomes of winners is said of the runs from any state of an ended auction.  What an account has paid is
what it has really sent along with its calls; `payingRun` keeps it as a history beside the run.
-/

namespace Suift.Auction

open Frames

/-! ### One call -/

theorem attendanceCreditedTo_attendanceEffects (participant account : Address)
    (bids : List AuctionBid) :
    attendanceCreditedTo (attendanceEffects participant bids) account =
      if participant = account then attendanceCredit participant bids else 0 := by
  rw [← creditedTo_attendanceEffects]
  -- every credit among these effects is one for attendance
  refine congrArg List.sum (List.map_congr_left fun e he => ?_)
  obtain ⟨amount, rfl⟩ := mem_attendanceEffects he
  rfl

theorem count_attendedEvent_attendanceEffects (participant account : Address)
    (bids : List AuctionBid) :
    (attendanceEffects participant bids).count (.attendedEvent account) = 0 := by
  refine List.count_eq_zero.mpr fun hmem => ?_
  obtain ⟨amount, h⟩ := mem_attendanceEffects hmem
  exact Effect.noConfusion h

/-- What a call does to the marks of a participant and to the credit for them. -/
inductive Marking (participant : Address) (s s' : State) : Prop
  | none (hcredit : attendanceCreditedTo s'.log participant = attendanceCreditedTo s.log participant)
      (hmarks : s'.log.count (.attendedEvent participant) = s.log.count (.attendedEvent participant))
  | once (hkettle : participant = kettle)
      (hcredit : attendanceCreditedTo s'.log participant =
        attendanceCredit participant s.bids + attendanceCreditedTo s.log participant)
      (hmarks : s'.log.count (.attendedEvent participant) =
        s.log.count (.attendedEvent participant) + 1)

/-- One more effect that neither marks anybody nor credits a mark. -/
theorem Marking.of_silent {participant : Address} {s s' : State} {effect : Effect}
    (hlog : s'.log = effect :: s.log) (hcredit : effect.attendanceCreditTo participant = 0)
    (hmark : effect ≠ .attendedEvent participant) : Marking participant s s' := by
  refine .none ?_ ?_
  · rw [hlog, attendanceCreditedTo_cons, hcredit, zero_add]
  · rw [hlog, List.count_cons_of_ne hmark]

theorem Change.marking {A : Immutables} {s s' : State} {e : Entry} (h : Change A s e s')
    (participant : Address) : Marking participant s s' := by
  cases h with
  | same | settings | stored => exact .none rfl rfl
  | bid hopen hends hlog =>
    rcases hlog with rfl | rfl
    · exact .none rfl rfl
    · exact .of_silent rfl rfl (by simp)
  | ended | paid | minted | confirmed | withdrawn | refunded => exact .of_silent rfl rfl (by simp)
  | attended m =>
    by_cases hkettle : kettle = participant
    · subst hkettle
      refine .once rfl ?_ ?_
      · rw [attendanceCreditedTo_append, attendanceCreditedTo_attendanceEffects,
          attendanceCreditedTo_cons]
        simp [Effect.attendanceCreditTo]
      · rw [List.count_append, count_attendedEvent_attendanceEffects, zero_add, List.count_cons_self]
    · -- the callback lets only the kettle through
      refine .none ?_ ?_
      · rw [attendanceCreditedTo_append, attendanceCreditedTo_attendanceEffects,
          attendanceCreditedTo_cons, if_neg hkettle]
        simp [Effect.attendanceCreditTo]
      · rw [List.count_append, count_attendedEvent_attendanceEffects, zero_add,
          List.count_cons_of_ne fun h => hkettle (Effect.attendedEvent.inj h)]

/-! ### A whole run -/

/-- The participant has been marked neither with nor without a credit. -/
structure Unmarked (participant : Address) (s : State) : Prop where
  credit : attendanceCreditedTo s.log participant = 0
  marks : s.log.count (.attendedEvent participant) = 0

/-- The credit for attendance is the amount of the winning bids, as often as the participant was
marked. -/
theorem attendanceCreditedTo_run {A : Immutables} {s₀ : State} (hinv : Invariant s₀)
    {participant : Address} (hnew : Unmarked participant s₀) (actions : List (Action Entry)) :
    attendanceCreditedTo ((machine A).run ⟨s₀, []⟩ actions).cur.log participant =
      ((machine A).run ⟨s₀, []⟩ actions).cur.log.count (.attendedEvent participant) *
        attendanceCredit participant s₀.bids := by
  let P : State → Prop := fun s => s.bids = s₀.bids ∧
    attendanceCreditedTo s.log participant =
      s.log.count (.attendedEvent participant) * attendanceCredit participant s₀.bids
  have hstart : P s₀ := ⟨rfl, by rw [hnew.credit, hnew.marks, zero_mul]⟩
  refine (run_induct_all (P := P) ?_ hinv hstart actions).2.2
  rintro e s s' - hchange ⟨hbids, hs⟩
  refine ⟨hchange.bids_eq.trans hbids, ?_⟩
  cases hchange.marking participant with
  | none hcredit hmarks => rw [hcredit, hmarks, hs]
  | once hkettle hcredit hmarks => rw [hcredit, hmarks, hs, hbids, Nat.succ_mul, Nat.add_comm]

/-! ### What was paid -/

/-- The value that `account` sends with a call. -/
def noteValue (account : Address) : Entry → State → List ℕ
  | .call m _, _ => if m.sender = account then [m.value] else []
  | .storeElsewhere _, _ => []

/-- The machine of all calls that keeps the values `account` has sent with the calls that have gone
through. -/
def payingRun (A : Immutables) (account : Address) (s₀ : State) (actions : List (Action Entry)) :
    Config (State × List ℕ) Pending :=
  ((machine A).noting (noteValue account)).run ⟨(s₀, []), []⟩ actions

theorem payingRun_fst (A : Immutables) (account : Address) (s₀ : State) (actions : List (Action Entry)) :
    (payingRun A account s₀ actions).cur.1 = ((machine A).run ⟨s₀, []⟩ actions).cur :=
  congrArg Config.cur (run_noting (machine A) (noteValue account) _ actions)

/-- A winner of `s₀` who has paid for the ticket by the time of `s` and is marked as attending. -/
structure AttendingWinner (participant : Address) (s₀ s : State) : Prop where
  won : ∃ bid ∈ s₀.bids, bid.beneficiary = participant
  paid : ∃ value, .paidForTickets participant value ∈ s.log
  marked : .attendedEvent participant ∈ s.log

/-- In a run from the deployment there is no credit for attendance. -/
theorem attendanceCreditedTo_after (A : Immutables) (deployer participant : Address)
    (stored : List AuctionBid) (actions : List (Action Entry)) :
    attendanceCreditedTo (after A deployer stored actions).log participant = 0 := by
  have hnew : Unmarked participant (deployed deployer stored) := ⟨rfl, rfl⟩
  have hcredit := attendanceCreditedTo_run (A := A) (invariant_deployed deployer stored) hnew actions
  have hnone : attendanceCredit participant (deployed deployer stored).bids = 0 := rfl
  rw [hnone, mul_zero] at hcredit
  exact hcredit

/-- In a run from a state with winners, a winner who has paid and is marked is credited the amount of the
winning bids for each mark. -/
theorem rebate_of_settled (A : Immutables) {s₀ : State} (h₀ : Settled s₀) {participant : Address}
    (hnew : Unmarked participant s₀) (deposit : ℕ) (actions : List (Action Entry))
    (hwinner : AttendingWinner participant s₀ (payingRun A participant s₀ actions).cur.1) :
    let s := (payingRun A participant s₀ actions).cur.1
    let sent : ℤ := deposit + (payingRun A participant s₀ actions).cur.2.sum
    let marks := s.log.count (.attendedEvent participant)
    let amount := attendanceCredit participant s₀.bids
    ((attendanceCreditedTo s.log participant : ℤ) = sent - A.ticketReservePrice ↔
        sent = A.ticketReservePrice + marks * amount) ∧
      (sent ≤ amount → sent - A.ticketReservePrice < attendanceCreditedTo s.log participant) := by
  intro s sent marks amount
  have hrun : ((machine A).run ⟨s₀, []⟩ actions).cur = s := (payingRun_fst A participant s₀ actions).symm
  have hcredit : attendanceCreditedTo s.log participant = marks * amount := by
    have h := attendanceCreditedTo_run (A := A) h₀.invariant hnew actions
    rwa [hrun] at h
  have hmarked : 0 < marks := List.count_pos_iff.mpr hwinner.marked
  have hle : amount ≤ marks * amount := Nat.le_mul_of_pos_left amount hmarked
  have hprice := A.reservePrice_pos
  rw [hcredit]
  push_cast
  refine ⟨⟨fun h => by omega, fun h => by omega⟩, fun h => ?_⟩
  have hle' : (amount : ℤ) ≤ marks * amount := by exact_mod_cast hle
  omega

end Suift.Auction
