import Suift.Auction.Contract
import Mathlib.Algebra.BigOperators.Finprod

/-!
# The books of the auction

What the history of the contract says about money, credit and tickets, to be compared with what the
contract is for: a rebate that was credited is paid once, tickets go to winners who have paid, and the
contract holds what it owes.
-/

namespace Suift.Auction

def Effect.creditTo (account : Address) : Effect → ℕ
  | .credited account' amount _ => if account' = account then amount else 0
  | _ => 0

def Effect.rebateTo (account : Address) : Effect → ℕ
  | .rebatePaid account' amount => if account' = account then amount else 0
  | _ => 0

/-- A credit for attendance. -/
def Effect.attendanceCreditTo (account : Address) : Effect → ℕ
  | .credited account' amount .attendance => if account' = account then amount else 0
  | _ => 0

/-- The accounts that tickets are minted to, one entry a ticket. -/
def Effect.tickets : Effect → List Address
  | .ticketsMinted beneficiary _ amount => List.replicate amount beneficiary
  | _ => []

/-- A credit booked by an evaluation of the winners: index, account and amount. -/
def Effect.evaluationCredit? : Effect → Option (ℕ × Address × ℕ)
  | .credited account amount (.evaluation i) => some (i, account, amount)
  | _ => none

/-- All that was ever credited to `accountForWithdrawals[account]`. -/
def creditedTo (log : List Effect) (account : Address) : ℕ :=
  (log.map (Effect.creditTo account)).sum

/-- All that `rebateWithdraw` ever sent to an account. -/
def rebatePaidTo (log : List Effect) (account : Address) : ℕ :=
  (log.map (Effect.rebateTo account)).sum

/-- All that was ever credited to an account for attendance. -/
def attendanceCreditedTo (log : List Effect) (account : Address) : ℕ :=
  (log.map (Effect.attendanceCreditTo account)).sum

def ticketsMinted (log : List Effect) : List Address :=
  log.flatMap Effect.tickets

/-- The credits that evaluations booked. -/
def evaluationCredits (log : List Effect) : List (ℕ × Address × ℕ) :=
  log.filterMap Effect.evaluationCredit?

namespace State

/-- The rebate credited to an account and not yet paid out. -/
def owedTo (s : State) (account : Address) : ℕ :=
  creditedTo s.log account - rebatePaidTo s.log account

/-- The rebate owed to all accounts together. -/
noncomputable def owed (s : State) : ℕ :=
  ∑ᶠ account : Address, s.owedTo account

/-- The stored bids with a property: index, beneficiary and amount. -/
def bidsWhere (s : State) (p : AuctionBid → Bool) : List (ℕ × Address × ℕ) :=
  s.stored.zipIdx.filterMap fun (bid, i) =>
    if p bid then some (i, bid.beneficiary, bid.amount) else none

/-- The bids with at least `TICKET_SUPPLY` higher ones, which lose however ties are broken. -/
def outbid (A : Immutables) (s : State) : List (ℕ × Address × ℕ) :=
  s.bidsWhere fun bid => A.ticketSupply ≤ s.stored.countP (bid.amount < ·.amount)

/-- The bids that are among the `TICKET_SUPPLY` highest however ties are broken. -/
def secure (A : Immutables) (s : State) : List (ℕ × Address × ℕ) :=
  s.bidsWhere fun bid => s.stored.countP (bid.amount ≤ ·.amount) ≤ A.ticketSupply

/-- The account is the beneficiary of a winning bid and has paid what it owes for it, up to the
deposit, in a call of `payForTickets`. -/
def EarnedTicket (A : Immutables) (s : State) (account : Address) : Prop :=
  ∃ bid value, s.bids.find? (·.beneficiary = account) = some bid ∧
    .paidForTickets account value ∈ s.log ∧ bid.amount - A.ticketReservePrice ≤ value

/-- The participant has a winning bid, and the owner has confirmed the attendance. -/
def ConfirmedWinner (s : State) (participant : Address) : Prop :=
  (∃ bid ∈ s.bids, bid.beneficiary = participant) ∧ .attendanceConfirmed participant ∈ s.log

/-- Tickets are minted only to those who have earned them, and only confirmed winners attend. -/
structure Earned (A : Immutables) (s : State) : Prop where
  tickets : ∀ account ∈ ticketsMinted s.log, s.EarnedTicket A account
  attendees : ∀ participant, s.attendees participant = true → s.ConfirmedWinner participant

/-- The tickets are sold as an auction of `TICKET_SUPPLY` tickets should sell them.  The stored bids that
have not won have lost. -/
structure FairSale (A : Immutables) (s : State) : Prop where
  winners_le : s.bids.length ≤ A.ticketSupply
  losers_le : ∀ won ∈ s.bids, ∀ lost ∈ s.stored, lost ∉ s.bids → lost.amount ≤ won.amount
  one_each : ∀ account,
    (ticketsMinted s.log).count account ≤ (s.bids.map AuctionBid.beneficiary).count account
  tickets_le : (ticketsMinted s.log).length ≤ A.ticketSupply

/-- The end of the auction was called for in the state `s₀`.  Since then, evaluations have credited each bid
that had lost by then once and none that had won, and another one changes nothing. -/
structure LosersCredited (A : Immutables) (s₀ s : State) : Prop where
  once : ∀ x ∈ s₀.outbid A, (evaluationCredits s.log).count x = 1
  winners : ∀ x ∈ s₀.secure A, x ∉ evaluationCredits s.log
  again : ∀ m bids s', getWinningBids A m s = .ok (bids, s') →
    s'.accountForWithdrawals = s.accountForWithdrawals ∧ s'.log = s.log ∧
      getWinningBids A m s' = .ok (bids, s')

end State

/-! ### Booking one effect -/

@[simp]
theorem creditedTo_cons (e : Effect) (log : List Effect) (account : Address) :
    creditedTo (e :: log) account = e.creditTo account + creditedTo log account := rfl

theorem creditedTo_append (log log' : List Effect) (account : Address) :
    creditedTo (log ++ log') account = creditedTo log account + creditedTo log' account := by
  rw [creditedTo, List.map_append, List.sum_append]
  rfl

@[simp]
theorem attendanceCreditedTo_cons (e : Effect) (log : List Effect) (account : Address) :
    attendanceCreditedTo (e :: log) account =
      e.attendanceCreditTo account + attendanceCreditedTo log account := rfl

theorem attendanceCreditedTo_append (log log' : List Effect) (account : Address) :
    attendanceCreditedTo (log ++ log') account =
      attendanceCreditedTo log account + attendanceCreditedTo log' account := by
  rw [attendanceCreditedTo, List.map_append, List.sum_append]
  rfl

@[simp]
theorem rebatePaidTo_cons (e : Effect) (log : List Effect) (account : Address) :
    rebatePaidTo (e :: log) account = e.rebateTo account + rebatePaidTo log account := rfl

theorem rebatePaidTo_append (log log' : List Effect) (account : Address) :
    rebatePaidTo (log ++ log') account = rebatePaidTo log account + rebatePaidTo log' account := by
  rw [rebatePaidTo, List.map_append, List.sum_append]
  rfl

end Suift.Auction
