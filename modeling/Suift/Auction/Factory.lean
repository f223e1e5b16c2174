import Suift.Auction.Contract

/-!
# The auction factory

`contracts/AuctionFactory.sol`, and the machine of the factory together with all auctions it has made.

* The factory keeps the addresses of its auctions; an auction is given by its place in that list here.
* `new Auction(…)` runs the constructor with the factory for `msg.sender`, so that `Ownable` makes the
  factory the owner.  The event `AuctionCreated` names the account that has called the factory.
* All auctions store their bids under the same namespace and fetch all that is stored there.  An auction
  works on the store that the others leave (`Created.at`).
* The code of the factory calls nothing but constructors, so that no message comes from it
  (`FactoryEntry.Outside`).
-/

namespace Suift.Auction

open Frames

/-- An auction that the factory has made. -/
structure Created where
  /-- The owner according to the event `AuctionCreated`. -/
  creator : Address
  immutables : Immutables
  state : State

/-- The storage of the factory and of its auctions, and the bids in the confidential store. -/
structure Factory where
  auctions : List Created
  stored : List AuctionBid

def createAuction (factory : Address) (m : Msg) (ticketsAddress : Address)
    (auctionTicketsId ticketSupply ticketReservePrice : ℕ) (charity : Address) (w : Factory) :
    Except Revert Factory := do
  let A ← construct ticketsAddress auctionTicketsId ticketSupply ticketReservePrice charity
  return { w with auctions := w.auctions ++ [⟨m.sender, A, deployed factory w.stored⟩] }

/-- What anybody can do: call the factory or an auction, or store a bid by other means. -/
inductive FactoryEntry where
  | createAuction (m : Msg) (ticketsAddress : Address)
      (auctionTicketsId ticketSupply ticketReservePrice : ℕ) (charity : Address)
  | call (i : ℕ) (m : Msg) (f : Fn)
  | storeElsewhere (bid : AuctionBid)

/-- The state of an auction, with the bids that are in the store. -/
def Created.at (a : Created) (w : Factory) : State :=
  { a.state with stored := w.stored }

/-- The `i`-th auction, `a`, goes on in the state `s`. -/
def Factory.put (w : Factory) (i : ℕ) (a : Created) (s : State) : Factory where
  auctions := w.auctions.set i { a with state := s }
  stored := s.stored

/-- Run code of the `i`-th auction. -/
def Factory.runAuction (w : Factory) (i : ℕ) (code : Immutables → State → Result) :
    Outcome Factory (ℕ × Pending) :=
  match w.auctions[i]? with
  | none => .revert
  | some a => (code a.immutables (a.at w)).map (w.put i a) (Prod.mk i)

def enterFactory (factory : Address) : FactoryEntry → Factory → Outcome Factory (ℕ × Pending)
  | .createAuction m ticketsAddress auctionTicketsId ticketSupply ticketReservePrice charity, w =>
    Outcome.ofExcept (.done <$> createAuction factory m ticketsAddress auctionTicketsId ticketSupply
      ticketReservePrice charity w)
  | .call i m f, w => w.runAuction i fun A => enter A (.call m f)
  | .storeElsewhere bid, w => .done { w with stored := w.stored ++ [bid] }

def factoryMachine (factory : Address) : Machine Factory (ℕ × Pending) FactoryEntry where
  enter := enterFactory factory
  resume := fun (i, k) ok w => w.runAuction i fun A => resume A k ok

/-- The configuration after a run from the deployment of the factory. -/
def factoryRun (factory : Address) (stored : List AuctionBid) (actions : List (Action FactoryEntry)) :
    Config Factory (ℕ × Pending) :=
  (factoryMachine factory).run ⟨⟨[], stored⟩, []⟩ actions

/-- The account that a message comes from. -/
def FactoryEntry.sender? : FactoryEntry → Option Address
  | .createAuction m .. => some m.sender
  | .call _ m _ => some m.sender
  | .storeElsewhere _ => none

/-- The message does not come from the factory. -/
def FactoryEntry.Outside (factory : Address) (e : FactoryEntry) : Prop :=
  e.sender? ≠ some factory

/-! ### What the creator should be able to do -/

/-- All calls are made by `c`. -/
def CallsBy (c : Address) (actions : List (Action FactoryEntry)) : Prop :=
  ∀ e, .enter e ∈ actions → e.sender? = some c

/-- A call `m` of `burnOrSendRebate` sends the credit of the participant to the charity. -/
def SendsRebate (A : Immutables) (m : Msg) (participant : Address) (s : State) : Prop :=
  ∃ before during next, enter A (.call m (.burnOrSendRebate participant)) s = .calls before during next ∧
    during.log = .charityPaid A.charityAddress (s.accountForWithdrawals participant) :: s.log

/-- From a configuration `w`, calls of `c` end the `i`-th auction and then the rebate period, and after
that a call of `c` sends the credit of any winner who did not attend to the charity. -/
def CanFinish (factory c : Address) (i : ℕ) (w : Config Factory (ℕ × Pending)) : Prop :=
  ∃ close release a a', CallsBy c close ∧ CallsBy c release ∧
    ((factoryMachine factory).run w close).cur.auctions[i]? = some a ∧
    a.state.auctionEnded = true ∧
    ((factoryMachine factory).run w (close ++ release)).cur.auctions[i]? = some a' ∧
    a'.state.rebatePeriodEnded = true ∧
    ∀ participant, (∃ bid ∈ a'.state.bids, bid.beneficiary = participant) →
      a'.state.attendees participant = false →
      ∃ m, m.sender = c ∧ SendsRebate a'.immutables m participant a'.state

end Suift.Auction
