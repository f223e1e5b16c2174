import Suift.Auction.Evaluation
import Suift.Lib.Frames

/-!
# The auction contract

The public functions of `contracts/Auction.sol`, with those it inherits from `Ownable`, and the
machine of all calls to it.

Three functions hand control to somebody else: the winner who is sent a rebate, the charity, and the
account that a ticket is minted to, which `ERC1155` asks for its consent.  Each of them may call the
contract again before it returns (`Pending`, `machine`).

* Every function runs as an ordinary call: its effects on the storage stay unless it reverts.
* `sendBid` reads `msg.value`, so it is taken to be payable; `payForTickets` is declared so.  No other
  function takes a value.
* The guard `sender == …` of the two callbacks without a parameter of that name tests the address they
  are called with, as in `_receiveBidInfo`.
* `bidders[sender] == false` asks whether the account is in the array.
* `keccak256(abi.encode(x)) == keccak256(abi.encode(y))` is `x = y`.
* The bytes that a function returns for the kettle to send on chain are the call they encode.
-/

namespace Suift.Auction

open Frames

/-- A call to the contract. -/
inductive Fn where
  | setBoosted (bidder : Address) (boostAmount : ℕ)
  | sendBid (bidAmount : ℕ)
  | receiveBidInfo (sender : Address) (value : ℕ)
  | auctionEnd
  | payForTickets
  | onchainPayForTickets (sender : Address)
  | setAttendConcert (participant : Address)
  | onChainSetAttendConcert (participant : Address)
  | rebateWithdraw
  | burnOrSendRebate (participant : Address)
  | transferOwnership (newOwner : Address)
  | renounceOwnership
deriving DecidableEq

/-- What is left of a function that waits for an external call. -/
inductive Pending where
  /-- `tickets.mint` waits for the receiver to accept the ticket. -/
  | acceptTickets
  | rebate (beneficiary : Address) (amount : ℕ)
  /-- The loop of `burnOrSendRebate` goes on at index `i`. -/
  | burn (sender participant : Address) (i : ℕ)

abbrev Result := Outcome State Pending

def setBoosted (m : Msg) (bidder : Address) (boostAmount : ℕ) (s : State) :
    Except Revert State := do
  onlyOwner m s
  require (0 < boostAmount) "boost amount must be greater than 0"
  return { s with boosted := Function.update s.boosted bidder boostAmount }

/-- `_getBoosted`, which is `onlyOwner` as well. -/
def getBoosted (m : Msg) (bidder : Address) (s : State) : Except Revert ℕ := do
  onlyOwner m s
  return s.boosted bidder

/-- The bid of a bidder who may have got a boost from the owner. -/
def boostedBid (m : Msg) (bidAmount : ℕ) (s : State) : Except Revert ℕ := do
  let boost ← getBoosted m m.sender s
  if 0 < boost then checkedAdd bidAmount boost else return bidAmount

/-- `_sendBidToConfidentialStore` -/
def sendBidToConfidentialStore (m : Msg) (bid : AuctionBid) (s : State) : Except Revert State := do
  require (m.isConfidential = true) ""
  return { s with stored := s.stored ++ [bid] }

def updateMinBid (latestMinBid : ℕ) (s : State) : State :=
  if s.currMinBid ≠ latestMinBid then
    { s with currMinBid := latestMinBid }.emit (.minBidUpdated latestMinBid)
  else s

def sendBid (A : Immutables) (m : Msg) (bidAmount : ℕ) (s : State) :
    Except Revert (Fn × State) := do
  require (s.auctionEnded = false) "The auction has ended"
  require (A.ticketReservePrice ≤ bidAmount) "The bid cannot be lower than ticket value"
  let bidAmount ← boostedBid m bidAmount s
  let s ← sendBidToConfidentialStore m ⟨m.sender, bidAmount, m.timestamp⟩ s
  let s := { s with allBidValues := s.allBidValues ++ [bidAmount] }
  let (latestMinBid, s) ← getMinBid A s
  return (.receiveBidInfo m.sender m.value, updateMinBid latestMinBid s)

/-- `_receiveBidInfo` -/
def receiveBidInfo (A : Immutables) (sender : Address) (value : ℕ) (s : State) :
    Except Revert State := do
  require (sender = kettle) "sender should be kettle"
  if sender ∈ s.bidders then return s
  else
    require (value = A.ticketReservePrice) "Required to send ticket reserve amount"
    return { s with bidders := s.bidders ++ [sender] }

def auctionEnd (A : Immutables) (m : Msg) (s : State) : Except Revert State := do
  onlyOwner m s
  let s := { s with auctionEnded := true }
  let (winningBids, s) ← getWinningBids A m s
  return { s with winningBids := winningBids }.emit (.auctionEnded winningBids)

def payForTickets (A : Immutables) (m : Msg) (s : State) : Except Revert (Fn × State) := do
  require (s.auctionEnded = true) "Auction still ongoing"
  let (isWinner, s) ← checkIfWinner A m m.sender s
  require (isWinner = true) "Did not win tickets"
  let (amountOwed, s) ← getAmountOwed A m m.sender s
  let due ← checkedSub amountOwed A.ticketReservePrice
  require (due ≤ m.value) "Payment amout incorrect"
  return (.onchainPayForTickets m.sender, s.emit (.paidForTickets m.sender m.value))

/-- `Tickets.mint`, called by the owner of the tickets, up to the point where the receiver is asked. -/
def mint (beneficiary : Address) (id amount : ℕ) (s : State) : Except Revert State := do
  require (id = 1 ∨ id = 2 ∨ id = 3 ∨ id = 4) "Token does not exist"
  require (beneficiary ≠ 0) "ERC1155: mint to the zero address"
  return s.emit (.ticketsMinted beneficiary id amount)

/-- `_onchainPayForTickets` -/
def onchainPayForTickets (A : Immutables) (m : Msg) (sender : Address) (s : State) :
    Except Revert Result := do
  require (sender = kettle) "sender should be kettle"
  let minted ← mint m.sender A.auctionTicketsType 1 s
  return .calls s minted .acceptTickets

def setAttendConcert (A : Immutables) (m : Msg) (participant : Address) (s : State) :
    Except Revert (Fn × State) := do
  onlyOwner m s
  require (s.auctionEnded = true) "Auction still ongoing"
  let (isWinner, s) ← checkIfWinner A m participant s
  require (isWinner = true) "Did not win tickets"
  return (.onChainSetAttendConcert participant, s.emit (.attendanceConfirmed participant))

/-- The loop of `_onChainSetAttendConcert`. -/
def creditAttendance (participant : Address) : List AuctionBid → State → Except Revert State
  | [], s => pure s
  | bid :: bids, s => do
    let s ←
      if bid.beneficiary = participant then s.credit bid.beneficiary bid.amount .attendance
      else pure s
    creditAttendance participant bids s

/-- `_onChainSetAttendConcert` -/
def onChainSetAttendConcert (participant : Address) (s : State) : Except Revert State := do
  require (participant = kettle) "sender should be kettle"
  let s := { s with attendees := Function.update s.attendees participant true }
  let s := s.emit (.attendedEvent participant)
  creditAttendance participant s.bids s

def rebateWithdraw (m : Msg) (s : State) : Except Revert Result := do
  require (s.rebatePeriodEnded = false) "It's not rebate period"
  require (s.attendees m.sender = true) "You did not attend the event"
  require (0 < s.accountForWithdrawals m.sender) "Nothing to withdraw"
  let amountAvailable := s.accountForWithdrawals m.sender
  -- The call fails at once if the contract does not hold the amount; the credit stays in any case.
  if amountAvailable ≤ s.balance then
    return .calls s
      ({ s with balance := s.balance - amountAvailable }.emit (.rebatePaid m.sender amountAvailable))
      (.rebate m.sender amountAvailable)
  else return .done (s.emit (.bitRefundReceived m.sender amountAvailable))

/-- The loop of `burnOrSendRebate`, on the bids from index `i` on. -/
def burnLoop (A : Immutables) (sender participant : Address) (s : State) :
    List AuctionBid → ℕ → Result
  | [], _ => .done s
  | bid :: bids, i =>
    if bid.beneficiary = sender then
      let burnAmt := s.accountForWithdrawals participant
      if burnAmt ≤ s.balance then
        .calls s
          ({ s with balance := s.balance - burnAmt }.emit (.charityPaid A.charityAddress burnAmt))
          (.burn sender participant (i + 1))
      else .revert
    else burnLoop A sender participant s bids (i + 1)

def burnOrSendRebate (A : Immutables) (m : Msg) (participant : Address) (s : State) :
    Except Revert Result := do
  onlyOwner m s
  require (s.rebatePeriodEnded = true ∧ s.auctionEnded = true) "Rebate period is not over yet"
  return burnLoop A m.sender participant s s.bids 0

def transferOwnership (m : Msg) (newOwner : Address) (s : State) : Except Revert State := do
  onlyOwner m s
  require (newOwner ≠ 0) "Ownable: new owner is the zero address"
  return { s with owner := newOwner }

def renounceOwnership (m : Msg) (s : State) : Except Revert State := do
  onlyOwner m s
  return { s with owner := 0 }

/-! ### The machine of all calls -/

def Fn.payable : Fn → Bool
  | .sendBid _ | .payForTickets => true
  | _ => false

def dispatch (A : Immutables) (m : Msg) (s : State) : Fn → Except Revert Result
  | .setBoosted bidder boostAmount => .done <$> setBoosted m bidder boostAmount s
  | .sendBid bidAmount => (.done ·.2) <$> sendBid A m bidAmount s
  | .receiveBidInfo sender value => .done <$> receiveBidInfo A sender value s
  | .auctionEnd => .done <$> auctionEnd A m s
  | .payForTickets => (.done ·.2) <$> payForTickets A m s
  | .onchainPayForTickets sender => onchainPayForTickets A m sender s
  | .setAttendConcert participant => (.done ·.2) <$> setAttendConcert A m participant s
  | .onChainSetAttendConcert participant => .done <$> onChainSetAttendConcert participant s
  | .rebateWithdraw => rebateWithdraw m s
  | .burnOrSendRebate participant => burnOrSendRebate A m participant s
  | .transferOwnership newOwner => .done <$> transferOwnership m newOwner s
  | .renounceOwnership => .done <$> renounceOwnership m s

/-- The value of a call is credited before its code runs. -/
def State.receive (s : State) (value : ℕ) : State :=
  { s with balance := s.balance + value }

def call (A : Immutables) (m : Msg) (f : Fn) (s : State) : Except Revert Result := do
  require (m.value = 0 ∨ f.payable = true) ""
  dispatch A m (s.receive m.value) f

/-- What anybody can do: call the contract, or store a bid under the same namespace by other means. -/
inductive Entry where
  | call (m : Msg) (f : Fn)
  | storeElsewhere (bid : AuctionBid)

def enter (A : Immutables) : Entry → State → Result
  | .call m f, s => Outcome.ofExcept (call A m f s)
  | .storeElsewhere bid, s => .done { s with stored := s.stored ++ [bid] }

def resume (A : Immutables) : Pending → Bool → State → Result
  | .acceptTickets, ok, s => if ok then .done s else .revert
  | .rebate beneficiary amount, _, s => .done (s.emit (.bitRefundReceived beneficiary amount))
  | .burn sender participant i, ok, s =>
    if ok then burnLoop A sender participant s (s.bids.drop i) i else .revert

def machine (A : Immutables) : Machine State Pending Entry where
  enter := enter A
  resume := resume A

/-- The state after a run from the deployment of the contract. -/
def after (A : Immutables) (deployer : Address) (stored : List AuctionBid)
    (actions : List (Action Entry)) : State :=
  ((machine A).run ⟨deployed deployer stored, []⟩ actions).cur

/-- One ticket at a face value of five. -/
def smallSale : Immutables where
  ticketAddress := 0
  ticketReservePrice := 5
  ticketSupply := 1
  auctionTicketsType := 1
  charityAddress := 0
  type_exists := by decide
  supply_pos := by decide
  reservePrice_pos := by decide

/-- A confidential call. -/
def callFrom (sender : Address) (value : ℕ) (f : Fn) : Action Entry :=
  .enter (.call ⟨sender, value, 0, true⟩ f)

end Suift.Auction
