import Suift.Types.Basic
import Suift.Lib.Fallible

/-!
# The storage of the auction

The state of `contracts/Auction.sol` and the checked operations its functions are built from.

The contract does not pass the compiler as it stands; the modules on it give every expression the
reading that its text and its types leave open.

* `bids`, `winningBids`, `bidders` and `allBidValues` are lists.  Reading or writing past the end of an
  array reverts, and only `push` makes an array longer.  `bidders` and `allBidValues` are pushed to;
  `bids` never is.
* The bids in the confidential store are `stored`, in the order in which they were initialised.  Their
  namespace and decryption condition are shared with every other contract.
* `balance` is what the contract holds, and `log` what has happened so far, newest first: the events
  the contract emits and, besides them, the movements of money, credit and tickets that the functions
  make without a trace.
-/

namespace Suift

structure AuctionBid where
  beneficiary : Address
  amount : ℕ
  timestamp : ℕ
deriving DecidableEq, Repr

namespace Auction

/-- Why a call is rolled back. -/
inductive Revert where
  | error (reason : String)
  | panic (code : ℕ)
  /-- A precompile failed. -/
  | peekerReverted
  | outOfGas
deriving DecidableEq, Repr

def require (p : Prop) [Decidable p] (reason : String) : Except Revert Unit :=
  if p then pure () else throw (.error reason)

/-- The number of values of a `uint`. -/
def uintSize : ℕ := 2 ^ 256

def checkedAdd (a b : ℕ) : Except Revert ℕ :=
  if a + b < uintSize then pure (a + b) else throw (.panic 0x11)

def checkedSub (a b : ℕ) : Except Revert ℕ :=
  if b ≤ a then pure (a - b) else throw (.panic 0x11)

/-- `xs[i]` -/
def index {α : Type} (xs : List α) (i : ℕ) : Except Revert α :=
  match xs[i]? with
  | some x => pure x
  | none => throw (.panic 0x32)

/-- The account that the callbacks accept, which is also the wildcard for the kettles that may read
a bid. -/
def kettle : Address := 0xC8df3686b4Afb2BB53e60EAe97EF043FE03Fb829

/-- Where a credit to `accountForWithdrawals` comes from. -/
inductive CreditSource where
  /-- The evaluation of the winners, at this index. -/
  | evaluation (i : ℕ)
  | attendance
deriving DecidableEq, Repr

inductive Effect where
  | minBidUpdated (amount : ℕ)
  | auctionEnded (winners : List AuctionBid)
  | attendedEvent (eventgoer : Address)
  | bitRefundReceived (beneficiary : Address) (amount : ℕ)
  | ticketsMinted (beneficiary : Address) (id amount : ℕ)
  /-- `accountForWithdrawals[account] += amount` -/
  | credited (account : Address) (amount : ℕ) (source : CreditSource)
  | rebatePaid (account : Address) (amount : ℕ)
  | charityPaid (charity : Address) (amount : ℕ)
  /-- A call of `payForTickets` passed its checks. -/
  | paidForTickets (bidder : Address) (value : ℕ)
  /-- A call of `setAttendConcert` passed its checks. -/
  | attendanceConfirmed (participant : Address)
deriving DecidableEq, Repr

/-- The immutable variables; the fields below them are what the constructor checks. -/
structure Immutables where
  ticketAddress : Address
  ticketReservePrice : ℕ
  ticketSupply : ℕ
  auctionTicketsType : ℕ
  charityAddress : Address
  type_exists : auctionTicketsType = 1 ∨ auctionTicketsType = 2 ∨ auctionTicketsType = 3
  supply_pos : 0 < ticketSupply
  reservePrice_pos : 0 < ticketReservePrice

structure State where
  owner : Address
  bidders : List Address
  allBidValues : List ℕ
  attendees : Address → Bool
  accountForWithdrawals : Address → ℕ
  boosted : Address → ℕ
  currMinBid : ℕ
  auctionEnded : Bool
  rebatePeriodEnded : Bool
  bids : List AuctionBid
  winningBids : List AuctionBid
  stored : List AuctionBid
  balance : ℕ
  log : List Effect

/-- `constructor` -/
def construct (ticketsAddress : Address) (auctionTicketsId ticketSupply ticketReservePrice : ℕ)
    (charity : Address) : Except Revert Immutables :=
  if hid : auctionTicketsId = 1 ∨ auctionTicketsId = 2 ∨ auctionTicketsId = 3 then
    if hsupply : 0 < ticketSupply then
      if hprice : 0 < ticketReservePrice then
        .ok ⟨ticketsAddress, ticketReservePrice, ticketSupply, auctionTicketsId, charity,
          hid, hsupply, hprice⟩
      else .error (.error "Must provide reserve price")
    else .error (.error "Must provide supply")
  else .error (.error "Token does not exist")

/-- The storage after the constructor; others may have stored bids before. -/
def deployed (deployer : Address) (stored : List AuctionBid) : State where
  owner := deployer
  bidders := []
  allBidValues := []
  attendees := fun _ => false
  accountForWithdrawals := fun _ => 0
  boosted := fun _ => 0
  currMinBid := 0
  auctionEnded := false
  rebatePeriodEnded := false
  bids := []
  winningBids := []
  stored := stored
  balance := 0
  log := []

/-- The message of a call, with the parts of its block and its execution that the contract reads. -/
structure Msg where
  sender : Address
  value : ℕ
  timestamp : ℕ
  /-- `Suave.isConfidential()` -/
  isConfidential : Bool

namespace State

def emit (s : State) (e : Effect) : State :=
  { s with log := e :: s.log }

/-- `accountForWithdrawals[account] += amount` -/
def credit (s : State) (account : Address) (amount : ℕ) (source : CreditSource) :
    Except Revert State := do
  let total ← checkedAdd (s.accountForWithdrawals account) amount
  return { s with accountForWithdrawals := Function.update s.accountForWithdrawals account total }
    |>.emit (.credited account amount source)

/-- `bids[i] = bid` -/
def writeBid (s : State) (i : ℕ) (bid : AuctionBid) : Except Revert State :=
  if i < s.bids.length then pure { s with bids := s.bids.set i bid } else throw (.panic 0x32)

end State

/-- The modifier `onlyOwner`. -/
def onlyOwner (m : Msg) (s : State) : Except Revert Unit :=
  require (m.sender = s.owner) "Ownable: caller is not the owner"

/-! ### What the checks let through -/

open Fallible

@[simp]
theorem require_eq_ok_iff {p : Prop} [Decidable p] {reason : String} {u : Unit} :
    require p reason = .ok u ↔ p := by
  rw [require, ite_else_throw_eq_ok_iff]
  simp

@[simp]
theorem checkedAdd_eq_ok_iff {a b c : ℕ} :
    checkedAdd a b = .ok c ↔ a + b < uintSize ∧ a + b = c := by
  rw [checkedAdd, ite_else_throw_eq_ok_iff, pure_eq_ok_iff]

@[simp]
theorem checkedSub_eq_ok_iff {a b c : ℕ} : checkedSub a b = .ok c ↔ b ≤ a ∧ a - b = c := by
  rw [checkedSub, ite_else_throw_eq_ok_iff, pure_eq_ok_iff]

@[simp]
theorem index_eq_ok_iff {α : Type} {xs : List α} {i : ℕ} {x : α} :
    index xs i = .ok x ↔ xs[i]? = some x := by
  unfold index
  cases xs[i]? <;> simp

end Auction

end Suift
