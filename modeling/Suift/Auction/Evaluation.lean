import Suift.Auction.Storage

/-!
# Who has won

`_getMinBid`, `_getWinningBids` and their callers `_checkIfWinner` and `_getAmountOwed`.

`_getMinBid` starts its two cursors at the first and the last recorded bid *value* and uses them as
indices into `bids`, whose amounts it sorts in descending order between them; the bare `return` for
equal cursors returns zero.  The value it selects in the end comes from `allBidValues`, which it has
not sorted.  A loop that does not end runs out of gas; the fuel given to the loops here is more than
they can use before an index is out of range.
-/

namespace Suift.Auction

/-- `while (bids[i] > pivot) i++`, on the bids from index `i` on. -/
def scanUp (pivot : ℕ) : List AuctionBid → ℕ → Except Revert ℕ
  | [], _ => throw (.panic 0x32)
  | bid :: bids, i => if pivot < bid.amount then scanUp pivot bids (i + 1) else pure i

/-- `while (pivot > bids[j]) j--` -/
def scanDown (pivot : ℕ) (bids : List AuctionBid) : ℕ → Except Revert ℕ
  | 0 => do
    let bid ← index bids 0
    if bid.amount < pivot then throw (.panic 0x11) else pure 0
  | j + 1 => do
    let bid ← index bids (j + 1)
    if bid.amount < pivot then scanDown pivot bids j else pure (j + 1)

/-- `(bids[i], bids[j]) = (bids[j], bids[i])` -/
def swap (bids : List AuctionBid) (i j : ℕ) : Except Revert (List AuctionBid) := do
  let x ← index bids i
  let y ← index bids j
  return (bids.set i y).set j x

/-- The outer loop of `_getMinBid`; it returns the two cursors and the array. -/
def partition (pivot : ℕ) : ℕ → ℕ → ℕ → List AuctionBid → Except Revert (ℕ × ℕ × List AuctionBid)
  | 0, _, _, _ => throw .outOfGas
  | fuel + 1, i, j, bids =>
    if i ≤ j then do
      let i ← scanUp pivot (bids.drop i) i
      let j ← scanDown pivot bids j
      if i ≤ j then
        let bids ← swap bids i j
        let j ← checkedSub j 1
        partition pivot fuel (i + 1) j bids
      else partition pivot fuel i j bids
    else pure (i, j, bids)

/-- `_getMinBid(bids, left, right)`, the recursive calls, whose result nobody reads. -/
def sortRange : ℕ → ℕ → ℕ → List AuctionBid → Except Revert (List AuctionBid)
  | 0, _, _, _ => throw .outOfGas
  | fuel + 1, left, right, bids =>
    if left = right then pure bids
    else do
      let width ← checkedSub right left
      let pivot ← index bids (left + width / 2)
      let (i, j, bids) ← partition pivot.amount (bids.length + 2) left right bids
      let bids ← if left < j then sortRange fuel left j bids else pure bids
      if i < right then sortRange fuel i right bids else pure bids

/-- `_getMinBid` -/
def getMinBid (A : Immutables) (s : State) : Except Revert (ℕ × State) := do
  let left ← index s.allBidValues 0
  let right ← index s.allBidValues (s.allBidValues.length - 1)
  if left = right then return (0, s)
  else
    let bids ← sortRange (s.bids.length + 1) left right s.bids
    let minBid ← index s.allBidValues (A.ticketSupply - 1)
    return (minBid, { s with bids := bids })

/-- The loop of `_getWinningBids`, on the fetched bids from index `i` on. -/
def evaluate : ℕ → List AuctionBid → State → Except Revert State
  | _, [], s => pure s
  | i, restoredBid :: fetchedBids, s => do
    let s ← if s.currMinBid ≤ restoredBid.amount then s.writeBid i restoredBid else pure s
    let s ←
      if restoredBid.amount < s.currMinBid then do
        -- Not the fetched bid but the entry of `bids` with the same index is credited.
        let bid ← index s.bids i
        s.credit bid.beneficiary bid.amount (.evaluation i)
      else pure s
    evaluate (i + 1) fetchedBids s

/-- `_getWinningBids`; the precompiles it fetches the bids with fail outside a confidential
execution. -/
def getWinningBids (A : Immutables) (m : Msg) (s : State) :
    Except Revert (List AuctionBid × State) := do
  let (minBid, s) ← getMinBid A s
  let s := { s with currMinBid := minBid }
  if m.isConfidential then
    let s ← evaluate 0 s.stored s
    return (s.bids, s)
  else throw .peekerReverted

/-- `_checkIfWinner` -/
def checkIfWinner (A : Immutables) (m : Msg) (bidder : Address) (s : State) :
    Except Revert (Bool × State) := do
  require (s.auctionEnded = true) "auction still ongoing"
  let (bids, s) ← getWinningBids A m s
  return (bids.any (·.beneficiary = bidder), s)

/-- `_getAmountOwed`, which falls through to zero for an account without a bid. -/
def getAmountOwed (A : Immutables) (m : Msg) (bidder : Address) (s : State) :
    Except Revert (ℕ × State) := do
  require (s.auctionEnded = true) "auction still ongoing"
  let (bids, s) ← getWinningBids A m s
  return (((bids.find? (·.beneficiary = bidder)).map AuctionBid.amount).getD 0, s)

end Suift.Auction
