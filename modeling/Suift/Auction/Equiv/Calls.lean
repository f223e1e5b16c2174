import Suift.Auction.Contract
import Suift.Auction.Equiv.Evaluation

/-!
# What a call can do to the auction

`Change A s e s'` lists the ways in which an entry `e` can change the state `s` to `s'`, and
`enter_change` says that there are no others.  The list holds in states that satisfy `Invariant`, which
every run keeps; `run_induct` is the induction over runs that all results on the contract use.

`bids` is the same after every change: an evaluation goes through only if it has nothing to write
(`Change.bids_eq`).  `burnOrSendRebate` does not occur in the list: nothing ever sets
`rebatePeriodEnded`, so it reverts.

From the deployment on, `bids` is empty, and a recorded value is also stored as a bid.  So **an auction
with a bid never ends**, and nobody ever wins (`undecided_after`).  What the contract does with winners
is said from any state of an ended auction (`Settled`), which `auctionEnd` leaves if `bids` has room for
what it writes (`settled_of_auctionEnd`).
-/

namespace Suift.Auction

open Fallible Frames

/-- What holds in every state from the deployment on. -/
structure Invariant (s : State) : Prop where
  isPrefix : s.bids <+: s.stored
  bids_nil : s.auctionEnded = false → s.bids = []
  ended : s.auctionEnded = true → EqualEnds s.allBidValues
  rebatePeriod : s.rebatePeriodEnded = false

theorem Invariant.evaluable {s : State} (hs : Invariant s) : Evaluable s := by
  refine ⟨hs.isPrefix, ?_⟩
  cases hended : s.auctionEnded with
  | false => exact .inl (hs.bids_nil hended)
  | true => exact .inr (hs.ended hended)

/-! ### The credit for attendance -/

/-- What a participant is credited for attending, given the bids. -/
def attendanceCredit (participant : Address) (bids : List AuctionBid) : ℕ :=
  ((bids.filter (·.beneficiary = participant)).map AuctionBid.amount).sum

/-- The record of that credit, newest first. -/
def attendanceEffects (participant : Address) (bids : List AuctionBid) : List Effect :=
  ((bids.filter (·.beneficiary = participant)).map
    fun bid => Effect.credited participant bid.amount .attendance).reverse

theorem mem_attendanceEffects {participant : Address} {bids : List AuctionBid} {e : Effect}
    (h : e ∈ attendanceEffects participant bids) :
    ∃ amount, e = .credited participant amount .attendance := by
  obtain ⟨bid, -, rfl⟩ := List.mem_map.mp (List.mem_reverse.mp h)
  exact ⟨bid.amount, rfl⟩

theorem credit_eq_ok {s s' : State} {account : Address} {amount : ℕ} {source : CreditSource}
    (h : s.credit account amount source = .ok s') :
    s' = { s with
      accountForWithdrawals :=
        Function.update s.accountForWithdrawals account (s.accountForWithdrawals account + amount)
      log := .credited account amount source :: s.log } := by
  simp only [State.credit, bind_eq_ok_iff, checkedAdd_eq_ok_iff, pure_eq_ok_iff] at h
  obtain ⟨total, ⟨-, rfl⟩, rfl⟩ := h
  rfl

theorem creditAttendance_eq_ok {participant : Address} {bids : List AuctionBid} {s s' : State}
    (h : creditAttendance participant bids s = .ok s') :
    s' = { s with
      accountForWithdrawals := Function.update s.accountForWithdrawals participant
        (s.accountForWithdrawals participant + attendanceCredit participant bids)
      log := attendanceEffects participant bids ++ s.log } := by
  -- The state is general: a matching bid is credited before the loop goes on.
  induction bids generalizing s with
  | nil =>
    obtain rfl : s = s' := by simpa [creditAttendance] using h
    simp [attendanceCredit, attendanceEffects]
  | cons bid bids ih =>
    rw [creditAttendance] at h
    by_cases hb : bid.beneficiary = participant
    · rw [if_pos hb, hb, bind_eq_ok_iff] at h
      obtain ⟨t, ht, h⟩ := h
      rw [ih h, credit_eq_ok ht]
      simp [attendanceCredit, attendanceEffects, hb, add_assoc]
    · rw [if_neg hb] at h
      rw [ih h]
      simp [attendanceCredit, attendanceEffects, hb]

/-! ### The changes -/

/-- `rebateWithdraw` passes its checks and the contract holds the amount that it sends. -/
structure RebateDue (m : Msg) (s : State) : Prop where
  value : m.value = 0
  period : s.rebatePeriodEnded = false
  attended : s.attendees m.sender = true
  credit_pos : 0 < s.accountForWithdrawals m.sender
  credit_le : s.accountForWithdrawals m.sender ≤ s.balance

/-- The state in which the receiver of a rebate is called. -/
def State.sendRebate (s : State) (account : Address) : State :=
  { s with balance := s.balance - s.accountForWithdrawals account }.emit
    (.rebatePaid account (s.accountForWithdrawals account))

/-- The entries that may leave the bids, the credits and the attendance alone. -/
def Entry.Quiet : Entry → Prop
  | .call _ (.sendBid _) | .call _ .auctionEnd | .call _ .payForTickets
  | .call _ (.setAttendConcert _) | .call _ (.onChainSetAttendConcert _) => False
  | _ => True

inductive Change (A : Immutables) (s : State) : Entry → State → Prop
  | same {e : Entry} (he : e.Quiet) : Change A s e s
  | settings {e : Entry} (he : e.Quiet) (owner : Address) (bidders : List Address)
      (boosted : Address → ℕ) :
      Change A s e { s with owner := owner, bidders := bidders, boosted := boosted }
  | stored (bid : AuctionBid) :
      Change A s (.storeElsewhere bid) { s with stored := s.stored ++ [bid] }
  | bid {m : Msg} {bidAmount amount : ℕ} {log : List Effect} (hopen : s.auctionEnded = false)
      (hends : EqualEnds (s.allBidValues ++ [amount]))
      (hlog : log = s.log ∨ log = .minBidUpdated 0 :: s.log) :
      Change A s (.call m (.sendBid bidAmount)) { s with
        stored := s.stored ++ [⟨m.sender, amount, m.timestamp⟩]
        allBidValues := s.allBidValues ++ [amount]
        currMinBid := 0
        balance := s.balance + m.value
        log := log }
  | ended {m : Msg} (hends : EqualEnds s.allBidValues) (hall : s.bids = s.stored) :
      Change A s (.call m .auctionEnd) { s with
        auctionEnded := true
        currMinBid := 0
        winningBids := s.bids
        log := .auctionEnded s.bids :: s.log }
  | paid {m : Msg} {bid : AuctionBid} (hended : s.auctionEnded = true) (hall : s.bids = s.stored)
      (hfind : s.bids.find? (·.beneficiary = m.sender) = some bid)
      (hvalue : bid.amount - A.ticketReservePrice ≤ m.value) :
      Change A s (.call m .payForTickets) { s with
        currMinBid := 0
        balance := s.balance + m.value
        log := .paidForTickets m.sender m.value :: s.log }
  | minted (m : Msg) :
      Change A s (.call m (.onchainPayForTickets kettle))
        (s.emit (.ticketsMinted m.sender A.auctionTicketsType 1))
  | confirmed {m : Msg} {participant : Address} (hended : s.auctionEnded = true)
      (hall : s.bids = s.stored) (howner : m.sender = s.owner)
      (hwon : ∃ bid ∈ s.bids, bid.beneficiary = participant) :
      Change A s (.call m (.setAttendConcert participant)) { s with
        currMinBid := 0
        log := .attendanceConfirmed participant :: s.log }
  | attended (m : Msg) :
      Change A s (.call m (.onChainSetAttendConcert kettle)) { s with
        attendees := Function.update s.attendees kettle true
        accountForWithdrawals := Function.update s.accountForWithdrawals kettle
          (s.accountForWithdrawals kettle + attendanceCredit kettle s.bids)
        log := attendanceEffects kettle s.bids ++ .attendedEvent kettle :: s.log }
  | withdrawn {m : Msg} (hdue : RebateDue m s) :
      Change A s (.call m .rebateWithdraw) (s.sendRebate m.sender)
  | refunded {e : Entry} (he : e.Quiet) (account : Address) (amount : ℕ) :
      Change A s e (s.emit (.bitRefundReceived account amount))

/-- The loop that sends rebates to the charity is not under way. -/
def Pending.NotBurning : Pending → Prop
  | .burn _ _ _ => False
  | _ => True

@[simp]
theorem receive_zero (s : State) : s.receive 0 = s := rfl

theorem Invariant.receive {s : State} (hs : Invariant s) (value : ℕ) :
    Invariant (s.receive value) :=
  ⟨hs.isPrefix, hs.bids_nil, hs.ended, hs.rebatePeriod⟩

theorem updateMinBid_eq (minBid : ℕ) (s : State) :
    ∃ log, (log = s.log ∨ log = .minBidUpdated minBid :: s.log) ∧
      updateMinBid minBid s = { s with currMinBid := minBid, log := log } := by
  unfold updateMinBid
  by_cases h : s.currMinBid = minBid
  · subst h
    exact ⟨s.log, .inl rfl, if_neg (not_not.mpr rfl)⟩
  · exact ⟨_, .inr rfl, if_pos h⟩

theorem boostedBid_eq_ok_iff {m : Msg} {bidAmount amount : ℕ} {s : State} :
    boostedBid m bidAmount s = .ok amount ↔
      m.sender = s.owner ∧ (0 < s.boosted m.sender → bidAmount + s.boosted m.sender < uintSize) ∧
        amount = bidAmount + s.boosted m.sender := by
  simp only [boostedBid, getBoosted, onlyOwner, bind_eq_ok_iff, require_eq_ok_iff, pure_eq_ok_iff]
  constructor
  · rintro ⟨boost, ⟨-, howner, rfl⟩, h⟩
    by_cases hpos : 0 < s.boosted m.sender
    · rw [if_pos hpos, checkedAdd_eq_ok_iff] at h
      exact ⟨howner, fun _ => h.1, h.2.symm⟩
    · rw [if_neg hpos, pure_eq_ok_iff] at h
      exact ⟨howner, fun hpos' => absurd hpos' hpos, by omega⟩
  · rintro ⟨howner, hfits, rfl⟩
    refine ⟨s.boosted m.sender, ⟨(), howner, rfl⟩, ?_⟩
    by_cases hpos : 0 < s.boosted m.sender
    · rw [if_pos hpos, checkedAdd_eq_ok_iff]
      exact ⟨hfits hpos, rfl⟩
    · rw [if_neg hpos, pure_eq_ok_iff]
      omega

/-- The state in which the cutoff is computed for a bid. -/
def State.recordBid (s : State) (bid : AuctionBid) : State :=
  { s with stored := s.stored ++ [bid], allBidValues := s.allBidValues ++ [bid.amount] }

/-- **A bid, inverted.**  As long as nothing has been evaluated, a bid is accepted exactly from the
owner and when its value, with the boost, is the first of the recorded ones. -/
theorem sendBid_eq_ok_iff {A : Immutables} {m : Msg} {bidAmount : ℕ} {s : State} {r : Fn × State}
    (hbids : s.auctionEnded = false → s.bids = []) :
    sendBid A m bidAmount s = .ok r ↔
      s.auctionEnded = false ∧ A.ticketReservePrice ≤ bidAmount ∧ m.sender = s.owner ∧
        (0 < s.boosted m.sender → bidAmount + s.boosted m.sender < uintSize) ∧
        m.isConfidential = true ∧
        EqualEnds (s.allBidValues ++ [bidAmount + s.boosted m.sender]) ∧
        r = (.receiveBidInfo m.sender m.value,
          updateMinBid 0 (s.recordBid ⟨m.sender, bidAmount + s.boosted m.sender, m.timestamp⟩)) := by
  simp only [sendBid, sendBidToConfidentialStore, bind_eq_ok_iff, require_eq_ok_iff, pure_eq_ok_iff,
    boostedBid_eq_ok_iff, Prod.exists]
  constructor
  · rintro ⟨-, hopen, -, hreserve, amount, ⟨howner, hfits, rfl⟩, t, ⟨-, hconf, rfl⟩, minBid, t, hmin, rfl⟩
    obtain ⟨hends, rfl, rfl⟩ := getMinBid_of_bids_nil (by exact hbids hopen) hmin
    exact ⟨hopen, hreserve, howner, hfits, hconf, hends, rfl⟩
  · rintro ⟨hopen, hreserve, howner, hfits, hconf, hends, rfl⟩
    exact ⟨(), hopen, (), hreserve, _, ⟨howner, hfits, rfl⟩, _, ⟨(), hconf, rfl⟩, 0, _,
      getMinBid_of_equalEnds A hends, rfl⟩

theorem sendBid_change {A : Immutables} {m : Msg} {bidAmount : ℕ} {s : State} {r : Fn × State}
    (hs : Invariant s)
    (h : sendBid A m bidAmount (s.receive m.value) = .ok r) :
    Change A s (.call m (.sendBid bidAmount)) r.2 := by
  obtain ⟨hopen, -, -, -, -, hends, rfl⟩ := (sendBid_eq_ok_iff (hs.receive m.value).bids_nil).mp h
  obtain ⟨log, hlog, hupdate⟩ := updateMinBid_eq 0 _
  rw [hupdate]
  exact .bid hopen hends hlog

theorem auctionEnd_change {A : Immutables} {m : Msg} {s s' : State} (hs : Invariant s)
    (h : auctionEnd A m s = .ok s') : Change A s (.call m .auctionEnd) s' := by
  simp only [auctionEnd, bind_eq_ok_iff, pure_eq_ok_iff, Prod.exists] at h
  obtain ⟨-, -, bids, t, heval, rfl⟩ := h
  have hev : Evaluable { s with auctionEnded := true } := ⟨hs.isPrefix, hs.evaluable.nil_or⟩
  obtain ⟨hends, -, hall, rfl, rfl⟩ := (getWinningBids_eq_ok_iff hev).mp heval
  exact .ended hends hall

/-- The checks after the end of the auction that pass in every evaluation. -/
structure Rated (m : Msg) (s : State) : Prop where
  auctionEnded : s.auctionEnded = true
  equalEnds : EqualEnds s.allBidValues
  isConfidential : m.isConfidential = true
  all : s.bids = s.stored

theorem checkIfWinner_eq_ok_iff {A : Immutables} {m : Msg} {bidder : Address} {s s' : State}
    {isWinner : Bool} (hs : Evaluable s) :
    checkIfWinner A m bidder s = .ok (isWinner, s') ↔
      Rated m s ∧ isWinner = s.bids.any (·.beneficiary = bidder) ∧ s' = s.evaluated := by
  simp only [checkIfWinner, bind_eq_ok_iff, require_eq_ok_iff, pure_eq_ok_iff, Prod.exists,
    Prod.mk.injEq, getWinningBids_eq_ok_iff hs]
  constructor
  · rintro ⟨-, hended, bids, t, ⟨hends, hconf, hall, rfl, rfl⟩, rfl, rfl⟩
    exact ⟨⟨hended, hends, hconf, hall⟩, rfl, rfl⟩
  · rintro ⟨⟨hended, hends, hconf, hall⟩, rfl, rfl⟩
    exact ⟨(), hended, _, _, ⟨hends, hconf, hall, rfl, rfl⟩, rfl, rfl⟩

theorem getAmountOwed_eq_ok_iff {A : Immutables} {m : Msg} {bidder : Address} {s s' : State}
    {amountOwed : ℕ} (hs : Evaluable s) :
    getAmountOwed A m bidder s = .ok (amountOwed, s') ↔
      Rated m s ∧
        amountOwed = ((s.bids.find? (·.beneficiary = bidder)).map AuctionBid.amount).getD 0 ∧
        s' = s.evaluated := by
  simp only [getAmountOwed, bind_eq_ok_iff, require_eq_ok_iff, pure_eq_ok_iff, Prod.exists,
    Prod.mk.injEq, getWinningBids_eq_ok_iff hs]
  constructor
  · rintro ⟨-, hended, bids, t, ⟨hends, hconf, hall, rfl, rfl⟩, rfl, rfl⟩
    exact ⟨⟨hended, hends, hconf, hall⟩, rfl, rfl⟩
  · rintro ⟨⟨hended, hends, hconf, hall⟩, rfl, rfl⟩
    exact ⟨(), hended, _, _, ⟨hends, hconf, hall, rfl, rfl⟩, rfl, rfl⟩

/-- **A payment, inverted**: it is accepted exactly if the winners are all stored bids and it covers what
is missing to the first of them that is the sender's. -/
theorem payForTickets_eq_ok_iff {A : Immutables} {m : Msg} {s : State} {r : Fn × State}
    (hs : Invariant s) :
    payForTickets A m (s.receive m.value) = .ok r ↔
      Rated m s ∧
        (∃ bid, s.bids.find? (·.beneficiary = m.sender) = some bid ∧
          A.ticketReservePrice ≤ bid.amount ∧ bid.amount - A.ticketReservePrice ≤ m.value) ∧
        r = (.onchainPayForTickets m.sender,
          (s.receive m.value).evaluated.emit (.paidForTickets m.sender m.value)) := by
  have hsr : Evaluable (s.receive m.value) := (hs.receive m.value).evaluable
  -- The second evaluation starts where the first one ended.
  have hev : Evaluable (s.receive m.value).evaluated := ⟨hsr.isPrefix, hsr.nil_or⟩
  simp only [payForTickets, bind_eq_ok_iff, require_eq_ok_iff, checkedSub_eq_ok_iff, pure_eq_ok_iff,
    Prod.exists, checkIfWinner_eq_ok_iff hsr]
  constructor
  · rintro ⟨-, -, isWinner, t, ⟨⟨hended, hends, hconf, hall⟩, hany, rfl⟩, -, rfl, owed, t', howed, due,
      ⟨hle, rfl⟩, -, hdue, rfl⟩
    obtain ⟨-, hamount, rfl⟩ := (getAmountOwed_eq_ok_iff hev).mp howed
    obtain ⟨bid, hfind⟩ : ∃ bid, s.bids.find? (·.beneficiary = m.sender) = some bid := by
      obtain ⟨bid, hmem, hbid⟩ := List.any_eq_true.mp hany.symm
      exact Option.isSome_iff_exists.mp (List.find?_isSome.mpr ⟨bid, hmem, hbid⟩)
    rw [show (s.receive m.value).evaluated.bids = s.bids from rfl, hfind] at hamount
    obtain rfl : owed = bid.amount := hamount
    exact ⟨⟨hended, hends, hconf, hall⟩, ⟨bid, hfind, hle, hdue⟩, rfl⟩
  · rintro ⟨⟨hended, hends, hconf, hall⟩, ⟨bid, hfind, hle, hdue⟩, rfl⟩
    have hbid : (decide (bid.beneficiary = m.sender)) = true := by simpa using List.find?_some hfind
    have hany : true = s.bids.any (·.beneficiary = m.sender) :=
      (List.any_eq_true.mpr ⟨bid, List.mem_of_find?_eq_some hfind, hbid⟩).symm
    have howed : getAmountOwed A m m.sender (s.receive m.value).evaluated =
        .ok (bid.amount, (s.receive m.value).evaluated.evaluated) := by
      refine (getAmountOwed_eq_ok_iff hev).mpr ⟨⟨hended, hends, hconf, hall⟩, ?_, rfl⟩
      rw [show (s.receive m.value).evaluated.bids = s.bids from rfl, hfind]
      rfl
    exact ⟨(), hended, true, _, ⟨⟨hended, hends, hconf, hall⟩, hany, rfl⟩, (), rfl, bid.amount, _, howed,
      _, ⟨hle, rfl⟩, (), hdue, rfl⟩

theorem payForTickets_change {A : Immutables} {m : Msg} {s : State} {r : Fn × State}
    (hs : Invariant s) (h : payForTickets A m (s.receive m.value) = .ok r) :
    Change A s (.call m .payForTickets) r.2 := by
  obtain ⟨hrated, ⟨bid, hfind, -, hdue⟩, rfl⟩ := (payForTickets_eq_ok_iff hs).mp h
  exact .paid hrated.auctionEnded hrated.all hfind hdue

theorem setAttendConcert_change {A : Immutables} {m : Msg} {participant : Address} {s : State}
    {r : Fn × State} (hs : Invariant s) (h : setAttendConcert A m participant s = .ok r) :
    Change A s (.call m (.setAttendConcert participant)) r.2 := by
  simp only [setAttendConcert, onlyOwner, bind_eq_ok_iff, require_eq_ok_iff, pure_eq_ok_iff,
    Prod.exists] at h
  obtain ⟨-, howner, -, hended, isWinner, t, hwin, -, rfl, rfl⟩ := h
  obtain ⟨hrated, hany, rfl⟩ := (checkIfWinner_eq_ok_iff hs.evaluable).mp hwin
  obtain ⟨bid, hmem, hbid⟩ := List.any_eq_true.mp hany.symm
  exact .confirmed hended hrated.all howner ⟨bid, hmem, of_decide_eq_true hbid⟩

theorem onChainSetAttendConcert_change {A : Immutables} {m : Msg} {participant : Address}
    {s s' : State} (h : onChainSetAttendConcert participant s = .ok s') :
    Change A s (.call m (.onChainSetAttendConcert participant)) s' := by
  simp only [onChainSetAttendConcert, bind_eq_ok_iff, require_eq_ok_iff] at h
  obtain ⟨-, rfl, h⟩ := h
  rw [creditAttendance_eq_ok h]
  exact .attended m

/-! ### Entries and returns -/

/-- **The calls, inverted**: an entry changes the state in one of the listed ways, and it never leaves
the loop of `burnOrSendRebate` waiting. -/
theorem enter_change {A : Immutables} {s : State} (hs : Invariant s) (e : Entry) :
    (enter A e s).All (Change A s e) Pending.NotBurning := by
  cases e with
  | storeElsewhere bid => exact Change.stored bid
  | call m f =>
    refine all_ofExcept fun o ho => ?_
    simp only [call, bind_eq_ok_iff, require_eq_ok_iff] at ho
    obtain ⟨-, hvalue, ho⟩ := ho
    by_cases hpay : f.payable = true
    · -- The two functions that take a value.
      cases f with
      | sendBid bidAmount =>
        obtain ⟨r, hr, rfl⟩ := map_eq_ok_iff.mp ho
        exact sendBid_change hs hr
      | payForTickets =>
        obtain ⟨r, hr, rfl⟩ := map_eq_ok_iff.mp ho
        exact payForTickets_change hs hr
      | _ => simp [Fn.payable] at hpay
    · have hzero : m.value = 0 := hvalue.resolve_right hpay
      rw [hzero, receive_zero] at ho
      cases f with
      | sendBid _ | payForTickets => simp [Fn.payable] at hpay
      | setBoosted bidder boostAmount =>
        simp only [dispatch, setBoosted, map_eq_ok_iff, bind_eq_ok_iff, pure_eq_ok_iff] at ho
        obtain ⟨t, ⟨-, -, -, -, rfl⟩, rfl⟩ := ho
        exact Change.settings (by trivial) _ _ _
      | receiveBidInfo sender value =>
        simp only [dispatch, receiveBidInfo, map_eq_ok_iff, bind_eq_ok_iff] at ho
        obtain ⟨t, ⟨-, -, ho⟩, rfl⟩ := ho
        split_ifs at ho
        · -- a bidder who is known already
          obtain rfl := pure_eq_ok_iff.mp ho
          exact Change.same (by trivial)
        · simp only [bind_eq_ok_iff, pure_eq_ok_iff] at ho
          obtain ⟨-, -, rfl⟩ := ho
          exact Change.settings (by trivial) _ _ _
      | auctionEnd =>
        obtain ⟨t, ht, rfl⟩ := map_eq_ok_iff.mp ho
        exact auctionEnd_change hs ht
      | onchainPayForTickets sender =>
        simp only [dispatch, onchainPayForTickets, mint, bind_eq_ok_iff, require_eq_ok_iff,
          pure_eq_ok_iff] at ho
        obtain ⟨-, rfl, t, ⟨-, -, -, -, rfl⟩, rfl⟩ := ho
        exact ⟨.same trivial, .minted m, trivial⟩
      | setAttendConcert participant =>
        obtain ⟨r, hr, rfl⟩ := map_eq_ok_iff.mp ho
        exact setAttendConcert_change hs hr
      | onChainSetAttendConcert participant =>
        obtain ⟨t, ht, rfl⟩ := map_eq_ok_iff.mp ho
        exact onChainSetAttendConcert_change ht
      | rebateWithdraw =>
        simp only [dispatch, rebateWithdraw, bind_eq_ok_iff, require_eq_ok_iff] at ho
        obtain ⟨-, hperiod, -, hattended, -, hpos, ho⟩ := ho
        split_ifs at ho with hbalance
        · obtain rfl := pure_eq_ok_iff.mp ho
          exact ⟨.same trivial, .withdrawn ⟨hzero, hperiod, hattended, hpos, hbalance⟩, trivial⟩
        · -- the balance is too low: the call fails at once, and the event is emitted all the same
          obtain rfl := pure_eq_ok_iff.mp ho
          exact Change.refunded (by trivial) _ _
      | burnOrSendRebate participant =>
        simp only [dispatch, burnOrSendRebate, bind_eq_ok_iff, require_eq_ok_iff] at ho
        obtain ⟨-, -, -, ⟨hperiod, -⟩, -⟩ := ho
        exact absurd (hs.rebatePeriod.symm.trans hperiod) Bool.false_ne_true
      | transferOwnership newOwner =>
        simp only [dispatch, transferOwnership, map_eq_ok_iff, bind_eq_ok_iff, pure_eq_ok_iff] at ho
        obtain ⟨t, ⟨-, -, -, -, rfl⟩, rfl⟩ := ho
        exact Change.settings (by trivial) _ _ _
      | renounceOwnership =>
        simp only [dispatch, renounceOwnership, map_eq_ok_iff, bind_eq_ok_iff, pure_eq_ok_iff] at ho
        obtain ⟨t, ⟨-, -, rfl⟩, rfl⟩ := ho
        exact Change.settings (by trivial) _ _ _

/-- A rebate that is due is sent. -/
theorem enter_rebateWithdraw {A : Immutables} {m : Msg} {s : State} (h : RebateDue m s) :
    enter A (.call m .rebateWithdraw) s =
      .calls s (s.sendRebate m.sender) (.rebate m.sender (s.accountForWithdrawals m.sender)) := by
  have hcall : call A m .rebateWithdraw s = .ok (.calls s (s.sendRebate m.sender)
      (.rebate m.sender (s.accountForWithdrawals m.sender))) := by
    simp only [call, dispatch, rebateWithdraw, bind_eq_ok_iff, require_eq_ok_iff, h.value,
      receive_zero]
    refine ⟨(), .inl trivial, (), h.period, (), h.attended, (), h.credit_pos, ?_⟩
    rw [if_pos h.credit_le]
    rfl
  rw [enter, hcall]
  rfl

/-- A ticket that is minted goes to the caller. -/
theorem enter_onchainPayForTickets {A : Immutables} {m : Msg} {sender : Address} {s : State}
    (h : enter A (.call m (.onchainPayForTickets sender)) s ≠ .revert) :
    enter A (.call m (.onchainPayForTickets sender)) s =
      .calls s (s.emit (.ticketsMinted m.sender A.auctionTicketsType 1)) .acceptTickets := by
  rw [enter] at h ⊢
  cases hcall : call A m (.onchainPayForTickets sender) s with
  | error e => exact absurd (by rw [hcall]; rfl) h
  | ok o =>
    simp only [call, dispatch, onchainPayForTickets, mint, bind_eq_ok_iff, require_eq_ok_iff,
      pure_eq_ok_iff] at hcall
    obtain ⟨-, hvalue, -, -, t, ⟨-, -, -, -, rfl⟩, rfl⟩ := hcall
    have hzero : m.value = 0 := hvalue.resolve_right (by simp [Fn.payable])
    rw [hzero, receive_zero]
    rfl

/-- A return changes nothing, except that a refund is reported. -/
theorem resume_change {A : Immutables} {k : Pending} {ok : Bool} {s : State}
    (hk : k.NotBurning) :
    (resume A k ok s).All
      (fun s' => s' = s ∨ ∃ account amount, s' = s.emit (.bitRefundReceived account amount))
      Pending.NotBurning := by
  cases k with
  | acceptTickets =>
    cases ok
    -- A receiver that does not accept the ticket makes the mint revert.
    · trivial
    · exact .inl rfl
  | rebate beneficiary amount => exact .inr ⟨beneficiary, amount, rfl⟩
  | burn sender participant i => exact hk.elim

/-- A return does nothing that an entry could not do as well. -/
theorem resume_quiet {A : Immutables} {k : Pending} {ok : Bool} {s : State} {e : Entry}
    (hk : k.NotBurning) (he : e.Quiet) :
    (resume A k ok s).All (Change A s e) Pending.NotBurning := by
  refine (resume_change hk).mono fun _ s' h => ?_
  rcases h with rfl | ⟨account, amount, rfl⟩
  · exact .same he
  · exact .refunded he account amount

/-! ### Runs -/

/-- No entry changes `bids`. -/
theorem Change.bids_eq {A : Immutables} {s s' : State} {e : Entry} (h : Change A s e s') :
    s'.bids = s.bids := by
  cases h <;> rfl

theorem Change.invariant {A : Immutables} {s s' : State} {e : Entry} (h : Change A s e s')
    (hs : Invariant s) : Invariant s' := by
  cases h with
  | same => exact hs
  | settings => exact ⟨hs.isPrefix, hs.bids_nil, hs.ended, hs.rebatePeriod⟩
  | stored bid =>
    exact ⟨hs.isPrefix.trans (List.prefix_append _ _), hs.bids_nil, hs.ended, hs.rebatePeriod⟩
  | bid hopen hends hlog =>
    refine ⟨hs.isPrefix.trans (List.prefix_append _ _), hs.bids_nil, fun hended => ?_,
      hs.rebatePeriod⟩
    exact absurd (hopen.symm.trans hended) Bool.false_ne_true
  | ended hends hall =>
    exact ⟨hs.isPrefix, fun h => absurd h.symm Bool.false_ne_true, fun _ => hends, hs.rebatePeriod⟩
  | paid | confirmed | minted | attended | withdrawn | refunded =>
    exact ⟨hs.isPrefix, hs.bids_nil, hs.ended, hs.rebatePeriod⟩

theorem invariant_deployed (deployer : Address) (stored : List AuctionBid) :
    Invariant (deployed deployer stored) :=
  ⟨List.nil_prefix, fun _ => rfl, fun h => absurd h Bool.false_ne_true, rfl⟩

/-- The state after an entry that does not revert is changed in one of the listed ways. -/
theorem change_of_ne_revert {A : Immutables} {c : Config State Pending} {e : Entry}
    (hs : Invariant c.cur) (he : enter A e c.cur ≠ .revert) :
    Change A c.cur e ((machine A).step c (.enter e)).cur :=
  settle_cur (enter_change hs e) he

/-- A condition that only the entries that do not revert have to meet. -/
def Effective (A : Immutables) (G : Entry → State → Prop) : Entry → State → Prop :=
  fun e s => enter A e s ≠ .revert → G e s

/-- **Induction over runs.**  What every listed change keeps, by an entry that meets `G`, holds after
every run whose entries meet `G`; the condition restricts calls only. -/
theorem run_induct {A : Immutables} {P : State → Prop} {G : Entry → State → Prop}
    (hchange : ∀ e s s', Invariant s → enter A e s ≠ .revert → Change A s e s' → G e s → P s → P s')
    (hcalls : ∀ bid s, G (.storeElsewhere bid) s) {s : State} (hs : Invariant s) (hP : P s)
    {actions : List (Action Entry)} (hG : (machine A).Meets G ⟨s, []⟩ actions) :
    Invariant ((machine A).run ⟨s, []⟩ actions).cur ∧ P ((machine A).run ⟨s, []⟩ actions).cur := by
  have hkeep : ∀ e s s', enter A e s ≠ .revert → G e s → Change A s e s' → Invariant s ∧ P s →
      Invariant s' ∧ P s' :=
    fun e s s' he hG h ⟨hs, hP⟩ => ⟨h.invariant hs, hchange e s s' hs he h hG hP⟩
  refine (run_holds (P := fun s => Invariant s ∧ P s) (Q := Pending.NotBurning) ?_ ?_
    (holds_initial ⟨hs, hP⟩) hG).cur
  · intro e s hs hG
    exact (enter_change hs.1 e).mono fun he s' h => hkeep e s s' he hG h hs
  · intro k ok s hk hs
    have hreturn : (resume A k ok s).All (Change A s (.storeElsewhere ⟨0, 0, 0⟩)) Pending.NotBurning :=
      resume_quiet hk trivial
    exact hreturn.mono fun _ s' h => hkeep (.storeElsewhere ⟨0, 0, 0⟩) s s' nofun (hcalls _ _) h hs

/-- Induction over all runs. -/
theorem run_induct_all {A : Immutables} {P : State → Prop}
    (hchange : ∀ e s s', Invariant s → Change A s e s' → P s → P s') {s : State} (hs : Invariant s)
    (hP : P s) (actions : List (Action Entry)) :
    Invariant ((machine A).run ⟨s, []⟩ actions).cur ∧ P ((machine A).run ⟨s, []⟩ actions).cur :=
  run_induct (G := fun _ _ => True) (fun e s s' hs _ h _ => hchange e s s' hs h) (fun _ _ => trivial) hs
    hP (meets_of_all (fun _ _ => trivial) _ _)

/-- Induction over all runs from the deployment of the contract. -/
theorem after_induct {A : Immutables} {P : State → Prop}
    (hchange : ∀ e s s', Invariant s → Change A s e s' → P s → P s') {deployer : Address}
    {stored : List AuctionBid} (hP : P (deployed deployer stored)) (actions : List (Action Entry)) :
    P (after A deployer stored actions) :=
  (run_induct_all hchange (invariant_deployed deployer stored) hP actions).2

theorem invariant_after (A : Immutables) (deployer : Address) (stored : List AuctionBid)
    (actions : List (Action Entry)) : Invariant (after A deployer stored actions) :=
  after_induct (fun _ _ _ hs h _ => h.invariant hs) (invariant_deployed deployer stored) actions

/-! ### Auctions without an end -/

/-- The auction goes on, nobody has won, and every recorded value belongs to a stored bid. -/
structure Undecided (s : State) : Prop where
  auctionEnded : s.auctionEnded = false
  bids : s.bids = []
  values_le : s.allBidValues.length ≤ s.stored.length

/-- An evaluation would have to write a stored bid to the empty array. -/
theorem Undecided.ne_stored {s : State} (hs : Undecided s) (hends : EqualEnds s.allBidValues) :
    s.bids ≠ s.stored := by
  intro hall
  have hlength : s.stored.length = 0 := by rw [← hall, hs.bids, List.length_nil]
  have hvalues : 0 < s.allBidValues.length := List.length_pos_iff.mpr hends.ne_nil
  have hle := hs.values_le
  omega

theorem Change.undecided {A : Immutables} {s s' : State} {e : Entry} (h : Change A s e s')
    (hs : Undecided s) : Undecided s' := by
  have hvalues := hs.values_le
  cases h with
  | same => exact hs
  | settings | minted | attended | withdrawn | refunded => exact ⟨hs.auctionEnded, hs.bids, hvalues⟩
  | stored bid =>
    refine ⟨hs.auctionEnded, hs.bids, ?_⟩
    rw [List.length_append]
    exact Nat.le_add_right_of_le hvalues
  | bid =>
    refine ⟨hs.auctionEnded, hs.bids, ?_⟩
    rw [List.length_append, List.length_append]
    exact Nat.add_le_add_right hvalues _
  | ended hends hall => exact absurd hall (hs.ne_stored hends)
  | paid hended | confirmed hended =>
    exact absurd (hs.auctionEnded.symm.trans hended) Bool.false_ne_true

/-- **No run from the deployment ends the auction**, and in none of them a bid wins. -/
theorem undecided_after (A : Immutables) (deployer : Address) (stored : List AuctionBid)
    (actions : List (Action Entry)) : Undecided (after A deployer stored actions) :=
  after_induct (fun _ _ _ _ h hs => h.undecided hs) ⟨rfl, rfl, Nat.zero_le _⟩ actions

/-! ### Auctions with winners -/

/-- The auction has ended, and all stored bids have won. -/
structure Settled (s : State) : Prop where
  auctionEnded : s.auctionEnded = true
  rebatePeriod : s.rebatePeriodEnded = false
  equalEnds : EqualEnds s.allBidValues
  all : s.bids = s.stored

theorem Settled.invariant {s : State} (hs : Settled s) : Invariant s := by
  refine ⟨?_, fun hopen => ?_, fun _ => hs.equalEnds, hs.rebatePeriod⟩
  · rw [hs.all]
  · exact absurd (hopen.symm.trans hs.auctionEnded) Bool.false_ne_true

/-- With one entry in `bids` for each stored bid, an end that goes through settles the auction. -/
theorem settled_of_auctionEnd {A : Immutables} {m : Msg} {s s' : State}
    (hroom : s.bids.length = s.stored.length) (hends : EqualEnds s.allBidValues)
    (hperiod : s.rebatePeriodEnded = false) (h : auctionEnd A m s = .ok s') : Settled s' := by
  simp only [auctionEnd, bind_eq_ok_iff, pure_eq_ok_iff, Prod.exists] at h
  obtain ⟨-, -, bids, t, heval, rfl⟩ := h
  have hm : m.isConfidential = true := by
    by_contra hm
    simp [getWinningBids, hm] at heval
  rw [getWinningBids_of_equalEnds A (by exact hends) hm, if_pos (by exact hroom.ge)] at heval
  obtain ⟨-, rfl⟩ := Prod.mk.inj (Except.ok.inj heval)
  refine ⟨rfl, hperiod, hends, ?_⟩
  show s.stored ++ s.bids.drop s.stored.length = s.stored
  rw [List.drop_of_length_le hroom.le, List.append_nil]

/-- A contract with room for one winning bid. -/
def roomForOne (deployer : Address) : State :=
  { deployed deployer [] with bids := [⟨0, 0, 0⟩] }

end Suift.Auction
