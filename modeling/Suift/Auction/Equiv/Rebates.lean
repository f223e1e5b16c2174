import Suift.Auction.Ledger
import Suift.Auction.Equiv.Calls

/-!
# Rebates

`accountForWithdrawals[a]` is the sum of all credits to `a`, at all times: `rebateWithdraw` announces
that it marks the rebate as withdrawn, but leaves the account as it is.  From any state with credits in
it, an account that is paid once is therefore paid exactly what was credited to it, and one that is paid
again is paid too much (`notOverpaid_iff_firstRebate`).

No run from the deployment gets there.  Attendance is credited from `bids`, which is empty, so that
nothing is ever credited (`uncredited_after`): nobody is paid more than the nothing that was credited,
and the contract holds what it owes.

`Booking` reduces the changes of the state to the three that matter here.
-/

namespace Suift.Auction

open Frames

/-- What a call does to the books. -/
inductive Booking (s s' : State) : Entry → Prop
  | quiet {e : Entry} (haccounts : s'.accountForWithdrawals = s.accountForWithdrawals)
      (hcredited : creditedTo s'.log = creditedTo s.log)
      (hpaid : rebatePaidTo s'.log = rebatePaidTo s.log) :
      Booking s s' e
  | attendance {m : Msg}
      (haccounts : s'.accountForWithdrawals = Function.update s.accountForWithdrawals kettle
        (s.accountForWithdrawals kettle + attendanceCredit kettle s.bids))
      (hcredited : creditedTo s'.log = Function.update (creditedTo s.log) kettle
        (creditedTo s.log kettle + attendanceCredit kettle s.bids))
      (hpaid : rebatePaidTo s'.log = rebatePaidTo s.log) :
      Booking s s' (.call m (.onChainSetAttendConcert kettle))
  | withdrawal {m : Msg} (hdue : RebateDue m s)
      (haccounts : s'.accountForWithdrawals = s.accountForWithdrawals)
      (hcredited : creditedTo s'.log = creditedTo s.log)
      (hpaid : rebatePaidTo s'.log = Function.update (rebatePaidTo s.log) m.sender
        (rebatePaidTo s.log m.sender + s.accountForWithdrawals m.sender)) :
      Booking s s' (.call m .rebateWithdraw)

/-! ### The bookings of the changes -/

theorem creditedTo_attendanceEffects (participant account : Address) (bids : List AuctionBid) :
    creditedTo (attendanceEffects participant bids) account =
      if participant = account then attendanceCredit participant bids else 0 := by
  unfold attendanceEffects attendanceCredit creditedTo
  rw [List.map_reverse, List.sum_reverse, List.map_map]
  by_cases h : participant = account
  · rw [if_pos h]
    exact congrArg List.sum (List.map_congr_left fun bid _ => if_pos h)
  · rw [if_neg h]
    refine List.sum_eq_zero fun x hx => ?_
    obtain ⟨bid, -, rfl⟩ := List.mem_map.mp hx
    exact if_neg h

theorem rebatePaidTo_attendanceEffects (participant account : Address) (bids : List AuctionBid) :
    rebatePaidTo (attendanceEffects participant bids) account = 0 := by
  refine List.sum_eq_zero fun x hx => ?_
  obtain ⟨e, he, rfl⟩ := List.mem_map.mp hx
  obtain ⟨amount, rfl⟩ := mem_attendanceEffects he
  rfl

theorem creditedTo_attended (log : List Effect) (participant : Address) (bids : List AuctionBid) :
    creditedTo (attendanceEffects participant bids ++ .attendedEvent participant :: log) =
      Function.update (creditedTo log) participant
        (creditedTo log participant + attendanceCredit participant bids) := by
  funext a
  rw [creditedTo_append, creditedTo_attendanceEffects, creditedTo_cons]
  rcases eq_or_ne participant a with rfl | hne
  · simp only [Function.update_self, if_true, Effect.creditTo]
    omega
  · simp only [Function.update_of_ne hne.symm, if_neg hne, Effect.creditTo]
    omega

theorem rebatePaidTo_attended (log : List Effect) (participant : Address) (bids : List AuctionBid) :
    rebatePaidTo (attendanceEffects participant bids ++ .attendedEvent participant :: log) =
      rebatePaidTo log := by
  funext a
  rw [rebatePaidTo_append, rebatePaidTo_attendanceEffects, rebatePaidTo_cons]
  simp only [Effect.rebateTo, zero_add]

/-- One more effect that neither credits nor pays anybody. -/
theorem Booking.of_silent {s s' : State} {e : Entry} {effect : Effect}
    (haccounts : s'.accountForWithdrawals = s.accountForWithdrawals) (hlog : s'.log = effect :: s.log)
    (hcredit : ∀ a, effect.creditTo a = 0) (hrebate : ∀ a, effect.rebateTo a = 0) :
    Booking s s' e := by
  refine .quiet haccounts ?_ ?_ <;> funext a <;> rw [hlog]
  · rw [creditedTo_cons, hcredit, zero_add]
  · rw [rebatePaidTo_cons, hrebate, zero_add]

theorem Change.booking {A : Immutables} {s s' : State} {e : Entry} (h : Change A s e s') :
    Booking s s' e := by
  cases h with
  | same | settings | stored => exact .quiet rfl rfl rfl
  | bid hopen hends hlog =>
    rcases hlog with rfl | rfl
    · exact .quiet rfl rfl rfl
    · exact .of_silent rfl rfl (fun _ => rfl) (fun _ => rfl)
  | ended | paid | minted | confirmed | refunded =>
    exact .of_silent rfl rfl (fun _ => rfl) (fun _ => rfl)
  | attended m =>
    exact .attendance rfl (creditedTo_attended _ _ _) (rebatePaidTo_attended _ _ _)
  | @withdrawn m hdue =>
    -- The account is read, paid and left as it is.
    refine .withdrawal hdue rfl ?_ ?_
    · funext a
      exact zero_add (creditedTo s.log a)
    · funext a
      show rebatePaidTo (.rebatePaid m.sender _ :: s.log) a = _
      rw [rebatePaidTo_cons]
      rcases eq_or_ne m.sender a with rfl | hne
      · simp only [Function.update_self, if_true, Effect.rebateTo]
        omega
      · simp only [Function.update_of_ne hne.symm, if_neg hne, Effect.rebateTo]
        omega

/-! ### Credits and payments -/

/-- The accounts hold what was credited, whatever has been paid. -/
def AccountsMatch (s : State) : Prop :=
  s.accountForWithdrawals = creditedTo s.log

theorem Booking.accountsMatch {s s' : State} {e : Entry} (h : Booking s s' e)
    (hs : AccountsMatch s) : AccountsMatch s' := by
  unfold AccountsMatch at hs ⊢
  cases h with
  | quiet haccounts hcredited => rw [haccounts, hcredited, hs]
  | attendance haccounts hcredited => rw [haccounts, hcredited, hs]
  | withdrawal hdue haccounts hcredited => rw [haccounts, hcredited, hs]

/-- A call of `rebateWithdraw` that sends a rebate is the first one of its sender that does. -/
def FirstRebate : Entry → State → Prop
  | .call m .rebateWithdraw, s => RebateDue m s → rebatePaidTo s.log m.sender = 0
  | _, _ => True

/-- Nobody has been paid more than was credited to them. -/
def NotOverpaid (s : State) : Prop :=
  ∀ account, rebatePaidTo s.log account ≤ creditedTo s.log account

theorem Booking.notOverpaid {s s' : State} {e : Entry} (h : Booking s s' e) (hfirst : FirstRebate e s)
    (haccounts : AccountsMatch s) (hs : NotOverpaid s) :
    NotOverpaid s' := by
  intro account
  have hle := hs account
  cases h with
  | quiet _ hcredited hpaid => rwa [hcredited, hpaid]
  | attendance _ hcredited hpaid =>
    rw [hcredited, hpaid]
    rcases eq_or_ne account kettle with rfl | hne
    · rw [Function.update_self]
      omega
    · rwa [Function.update_of_ne hne]
  | @withdrawal m hdue _ hcredited hpaid =>
    rw [hcredited, hpaid]
    rcases eq_or_ne account m.sender with rfl | hne
    · -- The first rebate is exactly what was credited.
      have hzero : rebatePaidTo s.log m.sender = 0 := hfirst hdue
      have hcredit : s.accountForWithdrawals m.sender = creditedTo s.log m.sender :=
        congrFun haccounts m.sender
      rw [Function.update_self]
      omega
    · rwa [Function.update_of_ne hne]

/-- A rebate that leaves nobody overpaid is the first one to its account. -/
theorem rebatePaidTo_eq_zero {s : State} {m : Msg} (haccounts : AccountsMatch s)
    (hs : NotOverpaid (s.sendRebate m.sender)) : rebatePaidTo s.log m.sender = 0 := by
  have hle : s.accountForWithdrawals m.sender + rebatePaidTo s.log m.sender ≤
      creditedTo s.log m.sender := by
    simpa [State.sendRebate, State.emit, Effect.rebateTo, Effect.creditTo] using hs m.sender
  have hcredit : s.accountForWithdrawals m.sender = creditedTo s.log m.sender :=
    congrFun haccounts m.sender
  omega

/-- **Rebates against credits.**  Along a run from any state whose accounts hold what was credited, nobody
is ever paid more than was credited to them exactly if every rebate that `rebateWithdraw` sends is the
first one to its account. -/
theorem notOverpaid_iff_firstRebate {A : Immutables} {s₀ : State} (hinv : Invariant s₀)
    (haccounts : AccountsMatch s₀) (hpaid : NotOverpaid s₀) {actions : List (Action Entry)} :
    (∀ n, NotOverpaid ((machine A).run ⟨s₀, []⟩ (actions.take n)).cur) ↔
      (machine A).Meets FirstRebate ⟨s₀, []⟩ actions := by
  constructor
  · intro hall
    have hmatch (n : ℕ) : AccountsMatch ((machine A).run ⟨s₀, []⟩ (actions.take n)).cur :=
      (run_induct_all (fun _ _ _ _ h hs => h.booking.accountsMatch hs) hinv haccounts _).2
    refine meets_of_forall (P := fun s => AccountsMatch s ∧ NotOverpaid s)
      ?_ fun n => ⟨hmatch n, hall n⟩
    rintro e c ⟨haccounts, -⟩ ⟨-, hnext⟩
    -- Only a withdrawal can violate the condition, and then it violates the bound as well.
    cases e with
    | storeElsewhere bid => trivial
    | call m f =>
      cases f with
      | rebateWithdraw =>
        intro hdue
        rw [Machine.step, show (machine A).enter = enter A from rfl, enter_rebateWithdraw hdue]
          at hnext
        exact rebatePaidTo_eq_zero haccounts hnext
      | _ => trivial
  · intro hfirst n
    refine (run_induct (P := fun s => AccountsMatch s ∧ NotOverpaid s) ?_ (fun _ _ => trivial) hinv
      ⟨haccounts, hpaid⟩ (meets_take hfirst n)).2.2
    rintro e s s' - - hchange hfirst ⟨haccounts, hs⟩
    exact ⟨hchange.booking.accountsMatch haccounts,
      hchange.booking.notOverpaid hfirst haccounts hs⟩

/-! ### Runs from the deployment -/

/-- Nothing has been credited to anybody. -/
structure Uncredited (s : State) : Prop where
  accounts : s.accountForWithdrawals = fun _ => 0
  credits : creditedTo s.log = fun _ => 0

/-- Without winners, attendance is worth nothing. -/
theorem Booking.uncredited {s s' : State} {e : Entry} (h : Booking s s' e) (hbids : s.bids = [])
    (hs : Uncredited s) : Uncredited s' := by
  have hzero : attendanceCredit kettle s.bids = 0 := by
    rw [hbids]
    rfl
  cases h with
  | quiet haccounts hcredited => exact ⟨haccounts.trans hs.accounts, hcredited.trans hs.credits⟩
  | attendance haccounts hcredited =>
    constructor
    · rw [haccounts, hzero, add_zero, Function.update_eq_self, hs.accounts]
    · rw [hcredited, hzero, add_zero, Function.update_eq_self, hs.credits]
  | withdrawal hdue haccounts hcredited =>
    exact ⟨haccounts.trans hs.accounts, hcredited.trans hs.credits⟩

theorem uncredited_after (A : Immutables) (deployer : Address) (stored : List AuctionBid)
    (actions : List (Action Entry)) : Uncredited (after A deployer stored actions) := by
  refine (after_induct (P := fun s => Undecided s ∧ Uncredited s) ?_
    ⟨⟨rfl, rfl, Nat.zero_le _⟩, rfl, rfl⟩ actions).2
  rintro e s s' - hchange ⟨hundecided, hs⟩
  exact ⟨hchange.undecided hundecided, hchange.booking.uncredited hundecided.bids hs⟩

/-- No rebate is ever due, so that none is sent twice. -/
theorem firstRebate_after (A : Immutables) (deployer : Address) (stored : List AuctionBid)
    (actions : List (Action Entry)) :
    (machine A).Meets FirstRebate ⟨deployed deployer stored, []⟩ actions := by
  refine meets_of_forall (P := Uncredited) ?_ fun n => uncredited_after A deployer stored _
  intro e c hc _
  cases e with
  | storeElsewhere bid => trivial
  | call m f =>
    cases f with
    | rebateWithdraw =>
      intro hdue
      have hpos := hdue.credit_pos
      rw [hc.accounts] at hpos
      exact absurd hpos (lt_irrefl 0)
    | _ => trivial

/-- **Nobody is paid more than was credited to them**, in any sequence of calls by anybody, re-entrant
ones included. -/
theorem rebates_le_credits (A : Immutables) (deployer : Address) (stored : List AuctionBid)
    (actions : List (Action Entry)) (account : Address) :
    rebatePaidTo (after A deployer stored actions).log account ≤
      creditedTo (after A deployer stored actions).log account := by
  have hall := (notOverpaid_iff_firstRebate (invariant_deployed deployer stored) rfl
    (fun _ => le_rfl)).mpr (firstRebate_after A deployer stored actions) actions.length
  rw [List.take_length] at hall
  exact hall account

/-- **Solvency**: in every state that a run reaches, the contract holds at least the sum of what it owes
to all accounts. -/
theorem owed_le_balance (A : Immutables) (deployer : Address) (stored : List AuctionBid)
    (actions : List (Action Entry)) :
    (after A deployer stored actions).owed ≤ (after A deployer stored actions).balance := by
  have hcredits := (uncredited_after A deployer stored actions).credits
  have howed : (after A deployer stored actions).owed = 0 := by
    unfold State.owed State.owedTo
    simp only [hcredits, Nat.zero_sub, finsum_zero]
  rw [howed]
  exact Nat.zero_le _

end Suift.Auction
