import Suift.Auction.Ledger
import Suift.Auction.Equiv.Calls

/-!
# Tickets and attendance

The checks stand in `payForTickets` and `setAttendConcert`, the effects in the two callbacks, which
anybody may call with the address of the kettle.  Nothing links the two: the callbacks neither know who
has passed the checks nor how often they have run.

Tickets go to winners who have paid, and attendance is marked for confirmed winners, exactly in the runs
in which every callback follows its check (`earned_iff_checked`).
-/

namespace Suift.Auction

open Frames

/-! ### What a change adds -/

/-- The history never loses an entry. -/
theorem Change.log_subset {A : Immutables} {s s' : State} {e : Entry} (h : Change A s e s') :
    s.log ⊆ s'.log := by
  cases h with
  | same | settings | stored => exact List.Subset.refl _
  | bid hopen hends hlog =>
    rcases hlog with rfl | rfl
    · exact List.Subset.refl _
    · exact List.subset_cons_self _ _
  | ended | paid | confirmed | minted | withdrawn | refunded => exact List.subset_cons_self _ _
  | attended =>
    intro e he
    exact List.mem_append_right _ (List.mem_cons_of_mem _ he)

/-- What stands behind the effects that record a passed check. -/
def Effect.Justified (A : Immutables) (s : State) : Effect → Prop
  | .paidForTickets account _ => s.EarnedTicket A account
  | .attendanceConfirmed participant => s.ConfirmedWinner participant
  | _ => True

theorem Change.justified {A : Immutables} {s s' : State} {e : Entry} (h : Change A s e s')
    {x : Effect} (hx : x ∈ s'.log) : x ∈ s.log ∨ x.Justified A s' := by
  cases h with
  | same | settings | stored => exact .inl hx
  | bid hopen hends hlog =>
    rcases hlog with rfl | rfl
    · exact .inl hx
    · rcases List.mem_cons.mp hx with rfl | hold
      · exact .inr trivial
      · exact .inl hold
  | ended | minted | withdrawn | refunded =>
    rcases List.mem_cons.mp hx with rfl | hold
    · exact .inr trivial
    · exact .inl hold
  | attended =>
    rcases List.mem_append.mp hx with hnew | hold
    · obtain ⟨amount, rfl⟩ := mem_attendanceEffects hnew
      exact .inr trivial
    · rcases List.mem_cons.mp hold with rfl | hold
      · exact .inr trivial
      · exact .inl hold
  -- The two checks leave their record together with the bids that justify it.
  | @paid m bid hended hall hfind hvalue =>
    rcases List.mem_cons.mp hx with rfl | hold
    · exact .inr ⟨bid, m.value, hfind, List.mem_cons_self, hvalue⟩
    · exact .inl hold
  | confirmed hended hall howner hwon =>
    rcases List.mem_cons.mp hx with rfl | hold
    · exact .inr ⟨hwon, List.mem_cons_self⟩
    · exact .inl hold

theorem ticketsMinted_attendanceEffects (participant : Address) (bids : List AuctionBid)
    (log : List Effect) :
    ticketsMinted (attendanceEffects participant bids ++ log) = ticketsMinted log := by
  have hnone : (attendanceEffects participant bids).flatMap Effect.tickets = [] := by
    rw [List.flatMap_eq_nil_iff]
    intro e he
    obtain ⟨amount, rfl⟩ := mem_attendanceEffects he
    rfl
  rw [ticketsMinted, List.flatMap_append, hnone, List.nil_append]
  rfl

/-- A change mints nothing, or one ticket to the caller of `_onchainPayForTickets`. -/
theorem Change.ticketsMinted {A : Immutables} {s s' : State} {e : Entry} (h : Change A s e s') :
    ticketsMinted s'.log = ticketsMinted s.log ∨
      ∃ m, e = .call m (.onchainPayForTickets kettle) ∧
        ticketsMinted s'.log = m.sender :: ticketsMinted s.log := by
  cases h with
  | same | settings | stored | ended | paid | confirmed | withdrawn | refunded => exact .inl rfl
  | bid hopen hends hlog =>
    rcases hlog with rfl | rfl
    · exact .inl rfl
    · exact .inl rfl
  | minted m => exact .inr ⟨m, rfl, rfl⟩
  | attended m => exact .inl (ticketsMinted_attendanceEffects _ _ _)

theorem Change.attendees {A : Immutables} {s s' : State} {e : Entry} (h : Change A s e s')
    {participant : Address} (hattends : s'.attendees participant = true) :
    s.attendees participant = true ∨
      participant = kettle ∧ ∃ m, e = .call m (.onChainSetAttendConcert kettle) := by
  cases h with
  | attended m =>
    rcases eq_or_ne participant kettle with rfl | hne
    · exact .inr ⟨rfl, m, rfl⟩
    · exact .inl (by simpa [Function.update_of_ne hne] using hattends)
  | _ => exact .inl hattends

/-! ### Effects that follow their checks -/

theorem earnedTicket_mono {A : Immutables} {s s' : State} {account : Address}
    (hbids : s'.bids = s.bids) (hlog : s.log ⊆ s'.log) (h : s.EarnedTicket A account) :
    s'.EarnedTicket A account := by
  obtain ⟨bid, value, hfind, hpaid, hvalue⟩ := h
  exact ⟨bid, value, hbids ▸ hfind, hlog hpaid, hvalue⟩

theorem confirmedWinner_mono {s s' : State} {participant : Address} (hbids : s'.bids = s.bids)
    (hlog : s.log ⊆ s'.log) (h : s.ConfirmedWinner participant) : s'.ConfirmedWinner participant :=
  ⟨hbids ▸ h.1, hlog h.2⟩

theorem justified_mono {A : Immutables} {s s' : State} {x : Effect} (hbids : s'.bids = s.bids)
    (hlog : s.log ⊆ s'.log) (h : x.Justified A s) : x.Justified A s' := by
  cases x with
  | paidForTickets => exact earnedTicket_mono hbids hlog h
  | attendanceConfirmed => exact confirmedWinner_mono hbids hlog h
  | _ => trivial

/-- The check that belongs to a callback has passed: the caller has paid, or the owner has confirmed
the participant. -/
def Checked : Entry → State → Prop
  | .call m (.onchainPayForTickets _), s => ∃ value, .paidForTickets m.sender value ∈ s.log
  | .call _ (.onChainSetAttendConcert participant), s => .attendanceConfirmed participant ∈ s.log
  | _, _ => True

theorem Change.earned {A : Immutables} {s s' : State} {e : Entry} (h : Change A s e s')
    (hchecked : Checked e s) (hlogged : ∀ x ∈ s.log, x.Justified A s) (hs : s.Earned A) :
    s'.Earned A := by
  have hbids := h.bids_eq
  have hlog := h.log_subset
  refine ⟨fun account haccount => ?_, fun participant hattends => ?_⟩
  · rcases h.ticketsMinted with hsame | ⟨m, rfl, hnew⟩
    · rw [hsame] at haccount
      exact earnedTicket_mono hbids hlog (hs.tickets account haccount)
    · rw [hnew] at haccount
      rcases List.mem_cons.mp haccount with rfl | hold
      · -- The new ticket goes to the caller, whose payment is on record.
        obtain ⟨value, hpaid⟩ := hchecked
        exact earnedTicket_mono hbids hlog (hlogged _ hpaid)
      · exact earnedTicket_mono hbids hlog (hs.tickets account hold)
  · rcases h.attendees hattends with hold | ⟨rfl, m, rfl⟩
    · exact confirmedWinner_mono hbids hlog (hs.attendees participant hold)
    · exact confirmedWinner_mono hbids hlog (hlogged _ hchecked)

theorem Change.justified_all {A : Immutables} {s s' : State} {e : Entry} (h : Change A s e s')
    (hs : ∀ x ∈ s.log, x.Justified A s) : ∀ x ∈ s'.log, x.Justified A s' := by
  intro x hx
  rcases h.justified hx with hold | hnew
  · exact justified_mono h.bids_eq h.log_subset (hs x hold)
  · exact hnew

/-- An entry after which everything is earned has had its check. -/
theorem checked_of_earned {A : Immutables} {c : Config State Pending} {e : Entry}
    (hinv : Invariant c.cur) (hrun : enter A e c.cur ≠ .revert)
    (hnext : ((machine A).step c (.enter e)).cur.Earned A) : Checked e c.cur := by
  cases e with
  | storeElsewhere bid => trivial
  | call m f =>
    cases f with
    | onchainPayForTickets sender =>
      rw [Machine.step, show (machine A).enter = enter A from rfl, enter_onchainPayForTickets hrun]
        at hnext
      -- The payment that earns the new ticket was on record before the ticket was.
      obtain ⟨bid, value, -, hpaid, -⟩ := hnext.tickets m.sender List.mem_cons_self
      rcases List.mem_cons.mp hpaid with hnew | hold
      · exact absurd hnew (by simp)
      · exact ⟨value, hold⟩
    | onChainSetAttendConcert participant =>
      have hchange := change_of_ne_revert hinv hrun
      generalize ((machine A).step c _).cur = s' at hchange hnext
      cases hchange with
      | same he | settings he | refunded he => exact he.elim
      | attended =>
        have hattends : Function.update c.cur.attendees kettle true kettle = true :=
          Function.update_self _ _ _
        -- So was the confirmation: the call itself records credits and the event only.
        obtain ⟨-, hconfirmed⟩ := hnext.attendees kettle hattends
        rcases List.mem_append.mp hconfirmed with hnew | hold
        · obtain ⟨amount, hamount⟩ := mem_attendanceEffects hnew
          exact absurd hamount (by simp)
        · exact (List.mem_cons.mp hold).resolve_left (by simp)
    | _ => trivial

/-- **Tickets and attendance.**  Along a run, tickets are minted only to beneficiaries of winning bids
who have paid, and only winners confirmed by the owner attend, exactly if every callback that goes
through follows the check that belongs to it. -/
theorem earned_iff_checked (A : Immutables) (deployer : Address) (stored : List AuctionBid)
    (actions : List (Action Entry)) :
    (∀ n, (after A deployer stored (actions.take n)).Earned A) ↔
      (machine A).Meets (Effective A Checked) ⟨deployed deployer stored, []⟩ actions := by
  constructor
  · intro hall
    refine meets_of_forall (P := fun s => Invariant s ∧ s.Earned A) ?_
      fun n => ⟨invariant_after A deployer stored _, hall n⟩
    rintro e c ⟨hinv, -⟩ ⟨-, hnext⟩ hrun
    exact checked_of_earned hinv hrun hnext
  · intro hchecked n
    refine (run_induct (P := fun s => (∀ x ∈ s.log, x.Justified A s) ∧ s.Earned A) ?_
      (fun _ _ _ => trivial) (invariant_deployed deployer stored) ?_ (meets_take hchecked n)).2.2
    · rintro e s s' - hrun hchange hchecked ⟨hlogged, hs⟩
      exact ⟨hchange.justified_all hlogged, hchange.earned (hchecked hrun) hlogged hs⟩
    · exact ⟨fun _ hx => absurd hx List.not_mem_nil, fun _ hx => absurd hx List.not_mem_nil,
        fun _ hx => absurd hx Bool.false_ne_true⟩

/-- Somebody without a bid mints a ticket and marks an attendance, before the auction has ended. -/
theorem exists_ticket_unearned :
    ∃ actions,
      let s := after smallSale 1 [] actions
      2 ∈ ticketsMinted s.log ∧ ¬ s.EarnedTicket smallSale 2 ∧
        s.attendees kettle = true ∧ ¬ s.ConfirmedWinner kettle := by
  let actions := [callFrom 2 0 (.onchainPayForTickets kettle), .ret true,
    callFrom 2 0 (.onChainSetAttendConcert kettle)]
  have hbids : (after smallSale 1 [] actions).bids = [] := by decide +kernel
  refine ⟨actions, by decide +kernel, ?_, by decide +kernel, ?_⟩
  · rintro ⟨bid, value, hfind, -⟩
    rw [hbids] at hfind
    exact absurd hfind (by simp)
  · rintro ⟨⟨bid, hbid, -⟩, -⟩
    rw [hbids] at hbid
    exact absurd hbid List.not_mem_nil

end Suift.Auction
