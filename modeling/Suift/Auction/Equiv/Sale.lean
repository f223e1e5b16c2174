import Suift.Auction.Equiv.Tickets

/-!
# A sale of `TICKET_SUPPLY` tickets

The evaluation of the winners reverts before it has written the first of them, so that no bid wins.  The
callback that mints a ticket does not ask for a winner: anybody can call it with the address of the
kettle, as often as they like.

A run is a sale of at most `TICKET_SUPPLY` tickets, one for each winning bid, exactly if nobody calls the
callback that way (`fairSale_iff_not_minting`).
-/

namespace Suift.Auction

open Fallible Frames

/-- The calls that mint a ticket: `_onchainPayForTickets` with the address of the kettle, by an account
that can hold a ticket. -/
def Entry.Minting : Entry → Prop
  | .call m (.onchainPayForTickets sender) => m.value = 0 ∧ sender = kettle ∧ m.sender ≠ 0
  | _ => False

theorem enter_minting_iff {A : Immutables} {m : Msg} {sender : Address} {s : State} :
    enter A (.call m (.onchainPayForTickets sender)) s ≠ .revert ↔
      (Entry.call m (.onchainPayForTickets sender)).Minting := by
  have htype : A.auctionTicketsType = 1 ∨ A.auctionTicketsType = 2 ∨ A.auctionTicketsType = 3 ∨
      A.auctionTicketsType = 4 := by
    rcases A.type_exists with h | h | h <;> simp [h]
  constructor
  · intro h
    cases hcall : call A m (.onchainPayForTickets sender) s with
    | error e => exact absurd (by rw [enter, hcall]; rfl) h
    | ok o =>
      simp only [call, dispatch, onchainPayForTickets, mint, bind_eq_ok_iff, require_eq_ok_iff] at hcall
      obtain ⟨-, hvalue, -, hsender, -, ⟨-, -, -, hzero, -⟩, -⟩ := hcall
      exact ⟨hvalue.resolve_right (by simp [Fn.payable]), hsender, hzero⟩
  · rintro ⟨hvalue, hsender, hzero⟩
    have hcall : call A m (.onchainPayForTickets sender) s = .ok (.calls (s.receive m.value)
        ((s.receive m.value).emit (.ticketsMinted m.sender A.auctionTicketsType 1)) .acceptTickets) := by
      simp only [call, dispatch, onchainPayForTickets, mint, bind_eq_ok_iff, require_eq_ok_iff,
        pure_eq_ok_iff]
      exact ⟨(), .inl hvalue, (), hsender, _, ⟨(), htype, (), hzero, rfl⟩, rfl⟩
    rw [enter, hcall]
    exact fun h => by cases h

/-- Without winners, a sale is fair as long as no ticket is minted. -/
theorem fairSale_iff_ticketsMinted {A : Immutables} {s : State} (hs : Undecided s) :
    s.FairSale A ↔ ticketsMinted s.log = [] := by
  constructor
  · intro h
    refine List.eq_nil_iff_forall_not_mem.mpr fun account haccount => ?_
    have hcount := h.one_each account
    rw [hs.bids, List.map_nil, List.count_nil] at hcount
    have hpos := List.count_pos_iff.mpr haccount
    omega
  · intro h
    refine ⟨?_, fun won hwon => ?_, fun account => ?_, ?_⟩
    · rw [hs.bids]
      exact Nat.zero_le _
    · rw [hs.bids] at hwon
      exact absurd hwon List.not_mem_nil
    · rw [h, List.count_nil]
      exact Nat.zero_le _
    · rw [h]
      exact Nat.zero_le _

/-- **A fair sale.**  Along a run, at most `TICKET_SUPPLY` bids win, none of them is lower than a losing
bid, at most one ticket is minted for each and at most `TICKET_SUPPLY` in all, exactly if none of the calls
is one that mints a ticket. -/
theorem fairSale_iff_not_minting (A : Immutables) (deployer : Address) (stored : List AuctionBid)
    (actions : List (Action Entry)) :
    (∀ n, (after A deployer stored (actions.take n)).FairSale A) ↔
      ∀ e, .enter e ∈ actions → ¬ e.Minting := by
  constructor
  · intro hall
    refine forall_mem_of_meets (M := machine A) (c := ⟨deployed deployer stored, []⟩) ?_
    refine meets_of_forall (P := fun s => Undecided s ∧ s.FairSale A) ?_
      fun n => ⟨undecided_after A deployer stored _, hall n⟩
    rintro e c - ⟨hnext, hfair⟩ hminting
    -- The ticket is on record as soon as its receiver is asked.
    cases e with
    | storeElsewhere bid => exact hminting
    | call m f =>
      cases f with
      | onchainPayForTickets sender =>
        have hrun := enter_onchainPayForTickets (A := A) (s := c.cur) (enter_minting_iff.mpr hminting)
        have hnone := (fairSale_iff_ticketsMinted hnext).mp hfair
        rw [Machine.step, show (machine A).enter = enter A from rfl, hrun] at hnone
        exact List.cons_ne_nil _ _ hnone
      | _ => exact hminting
  · intro hnone n
    rw [fairSale_iff_ticketsMinted (undecided_after A deployer stored _)]
    have hmeets : (machine A).Meets (fun e _ => ¬ e.Minting) ⟨deployed deployer stored, []⟩ actions :=
      meets_of_mem fun e he _ => hnone e he
    refine (run_induct (P := fun s => ticketsMinted s.log = []) ?_ (fun _ _ => id)
      (invariant_deployed deployer stored) rfl (meets_take hmeets n)).2
    intro e s s' _ hrun hchange hnot hs
    rcases hchange.ticketsMinted with hsame | ⟨m, rfl, -⟩
    · rw [hsame, hs]
    · exact absurd (enter_minting_iff.mp hrun) hnot

/-- One ticket and one bid.  The owner calls for the end of the auction, which reverts, and somebody who
has not bid mints two tickets. -/
theorem exists_oversold :
    let s := after smallSale 1 [] [callFrom 1 5 (.sendBid 5), callFrom 1 0 .auctionEnd,
      callFrom 2 0 (.onchainPayForTickets kettle), .ret true,
      callFrom 2 0 (.onchainPayForTickets kettle), .ret true]
    smallSale.ticketSupply = 1 ∧ s.stored = [⟨1, 5, 0⟩] ∧ s.bids = [] ∧ s.winningBids = [] ∧
      ticketsMinted s.log = [2, 2] ∧ ¬ s.FairSale smallSale := by
  intro s
  have htickets : ticketsMinted s.log = [2, 2] := by decide +kernel
  refine ⟨rfl, by decide +kernel, by decide +kernel, by decide +kernel, htickets, fun h => ?_⟩
  have hle := h.tickets_le
  rw [htickets] at hle
  exact absurd hle (by decide)

end Suift.Auction
