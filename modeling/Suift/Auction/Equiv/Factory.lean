import Suift.Auction.Factory
import Suift.Auction.Equiv.Bidding

/-!
# Auctions from the factory

The owner of an auction from the factory is the factory, whose code never calls it.  Nobody passes
`onlyOwner`, so that the auction stays as it was deployed: without an end, without an end of the rebate
period, and with the same owner (`Frozen`).  All this holds in every state of every run of the factory
and its auctions (`frozen_run`), and its creator can do nothing about it (`not_canFinish`).
-/

namespace Suift.Auction

open Fallible Frames

/-- The factory owns the auction, which has not ended. -/
structure Frozen (factory : Address) (s : State) : Prop where
  owner : s.owner = factory
  auctionEnded : s.auctionEnded = false
  rebatePeriodEnded : s.rebatePeriodEnded = false

theorem frozen_deployed (factory : Address) (stored : List AuctionBid) :
    Frozen factory (deployed factory stored) := ⟨rfl, rfl, rfl⟩

/-! ### One call -/

theorem onlyOwner_eq_ok_iff {m : Msg} {s : State} {u : Unit} :
    onlyOwner m s = .ok u ↔ m.sender = s.owner := by
  rw [onlyOwner, require_eq_ok_iff]

/-- The functions that only the owner can call revert for everybody else. -/
theorem dispatch_ownerOnly {A : Immutables} {m : Msg} {s : State} {f : Fn} {o : Result}
    (h : dispatch A m s f = .ok o) (hm : m.sender ≠ s.owner) :
    (∃ sender value, f = .receiveBidInfo sender value) ∨ f = .payForTickets ∨
      (∃ sender, f = .onchainPayForTickets sender) ∨
      (∃ participant, f = .onChainSetAttendConcert participant) ∨ f = .rebateWithdraw := by
  cases f with
  | receiveBidInfo sender value => exact .inl ⟨sender, value, rfl⟩
  | payForTickets => exact .inr (.inl rfl)
  | onchainPayForTickets sender => exact .inr (.inr (.inl ⟨sender, rfl⟩))
  | onChainSetAttendConcert participant => exact .inr (.inr (.inr (.inl ⟨participant, rfl⟩)))
  | rebateWithdraw => exact .inr (.inr (.inr (.inr rfl)))
  | sendBid bidAmount =>
    -- by way of `_getBoosted`
    simp only [dispatch, sendBid, map_eq_ok_iff, bind_eq_ok_iff, boostedBid_eq_ok_iff] at h
    obtain ⟨-, ⟨-, -, -, -, -, ⟨howner, -⟩, -⟩, -⟩ := h
    exact absurd howner hm
  | burnOrSendRebate participant =>
    simp only [dispatch, burnOrSendRebate, bind_eq_ok_iff, onlyOwner_eq_ok_iff] at h
    obtain ⟨-, howner, -⟩ := h
    exact absurd howner hm
  | setBoosted _ _ | auctionEnd | setAttendConcert _ | transferOwnership _ | renounceOwnership =>
    -- the modifier comes first
    simp only [dispatch, setBoosted, auctionEnd, setAttendConcert, transferOwnership, renounceOwnership,
      map_eq_ok_iff, bind_eq_ok_iff, onlyOwner_eq_ok_iff] at h
    obtain ⟨-, ⟨-, howner, -⟩, -⟩ := h
    exact absurd howner hm

/-- Nothing that somebody else than the owner calls changes the owner or a phase of an auction that has
not ended. -/
theorem Frozen.enter {factory : Address} {A : Immutables} {s : State} (hs : Frozen factory s) {m : Msg}
    (hm : m.sender ≠ factory) (f : Fn) :
    (enter A (.call m f) s).All (Frozen factory) Pending.NotBurning := by
  have ht : Frozen factory (s.receive m.value) := ⟨hs.owner, hs.auctionEnded, hs.rebatePeriodEnded⟩
  refine all_ofExcept fun o ho => ?_
  simp only [call, bind_eq_ok_iff, require_eq_ok_iff] at ho
  obtain ⟨-, -, ho⟩ := ho
  generalize s.receive m.value = t at ht ho
  rcases dispatch_ownerOnly ho (ht.owner ▸ hm) with ⟨sender, value, rfl⟩ | rfl | ⟨sender, rfl⟩ |
    ⟨participant, rfl⟩ | rfl
  · -- `_receiveBidInfo`
    simp only [dispatch, receiveBidInfo, map_eq_ok_iff, bind_eq_ok_iff] at ho
    obtain ⟨t', ⟨-, -, ho⟩, rfl⟩ := ho
    by_cases hknown : sender ∈ t.bidders
    · rw [if_pos hknown, pure_eq_ok_iff] at ho
      exact ho ▸ ht
    · simp only [if_neg hknown, bind_eq_ok_iff, pure_eq_ok_iff] at ho
      obtain ⟨-, -, rfl⟩ := ho
      exact ⟨ht.owner, ht.auctionEnded, ht.rebatePeriodEnded⟩
  · -- `payForTickets` waits for the end
    simp only [dispatch, payForTickets, map_eq_ok_iff, bind_eq_ok_iff, require_eq_ok_iff] at ho
    obtain ⟨-, ⟨-, hended, -⟩, -⟩ := ho
    exact absurd (ht.auctionEnded.symm.trans hended) Bool.false_ne_true
  · -- `_onchainPayForTickets`
    simp only [dispatch, onchainPayForTickets, mint, bind_eq_ok_iff, pure_eq_ok_iff] at ho
    obtain ⟨-, -, t', ⟨-, -, -, -, rfl⟩, rfl⟩ := ho
    exact ⟨ht, ⟨ht.owner, ht.auctionEnded, ht.rebatePeriodEnded⟩, trivial⟩
  · -- `_onChainSetAttendConcert`
    simp only [dispatch, onChainSetAttendConcert, map_eq_ok_iff, bind_eq_ok_iff] at ho
    obtain ⟨t', ⟨-, -, ho⟩, rfl⟩ := ho
    rw [creditAttendance_eq_ok ho]
    exact ⟨ht.owner, ht.auctionEnded, ht.rebatePeriodEnded⟩
  · -- `rebateWithdraw`
    simp only [dispatch, rebateWithdraw, bind_eq_ok_iff] at ho
    obtain ⟨-, -, -, -, -, -, ho⟩ := ho
    by_cases hbalance : t.accountForWithdrawals m.sender ≤ t.balance
    · rw [if_pos hbalance, pure_eq_ok_iff] at ho
      subst ho
      exact ⟨ht, ⟨ht.owner, ht.auctionEnded, ht.rebatePeriodEnded⟩, trivial⟩
    · rw [if_neg hbalance, pure_eq_ok_iff] at ho
      subst ho
      exact ⟨ht.owner, ht.auctionEnded, ht.rebatePeriodEnded⟩

theorem not_sendsRebate {A : Immutables} {m : Msg} {participant : Address} {s : State}
    (hm : m.sender ≠ s.owner) : ¬ SendsRebate A m participant s := by
  rintro ⟨before, during, next, h, -⟩
  cases hcall : call A m (.burnOrSendRebate participant) s with
  | error e =>
    rw [enter, hcall] at h
    cases h
  | ok o =>
    simp only [call, dispatch, burnOrSendRebate, bind_eq_ok_iff, onlyOwner_eq_ok_iff] at hcall
    obtain ⟨-, -, -, howner, -⟩ := hcall
    exact hm howner

theorem Frozen.resume {factory : Address} {A : Immutables} {s : State} (hs : Frozen factory s)
    {k : Pending} (hk : k.NotBurning) (ok : Bool) :
    (resume A k ok s).All (Frozen factory) Pending.NotBurning := by
  refine (resume_change hk).mono fun _ s' h => ?_
  rcases h with rfl | ⟨account, amount, rfl⟩
  · exact hs
  · exact ⟨hs.owner, hs.auctionEnded, hs.rebatePeriodEnded⟩

/-! ### All auctions -/

/-- Every auction was made for somebody else than the factory, and it is frozen. -/
def Factory.Frozen (factory : Address) (w : Factory) : Prop :=
  ∀ a ∈ w.auctions, a.creator ≠ factory ∧ Auction.Frozen factory a.state

theorem Factory.Frozen.put {factory : Address} {w : Factory} (hw : w.Frozen factory) {i : ℕ}
    {a : Created} (ha : a ∈ w.auctions) {s : State} (hs : Auction.Frozen factory s) :
    (w.put i a s).Frozen factory := by
  intro b hb
  rcases List.mem_or_eq_of_mem_set hb with hold | rfl
  · exact hw b hold
  · exact ⟨(hw a ha).1, hs⟩

theorem Factory.Frozen.runAuction {factory : Address} {w : Factory} (hw : w.Frozen factory) {i : ℕ}
    {code : Immutables → State → Result}
    (hcode : ∀ A s, Auction.Frozen factory s →
      (code A s).All (Auction.Frozen factory) Pending.NotBurning) :
    (w.runAuction i code).All (Factory.Frozen factory) (fun k => k.2.NotBurning) := by
  unfold Factory.runAuction
  cases hi : w.auctions[i]? with
  | none => trivial
  | some a =>
    have ha : a ∈ w.auctions := List.mem_of_getElem? hi
    have hs : Auction.Frozen factory a.state := (hw a ha).2
    have hat : Auction.Frozen factory (a.at w) := ⟨hs.owner, hs.auctionEnded, hs.rebatePeriodEnded⟩
    exact all_map_iff.mpr ((hcode a.immutables (a.at w) hat).mono fun _ s hs => hw.put ha hs)

theorem createAuction_frozen {factory : Address} {m : Msg} {ticketsAddress charity : Address}
    {auctionTicketsId ticketSupply ticketReservePrice : ℕ} {w w' : Factory}
    (h : createAuction factory m ticketsAddress auctionTicketsId ticketSupply ticketReservePrice charity
      w = .ok w') (hm : m.sender ≠ factory) (hw : w.Frozen factory) : w'.Frozen factory := by
  simp only [createAuction, bind_eq_ok_iff, pure_eq_ok_iff] at h
  obtain ⟨A, -, rfl⟩ := h
  intro a ha
  rcases List.mem_append.mp ha with hold | hnew
  · exact hw a hold
  · rw [List.mem_singleton.mp hnew]
    exact ⟨hm, frozen_deployed factory w.stored⟩

/-- **Every auction from the factory is frozen**, in every run in which the factory calls nothing. -/
theorem frozen_run {factory : Address} {c : Config Factory (ℕ × Pending)}
    {actions : List (Action FactoryEntry)}
    (hc : c.Holds (Factory.Frozen factory) fun k => k.2.NotBurning)
    (hout : ∀ e, .enter e ∈ actions → e.Outside factory) :
    ((factoryMachine factory).run c actions).Holds (Factory.Frozen factory) fun k => k.2.NotBurning := by
  refine run_holds (G := fun e _ => e.Outside factory) ?_ ?_ hc (meets_of_mem fun e he _ => hout e he)
  · intro e w hw he
    cases e with
    | createAuction m =>
      refine all_ofExcept fun o ho => ?_
      obtain ⟨w', hw', rfl⟩ := map_eq_ok_iff.mp ho
      exact createAuction_frozen hw' (fun h => he (congrArg some h)) hw
    | call i m f =>
      have hm : m.sender ≠ factory := fun h => he (congrArg some h)
      show (w.runAuction i fun A => enter A (.call m f)).All _ _
      exact hw.runAuction fun A s hs => Frozen.enter hs hm f
    | storeElsewhere bid => exact hw
  · rintro ⟨i, k⟩ ok w hk hw
    show (w.runAuction i fun A => resume A k ok).All _ _
    exact hw.runAuction fun A s hs => Frozen.resume hs hk ok

theorem frozen_initial (factory : Address) (stored : List AuctionBid) :
    Config.Holds (Factory.Frozen factory) (fun k : ℕ × Pending => k.2.NotBurning) ⟨⟨[], stored⟩, []⟩ :=
  holds_initial nofun

/-- An auction that is frozen does not end by calls from outside. -/
theorem not_canFinish_of_frozen {factory c : Address} {i : ℕ} {w : Config Factory (ℕ × Pending)}
    (hw : w.Holds (Factory.Frozen factory) fun k => k.2.NotBurning) (hc : c ≠ factory) :
    ¬ CanFinish factory c i w := by
  rintro ⟨close, release, a, a', hclose, -, ha, hended, -⟩
  have hout : ∀ e, .enter e ∈ close → e.Outside factory := by
    intro e he hfactory
    exact hc (Option.some.inj ((hclose e he).symm.trans hfactory))
  have hfrozen := (frozen_run hw hout).cur a (List.mem_of_getElem? ha)
  exact absurd (hfrozen.2.auctionEnded.symm.trans hended) Bool.false_ne_true

/-- **The creator of an auction cannot end it**, from no state that a run of the factory and its
auctions reaches. -/
theorem not_canFinish (factory : Address) (stored : List AuctionBid)
    {actions : List (Action FactoryEntry)} (hout : ∀ e, .enter e ∈ actions → e.Outside factory) {i : ℕ}
    {a : Created} (ha : (factoryRun factory stored actions).cur.auctions[i]? = some a) :
    ¬ CanFinish factory a.creator i (factoryRun factory stored actions) := by
  have hw := frozen_run (frozen_initial factory stored) hout
  exact not_canFinish_of_frozen hw (hw.cur a (List.mem_of_getElem? ha)).1

/-- An auction of one ticket that account 1 has made with the factory 7. -/
theorem not_canFinish_smallSale :
    ¬ CanFinish 7 1 0 (factoryRun 7 [] [.enter (.createAuction ⟨1, 0, 0, false⟩ 0 1 1 5 0)]) :=
  not_canFinish 7 [] (a := ⟨1, smallSale, deployed 7 []⟩) (by simp [FactoryEntry.Outside, FactoryEntry.sender?]) rfl

/-- Account 1 makes an auction: it is announced as the owner, but the owner is the factory, and no calls
of account 1 end the auction or the rebate period or send a rebate. -/
theorem exists_auction_without_end :
    ∃ actions a, (factoryRun 7 [] actions).cur.auctions[0]? = some a ∧ a.creator = 1 ∧
      a.state.owner = 7 ∧
      ∀ calls, CallsBy 1 calls → ∀ a',
        ((factoryMachine 7).run (factoryRun 7 [] actions) calls).cur.auctions[0]? = some a' →
        a'.state.auctionEnded = false ∧ a'.state.rebatePeriodEnded = false ∧
          ∀ m participant, m.sender = 1 → ¬ SendsRebate a'.immutables m participant a'.state := by
  let actions : List (Action FactoryEntry) := [.enter (.createAuction ⟨1, 0, 0, false⟩ 0 1 1 5 0)]
  have hactions : ∀ e, .enter e ∈ actions → e.Outside 7 := by
    simp [actions, FactoryEntry.Outside, FactoryEntry.sender?]
  refine ⟨actions, ⟨1, smallSale, deployed 7 []⟩, rfl, rfl, rfl, fun calls hcalls a' ha' => ?_⟩
  have hout : ∀ e, .enter e ∈ calls → e.Outside 7 := by
    intro e he hfactory
    exact absurd (Option.some.inj ((hcalls e he).symm.trans hfactory)) (by decide)
  have hw := frozen_run (frozen_run (frozen_initial 7 []) hactions) hout
  have hfrozen := (hw.cur a' (List.mem_of_getElem? ha')).2
  refine ⟨hfrozen.auctionEnded, hfrozen.rebatePeriodEnded, ?_⟩
  intro m participant hm
  refine not_sendsRebate fun howner => ?_
  rw [hm, hfrozen.owner] at howner
  exact absurd howner (by decide)

end Suift.Auction
