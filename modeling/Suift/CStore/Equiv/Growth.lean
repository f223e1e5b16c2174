import Suift.CStore.Equiv.TransactionalStore
import Suift.CStore.Equiv.Validation
import Suift.CStore.Node
import Mathlib.Logic.Relation

/-!
# How a store grows

Whatever the engine does, the storage moves in two kinds of steps (`AtomicBackend.Step`): a bid with a
new id, which carries the id of its contents, is put in; or a value is put in under a bid that is
there, for a caller whom the writer's copy of that bid allows.  `Finalize` and `NewMessage` are
sequences of such steps (`steps_after_finalize`, `steps_after_newMessage`), and so is every run of a
node (`Node.Sound.run`).  Everything that holds along runs is proved of the two steps.
-/

namespace Suift

open Stateful Fallible

namespace AtomicBackend

variable {σ : Type} {B : ConfidentialStorageBackend σ} (A : AtomicBackend B) {J : Encoding}

inductive Step (J : Encoding) : σ → σ → Prop
  | bid (s : σ) (bid : Bid) (hbid : bid.Authentic J) (hnew : A.bids s bid.id = none) :
    Step J s (A.insertBid s bid)
  | write (s : σ) (w : StoreWrite) (hw : w.Authentic J) (hbid : (A.bids s w.bid.id).isSome) :
    Step J s (A.insertValue s w)

/-- Any number of steps. -/
abbrev Steps (J : Encoding) : σ → σ → Prop := Relation.ReflTransGen (A.Step J)

variable {A}

/-- A stored bid stays as it is. -/
theorem Step.bids_eq {s s' : σ} (h : A.Step J s s') {id : BidId} {bid : Bid}
    (hbid : A.bids s id = some bid) : A.bids s' id = some bid := by
  cases h with
  | bid b _ hnew =>
    have hne : id ≠ b.id := by
      rintro rfl
      rw [hnew] at hbid
      exact absurd hbid (by simp)
    rw [A.bids_insertBid, Function.update_of_ne hne, hbid]
  | write w _ _ => rw [A.bids_insertValue, hbid]

theorem Steps.bids_eq {s s' : σ} (h : A.Steps J s s') {id : BidId} {bid : Bid}
    (hbid : A.bids s id = some bid) : A.bids s' id = some bid := by
  induction h with
  | refl => exact hbid
  | tail _ hstep ih => exact hstep.bids_eq ih

theorem Steps.isSome_bids {s s' : σ} (h : A.Steps J s s') {id : BidId}
    (hbid : (A.bids s id).isSome) : (A.bids s' id).isSome := by
  obtain ⟨bid, hbid⟩ := Option.isSome_iff_exists.mp hbid
  rw [h.bids_eq hbid]
  rfl

/-- A stored bid lies under its id, which is the id of its contents, if that held before. -/
theorem Steps.authentic {s s' : σ} (h : A.Steps J s s')
    (hs : ∀ id bid, A.bids s id = some bid → bid.id = id ∧ bid.Authentic J) :
    ∀ id bid, A.bids s' id = some bid → bid.id = id ∧ bid.Authentic J := by
  induction h with
  | refl => exact hs
  | tail _ hstep ih =>
    intro id bid hbid
    cases hstep with
    | bid b hb _ =>
      -- the bid looked up is the new one, or it was there before
      rw [A.bids_insertBid] at hbid
      by_cases hid : id = b.id
      · subst hid
        rw [Function.update_self] at hbid
        cases hbid
        exact ⟨rfl, hb⟩
      · rw [Function.update_of_ne hid] at hbid
        exact ih id bid hbid
    | write w _ _ =>
      rw [A.bids_insertValue] at hbid
      exact ih id bid hbid

variable (A)

theorem steps_insertBids {s : σ} {bids : List Bid} (hfresh : A.Fresh s bids)
    (hbids : ∀ bid ∈ bids, bid.Authentic J) : A.Steps J s (A.insertBids s bids) := by
  unfold insertBids
  induction bids generalizing s with
  | nil => exact .refl
  | cons bid bids ih =>
    rw [List.forall_mem_cons] at hbids
    obtain ⟨hnew, hrest⟩ := (A.accepts_bids_iff.mpr hfresh : _ ∧ _)
    have hstep : A.Step J s (A.insertBid s bid) :=
      .bid s bid hbids.1 (hfresh.2 bid List.mem_cons_self)
    exact .head hstep (ih (A.accepts_bids_iff.mp hrest) hbids.2)

theorem steps_insertValues {s : σ} {writes : List StoreWrite}
    (hwrites : ∀ w ∈ writes, w.Authentic J ∧ (A.bids s w.bid.id).isSome) :
    A.Steps J s (A.insertValues s writes) := by
  unfold insertValues
  induction writes generalizing s with
  | nil => exact .refl
  | cons w writes ih =>
    rw [List.forall_mem_cons] at hwrites
    have hstep : A.Step J s (A.insertValue s w) := .write s w hwrites.1.1 hwrites.1.2
    -- a write changes no bid, so the bids of the remaining writes are still there
    refine .head hstep (ih ?_)
    intro w' hw'
    rw [A.bids_insertValue]
    exact hwrites.2 w' hw'

theorem steps_takeWrites {s : σ} {writes : List StoreWrite}
    (hwrites : ∀ w ∈ writes, w.Authentic J) : A.Steps J s (A.takeWrites s writes) := by
  unfold takeWrites
  induction writes generalizing s with
  | nil => exact .refl
  | cons w writes ih =>
    rw [List.forall_mem_cons] at hwrites
    refine .trans ?_ (ih hwrites.2)
    unfold takeWrite
    split_ifs with hpresent
    · exact .single (.write s w hwrites.1 hpresent)
    · -- the bid is new: put it in first
      have hbid : A.Step J s (A.insertBid s w.bid) :=
        .bid s w.bid hwrites.1.1 (by simpa using hpresent)
      have hthere : (A.bids (A.insertBid s w.bid) w.bid.id).isSome := by
        rw [A.bids_insertBid, Function.update_self]
        rfl
      exact .tail (.single hbid) (.write _ w hwrites.1 hthere)

end AtomicBackend

/-! ### The engine's operations -/

/-- The pending bids and writes of a transaction are authentic, and each write is on a bid that is
pending or stored. -/
structure TransactionalStore.Sound {σ : Type} {B : ConfidentialStorageBackend σ}
    (A : AtomicBackend B) (J : Encoding) (s : σ) (t : TransactionalStore) : Prop where
  bids : ∀ bid ∈ t.pendingBids, bid.Authentic J
  writes : ∀ w ∈ t.pendingWrites.elems, w.Authentic J ∧
    (w.bid ∈ t.pendingBids ∨ (A.bids s w.bid.id).isSome)

section Operations

variable {σ : Type} {B : ConfidentialStorageBackend σ} {A : AtomicBackend B} {C : EngineConfig}
  {s s' : σ} {t t' : TransactionalStore}

theorem TransactionalStore.Sound.of_steps (h : t.Sound A C.json s) (hsteps : A.Steps C.json s s') :
    t.Sound A C.json s' where
  bids := h.bids
  writes w hw := ⟨(h.writes w hw).1, (h.writes w hw).2.imp_right hsteps.isSome_bids⟩

theorem TransactionalStore.sound_new (tx : Option Transaction) : (new tx).Sound A C.json s where
  bids _ h := absurd h List.not_mem_nil
  writes _ h := absurd h List.not_mem_nil

/-- A bid that a transaction finds is pending, or it comes from the storage. -/
theorem TransactionalStore.mem_of_fetchBidById {bidId : BidId} {bid : Bid}
    (h : t.fetchBidById (C.engine B) s bidId = .ok bid) :
    bid ∈ t.pendingBids ∨ A.bids s bidId = some bid := by
  unfold fetchBidById at h
  split at h
  · rename_i b hpending
    cases h
    exact .inl (List.mem_of_find?_eq_some hpending)
  · change B.fetchBidById s bidId = .ok bid at h
    rw [A.fetchBidById_eq] at h
    split at h
    · exact absurd h (by simp)
    · rename_i b hstored
      cases h
      exact .inr hstored

theorem TransactionalStore.Sound.apply
    (hs : ∀ id bid, A.bids s id = some bid → bid.id = id ∧ bid.Authentic C.json)
    (h : t.Sound A C.json s) {op : Op} (hop : t.apply (C.engine B) s op = .ok t') :
    t'.Sound A C.json s := by
  cases op with
  | initializeBid rawBid =>
    obtain ⟨bid, hnew, hbid, rfl⟩ := apply_initializeBid_eq_ok_iff.mp hop
    refine ⟨?_, ?_⟩
    · intro b hb
      rcases List.mem_append.mp hb with hb | hb
      · exact h.bids b hb
      · obtain rfl := List.mem_singleton.mp hb
        exact C.calculateBidId_of_initializeBid hbid
    · intro w hw
      refine ⟨(h.writes w hw).1, (h.writes w hw).2.imp_left ?_⟩
      exact fun hmem => List.mem_append_left _ hmem
  | store bidId caller key value =>
    obtain ⟨bid, hbid, hallows, rfl⟩ := apply_store_eq_ok_iff.mp hop
    refine ⟨h.bids, ?_⟩
    intro w hw
    rw [pendingWrites_addWrite, List.mem_append, List.mem_singleton] at hw
    rcases hw with hw | rfl
    · exact h.writes w hw
    · rcases mem_of_fetchBidById (A := A) hbid with hpending | hstored
      · exact ⟨⟨h.bids bid hpending, hallows⟩, .inl hpending⟩
      · obtain ⟨hid, hauthentic⟩ := hs bidId bid hstored
        refine ⟨⟨hauthentic, hallows⟩, .inr ?_⟩
        show (A.bids s bid.id).isSome
        rw [hid, hstored]
        rfl

/-- `Finalize` moves the storage along steps, also when it fails midway. -/
theorem steps_after_finalize (h : t.Sound A C.json s) {order : List Bid}
    (horder : order.Perm t.pendingBids) {st : EngineState σ} (hst : st.storage = s) :
    A.Steps C.json s (after (t.finalize (C.engine B) order) st).storage := by
  subst hst
  have hbids : ∀ bid ∈ order, bid.Authentic C.json := fun b hb => h.bids b (horder.mem_iff.mp hb)
  -- all bids, and then any of the writes
  have hwrites : A.Fresh st.storage order → ∀ ws, (∀ w ∈ ws, w ∈ t.pendingWrites.elems) →
      A.Steps C.json st.storage (A.insertValues (A.insertBids st.storage order) ws) := by
    intro hfresh ws hws
    have hin := A.steps_insertBids hfresh hbids
    refine hin.trans (A.steps_insertValues fun w hw => ⟨(h.writes w (hws w hw)).1, ?_⟩)
    rcases (h.writes w (hws w hw)).2 with hpending | hstored
    · rw [A.bids_insertBids_of_mem hfresh (horder.mem_iff.mpr hpending)]
      rfl
    · exact hin.isSome_bids hstored
  cases hrun : (t.finalize (C.engine B) order).run st with
  | ok _ st' =>
    obtain ⟨_, hfresh, -, -, rfl⟩ := (ConfidentialStoreEngine.finalize_eq_ok_iff A).mp hrun
    rw [after_of_ok hrun]
    exact hwrites hfresh _ fun _ hw => hw
  | error err st' =>
    rw [after_of_error hrun]
    rcases ConfidentialStoreEngine.finalize_eq_error_iff.mp hrun with hfail | ⟨hok, -⟩
    · rcases (ConfidentialStoreEngine.storePending_eq_error_iff A).mp hfail with
        ⟨done, b, rest, hsplit, hdone, -, -, rfl⟩ | ⟨hfresh, done, w, rest, _, hsplit, -, -, -, rfl⟩
      · refine A.steps_insertBids hdone fun b hb => hbids b ?_
        rw [hsplit]
        exact List.mem_append_left _ hb
      · refine hwrites hfresh done fun w hw => ?_
        rw [hsplit]
        exact List.mem_append_left _ hw
    · obtain ⟨hfresh, -, rfl⟩ := (ConfidentialStoreEngine.storePending_eq_ok_iff A).mp hok
      exact hwrites hfresh _ fun _ hw => hw

theorem steps_after_newMessage (hA : ∀ w, A.refuses w = none) (message : DAMessage)
    (st : EngineState σ) :
    A.Steps C.json st.storage (after ((C.engine B).newMessage message) st).storage := by
  by_cases hvalid : C.validateMessage message = .ok true
  · rw [ConfidentialStoreEngine.after_newMessage_of_valid A hA hvalid]
    exact A.steps_takeWrites (EngineConfig.authentic_of_validateMessage hvalid)
  · rw [ConfidentialStoreEngine.after_newMessage_of_not_valid A hA hvalid]

end Operations

/-! ### Runs of a node -/

namespace Node

variable {σ : Type} {B : ConfidentialStorageBackend σ} {A : AtomicBackend B} {C : EngineConfig}
  {n n' : Node σ}

/-- What holds of a node at all times. -/
structure Sound (A : AtomicBackend B) (J : Encoding) (n : Node σ) : Prop where
  stored : ∀ id bid, A.bids n.engine.storage id = some bid → bid.id = id ∧ bid.Authentic J
  transactions : ∀ t ∈ n.transactions, t.Sound A J n.engine.storage

/-- One step keeps the node sound and moves its storage along steps. -/
theorem Sound.step (hA : ∀ w, A.refuses w = none) (h : n.Sound A C.json) {a : NodeAction}
    (hstep : n.step (C.engine B) a = some n') :
    A.Steps C.json n.engine.storage n'.engine.storage ∧ n'.Sound A C.json := by
  -- a step that only changes the engine keeps the transactions sound
  have hengine : ∀ st, A.Steps C.json n.engine.storage st.storage →
      A.Steps C.json n.engine.storage { n with engine := st }.engine.storage ∧
        { n with engine := st }.Sound A C.json := fun st hsteps =>
    ⟨hsteps, hsteps.authentic h.stored, fun t ht => (h.transactions t ht).of_steps hsteps⟩
  cases a with
  | newTransactionalStore sourceTx =>
    cases hstep
    refine ⟨.refl, h.stored, ?_⟩
    intro t ht
    rcases List.mem_append.mp ht with ht | ht
    · exact h.transactions t ht
    · obtain rfl := List.mem_singleton.mp ht
      exact TransactionalStore.sound_new sourceTx
  | apply i op =>
    simp only [Node.step, Option.map_eq_some_iff] at hstep
    obtain ⟨t, ht, rfl⟩ := hstep
    have hsound := h.transactions t (List.mem_of_getElem? ht)
    cases hop : t.apply (C.engine B) n.engine.storage op with
    | error err => exact ⟨.refl, h⟩
    | ok t' =>
      refine ⟨.refl, h.stored, ?_⟩
      intro u hu
      rcases List.mem_or_eq_of_mem_set hu with hu | rfl
      · exact h.transactions u hu
      · exact hsound.apply h.stored hop
  | finalize i order =>
    -- the transaction itself is kept as it is, and may be finalized again
    simp only [Node.step, Option.bind_eq_some_iff] at hstep
    obtain ⟨t, ht, hstep⟩ := hstep
    split_ifs at hstep with horder
    cases hstep
    have hsound := h.transactions t (List.mem_of_getElem? ht)
    exact hengine _ (steps_after_finalize hsound horder rfl)
  | newMessage message =>
    cases hstep
    exact hengine _ (steps_after_newMessage hA message n.engine)

theorem Sound.run (hA : ∀ w, A.refuses w = none) (h : n.Sound A C.json) {as : List NodeAction}
    (hrun : n.run (C.engine B) as = some n') :
    A.Steps C.json n.engine.storage n'.engine.storage ∧ n'.Sound A C.json := by
  induction as generalizing n with
  | nil =>
    cases hrun
    exact ⟨.refl, h⟩
  | cons a as ih =>
    simp only [Node.run, Option.bind_eq_some_iff] at hrun
    obtain ⟨n₁, hstep, hrest⟩ := hrun
    obtain ⟨hsteps₁, hsound₁⟩ := h.step hA hstep
    obtain ⟨hsteps₂, hsound₂⟩ := ih hsound₁ hrest
    exact ⟨hsteps₁.trans hsteps₂, hsound₂⟩

theorem sound_init {s : σ} (hs : ∀ id, A.bids s id = none) : (init s).Sound A C.json where
  stored id bid h := absurd h (by simp [init, hs id])
  transactions _ h := absurd h List.not_mem_nil

end Node

end Suift
