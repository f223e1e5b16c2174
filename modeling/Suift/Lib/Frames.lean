import Mathlib.Data.List.Basic

/-!
# Code that hands control to others

A machine runs the entry points of one contract over a state `σ`.  An entry point returns, reverts,
or stops in the middle at a call to somebody else's code (`Outcome`).  In the last case it leaves a
frame with what it will do next, of type `κ`, and the other side may enter the contract again before
it returns; the frames of one run therefore form a stack.

A callee that fails takes back everything since it was called, and an entry point that reverts
everything since it was entered.  Each frame keeps the two states for that.  Code that is rolled back
might never have run, so that a run of the machine is one flat list of entries and returns.

`run_holds` is the invariant rule: what every entry point and every continuation keeps holds in every
state a run reaches, the saved states included.  The entries of the run may be restricted by a
condition `G` on the state they start from.
-/

namespace Suift.Frames

universe u v w

variable {σ : Type u} {κ : Type v} {α : Type w}

/-- How a piece of code stops.  At an external call, `before` is the state that a failing callee
leaves and `during` the one in which the callee starts. -/
inductive Outcome (σ : Type u) (κ : Type v) where
  | done (s : σ)
  | revert
  | calls (before during : σ) (next : κ)

structure Machine (σ : Type u) (κ : Type v) (α : Type w) where
  enter : α → σ → Outcome σ κ
  /-- Go on after the external call; the flag says whether the callee succeeded. -/
  resume : κ → Bool → σ → Outcome σ κ

structure Frame (σ : Type u) (κ : Type v) where
  /-- The state in which the entry point was entered. -/
  entry : σ
  /-- The state before the pending external call. -/
  before : σ
  next : κ

structure Config (σ : Type u) (κ : Type v) where
  cur : σ
  frames : List (Frame σ κ)

inductive Action (α : Type w) where
  | enter (a : α)
  | ret (ok : Bool)

/-- The configuration after a piece of code that was entered in the state `entry`. -/
def settle (entry : σ) (frames : List (Frame σ κ)) : Outcome σ κ → Config σ κ
  | .done s => ⟨s, frames⟩
  | .revert => ⟨entry, frames⟩
  | .calls before during next => ⟨during, ⟨entry, before, next⟩ :: frames⟩

namespace Machine

/-- One action.  A return without a pending call does nothing. -/
def step (M : Machine σ κ α) (c : Config σ κ) : Action α → Config σ κ
  | .enter a => settle c.cur c.frames (M.enter a c.cur)
  | .ret ok =>
    match c.frames with
    | [] => c
    | f :: fs => settle f.entry fs (M.resume f.next ok (if ok then c.cur else f.before))

def run (M : Machine σ κ α) (c : Config σ κ) (actions : List (Action α)) : Config σ κ :=
  actions.foldl M.step c

/-- Every entry of the run meets the condition `G` in the state it starts from. -/
def Meets (M : Machine σ κ α) (G : α → σ → Prop) : Config σ κ → List (Action α) → Prop
  | _, [] => True
  | c, x :: xs => (∀ a, x = .enter a → G a c.cur) ∧ Meets M G (M.step c x) xs

end Machine

/-- The outcome satisfies `P` in every state it mentions, and `Q` in what is left to do. -/
def Outcome.All (P : σ → Prop) (Q : κ → Prop) : Outcome σ κ → Prop
  | .done s => P s
  | .revert => True
  | .calls before during next => P before ∧ P during ∧ Q next

/-- The outcome of code that may fail before it stops. -/
def Outcome.ofExcept {ε : Type*} : Except ε (Outcome σ κ) → Outcome σ κ
  | .ok o => o
  | .error _ => .revert

/-- The configuration satisfies `P` in every state it holds, and `Q` in every frame. -/
structure Config.Holds (P : σ → Prop) (Q : κ → Prop) (c : Config σ κ) : Prop where
  cur : P c.cur
  frames : ∀ f ∈ c.frames, P f.entry ∧ P f.before ∧ Q f.next

section Invariants

variable {P : σ → Prop} {Q : κ → Prop} {G : α → σ → Prop} {M : Machine σ κ α}

theorem all_ofExcept {ε : Type*} {x : Except ε (Outcome σ κ)} (h : ∀ o, x = .ok o → o.All P Q) :
    (Outcome.ofExcept x).All P Q := by
  cases x with
  | error e => trivial
  | ok o => exact h o rfl

theorem Outcome.All.mono {P' : σ → Prop} {o : Outcome σ κ} (ho : o.All P Q)
    (h : o ≠ .revert → ∀ s, P s → P' s) : o.All P' Q := by
  cases o with
  | done s => exact h nofun s ho
  | revert => trivial
  | calls before during next =>
    have hP := h nofun
    exact ⟨hP before ho.1, hP during ho.2.1, ho.2.2⟩

theorem Outcome.All.and {P' : σ → Prop} {o : Outcome σ κ} (ho : o.All P Q) (ho' : o.All P' Q) :
    o.All (fun s => P s ∧ P' s) Q := by
  cases o with
  | done s => exact ⟨ho, ho'⟩
  | revert => trivial
  | calls before during next => exact ⟨⟨ho.1, ho'.1⟩, ⟨ho.2.1, ho'.2.1⟩, ho.2.2⟩

/-- Unless the code reverts, the state after it is one that its outcome mentions. -/
theorem settle_cur {entry : σ} {frames : List (Frame σ κ)} {o : Outcome σ κ} (ho : o.All P Q)
    (hne : o ≠ .revert) : P (settle entry frames o).cur := by
  cases o with
  | done s => exact ho
  | revert => exact absurd rfl hne
  | calls before during next => exact ho.2.1

/-- A state without frames holds what the state holds. -/
theorem holds_initial {s : σ} (h : P s) : Config.Holds P Q ⟨s, []⟩ :=
  ⟨h, by simp⟩

theorem settle_holds {entry : σ} {frames : List (Frame σ κ)} {o : Outcome σ κ} (he : P entry)
    (hf : ∀ f ∈ frames, P f.entry ∧ P f.before ∧ Q f.next) (ho : o.All P Q) :
    (settle entry frames o).Holds P Q := by
  cases o with
  | done s => exact ⟨ho, hf⟩
  | revert => exact ⟨he, hf⟩
  | calls before during next =>
    obtain ⟨hb, hd, hn⟩ := ho
    exact ⟨hd, List.forall_mem_cons.mpr ⟨⟨he, hb, hn⟩, hf⟩⟩

theorem step_holds (hresume : ∀ k ok s, Q k → P s → (M.resume k ok s).All P Q) {c : Config σ κ}
    {x : Action α} (hc : c.Holds P Q) (hx : ∀ a, x = .enter a → (M.enter a c.cur).All P Q) :
    (M.step c x).Holds P Q := by
  cases x with
  | enter a => exact settle_holds hc.cur hc.frames (hx a rfl)
  | ret ok =>
    obtain ⟨cur, frames⟩ := c
    cases frames with
    | nil => exact hc
    | cons f fs =>
      obtain ⟨⟨he, hb, hn⟩, hfs⟩ := List.forall_mem_cons.mp hc.frames
      refine settle_holds he hfs (hresume f.next ok _ hn ?_)
      -- The code goes on in the callee's state, or in the saved one if the callee failed.
      cases ok
      · exact hb
      · exact hc.cur

/-- **Invariant rule.**  If every entry that meets `G` and every continuation keep `P`, then `P` holds
in every state of a run whose entries meet `G`. -/
theorem run_holds (henter : ∀ a s, P s → G a s → (M.enter a s).All P Q)
    (hresume : ∀ k ok s, Q k → P s → (M.resume k ok s).All P Q) {c : Config σ κ}
    {actions : List (Action α)} (hc : c.Holds P Q) (hG : M.Meets G c actions) :
    (M.run c actions).Holds P Q := by
  induction actions generalizing c with
  | nil => exact hc
  | cons x xs ih =>
    obtain ⟨hx, hxs⟩ := hG
    refine ih (step_holds hresume hc fun a ha => henter a c.cur hc.cur (hx a ha)) hxs

/-! ### Conditions on runs -/

/-- A condition that does not depend on the state. -/
theorem meets_of_mem {c : Config σ κ} {actions : List (Action α)}
    (h : ∀ a, .enter a ∈ actions → ∀ s, G a s) : M.Meets G c actions := by
  induction actions generalizing c with
  | nil => trivial
  | cons x xs ih =>
    refine ⟨fun a ha => h a (ha ▸ List.mem_cons_self) c.cur, ih fun a ha => ?_⟩
    exact h a (List.mem_cons_of_mem _ ha)

theorem forall_mem_of_meets {G : α → Prop} {c : Config σ κ} {actions : List (Action α)}
    (h : M.Meets (fun a _ => G a) c actions) : ∀ a, .enter a ∈ actions → G a := by
  induction actions generalizing c with
  | nil => simp
  | cons x xs ih =>
    intro a ha
    rcases List.mem_cons.mp ha with hx | hxs
    · exact h.1 a hx.symm
    · exact ih h.2 a hxs

theorem meets_of_all (h : ∀ a s, G a s) (c : Config σ κ) (actions : List (Action α)) :
    M.Meets G c actions :=
  meets_of_mem fun a _ => h a

theorem meets_take {c : Config σ κ} {actions : List (Action α)} (hG : M.Meets G c actions)
    (n : ℕ) : M.Meets G c (actions.take n) := by
  induction actions generalizing c n with
  | nil => simpa using hG
  | cons x xs ih =>
    cases n with
    | zero => trivial
    | succ n => exact ⟨hG.1, ih hG.2 n⟩

/-- A condition that the state after an entry implies for the entry is met by every run that reaches
such states only. -/
theorem meets_of_forall {c : Config σ κ} {actions : List (Action α)}
    (hG : ∀ a (c : Config σ κ), P c.cur → P (M.step c (.enter a)).cur → G a c.cur)
    (hP : ∀ n, P (M.run c (actions.take n)).cur) : M.Meets G c actions := by
  induction actions generalizing c with
  | nil => trivial
  | cons x xs ih =>
    constructor
    · rintro a rfl
      exact hG a c (hP 0) (hP 1)
    · exact ih fun n => hP (n + 1)

end Invariants

/-! ### Machines built from others -/

section Maps

variable {τ : Type*} {κ' : Type*} {γ : Type*}

def Outcome.map (f : σ → τ) (g : κ → κ') : Outcome σ κ → Outcome τ κ'
  | .done s => .done (f s)
  | .revert => .revert
  | .calls before during next => .calls (f before) (f during) (g next)

theorem all_map_iff {f : σ → τ} {g : κ → κ'} {P : τ → Prop} {Q : κ' → Prop} {o : Outcome σ κ} :
    (o.map f g).All P Q ↔ o.All (fun s => P (f s)) (fun k => Q (g k)) := by
  cases o <;> rfl

def Config.map (f : σ → τ) (c : Config σ κ) : Config τ κ :=
  ⟨f c.cur, c.frames.map fun frame => ⟨f frame.entry, f frame.before, frame.next⟩⟩

/-- The machine with a history: every entry adds what `note` says of the state it starts from.  Code that
is rolled back takes its part of the history with it. -/
def Machine.noting (M : Machine σ κ α) (note : α → σ → List γ) : Machine (σ × List γ) κ α where
  enter a s := (M.enter a s.1).map (fun s' => (s', note a s.1 ++ s.2)) id
  resume k ok s := (M.resume k ok s.1).map (fun s' => (s', s.2)) id

theorem map_settle (f : σ → τ) (entry : σ) (frames : List (Frame σ κ)) (o : Outcome σ κ) :
    (settle entry frames o).map f =
      settle (f entry) (frames.map fun frame => ⟨f frame.entry, f frame.before, frame.next⟩)
        (o.map f id) := by
  cases o <;> rfl

theorem map_fst_noting (o : Outcome σ κ) (h : List γ) :
    (o.map (fun s => (s, h)) id).map Prod.fst id = o := by
  cases o <;> rfl

theorem step_noting (M : Machine σ κ α) (note : α → σ → List γ) (c : Config (σ × List γ) κ)
    (x : Action α) : ((M.noting note).step c x).map Prod.fst = M.step (c.map Prod.fst) x := by
  obtain ⟨cur, frames⟩ := c
  cases x with
  | enter a =>
    rw [Machine.step, map_settle, Machine.noting, map_fst_noting]
    rfl
  | ret ok =>
    cases frames with
    | nil => rfl
    | cons frame frames =>
      rw [Machine.step, map_settle, Machine.noting, map_fst_noting]
      cases ok <;> rfl

/-- The history does not change what the machine does. -/
theorem run_noting (M : Machine σ κ α) (note : α → σ → List γ) (c : Config (σ × List γ) κ)
    (actions : List (Action α)) :
    ((M.noting note).run c actions).map Prod.fst = M.run (c.map Prod.fst) actions := by
  induction actions generalizing c with
  | nil => rfl
  | cons x xs ih =>
    rw [Machine.run, List.foldl_cons, Machine.run, List.foldl_cons, ← step_noting]
    exact ih _

end Maps

end Suift.Frames
