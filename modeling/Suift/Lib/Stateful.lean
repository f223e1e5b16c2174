import Mathlib.Data.List.Basic

/-!
# Computations that change a state and may fail

Rules for `EStateM`, whose computations keep the changes made before an error.

* `guarded fail update` is the shape of an atomic operation: it fails and changes nothing, or it
  succeeds and updates the state.  A loop of such operations either performs all updates or stops at
  the first one that fails, with those before it done (`forM_guarded_eq_ok_iff`,
  `forM_guarded_eq_error_iff`).
* `Simulates f x y` says that `y` does on `f s` what `x` does on `s`.  It is kept by every way of
  putting computations together that is used here.
-/

namespace Suift.Stateful

variable {ε σ τ α β : Type}

/-! ### Inversion -/

theorem run_bind_eq_ok_iff {x : EStateM ε σ α} {f : α → EStateM ε σ β} {s s' : σ} {b : β} :
    (x >>= f).run s = .ok b s' ↔ ∃ a t, x.run s = .ok a t ∧ (f a).run t = .ok b s' := by
  rw [EStateM.run_bind]
  cases x.run s <;> simp

theorem run_bind_eq_error_iff {x : EStateM ε σ α} {f : α → EStateM ε σ β} {s s' : σ} {e : ε} :
    (x >>= f).run s = .error e s' ↔
      x.run s = .error e s' ∨ ∃ a t, x.run s = .ok a t ∧ (f a).run t = .error e s' := by
  rw [EStateM.run_bind]
  cases x.run s <;> simp

theorem ofExcept_apply (x : Except ε α) (s : σ) :
    (MonadExcept.ofExcept x : EStateM ε σ α).run s =
      match x with
      | .ok a => .ok a s
      | .error e => .error e s := by
  cases x <;> rfl

theorem map_ofExcept (g : α → β) (x : Except ε α) :
    g <$> (MonadExcept.ofExcept x : EStateM ε σ α) = MonadExcept.ofExcept (x.map g) := by
  cases x <;> rfl

theorem run_map_of_ok {x : EStateM ε σ α} {s s' : σ} {a : α} (g : α → β) (h : x.run s = .ok a s') :
    (g <$> x).run s = .ok (g a) s' := by
  simp only [EStateM.run] at h
  simp only [EStateM.run, Functor.map, EStateM.map, h]

theorem run_map_of_error {x : EStateM ε σ α} {s s' : σ} {e : ε} (g : α → β) (h : x.run s = .error e s') :
    (g <$> x).run s = .error e s' := by
  simp only [EStateM.run] at h
  simp only [EStateM.run, Functor.map, EStateM.map, h]

theorem run_tryCatch (x : EStateM ε σ α) (g : ε → EStateM ε σ α) (s : σ) :
    (tryCatch x g).run s =
      match x.run s with
      | .ok a t => .ok a t
      | .error e t => (g e).run t := by
  simp only [EStateM.run, tryCatch, tryCatchThe, MonadExceptOf.tryCatch, EStateM.tryCatch]
  cases x s <;> rfl

/-- The state that `x` leaves behind, whether it succeeds or fails. -/
def after (x : EStateM ε σ α) (s : σ) : σ :=
  match x.run s with
  | .ok _ t => t
  | .error _ t => t

theorem after_of_ok {x : EStateM ε σ α} {s t : σ} {a : α} (h : x.run s = .ok a t) :
    after x s = t := by
  rw [after, h]

theorem after_of_error {x : EStateM ε σ α} {s t : σ} {e : ε} (h : x.run s = .error e t) :
    after x s = t := by
  rw [after, h]

/-! ### Working on a part of the state -/

/-- Run `x` on the part of the state that `get` reads and `set` replaces; its errors go through
`wrap`. -/
def zoom (get : τ → σ) (set : τ → σ → τ) (wrap : ε → ε) (x : EStateM ε σ α) : EStateM ε τ α := fun t =>
  match x.run (get t) with
  | .ok a s => .ok a (set t s)
  | .error e s => .error (wrap e) (set t s)

theorem run_zoom (get : τ → σ) (set : τ → σ → τ) (wrap : ε → ε) (x : EStateM ε σ α) (t : τ) :
    (zoom get set wrap x).run t =
      match x.run (get t) with
      | .ok a s => .ok a (set t s)
      | .error e s => .error (wrap e) (set t s) := rfl

/-- A loop of computations on a part of the state is a computation on that part. -/
theorem forM_zoom {get : τ → σ} {set : τ → σ → τ} (hget : ∀ t s, get (set t s) = s)
    (hset : ∀ t s s', set (set t s) s' = set t s') (hself : ∀ t, set t (get t) = t) (wrap : ε → ε)
    (f : α → EStateM ε σ PUnit) (xs : List α) :
    (forM xs fun a => zoom get set wrap (f a)) = zoom get set wrap (forM xs f) := by
  funext t
  show (forM xs fun a => zoom get set wrap (f a)).run t = (zoom get set wrap (forM xs f)).run t
  induction xs generalizing t with
  | nil =>
    rw [run_zoom]
    simp [hself]
  | cons a xs ih =>
    simp only [List.forM_cons, EStateM.run_bind, run_zoom]
    cases h : (f a).run (get t) with
    | error e s => rfl
    | ok u s =>
      simp only [ih, run_zoom, hget]
      cases (forM xs f).run s <;> simp [hset]

/-! ### Loops of atomic operations -/

/-- Fail with `fail s a`, or update the state. -/
def guarded (fail : σ → α → Option ε) (update : σ → α → σ) (a : α) : EStateM ε σ Unit := fun s =>
  match fail s a with
  | some e => .error e s
  | none => .ok () (update s a)

variable (fail : σ → α → Option ε) (update : σ → α → σ)

theorem run_guarded (a : α) (s : σ) :
    (guarded fail update a).run s =
      match fail s a with
      | some e => .error e s
      | none => .ok () (update s a) := rfl

/-- None of the operations `xs` fails when they are done one after the other. -/
def Accepts : σ → List α → Prop
  | _, [] => True
  | s, a :: xs => fail s a = none ∧ Accepts (update s a) xs

variable {fail update}

/-- When failing does not depend on the state, it is enough to look at the operations. -/
theorem accepts_iff_forall {fail : α → Option ε} {xs : List α} {s : σ} :
    Accepts (fun _ a => fail a) update s xs ↔ ∀ a ∈ xs, fail a = none := by
  induction xs generalizing s with
  | nil => simp [Accepts]
  | cons a xs ih => rw [Accepts, ih, List.forall_mem_cons]

theorem forM_guarded_eq_ok_iff {xs : List α} {s s' : σ} {u : PUnit} :
    (forM xs (guarded fail update)).run s = .ok u s' ↔
      Accepts fail update s xs ∧ s' = xs.foldl update s := by
  induction xs generalizing s with
  | nil => simp [Accepts, eq_comm]
  | cons a xs ih =>
    rw [List.forM_cons, run_bind_eq_ok_iff, run_guarded, Accepts]
    cases h : fail s a with
    | none => simpa using ih
    | some e => simp

/-- A loop that fails has done the operations before the one that failed, and no other. -/
theorem forM_guarded_eq_error_iff {xs : List α} {s s' : σ} {e : ε} :
    (forM xs (guarded fail update)).run s = .error e s' ↔
      ∃ done a rest, xs = done ++ a :: rest ∧ Accepts fail update s done ∧
        fail (done.foldl update s) a = some e ∧ s' = done.foldl update s := by
  induction xs generalizing s with
  | nil => simp
  | cons x xs ih =>
    rw [List.forM_cons, run_bind_eq_error_iff]
    cases h : fail s x with
    | some e' =>
      -- the loop stops at once: nothing is done, and no split with something done is accepted
      have hx : (guarded fail update x).run s = .error e' s := by rw [run_guarded, h]
      simp only [hx, EStateM.Result.error.injEq, reduceCtorEq, false_and, exists_false, or_false]
      constructor
      · rintro ⟨rfl, rfl⟩
        exact ⟨[], x, xs, rfl, trivial, h, rfl⟩
      · rintro ⟨done, a, rest, hxs, hdone, ha, rfl⟩
        cases done with
        | nil =>
          obtain ⟨rfl, rfl⟩ := List.cons.inj hxs
          exact ⟨by simpa [h] using ha, rfl⟩
        | cons y done =>
          obtain ⟨rfl, -⟩ := List.cons.inj hxs
          exact absurd hdone.1 (by simp [h])
    | none =>
      have hx : (guarded fail update x).run s = .ok () (update s x) := by rw [run_guarded, h]
      simp only [hx, reduceCtorEq, EStateM.Result.ok.injEq, true_and, exists_eq_left', false_or,
        exists_const]
      rw [ih]
      constructor
      · rintro ⟨done, a, rest, rfl, hdone, ha, rfl⟩
        exact ⟨x :: done, a, rest, rfl, ⟨h, hdone⟩, ha, rfl⟩
      · rintro ⟨done, a, rest, hxs, hdone, ha, rfl⟩
        cases done with
        | nil =>
          obtain ⟨rfl, rfl⟩ := List.cons.inj hxs
          exact absurd ha (by simp [h])
        | cons y done =>
          obtain ⟨rfl, rfl⟩ := List.cons.inj hxs
          exact ⟨done, a, rest, rfl, hdone.2, ha, rfl⟩

/-! ### The errors of a computation -/

/-- All errors of `x` satisfy `p`. -/
def FailsOnly (p : ε → Prop) (x : EStateM ε σ α) : Prop := ∀ s e s', x.run s = .error e s' → p e

variable {p : ε → Prop}

theorem FailsOnly.pure (a : α) : FailsOnly p (pure a : EStateM ε σ α) := by
  intro s e s' h
  cases h

theorem FailsOnly.bind {x : EStateM ε σ α} {g : α → EStateM ε σ β} (hx : FailsOnly p x)
    (hg : ∀ a, FailsOnly p (g a)) : FailsOnly p (x >>= g) := by
  intro s e s' h
  rcases run_bind_eq_error_iff.mp h with h | ⟨a, t, -, h⟩
  · exact hx s e s' h
  · exact hg a t e s' h

theorem FailsOnly.forM {g : β → EStateM ε σ PUnit} (h : ∀ b, FailsOnly p (g b)) (xs : List β) :
    FailsOnly p (ForM.forM xs g) := by
  induction xs with
  | nil => exact FailsOnly.pure _
  | cons b xs ih =>
    rw [List.forM_cons]
    exact FailsOnly.bind (h b) fun _ => ih

/-- A handler sees only errors that `x` has. -/
theorem FailsOnly.tryCatch {q : ε → Prop} {x : EStateM ε σ α} {g : ε → EStateM ε σ α}
    (hx : FailsOnly q x) (hg : ∀ e, q e → FailsOnly p (g e)) : FailsOnly p (tryCatch x g) := by
  intro s e s' h
  rw [run_tryCatch] at h
  cases hrun : x.run s with
  | ok a t =>
    rw [hrun] at h
    cases h
  | error e₁ t =>
    rw [hrun] at h
    exact hg e₁ (hx s e₁ t hrun) t e s' h

theorem FailsOnly.zoom {get : τ → σ} {set : τ → σ → τ} {wrap : ε → ε} (hwrap : ∀ e, p e → p (wrap e))
    {x : EStateM ε σ α} (hx : FailsOnly p x) : FailsOnly p (zoom get set wrap x) := by
  intro t e t' h
  rw [run_zoom] at h
  cases hrun : x.run (get t) with
  | ok a s =>
    rw [hrun] at h
    cases h
  | error e₁ s =>
    rw [hrun] at h
    cases h
    exact hwrap e₁ (hx _ e₁ s hrun)

/-! ### Simulation along a map of the states -/

/-- The outcome of a computation with its state mapped. -/
def mapResult (f : σ → τ) : EStateM.Result ε σ α → EStateM.Result ε τ α
  | .ok a s => .ok a (f s)
  | .error e s => .error e (f s)

/-- On the image of every state `y` does what `x` does. -/
def Simulates (f : σ → τ) (x : EStateM ε σ α) (y : EStateM ε τ α) : Prop :=
  ∀ s, y.run (f s) = mapResult f (x.run s)

variable {f : σ → τ}

theorem Simulates.pure (a : α) : Simulates f (pure a : EStateM ε σ α) (pure a) := fun _ => rfl

theorem Simulates.ofExcept (x : Except ε α) :
    Simulates f (MonadExcept.ofExcept x : EStateM ε σ α) (MonadExcept.ofExcept x) := by
  intro s
  cases x <;> rfl

theorem Simulates.bind {x : EStateM ε σ α} {y : EStateM ε τ α} {g : α → EStateM ε σ β}
    {k : α → EStateM ε τ β} (hx : Simulates f x y) (hg : ∀ a, Simulates f (g a) (k a)) :
    Simulates f (x >>= g) (y >>= k) := by
  intro s
  rw [EStateM.run_bind, EStateM.run_bind, hx s]
  cases x.run s with
  | ok a t => exact hg a t
  | error e t => rfl

theorem Simulates.tryCatch {x : EStateM ε σ α} {y : EStateM ε τ α} {g : ε → EStateM ε σ α}
    {k : ε → EStateM ε τ α} (hx : Simulates f x y) (hg : ∀ e, Simulates f (g e) (k e)) :
    Simulates f (tryCatch x g) (tryCatch y k) := by
  intro s
  rw [run_tryCatch, run_tryCatch, hx s]
  cases x.run s with
  | ok a t => rfl
  | error e t => exact hg e t

theorem Simulates.forM {g : β → EStateM ε σ PUnit} {k : β → EStateM ε τ PUnit}
    (h : ∀ b, Simulates f (g b) (k b)) (xs : List β) : Simulates f (ForM.forM xs g) (ForM.forM xs k) := by
  induction xs with
  | nil => exact Simulates.pure _
  | cons b xs ih =>
    rw [List.forM_cons, List.forM_cons]
    exact Simulates.bind (h b) fun _ => ih

theorem Simulates.modify {g : σ → σ} {k : τ → τ} (h : ∀ s, k (f s) = f (g s)) :
    Simulates f (modify g : EStateM ε σ PUnit) (modify k) := by
  intro s
  simp [EStateM.run_modify, mapResult, h]

/-- Simulation of a part of the state is simulation of the whole when `F` maps that part by `f`. -/
theorem Simulates.zoom {σ' τ' : Type} {F : σ' → τ'} {get : σ' → σ} {set : σ' → σ → σ'}
    {get' : τ' → τ} {set' : τ' → τ → τ'} (hget : ∀ t, get' (F t) = f (get t))
    (hset : ∀ t s, set' (F t) (f s) = F (set t s)) (wrap : ε → ε) {x : EStateM ε σ α}
    {y : EStateM ε τ α} (hx : Simulates f x y) :
    Simulates F (zoom get set wrap x) (zoom get' set' wrap y) := by
  intro t
  rw [run_zoom, run_zoom, hget, hx]
  cases x.run (get t) <;> simp [mapResult, hset]

theorem Simulates.after {x : EStateM ε σ α} {y : EStateM ε τ α} (h : Simulates f x y) (s : σ) :
    after y (f s) = f (after x s) := by
  rw [Stateful.after, Stateful.after, h]
  cases x.run s <;> rfl

end Suift.Stateful
