import Mathlib.Data.List.Basic

/-!
# Computations that may fail

Inversion rules for `Except` programs written in `do` notation: a program returns a value exactly
when each of its steps does.  They are simp lemmas, so that `simp` turns "the program returned `b`"
into the conjunction of the checks it passed.
-/

namespace Suift.Fallible

universe u v

variable {ε ε' : Type u} {α β : Type v}

@[simp]
theorem bind_eq_ok_iff {x : Except ε α} {f : α → Except ε β} {b : β} :
    (x >>= f) = .ok b ↔ ∃ a, x = .ok a ∧ f a = .ok b := by
  cases x <;> simp [bind, Except.bind]

@[simp]
theorem map_eq_ok_iff {x : Except ε α} {f : α → β} {b : β} :
    f <$> x = .ok b ↔ ∃ a, x = .ok a ∧ f a = b := by
  cases x <;> simp [Functor.map, Except.map]

@[simp]
theorem throw_eq_ok_iff {e : ε} {a : α} : (throw e : Except ε α) = .ok a ↔ False := by
  simp [throw, throwThe, MonadExceptOf.throw]

@[simp]
theorem pure_eq_ok_iff {a b : α} : (pure a : Except ε α) = .ok b ↔ a = b := by
  simp [pure, Except.pure]

@[simp]
theorem mapError_eq_ok_iff {x : Except ε α} {f : ε → ε'} {a : α} :
    x.mapError f = .ok a ↔ x = .ok a := by
  cases x <;> simp [Except.mapError]

/-- A check that throws when `p` holds is passed exactly when `p` fails. -/
@[simp]
theorem ite_throw_eq_ok_iff {p : Prop} [Decidable p] {e : ε} {f : α → Except ε β} {x : Except ε β}
    {b : β} : (if p then throw e >>= f else x) = .ok b ↔ ¬ p ∧ x = .ok b := by
  by_cases h : p <;> simp [h]

/-- A value that is guarded by `p` is returned exactly when `p` holds. -/
@[simp]
theorem ite_else_throw_eq_ok_iff {p : Prop} [Decidable p] {e : ε} {x : Except ε α} {a : α} :
    (if p then x else throw e) = .ok a ↔ p ∧ x = .ok a := by
  by_cases h : p <;> simp [h]

/-- A loop of checks is passed exactly when every check is. -/
theorem forM_eq_ok_iff {ι : Type*} {xs : List ι} {f : ι → Except ε PUnit} {u : PUnit} :
    forM xs f = .ok u ↔ ∀ x ∈ xs, f x = .ok u := by
  induction xs with
  | nil => simp
  | cons x xs ih =>
    rw [List.forM_cons, bind_eq_ok_iff, List.forall_mem_cons, ← ih]
    constructor
    · rintro ⟨⟨⟩, hx, hxs⟩
      exact ⟨hx, hxs⟩
    · rintro ⟨hx, hxs⟩
      exact ⟨u, hx, hxs⟩

/-- Each result of a loop comes from one of its rounds. -/
theorem exists_of_mapM_eq_ok {ι : Type*} {xs : List ι} {f : ι → Except ε α} {ys : List α}
    (h : xs.mapM f = .ok ys) : ∀ y ∈ ys, ∃ x ∈ xs, f x = .ok y := by
  induction xs generalizing ys with
  | nil =>
    obtain rfl : [] = ys := by simpa using h
    simp
  | cons x xs ih =>
    simp only [List.mapM_cons, bind_eq_ok_iff, pure_eq_ok_iff] at h
    obtain ⟨y, hy, ys', hys, rfl⟩ := h
    intro z hz
    rcases List.mem_cons.mp hz with rfl | hz
    · exact ⟨x, List.mem_cons_self, hy⟩
    · obtain ⟨x', hx', hz'⟩ := ih hys z hz
      exact ⟨x', List.mem_cons_of_mem _ hx', hz'⟩

/-- A loop whose rounds are changed without changing their results has the same results. -/
theorem mapM_eq_ok_of_forall {ι : Type*} {xs : List ι} {f g : ι → Except ε α} {ys : List α}
    (h : xs.mapM f = .ok ys) (hg : ∀ x, ∀ y ∈ ys, f x = .ok y → g x = .ok y) :
    xs.mapM g = .ok ys := by
  induction xs generalizing ys with
  | nil => simpa using h
  | cons x xs ih =>
    simp only [List.mapM_cons, bind_eq_ok_iff, pure_eq_ok_iff] at h ⊢
    obtain ⟨y, hy, ys', hys, rfl⟩ := h
    refine ⟨y, hg x y List.mem_cons_self hy, ys', ih hys ?_, rfl⟩
    intro x' y' hy' hx'
    exact hg x' y' (List.mem_cons_of_mem _ hy') hx'

/-! ### Loops with an index -/

/-- The loop that computes each element of a new list from the element of `xs` at the same index; `i` is the
index of the first one. -/
def mapIdxFrom {ι : Type*} (f : ℕ → ι → Except ε α) : ℕ → List ι → Except ε (List α)
  | _, [] => pure []
  | i, x :: xs => do
    let y ← f i x
    let ys ← mapIdxFrom f (i + 1) xs
    return y :: ys

theorem mapIdxFrom_eq_ok_iff {ι : Type*} {f : ℕ → ι → Except ε α} {i : ℕ} {xs : List ι} {ys : List α} :
    mapIdxFrom f i xs = .ok ys ↔
      ys.length = xs.length ∧ ∀ k x, xs[k]? = some x → ∃ y, ys[k]? = some y ∧ f (i + k) x = .ok y := by
  induction xs generalizing i ys with
  | nil =>
    rw [mapIdxFrom, pure_eq_ok_iff]
    simp [eq_comm]
  | cons x xs ih =>
    simp only [mapIdxFrom, bind_eq_ok_iff, pure_eq_ok_iff, ih]
    constructor
    · rintro ⟨y, hy, ys, ⟨hlength, hrest⟩, rfl⟩
      refine ⟨by simp [hlength], ?_⟩
      intro k x' hx'
      cases k with
      | zero =>
        obtain rfl : x = x' := by simpa using hx'
        exact ⟨y, rfl, hy⟩
      | succ k =>
        obtain ⟨y', hy', hf⟩ := hrest k x' hx'
        have hindex : i + 1 + k = i + (k + 1) := by omega
        exact ⟨y', hy', hindex ▸ hf⟩
    · rintro ⟨hlength, hall⟩
      obtain ⟨y, hy, hf⟩ := hall 0 x rfl
      obtain ⟨ys, rfl⟩ : ∃ ys', ys = y :: ys' := by
        cases ys with
        | nil => cases hy
        | cons y' ys' => exact ⟨ys', by rw [Option.some.inj hy]⟩
      refine ⟨y, hf, ys, ⟨by simpa using hlength, ?_⟩, rfl⟩
      intro k x' hx'
      obtain ⟨y', hy', hf'⟩ := hall (k + 1) x' hx'
      have hindex : i + (k + 1) = i + 1 + k := by omega
      exact ⟨y', hy', hindex ▸ hf'⟩

/-- The loop returns a list if every round returns something. -/
theorem exists_mapIdxFrom_eq_ok {ι : Type*} {f : ℕ → ι → Except ε α} {i : ℕ} {xs : List ι}
    (h : ∀ k x, xs[k]? = some x → ∃ y, f (i + k) x = .ok y) : ∃ ys, mapIdxFrom f i xs = .ok ys := by
  induction xs generalizing i with
  | nil => exact ⟨[], rfl⟩
  | cons x xs ih =>
    obtain ⟨y, hy⟩ := h 0 x rfl
    obtain ⟨ys, hys⟩ := ih (i := i + 1) fun k x' hx' => by
      have hindex : i + (k + 1) = i + 1 + k := by omega
      exact hindex ▸ h (k + 1) x' hx'
    refine ⟨y :: ys, ?_⟩
    simp only [mapIdxFrom, bind_eq_ok_iff, pure_eq_ok_iff]
    exact ⟨y, hy, ys, hys, rfl⟩

/-! ### Failing in a particular way -/

/-- The program fails with an error that satisfies `p`. -/
def Fails (p : ε → Prop) (x : Except ε α) : Prop := ∃ e, x = .error e ∧ p e

variable {p : ε → Prop}

@[simp]
theorem fails_bind_iff {x : Except ε α} {f : α → Except ε β} :
    Fails p (x >>= f) ↔ Fails p x ∨ ∃ a, x = .ok a ∧ Fails p (f a) := by
  cases x <;> simp [Fails, bind, Except.bind]

@[simp]
theorem fails_map_iff {x : Except ε α} {f : α → β} : Fails p (f <$> x) ↔ Fails p x := by
  cases x <;> simp [Fails, Functor.map, Except.map]

@[simp]
theorem not_fails_pure (a : α) : ¬ Fails p (pure a) := by
  rintro ⟨e, he, -⟩
  cases he

@[simp]
theorem fails_throw_iff {e : ε} : Fails p (throw e : Except ε α) ↔ p e := by
  simp [Fails, throw, throwThe, MonadExceptOf.throw]

@[simp]
theorem fails_mapError_iff {p : ε' → Prop} {x : Except ε α} {f : ε → ε'} :
    Fails p (x.mapError f) ↔ Fails (fun e => p (f e)) x := by
  cases x <;> simp [Fails, Except.mapError]

@[simp]
theorem fails_ite_throw_iff {c : Prop} [Decidable c] {e : ε} {f : α → Except ε β} {x : Except ε β} :
    Fails p (if c then throw e >>= f else x) ↔ c ∧ p e ∨ ¬ c ∧ Fails p x := by
  by_cases h : c <;> simp [h]

/-- A loop of checks fails at the first check that does. -/
theorem fails_forM_iff {ι : Type*} {xs : List ι} {f : ι → Except ε PUnit} :
    Fails p (forM xs f) ↔
      ∃ done x rest, xs = done ++ x :: rest ∧ (∀ y ∈ done, f y = .ok ⟨⟩) ∧ Fails p (f x) := by
  induction xs with
  | nil => simp
  | cons x xs ih =>
    rw [List.forM_cons, fails_bind_iff]
    constructor
    · rintro (hx | ⟨⟨⟩, hx, hxs⟩)
      · exact ⟨[], x, xs, rfl, by simp, hx⟩
      · obtain ⟨done, y, rest, rfl, hdone, hy⟩ := ih.mp hxs
        exact ⟨x :: done, y, rest, rfl, List.forall_mem_cons.mpr ⟨hx, hdone⟩, hy⟩
    · rintro ⟨done, y, rest, hxs, hdone, hy⟩
      cases done with
      | nil =>
        obtain ⟨rfl, rfl⟩ := List.cons.inj hxs
        exact .inl hy
      | cons z done =>
        obtain ⟨rfl, rfl⟩ := List.cons.inj hxs
        rw [List.forall_mem_cons] at hdone
        exact .inr ⟨⟨⟩, hdone.1, ih.mpr ⟨done, y, rest, rfl, hdone.2, hy⟩⟩

/-- A loop that collects results fails at the first round that does. -/
theorem fails_mapM_iff {ι : Type*} {xs : List ι} {f : ι → Except ε α} :
    Fails p (xs.mapM f) ↔
      ∃ done x rest, xs = done ++ x :: rest ∧ (∀ y ∈ done, ∃ a, f y = .ok a) ∧ Fails p (f x) := by
  induction xs with
  | nil => simp
  | cons x xs ih =>
    rw [List.mapM_cons, fails_bind_iff]
    constructor
    · rintro (hx | ⟨a, ha, hrest⟩)
      · exact ⟨[], x, xs, rfl, by simp, hx⟩
      · rw [fails_bind_iff] at hrest
        rcases hrest with hxs | ⟨as, -, hpure⟩
        · obtain ⟨done, y, rest, rfl, hdone, hy⟩ := ih.mp hxs
          exact ⟨x :: done, y, rest, rfl, List.forall_mem_cons.mpr ⟨⟨a, ha⟩, hdone⟩, hy⟩
        · exact absurd hpure (not_fails_pure _)
    · rintro ⟨done, y, rest, hxs, hdone, hy⟩
      cases done with
      | nil =>
        obtain ⟨rfl, rfl⟩ := List.cons.inj hxs
        exact .inl hy
      | cons z done =>
        obtain ⟨rfl, rfl⟩ := List.cons.inj hxs
        rw [List.forall_mem_cons] at hdone
        obtain ⟨⟨a, ha⟩, hdone⟩ := hdone
        exact .inr ⟨a, ha, fails_bind_iff.mpr (.inl (ih.mpr ⟨done, y, rest, rfl, hdone, hy⟩))⟩

/-- A loop none of whose rounds fails in this way does not either. -/
theorem not_fails_mapM {ι : Type*} {xs : List ι} {f : ι → Except ε α} (h : ∀ x ∈ xs, ¬ Fails p (f x)) :
    ¬ Fails p (xs.mapM f) := by
  rw [fails_mapM_iff]
  rintro ⟨done, x, rest, rfl, -, hx⟩
  exact h x (by simp) hx

end Suift.Fallible
