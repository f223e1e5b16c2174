import Mathlib.Data.List.Basic
import Mathlib.Order.Lattice

/-!
# Exchange sort

An exchange sort compares the entry at each position in turn with all later entries, and exchanges the two
whenever the later one has the larger key.  One round over the later entries is `pass`: the entry travels
along them, is left where a larger one is met, and the larger one travels on.  What arrives at the end has
the largest key (`key_le_pass`), so that the rounds put the entries in the order of falling keys
(`pairwise_sort`), and none is lost or doubled (`sort_perm`).
-/

namespace Suift.ExchangeSort

variable {α κ : Type*} [LinearOrder κ] (key : α → κ)

/-- The round of the entry `x` over the later ones: what is in its place afterwards, and behind it. -/
def pass : α → List α → α × List α
  | x, [] => (x, [])
  | x, y :: ys =>
    if key x < key y then ((pass y ys).1, x :: (pass y ys).2) else ((pass x ys).1, y :: (pass x ys).2)

@[simp]
theorem pass_nil (x : α) : pass key x [] = (x, []) := rfl

theorem pass_cons_of_lt {x y : α} (h : key x < key y) (ys : List α) :
    pass key x (y :: ys) = ((pass key y ys).1, x :: (pass key y ys).2) := by
  rw [pass, if_pos h]

theorem pass_cons_of_not_lt {x y : α} (h : ¬ key x < key y) (ys : List α) :
    pass key x (y :: ys) = ((pass key x ys).1, y :: (pass key x ys).2) := by
  rw [pass, if_neg h]

theorem pass_perm (x : α) (ys : List α) : ((pass key x ys).1 :: (pass key x ys).2).Perm (x :: ys) := by
  induction ys generalizing x with
  | nil => exact .refl _
  | cons y ys ih =>
    by_cases h : key x < key y
    · rw [pass_cons_of_lt key h]
      exact (List.Perm.swap x _ _).trans ((ih y).cons x)
    · rw [pass_cons_of_not_lt key h]
      exact (List.Perm.swap y _ _).trans (((ih x).cons y).trans (List.Perm.swap x y ys))

@[simp]
theorem length_pass (x : α) (ys : List α) : (pass key x ys).2.length = ys.length := by
  have hperm := (pass_perm key x ys).length_eq
  simpa using hperm

/-- Nothing has a larger key than what the round leaves in front. -/
theorem key_le_pass (x : α) (ys : List α) :
    key x ≤ key (pass key x ys).1 ∧ ∀ z ∈ (pass key x ys).2, key z ≤ key (pass key x ys).1 := by
  induction ys generalizing x with
  | nil => exact ⟨le_rfl, by simp⟩
  | cons y ys ih =>
    by_cases h : key x < key y
    · obtain ⟨hy, hrest⟩ := ih y
      have hx : key x ≤ key (pass key y ys).1 := h.le.trans hy
      rw [pass_cons_of_lt key h]
      exact ⟨hx, List.forall_mem_cons.mpr ⟨hx, hrest⟩⟩
    · obtain ⟨hx, hrest⟩ := ih x
      have hy : key y ≤ key (pass key x ys).1 := (not_lt.mp h).trans hx
      rw [pass_cons_of_not_lt key h]
      exact ⟨hx, List.forall_mem_cons.mpr ⟨hy, hrest⟩⟩

/-- All rounds. -/
def sort : List α → List α
  | [] => []
  | x :: xs => (pass key x xs).1 :: sort (pass key x xs).2
termination_by xs => xs.length
decreasing_by simp

@[simp]
theorem sort_nil : sort key [] = [] := by rw [sort]

theorem sort_cons (x : α) (xs : List α) :
    sort key (x :: xs) = (pass key x xs).1 :: sort key (pass key x xs).2 := by rw [sort]

theorem sort_perm (xs : List α) : (sort key xs).Perm xs := by
  fun_induction sort key xs with
  | case1 => exact .refl _
  | case2 x xs ih => exact (ih.cons _).trans (pass_perm key x xs)

theorem pairwise_sort (xs : List α) : (sort key xs).Pairwise fun a b => key b ≤ key a := by
  fun_induction sort key xs with
  | case1 => exact .nil
  | case2 x xs ih =>
    refine List.pairwise_cons.mpr ⟨?_, ih⟩
    intro z hz
    exact (key_le_pass key x xs).2 z ((sort_perm key _).mem_iff.mp hz)

end Suift.ExchangeSort
