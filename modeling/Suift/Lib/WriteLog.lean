import Mathlib.Data.List.Basic
import Mathlib.Logic.Function.Basic

/-!
# Logs of keyed writes

A log is a list of writes `(k, v)` in the order in which they were made.  `replay m log` performs
them on the map `m`; `writesTo log k` are the values written to `k`, oldest first.

Replaying is last-write-wins (`replay_apply`): the value at `k` afterwards is the last of
`writesTo log k`, or the old one if there is none.  A reader that scans the log from the front sees
the first of them instead (`find?_eq_head?_writesTo`), so the two agree exactly when the first and
the last value written to `k` are equal.
-/

namespace Suift.WriteLog

variable {K V : Type*} [DecidableEq K]

/-- Perform the writes of a log on a map, oldest first. -/
def replay (m : K → Option V) (log : List (K × V)) : K → Option V :=
  log.foldl (fun m w => Function.update m w.1 (some w.2)) m

/-- The values a log writes to `k`, oldest first. -/
def writesTo (log : List (K × V)) (k : K) : List V :=
  (log.filter fun w => w.1 = k).map Prod.snd

@[simp]
theorem replay_nil (m : K → Option V) : replay m [] = m := rfl

@[simp]
theorem replay_cons (m : K → Option V) (w : K × V) (log : List (K × V)) :
    replay m (w :: log) = replay (Function.update m w.1 (some w.2)) log := rfl

theorem replay_concat (m : K → Option V) (log : List (K × V)) (w : K × V) :
    replay m (log ++ [w]) = Function.update (replay m log) w.1 (some w.2) := by
  rw [replay, List.foldl_append]
  rfl

theorem writesTo_cons (w : K × V) (log : List (K × V)) (k : K) :
    writesTo (w :: log) k = if w.1 = k then w.2 :: writesTo log k else writesTo log k := by
  unfold writesTo
  by_cases h : w.1 = k <;> simp [h]

/-- **Last write wins**: after replaying a log, a key holds the last value written to it, or its
old value if the log does not write it. -/
theorem replay_apply (m : K → Option V) (log : List (K × V)) (k : K) :
    replay m log k = (writesTo log k).getLast?.or (m k) := by
  induction log generalizing m with
  | nil => rfl
  | cons w log ih =>
    rw [replay_cons, ih, writesTo_cons]
    by_cases h : w.1 = k
    · rw [if_pos h, List.getLast?_cons]
      subst h
      rw [Function.update_self]
      cases (writesTo log w.1).getLast? <;> rfl
    · rw [if_neg h, Function.update_of_ne (Ne.symm h)]

/-- What a replay on the empty map leaves under a key was written there. -/
theorem mem_of_replay_eq_some {log : List (K × V)} {k : K} {v : V}
    (h : replay (fun _ => none) log k = some v) : (k, v) ∈ log := by
  rw [replay_apply, Option.or_none] at h
  have hmem := List.mem_of_getLast? h
  rw [writesTo, List.mem_map] at hmem
  obtain ⟨w, hw, rfl⟩ := hmem
  rw [List.mem_filter] at hw
  obtain ⟨hw, hk⟩ := hw
  rw [← of_decide_eq_true hk]
  exact hw

/-- A scan from the front finds the first value written to the key. -/
theorem find?_eq_head?_writesTo (log : List (K × V)) (k : K) :
    (log.find? fun w => w.1 = k).map Prod.snd = (writesTo log k).head? := by
  induction log with
  | nil => rfl
  | cons w log ih =>
    rw [writesTo_cons, List.find?_cons]
    by_cases h : w.1 = k
    · simp [h]
    · simpa [h] using ih

/-- A front scan and a replay give the same value exactly when the first and the last write agree. -/
theorem head?_or_eq_getLast?_or_iff (vs : List V) (old : Option V) :
    vs.head?.or old = vs.getLast?.or old ↔ vs.head? = vs.getLast? := by
  cases vs with
  | nil => simp
  | cons v vs => rw [List.head?_cons, List.getLast?_cons, Option.some_or, Option.some_or]

end Suift.WriteLog
