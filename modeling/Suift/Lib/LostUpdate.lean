import Mathlib.Data.List.Induction
import Mathlib.Data.List.Nodup
import Mathlib.Data.List.Perm.Subperm
import Mathlib.Logic.Function.Basic

/-!
# Lost updates

Several parties append to lists in shared cells.  Party `i` wants to append `item i` to the cell `key i`;
it reads the cell, and later writes back what it has read with its item at the end.  A trace is the order
in which the reads and writes happen.

An update is lost when somebody else writes the cell between a party's read and its write (`Conflict`):
the cell has then got fewer items than it has writers (`not_conflict_of_all_mem`).  Without a conflict it
has the items of all writers in the order of their writes (`count_eq_one_of_not_conflict`).
-/

namespace Suift.LostUpdate

variable {ι κ X : Type}

inductive Access (ι : Type)
  | read (i : ι)
  | write (i : ι)
  deriving DecidableEq, Repr

/-- The cells, and what each party has read last. -/
structure State (ι κ X : Type) where
  cell : κ → List X
  seen : ι → List X

section

variable [DecidableEq ι] [DecidableEq κ] (key : ι → κ) (item : ι → X)

def State.step (s : State ι κ X) : Access ι → State ι κ X
  | .read i => { s with seen := Function.update s.seen i (s.cell (key i)) }
  | .write i => { s with cell := Function.update s.cell (key i) (s.seen i ++ [item i]) }

def State.run (s : State ι κ X) (trace : List (Access ι)) : State ι κ X := trace.foldl (State.step key item) s

theorem State.run_concat (s : State ι κ X) (trace : List (Access ι)) (e : Access ι) :
    s.run key item (trace ++ [e]) = (s.run key item trace).step key item e := by
  rw [run, List.foldl_append]
  rfl

/-- Those who have written the cell, in this order. -/
def writers (c : κ) (trace : List (Access ι)) : List ι :=
  trace.filterMap fun
    | .read _ => none
    | .write i => if key i = c then some i else none

end

/-- Nobody reads or writes twice, and everybody reads before writing. -/
structure WellFormed (trace : List (Access ι)) : Prop where
  nodup : trace.Nodup
  read_write : ∀ i, .write i ∈ trace → [.read i, .write i].Sublist trace

/-- Somebody else has written the cell since `i` read it. -/
def Stale (key : ι → κ) (i : ι) (trace : List (Access ι)) : Prop :=
  ∃ j, j ≠ i ∧ key j = key i ∧ [.read i, .write j].Sublist trace

/-- Somebody has written the cell `c` after it had been written by somebody else since the read. -/
def Conflict (key : ι → κ) (c : κ) (trace : List (Access ι)) : Prop :=
  ∃ i j, j ≠ i ∧ key i = c ∧ key j = c ∧ [.read i, .write j, .write i].Sublist trace

/-- Looking for events in a trace of which they are a part. -/
theorem sublist_filterMap_iff_of_isPartialInv {α β : Type} {f : α → β} {g : β → Option α}
    (h : Function.IsPartialInv f g) {l : List α} {m : List β} :
    l.Sublist (m.filterMap g) ↔ (l.map f).Sublist m := by
  constructor
  · intro hsub
    have hback : ((m.filterMap g).map f).Sublist m := by
      clear hsub
      induction m with
      | nil => exact List.Sublist.slnil
      | cons b m ih =>
        cases hb : g b with
        | none =>
          rw [List.filterMap_cons_none hb]
          exact ih.cons b
        | some a =>
          rw [List.filterMap_cons_some hb, List.map_cons, (h a b).mp hb]
          exact ih.cons_cons b
    exact (hsub.map f).trans hback
  · intro hsub
    have hforth : (l.map f).filterMap g = l := by
      rw [List.filterMap_map]
      have hsome : g ∘ f = some := funext fun a => (h a (f a)).mpr rfl
      rw [hsome, List.filterMap_some]
    have hfilter := hsub.filterMap g
    rwa [hforth] at hfilter

/-! ### Adding an access to a trace -/

theorem concat_sublist_concat_iff {α : Type} {l trace : List α} {a e : α} :
    (l ++ [a]).Sublist (trace ++ [e]) ↔ (l ++ [a]).Sublist trace ∨ a = e ∧ l.Sublist trace := by
  rw [← List.reverse_sublist, List.reverse_append, List.reverse_append, List.reverse_singleton,
    List.reverse_singleton, List.singleton_append, List.singleton_append]
  constructor
  · intro h
    cases h with
    | cons _ h =>
      left
      rw [← List.reverse_sublist, List.reverse_append]
      exact h
    | cons_cons _ h => exact .inr ⟨rfl, List.reverse_sublist.mp h⟩
  · rintro (h | ⟨rfl, h⟩)
    · apply List.Sublist.cons
      rw [← List.reverse_sublist, List.reverse_append] at h
      exact h
    · exact (List.reverse_sublist.mpr h).cons_cons _

section

variable {key : ι → κ} {trace : List (Access ι)} {e : Access ι}

theorem stale_concat_iff {i : ι} :
    Stale key i (trace ++ [e]) ↔
      Stale key i trace ∨ ∃ j, j ≠ i ∧ key j = key i ∧ e = .write j ∧ .read i ∈ trace := by
  have hsub : ∀ j, [.read i, .write j].Sublist (trace ++ [e]) ↔
      [.read i, .write j].Sublist trace ∨ .write j = e ∧ .read i ∈ trace := by
    intro j
    rw [← List.singleton_sublist (a := Access.read i)]
    exact concat_sublist_concat_iff (l := [Access.read i])
  unfold Stale
  simp only [hsub]
  constructor
  · rintro ⟨j, hne, hkey, hold | ⟨rfl, hread⟩⟩
    · exact .inl ⟨j, hne, hkey, hold⟩
    · exact .inr ⟨j, hne, hkey, rfl, hread⟩
  · rintro (⟨j, hne, hkey, hold⟩ | ⟨j, hne, hkey, rfl, hread⟩)
    · exact ⟨j, hne, hkey, .inl hold⟩
    · exact ⟨j, hne, hkey, .inr ⟨rfl, hread⟩⟩

/-- A conflict arises when a stale party writes. -/
theorem conflict_concat_iff {c : κ} :
    Conflict key c (trace ++ [e]) ↔
      Conflict key c trace ∨ ∃ i, e = .write i ∧ key i = c ∧ Stale key i trace := by
  have hsub : ∀ i j, [.read i, .write j, .write i].Sublist (trace ++ [e]) ↔
      [.read i, .write j, .write i].Sublist trace ∨
        .write i = e ∧ [.read i, .write j].Sublist trace := by
    intro i j
    exact concat_sublist_concat_iff (l := [Access.read i, Access.write j])
  unfold Conflict
  simp only [hsub]
  constructor
  · rintro ⟨i, j, hne, hi, hj, hold | ⟨rfl, hstale⟩⟩
    · exact .inl ⟨i, j, hne, hi, hj, hold⟩
    · exact .inr ⟨i, rfl, hi, j, hne, hj.trans hi.symm, hstale⟩
  · rintro (⟨i, j, hne, hi, hj, hold⟩ | ⟨i, rfl, hi, j, hne, hj, hstale⟩)
    · exact ⟨i, j, hne, hi, hj, .inl hold⟩
    · exact ⟨i, j, hne, hi, hj.trans hi, .inr ⟨rfl, hstale⟩⟩

theorem WellFormed.of_concat (h : WellFormed (trace ++ [e])) : WellFormed trace where
  nodup := (List.nodup_append.mp h.nodup).1
  read_write i hi := by
    have hsub := h.read_write i (List.mem_append_left _ hi)
    rcases (concat_sublist_concat_iff (l := [Access.read i])).mp hsub with hold | ⟨rfl, -⟩
    · exact hold
    · exact absurd hi fun hmem => (List.nodup_append.mp h.nodup).2.2 _ hmem _ List.mem_cons_self rfl

theorem WellFormed.nil : WellFormed ([] : List (Access ι)) where
  nodup := List.nodup_nil
  read_write _ h := absurd h List.not_mem_nil

theorem WellFormed.concat_read {i : ι} (h : WellFormed trace) (hnew : .read i ∉ trace) :
    WellFormed (trace ++ [.read i]) where
  nodup := List.nodup_append.mpr ⟨h.nodup, List.nodup_singleton _, by
    intro a ha b hb hab
    rw [List.mem_singleton.mp hb] at hab
    exact hnew (hab ▸ ha)⟩
  read_write j hj := by
    have hold : .write j ∈ trace := by simpa using hj
    exact (h.read_write j hold).trans (List.sublist_append_left _ _)

theorem WellFormed.concat_write {i : ι} (h : WellFormed trace) (hread : .read i ∈ trace)
    (hnew : .write i ∉ trace) : WellFormed (trace ++ [.write i]) where
  nodup := List.nodup_append.mpr ⟨h.nodup, List.nodup_singleton _, by
    intro a ha b hb hab
    rw [List.mem_singleton.mp hb] at hab
    exact hnew (hab ▸ ha)⟩
  read_write j hj := by
    rcases List.mem_append.mp hj with hold | hlast
    · exact (h.read_write j hold).trans (List.sublist_append_left _ _)
    · obtain rfl : j = i := by simpa using hlast
      exact (List.singleton_sublist.mpr hread).append (List.Sublist.refl [Access.write j])

end

/-! ### What becomes of the updates -/

/-- `l` goes on from `base` with updates of the parties `ws`: all of them in this order, or fewer if some
are `lost`. -/
def Kept (item : ι → X) (base : List X) (ws : List ι) (lost : Prop) (l : List X) : Prop :=
  ∃ t, l = base ++ t ∧ t ⊆ ws.map item ∧ (lost → t.length < ws.length) ∧ (¬ lost → t = ws.map item)

section

variable {item : ι → X} {base l : List X} {ws : List ι} {lost lost' : Prop}

theorem Kept.congr (h : Kept item base ws lost l) (hiff : lost' ↔ lost) : Kept item base ws lost' l := by
  rw [propext hiff]
  exact h

theorem Kept.concat (h : Kept item base ws lost l) (i : ι) :
    Kept item base (ws ++ [i]) lost (l ++ [item i]) := by
  obtain ⟨t, rfl, hsubset, hlost, hkept⟩ := h
  refine ⟨t ++ [item i], List.append_assoc _ _ _, ?_, ?_, ?_⟩
  · rw [List.map_append]
    exact List.append_subset.mpr
      ⟨List.subset_append_of_subset_left _ hsubset, List.subset_append_right _ _⟩
  · intro hl
    have hlt := hlost hl
    rw [List.length_append, List.length_append, List.length_singleton, List.length_singleton]
    omega
  · intro hl
    rw [hkept hl, List.map_append, List.map_singleton]

/-- An update that does not get into the list is lost. -/
theorem Kept.lose (h : Kept item base ws lost l) (i : ι) (hlost' : lost') :
    Kept item base (ws ++ [i]) lost' l := by
  obtain ⟨t, rfl, hsubset, hlost, hkept⟩ := h
  refine ⟨t, rfl, ?_, ?_, fun hnot => absurd hlost' hnot⟩
  · rw [List.map_append]
    exact List.subset_append_of_subset_left _ hsubset
  · intro _
    have hle : t.length ≤ ws.length := by
      by_cases hl : lost
      · exact Nat.le_of_lt (hlost hl)
      · exact Nat.le_of_eq (by rw [hkept hl, List.length_map])
    rw [List.length_append, List.length_singleton]
    omega

end

section

variable [DecidableEq κ] {key : ι → κ} {trace : List (Access ι)}

theorem writers_concat_read (c : κ) (i : ι) : writers key c (trace ++ [.read i]) = writers key c trace := by
  simp [writers]

theorem writers_concat_write (c : κ) (i : ι) :
    writers key c (trace ++ [.write i]) =
      if key i = c then writers key c trace ++ [i] else writers key c trace := by
  by_cases h : key i = c <;> simp [writers, h]

theorem mem_writers_iff {c : κ} {i : ι} : i ∈ writers key c trace ↔ key i = c ∧ .write i ∈ trace := by
  unfold writers
  rw [List.mem_filterMap]
  constructor
  · rintro ⟨j | j, hmem, hj⟩
    · cases hj
    · obtain ⟨hkey, hsome⟩ := Option.ite_none_right_eq_some.mp hj
      cases hsome
      exact ⟨hkey, hmem⟩
  · rintro ⟨hkey, hmem⟩
    exact ⟨.write i, hmem, if_pos hkey⟩

theorem WellFormed.nodup_writers (hwf : WellFormed trace) (c : κ) : (writers key c trace).Nodup := by
  refine List.Nodup.filterMap ?_ hwf.nodup
  rintro (i | i) (j | j) k hi hj
  · cases hi
  · cases hi
  · cases hj
  · have hik := Option.some.inj (Option.ite_none_right_eq_some.mp hi).2
    have hjk := Option.some.inj (Option.ite_none_right_eq_some.mp hj).2
    rw [hik, hjk]

end

section

variable [DecidableEq ι] [DecidableEq κ] {key : ι → κ} {item : ι → X} {trace : List (Access ι)}
  {s₀ s : State ι κ X}

/-- What the cells have and what each party that is about to write has read.  A pending party's view
misses something if the cell does, or if the party is stale. -/
structure Inv (key : ι → κ) (item : ι → X) (s₀ : State ι κ X) (trace : List (Access ι))
    (s : State ι κ X) : Prop where
  cell : ∀ c, Kept item (s₀.cell c) (writers key c trace) (Conflict key c trace) (s.cell c)
  seen : ∀ i, .read i ∈ trace → .write i ∉ trace →
    Kept item (s₀.cell (key i)) (writers key (key i) trace)
      (Stale key i trace ∨ Conflict key (key i) trace) (s.seen i)

theorem Inv.step_read (h : Inv key item s₀ trace s) {i : ι} (hnew : .read i ∉ trace) :
    Inv key item s₀ (trace ++ [.read i]) (s.step key item (.read i)) := by
  have hconflict : ∀ c, Conflict key c (trace ++ [.read i]) ↔ Conflict key c trace := by
    intro c
    rw [conflict_concat_iff]
    simp
  have hstale : ∀ j, Stale key j (trace ++ [.read i]) ↔ Stale key j trace := by
    intro j
    rw [stale_concat_iff]
    simp
  constructor
  · intro c
    rw [writers_concat_read, propext (hconflict c)]
    exact h.cell c
  · intro j hread hwrite
    rw [writers_concat_read, propext (hconflict _), propext (hstale j)]
    by_cases hij : j = i
    · subst hij
      have hfresh : ¬ Stale key j trace := by
        rintro ⟨k, -, -, hsub⟩
        exact hnew (hsub.subset List.mem_cons_self)
      show Kept _ _ _ _ (Function.update s.seen j (s.cell (key j)) j)
      rw [Function.update_self]
      exact (h.cell (key j)).congr ⟨fun hl => hl.resolve_left hfresh, .inr⟩
    · show Kept _ _ _ _ (Function.update s.seen i (s.cell (key i)) j)
      rw [Function.update_of_ne hij]
      have hread' : .read j ∈ trace := by simpa [hij] using hread
      have hwrite' : .write j ∉ trace := fun hmem => hwrite (List.mem_append_left _ hmem)
      exact h.seen j hread' hwrite'

theorem Inv.step_write (h : Inv key item s₀ trace s) {i : ι} (hread : .read i ∈ trace)
    (hnew : .write i ∉ trace) : Inv key item s₀ (trace ++ [.write i]) (s.step key item (.write i)) := by
  have hconflict : ∀ c, Conflict key c (trace ++ [.write i]) ↔
      Conflict key c trace ∨ key i = c ∧ Stale key i trace := by
    intro c
    rw [conflict_concat_iff]
    simp
  constructor
  · intro c
    show Kept _ _ _ _ (Function.update s.cell (key i) (s.seen i ++ [item i]) c)
    rw [writers_concat_write]
    by_cases hc : key i = c
    · subst hc
      rw [if_pos rfl, Function.update_self]
      exact ((h.seen i hread hnew).concat i).congr (by rw [hconflict]; tauto)
    · rw [if_neg hc, Function.update_of_ne (Ne.symm hc)]
      exact (h.cell c).congr (by rw [hconflict]; tauto)
  · intro j hj hwrite
    show Kept _ _ _ _ (s.seen j)
    have hij : i ≠ j := by
      rintro rfl
      exact hwrite (List.mem_append_right _ List.mem_cons_self)
    have hj' : .read j ∈ trace := by simpa using hj
    have hwrite' : .write j ∉ trace := fun hmem => hwrite (List.mem_append_left _ hmem)
    have hseen := h.seen j hj' hwrite'
    rw [writers_concat_write]
    by_cases hc : key i = key j
    · -- `j` has read the cell before this write
      rw [if_pos hc]
      exact hseen.lose i (.inl (stale_concat_iff.mpr (.inr ⟨i, hij, hc, rfl, hj'⟩)))
    · rw [if_neg hc]
      have hstale : Stale key j (trace ++ [.write i]) ↔ Stale key j trace := by
        rw [stale_concat_iff]
        constructor
        · rintro (hold | ⟨k, -, hk, hwritten, -⟩)
          · exact hold
          · cases hwritten
            exact absurd hk hc
        · exact .inl
      exact hseen.congr (by rw [hstale, hconflict]; tauto)

theorem inv_run (key : ι → κ) (item : ι → X) (s₀ : State ι κ X) (hwf : WellFormed trace) :
    Inv key item s₀ trace (s₀.run key item trace) := by
  induction trace using List.reverseRecOn with
  | nil =>
    refine ⟨fun c => ⟨[], (List.append_nil _).symm, List.nil_subset _, ?_, fun _ => rfl⟩, ?_⟩
    · rintro ⟨i, j, -, -, -, hsub⟩
      cases hsub
    · exact fun i hread => absurd hread List.not_mem_nil
  | append_singleton trace e ih =>
    have hinv := ih hwf.of_concat
    have hnew : e ∉ trace := fun hmem =>
      (List.nodup_append.mp hwf.nodup).2.2 _ hmem _ List.mem_cons_self rfl
    rw [State.run_concat]
    cases e with
    | read i => exact hinv.step_read hnew
    | write i =>
      have hsub := hwf.read_write i (List.mem_append_right _ List.mem_cons_self)
      have hread : .read i ∈ trace := by simpa using hsub.subset List.mem_cons_self
      exact hinv.step_write hread hnew

/-! ### When nothing is lost -/

/-- A cell has nothing but its contents before and items of its writers. -/
theorem mem_or_exists_of_mem_cell (s₀ : State ι κ X) (hwf : WellFormed trace) {c : κ} {x : X}
    (hx : x ∈ (s₀.run key item trace).cell c) : x ∈ s₀.cell c ∨ ∃ i, .write i ∈ trace ∧ item i = x := by
  obtain ⟨t, hcell, hsubset, -, -⟩ := (inv_run key item s₀ hwf).cell c
  rw [hcell] at hx
  rcases List.mem_append.mp hx with hbase | ht
  · exact .inl hbase
  · obtain ⟨i, hi, rfl⟩ := List.mem_map.mp (hsubset ht)
    exact .inr ⟨i, (mem_writers_iff.mp hi).2, rfl⟩

variable (hitem : Function.Injective item) (hfresh : ∀ i, item i ∉ s₀.cell (key i))

include hitem hfresh in
/-- After a conflict an item is missing: the cell has got fewer items than it has writers. -/
theorem not_conflict_of_all_mem (hwf : WellFormed trace)
    (hall : ∀ i, .write i ∈ trace → item i ∈ (s₀.run key item trace).cell (key i)) (c : κ) :
    ¬ Conflict key c trace := by
  intro hconflict
  obtain ⟨t, hcell, -, hlost, -⟩ := (inv_run key item s₀ hwf).cell c
  have hsubset : (writers key c trace).map item ⊆ t := by
    intro x hx
    obtain ⟨i, hi, rfl⟩ := List.mem_map.mp hx
    obtain ⟨rfl, hwrite⟩ := mem_writers_iff.mp hi
    have hmem := hall i hwrite
    rw [hcell] at hmem
    exact (List.mem_append.mp hmem).resolve_left (hfresh i)
  have hnodup : ((writers key c trace).map item).Nodup := (hwf.nodup_writers c).map hitem
  have hle := (hnodup.subperm hsubset).length_le
  have hlt := hlost hconflict
  rw [List.length_map] at hle
  omega

include hitem hfresh in
/-- Without a conflict every item is there once. -/
theorem count_eq_one_of_not_conflict [DecidableEq X] (hwf : WellFormed trace) {i : ι}
    (hwrite : .write i ∈ trace) (hnot : ¬ Conflict key (key i) trace) :
    ((s₀.run key item trace).cell (key i)).count (item i) = 1 := by
  obtain ⟨t, hcell, -, -, hkept⟩ := (inv_run key item s₀ hwf).cell (key i)
  have hmem : item i ∈ (writers key (key i) trace).map item :=
    List.mem_map_of_mem (mem_writers_iff.mpr ⟨rfl, hwrite⟩)
  have hnodup : ((writers key (key i) trace).map item).Nodup := (hwf.nodup_writers _).map hitem
  rw [hcell, hkept hnot, List.count_append, List.count_eq_zero_of_not_mem (hfresh i),
    List.count_eq_one_of_mem hnodup hmem]

end

end Suift.LostUpdate
