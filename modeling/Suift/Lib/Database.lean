import Mathlib.Data.List.Basic
import Mathlib.Logic.Function.Basic

/-!
# Programs that use a key-value database

A `Program` makes one request after the other, each of them getting or setting one key.  Run by itself
(`Program.run`, and `exec` for a program that may fail) it is a function on the database.  In a `System`
several programs use one database, and each request is one atomic step: a schedule says whose turn it is,
and the trace records the requests in the order in which they were made.
-/

namespace Suift.Database

variable {ι K V ε α β : Type}

inductive Program (K V α : Type)
  | done (a : α)
  | get (k : K) (next : Option V → Program K V α)
  | set (k : K) (v : V) (next : Program K V α)

namespace Program

def bind : Program K V α → (α → Program K V β) → Program K V β
  | done a, f => f a
  | get k next, f => .get k fun v => (next v).bind f
  | set k v next, f => .set k v (next.bind f)

instance : Monad (Program K V) where
  pure := done
  bind := bind

/-- What the program has returned, if it is done. -/
def result : Program K V α → Option α
  | done a => some a
  | get _ _ => none
  | set _ _ _ => none

theorem result_eq_some_iff {p : Program K V α} {a : α} : p.result = some a ↔ p = .done a := by
  cases p with
  | done b => simp [result]
  | get k next => simp [result]
  | set k v next => simp [result]

variable [DecidableEq K]

/-- Make all requests without interruption. -/
def run : Program K V α → (K → Option V) → α × (K → Option V)
  | done a, db => (a, db)
  | get k next, db => (next (db k)).run db
  | set k v next, db => next.run (Function.update db k (some v))

theorem run_bind (p : Program K V α) (f : α → Program K V β) (db : K → Option V) :
    (p.bind f).run db = (f (p.run db).1).run (p.run db).2 := by
  induction p generalizing db with
  | done a => rfl
  | get k next ih => exact ih (db k) db
  | set k v next ih => exact ih (Function.update db k (some v))

end Program

/-! ### Programs that may fail -/

/-- The value under `k`. -/
def read (k : K) : ExceptT ε (Program K V) (Option V) := ExceptT.lift (.get k .done)

def write (k : K) (v : V) : ExceptT ε (Program K V) Unit := ExceptT.lift (.set k v (.done ()))

/-- Run `x` by itself. -/
def exec [DecidableEq K] (x : ExceptT ε (Program K V) α) (db : K → Option V) :
    Except ε α × (K → Option V) := x.run.run db

section Exec

variable [DecidableEq K] (db : K → Option V)

@[simp]
theorem exec_pure (a : α) : exec (pure a : ExceptT ε (Program K V) α) db = (.ok a, db) := rfl

@[simp]
theorem exec_throw (e : ε) : exec (throw e : ExceptT ε (Program K V) α) db = (.error e, db) := rfl

@[simp]
theorem exec_read (k : K) : exec (read k : ExceptT ε (Program K V) _) db = (.ok (db k), db) := rfl

@[simp]
theorem exec_write (k : K) (v : V) :
    exec (write k v : ExceptT ε (Program K V) _) db = (.ok (), Function.update db k (some v)) := rfl

@[simp]
theorem exec_bind (x : ExceptT ε (Program K V) α) (f : α → ExceptT ε (Program K V) β) :
    exec (x >>= f) db =
      match exec x db with
      | (.ok a, db') => exec (f a) db'
      | (.error e, db') => (.error e, db') := by
  have hrun : exec (x >>= f) db = Program.run (Program.bind x.run (ExceptT.bindCont f)) db := rfl
  rw [hrun, Program.run_bind]
  unfold exec
  generalize Program.run x.run db = r
  obtain ⟨a | a, db'⟩ := r <;> rfl

/-- A program that does not fail of itself. -/
@[simp]
theorem exec_lift (p : Program K V α) :
    exec (ExceptT.lift p : ExceptT ε (Program K V) α) db = (.ok (p.run db).1, (p.run db).2) := by
  have hrun : exec (ExceptT.lift p : ExceptT ε (Program K V) α) db =
      Program.run (Program.bind p fun a => .done (.ok a)) db := rfl
  rw [hrun, Program.run_bind]
  rfl

@[simp]
theorem exec_mk_pure (r : Except ε α) :
    exec (ExceptT.mk (pure r) : ExceptT ε (Program K V) α) db = (r, db) := rfl

end Exec

/-! ### Concurrent programs -/

/-- What a request does to which key. -/
inductive Access (K : Type)
  | get (k : K)
  | set (k : K)
  deriving DecidableEq, Repr

structure System (ι K V α : Type) where
  db : K → Option V
  programs : ι → Program K V α
  /-- The requests so far, oldest first. -/
  trace : List (ι × Access K)

namespace System

variable [DecidableEq ι] [DecidableEq K]

/-- Programs that have not started. -/
def init (db : K → Option V) (programs : ι → Program K V α) : System ι K V α where
  db := db
  programs := programs
  trace := []

/-- The next request of program `i`, if it is not done. -/
def step (s : System ι K V α) (i : ι) : System ι K V α :=
  match s.programs i with
  | .done _ => s
  | .get k next =>
    { s with
      programs := Function.update s.programs i (next (s.db k))
      trace := s.trace ++ [(i, .get k)] }
  | .set k v next =>
    { db := Function.update s.db k (some v)
      programs := Function.update s.programs i next
      trace := s.trace ++ [(i, .set k)] }

def run (s : System ι K V α) (schedule : List ι) : System ι K V α := schedule.foldl step s

variable {s : System ι K V α} {i : ι} {k : K}

theorem step_of_done {a : α} (h : s.programs i = .done a) : s.step i = s := by rw [step, h]

theorem step_of_get {next : Option V → Program K V α} (h : s.programs i = .get k next) :
    s.step i =
      { s with
        programs := Function.update s.programs i (next (s.db k))
        trace := s.trace ++ [(i, .get k)] } := by
  rw [step, h]

theorem step_of_set {v : V} {next : Program K V α} (h : s.programs i = .set k v next) :
    s.step i =
      { db := Function.update s.db k (some v)
        programs := Function.update s.programs i next
        trace := s.trace ++ [(i, .set k)] } := by
  rw [step, h]

/-- What every step keeps holds after every schedule. -/
theorem run_induction {P : System ι K V α → Prop} (hstep : ∀ s i, P s → P (s.step i))
    (h : P s) (schedule : List ι) : P (s.run schedule) := by
  unfold run
  induction schedule generalizing s with
  | nil => exact h
  | cons i schedule ih => exact ih (hstep s i h)

end System

end Suift.Database
