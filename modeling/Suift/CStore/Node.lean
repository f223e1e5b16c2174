import Suift.CStore.TransactionalStore
import Mathlib.Data.List.Perm.Basic

/-!
# A node and its runs

One engine, any number of transactional stores opened on it, and the messages that the transport
delivers.  The operations of different transactions and the messages come in any order; a transaction
may be used on after `Finalize`, whether that failed or not.  Each operation is one step.
-/

namespace Suift

structure Node (σ : Type) where
  engine : EngineState σ
  transactions : List TransactionalStore

inductive NodeAction
  | newTransactionalStore (sourceTx : Option Transaction)
  /-- An operation of the `i`-th transaction. -/
  | apply (i : ℕ) (op : TransactionalStore.Op)
  /-- `Finalize` of the `i`-th transaction, visiting its bids in the given order. -/
  | finalize (i : ℕ) (order : List Bid)
  | newMessage (message : DAMessage)

namespace Node

variable {σ : Type} (E : ConfidentialStoreEngine σ)

/-- A node that has just started on the storage `s`. -/
def init (s : σ) : Node σ where
  engine := { storage := s, published := [] }
  transactions := []

/-- What an operation does; `none` if it cannot occur, because there is no such transaction or the
order is not one of its bids.  An operation that returns an error keeps what it has changed. -/
def step (n : Node σ) : NodeAction → Option (Node σ)
  | .newTransactionalStore sourceTx =>
    some { n with transactions := n.transactions ++ [.new sourceTx] }
  | .apply i op =>
    n.transactions[i]?.map fun t =>
      match t.apply E n.engine.storage op with
      | .ok t' => { n with transactions := n.transactions.set i t' }
      | .error _ => n
  | .finalize i order =>
    n.transactions[i]?.bind fun t =>
      if order.Perm t.pendingBids then
        some { n with engine := Stateful.after (t.finalize E order) n.engine }
      else none
  | .newMessage message => some { n with engine := Stateful.after (E.newMessage message) n.engine }

def run (n : Node σ) : List NodeAction → Option (Node σ)
  | [] => some n
  | a :: as => (n.step E a).bind fun n' => n'.run as

end Node

end Suift
