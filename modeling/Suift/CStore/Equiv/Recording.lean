import Suift.CStore.Equiv.Growth

/-!
# Recording changes nothing

The recording backend does to the store inside it what the bare backend does, so a run of a node on
the one is a run on the other once the record is forgotten (`Node.run_recording`).  What is read off
the record is therefore a fact about the run on the bare backend: the record lists the values that
this run has stored, with the callers it stored them for.
-/

namespace Suift

open Stateful ConfidentialStorageBackend

section Engine

variable {σ : Type} {B : ConfidentialStorageBackend σ} {C : EngineConfig}

theorem simulates_initializeBid (bid : Bid) :
    Simulates Recorded.inner (B.recording.initializeBid bid) (B.initializeBid bid) := by
  intro s
  show _ = mapResult _ ((Recorded.onInner (B.initializeBid bid)).run s)
  rw [Recorded.onInner, run_zoom]
  cases (B.initializeBid bid).run s.inner <;> rfl

theorem simulates_storeWrite (w : StoreWrite) :
    Simulates Recorded.inner (B.recording.storeWrite w) (B.storeWrite w) := by
  intro s
  simp only [storeWrite, recording, EStateM.run_bind, Recorded.onInner, run_zoom]
  cases (B.store w.bid w.caller w.key w.value).run s.inner <;> rfl

theorem simulates_onStorage {τ α : Type} {f : σ → τ} (pre : String) {x : EStateM GoError σ α}
    {y : EStateM GoError τ α} (h : Simulates f x y) :
    Simulates (EngineState.map f) (ConfidentialStoreEngine.onStorage pre x)
      (ConfidentialStoreEngine.onStorage pre y) := by
  unfold ConfidentialStoreEngine.onStorage
  refine Simulates.zoom ?_ ?_ _ h
  · intro st
    rfl
  · intro st s
    rfl

theorem simulates_finalize (tx : Option Transaction) (newBids : List Bid)
    (stores : Slice StoreWrite) :
    Simulates (EngineState.map Recorded.inner) ((C.engine B.recording).finalize tx newBids stores)
      ((C.engine B).finalize tx newBids stores) := by
  unfold ConfidentialStoreEngine.finalize ConfidentialStoreEngine.storePending
  refine .bind (.bind (.forM ?_ _) fun _ => .forM ?_ _) fun _ => .bind (.ofExcept _) fun _ =>
    .modify fun _ => rfl
  · exact fun bid => simulates_onStorage _ (simulates_initializeBid bid)
  · exact fun w => simulates_onStorage _ (simulates_storeWrite w)

theorem simulates_applyWrite (w : StoreWrite) :
    Simulates Recorded.inner ((C.engine B.recording).applyWrite w) ((C.engine B).applyWrite w) := by
  unfold ConfidentialStoreEngine.applyWrite ConfidentialStoreEngine.logged
  refine .tryCatch (.bind (.tryCatch (simulates_initializeBid w.bid) fun err => ?_) fun _ =>
    simulates_storeWrite w) fun err => ?_
  · split_ifs
    · exact .pure _
    · intro s
      rfl
  · cases err with
    | error text wraps => exact .pure _
    | panic text =>
      intro s
      rfl

theorem simulates_newMessage (message : DAMessage) :
    Simulates (EngineState.map Recorded.inner) ((C.engine B.recording).newMessage message)
      ((C.engine B).newMessage message) := by
  unfold ConfidentialStoreEngine.newMessage
  refine .bind (.ofExcept _) fun proceed => ?_
  cases proceed with
  | false => exact .pure _
  | true => exact .forM (fun w => simulates_onStorage _ (simulates_applyWrite w)) _

end Engine

namespace Node

variable {σ τ : Type} {B : ConfidentialStorageBackend σ} {C : EngineConfig}

/-- The node with its storage mapped. -/
def map (f : σ → τ) (n : Node σ) : Node τ where
  engine := n.engine.map f
  transactions := n.transactions

theorem step_recording (n : Node (Recorded σ)) (a : NodeAction) :
    (n.map Recorded.inner).step (C.engine B) a =
      (n.step (C.engine B.recording) a).map (Node.map Recorded.inner) := by
  cases a with
  | newTransactionalStore sourceTx => rfl
  | apply i op =>
    -- a transaction reads the recorded store through the store inside
    have happly : ∀ t : TransactionalStore,
        t.apply (C.engine B) n.engine.storage.inner op =
          t.apply (C.engine B.recording) n.engine.storage op := by
      intro t
      cases op <;> rfl
    simp only [step, map, EngineState.map, happly, Option.map_map]
    congr 1
    funext t
    simp only [Function.comp]
    cases t.apply (C.engine B.recording) n.engine.storage op <;> rfl
  | finalize i order =>
    simp only [step, map, Option.map_bind]
    congr 1
    funext t
    have hfin := (simulates_finalize (C := C) (B := B) t.sourceTx order t.pendingWrites).after n.engine
    simp only [Function.comp, TransactionalStore.finalize]
    split_ifs
    · rw [hfin]
      rfl
    · rfl
  | newMessage message =>
    have hmsg := (simulates_newMessage (C := C) (B := B) message).after n.engine
    simp only [step, map, Option.map_some, hmsg]

theorem run_recording (n : Node (Recorded σ)) (as : List NodeAction) :
    (n.map Recorded.inner).run (C.engine B) as =
      (n.run (C.engine B.recording) as).map (Node.map Recorded.inner) := by
  induction as generalizing n with
  | nil => rfl
  | cons a as ih =>
    simp only [run, step_recording]
    cases n.step (C.engine B.recording) a with
    | none => rfl
    | some n' => exact ih n'

end Node

end Suift
