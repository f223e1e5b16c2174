import Suift.CStore.Node

/-!
# The account manager behind the engine's signer

In production the engine signs through `AccountManagerDASigner`, which asks the node's account manager
each time.  Accounts come and go while the node runs, and so does the ability to sign for them: a wallet
may be locked.  The addresses that the engine takes for its own are another matter, it copies them once
when it is made.

`ManagedNode` is a node together with its account manager, which may be replaced by any other one
between two operations.
-/

namespace Suift

/-- The accounts of the wallets, and what `SignData` of the wallet of an account returns.  A wallet that
signs does so with the key of the account, as `sender` finds out. -/
structure AccountManager (sender : Bytes → Bytes → Except GoError Address) where
  accounts : List Address
  signData : Address → Bytes → Except GoError Bytes
  sender_signData : ∀ account data signature, signData account data = .ok signature →
    sender data signature = .ok account

namespace AccountManager

variable {sender : Bytes → Bytes → Except GoError Address} (manager : AccountManager sender)

/-- `AccountManagerDASigner.Sign`. -/
def sign (account : Address) (data : Bytes) : Except GoError Bytes :=
  if account ∈ manager.accounts then manager.signData account data
  else .error (GoError.new "unknown account")

/-- `AccountManagerDASigner`. -/
def daSigner : DASigner where
  sign := manager.sign
  sender := sender
  localAddresses := manager.accounts

theorem sender_sign {account : Address} {data signature : Bytes}
    (h : manager.sign account data = .ok signature) : sender data signature = .ok account := by
  unfold sign at h
  split_ifs at h
  exact manager.sender_signData account data signature h

end AccountManager

/-- What `NewConfidentialStoreEngine` is called with, apart from the storage. -/
structure EngineSetup where
  json : Encoding
  sender : Bytes → Bytes → Except GoError Address
  chainSender : Option Transaction → Except GoError Address
  storeUUID : UUID
  manager : AccountManager sender

/-- The engine while the account manager is `manager`.  Its own addresses are those of the manager it
was made with. -/
def EngineSetup.config (S : EngineSetup) (manager : AccountManager S.sender) : EngineConfig where
  json := S.json
  daSigner := manager.daSigner
  chainSender := S.chainSender
  storeUUID := S.storeUUID
  localAddresses := S.manager.accounts

theorem EngineSetup.sign_config (S : EngineSetup) (manager : AccountManager S.sender)
    (account : Address) (data : Bytes) :
    (S.config manager).daSigner.sign account data = manager.sign account data :=
  rfl

theorem EngineSetup.chainSender_config (S : EngineSetup) (manager : AccountManager S.sender) :
    (S.config manager).chainSender = S.chainSender :=
  rfl

structure ManagedNode (S : EngineSetup) (σ : Type) where
  manager : AccountManager S.sender
  node : Node σ

inductive ManagedAction (S : EngineSetup)
  | setManager (manager : AccountManager S.sender)
  | node (a : NodeAction)

namespace ManagedNode

variable {S : EngineSetup} {σ : Type} (B : ConfidentialStorageBackend σ)

/-- A node that has just started on the storage `s`. -/
def init (S : EngineSetup) (s : σ) : ManagedNode S σ where
  manager := S.manager
  node := .init s

/-- The engine as it is now. -/
def engine (n : ManagedNode S σ) : ConfidentialStoreEngine σ := (S.config n.manager).engine B

def step (n : ManagedNode S σ) : ManagedAction S → Option (ManagedNode S σ)
  | .setManager manager => some { n with manager := manager }
  | .node a => (n.node.step (n.engine B) a).map fun node => { n with node := node }

def run (n : ManagedNode S σ) : List (ManagedAction S) → Option (ManagedNode S σ)
  | [] => some n
  | a :: as => (n.step B a).bind fun n' => n'.run as

end ManagedNode

end Suift
