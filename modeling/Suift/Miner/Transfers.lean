import Suift.Lib.Fallible
import Suift.Miner.Worker

/-!
# A chain without contracts

`TransitionDb` of `core/state_transition.go` where all accounts are without code, so that a transaction
moves its value and pays for its gas, and nothing else happens.  Balances are `*big.Int` in the source and
may get negative: only a positive value is compared with what the sender has.  The details in the texts of
the errors are left out.

`transfers` is the worker of such a chain, on which blocks can be built and looked at.
-/

namespace Suift

open Fallible

structure Accounts where
  balance : Address → ℤ
  nonce : Address → UInt64

namespace Accounts

/-- `AddBalance`, or `SubBalance` of a negative amount. -/
def addBalance (s : Accounts) (account : Address) (amount : ℤ) : Accounts :=
  { s with balance := Function.update s.balance account (s.balance account + amount) }

/-- A message, after `TransactionToMessage`; its fee cap and tip are the gas price. -/
structure Message where
  from_ : Address
  to_ : Address
  nonce : UInt64
  value : ℤ
  gasLimit : ℕ
  gasPrice : ℕ

/-- `preCheck` and `buyGas`, with `gas` in the pool. -/
def buyGas (baseFee gas : ℕ) (msg : Message) (s : Accounts) : Except GoError Accounts := do
  if s.nonce msg.from_ < msg.nonce then throw (GoError.new "nonce too high")
  if msg.nonce < s.nonce msg.from_ then throw (GoError.new "nonce too low")
  if s.nonce msg.from_ + 1 < s.nonce msg.from_ then throw (GoError.new "nonce has max value")
  if 2 ^ 256 ≤ msg.gasPrice then throw (GoError.new "max fee per gas higher than 2^256-1")
  if msg.gasPrice < baseFee then throw (GoError.new "max fee per gas less than block base fee")
  if s.balance msg.from_ < msg.gasLimit * msg.gasPrice + msg.value then
    throw (GoError.new "insufficient funds for gas * price + value")
  if gas < msg.gasLimit then throw (GoError.new "gas limit reached")
  return s.addBalance msg.from_ (-(msg.gasLimit * msg.gasPrice))

/-- `TransitionDb`: the gas used and the accounts afterwards. -/
def transitionDb (baseFee : ℕ) (coinbase : Address) (gas : ℕ) (msg : Message) (s : Accounts) :
    Except GoError (ℕ × Accounts) := do
  let s ← buyGas baseFee gas msg s
  if msg.gasLimit < txGas then throw (GoError.new "intrinsic gas too low")
  if 0 < msg.value ∧ s.balance msg.from_ < msg.value then
    throw (GoError.new "insufficient funds for transfer")
  let s := { s with nonce := Function.update s.nonce msg.from_ (s.nonce msg.from_ + 1) }
  let s := (s.addBalance msg.from_ (-msg.value)).addBalance msg.to_ msg.value
  let s := s.addBalance msg.from_ ((msg.gasLimit - txGas) * msg.gasPrice)
  return (txGas, s.addBalance coinbase (txGas * (msg.gasPrice - baseFee)))

end Accounts

/-- A signature that names its account. -/
def namedSender (ephemeral : Address) (tx : Transaction) : Except GoError Address :=
  match tx with
  | .ethereum tx =>
    if BitVec.ofNat 160 tx.s ≠ ephemeral then .ok (BitVec.ofNat 160 tx.s)
    else .error (GoError.new "invalid transaction v, r, s values")
  | _ => .error (GoError.new "transaction type not supported")

/-- `TransactionToMessage`; the payments come from the one-time account. -/
def toMessage (ephemeral : Address) : BlockTx → Except GoError Accounts.Message
  | .payment p => .ok ⟨ephemeral, p.to_, p.nonce, p.value, p.gas, p.gasPrice⟩
  | .bundled tx => do
    let from_ ← namedSender ephemeral tx
    match tx.to_ with
    | some to_ => return ⟨from_, to_, tx.nonce, tx.value, tx.gas.toNat, tx.gasPrice⟩
    | none => throw (GoError.new "transaction type not supported")

/-- The worker of a chain without contracts, with this one-time account and these accounts before the
block. -/
def transfers (ephemeral : Address) (header : Header) (start : Accounts) : Worker Accounts where
  getBalance s := s.balance
  getNonce s := s.nonce
  isEIP155 _ := true
  generateKey := .ok ephemeral
  prepareWork _ _ := .ok (header, start)
  applyTransaction header coinbase gas s tx := do
    let msg ← toMessage ephemeral tx
    s.transitionDb (header.baseFee.getD 0) coinbase gas msg
  gas_of_apply header coinbase gas s tx used s' h := by
    simp only [bind_eq_ok_iff, Accounts.transitionDb, Accounts.buyGas, ite_throw_eq_ok_iff,
      pure_eq_ok_iff, Prod.mk.injEq] at h
    obtain ⟨msg, hmsg, _, ⟨-, -, -, -, -, -, hpool, rfl⟩, hintrinsic, -, rfl, -⟩ := h
    have hgas : msg.gasLimit = tx.gas := by
      cases tx with
      | payment p =>
        obtain rfl := Except.ok.inj hmsg
        rfl
      | bundled tx =>
        simp only [toMessage, bind_eq_ok_iff] at hmsg
        obtain ⟨from_, -, hto⟩ := hmsg
        cases htx : tx.to_ with
        | none =>
          rw [htx] at hto
          exact absurd hto (by simp)
        | some to_ =>
          rw [htx] at hto
          obtain rfl := Except.ok.inj hto
          rfl
    rw [hgas] at hpool hintrinsic
    exact ⟨not_lt.mp hintrinsic, not_lt.mp hpool⟩
  sender := namedSender ephemeral
  signTx _ _ := .ok ()
  hash _ := 0
  finalizeAndAssemble _ txs := deriveSha txs
  deriveSha_of_finalize _ _ h := h

/-! ### A small block -/

/-- Account `1` pays a tip of ten for each unit of gas. -/
def sampleTx (nonce : UInt64) : Transaction :=
  .ethereum
    { txType := 0, nonce := nonce, gasPrice := 11, gas := 21000, to_ := some 2, value := 0, data := [],
      chainID := 1, v := 37, r := 1, s := 1 }

def sampleBundle : SBundle where
  blockNumber := none
  txs := [sampleTx 0, sampleTx 1]
  revertingHashes := []
  refundPercent := some 10

def sampleArgs : BuildBlockArgs where
  parent := 0
  timestamp := 0
  feeRecipient := 3
  gasLimit := 0
  random := 0

/-- A base fee of one, and a million on every account but the one-time one. -/
def sampleWorker (gasLimit : ℕ) : Worker Accounts :=
  transfers 0xe ⟨1, gasLimit, some 1⟩ ⟨fun a => if a = 0xe then 0 else 1000000, fun _ => 0⟩

end Suift
