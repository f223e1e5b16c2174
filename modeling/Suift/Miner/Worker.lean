import Suift.Types.SBundle

/-!
# Building a block from bundles

`buildBlockFromBundles` of `miner/worker.go`.  The block is built for a one-time account: it is the
coinbase while the bundles are executed, pays the refunds, and at last pays what is left to the fee
recipient.

Executing a transaction is a parameter (`Worker.applyTransaction`), as are the state, the signers and the
consensus engine, which is taken to keep the list of transactions.  Receipts, logs and uncles are left
out.  `BuiltBlock` records besides the block what has become of each bundle, which the source does not.
-/

namespace Suift

open Text

/-- `params.TxGas`. -/
def txGas : ℕ := 21000

/-- The gas that the builder gives each of its payments. -/
def transferGas : ℕ := 28000

/-- A `LegacyTx` that the builder makes.  Its value is computed, and nothing keeps it from being
negative. -/
structure Payment where
  nonce : UInt64
  to_ : Address
  value : ℤ
  gas : ℕ
  gasPrice : ℕ
  deriving DecidableEq, Repr

/-- A transaction of the block: one of a bundle, or a payment. -/
inductive BlockTx
  | bundled (tx : Transaction)
  | payment (p : Payment)
  deriving DecidableEq, Repr

def BlockTx.gas : BlockTx → ℕ
  | .bundled tx => tx.gas.toNat
  | .payment p => p.gas

/-- `Transaction.Protected`.  The payments are signed for the chain. -/
def BlockTx.protected_ : BlockTx → Bool
  | .bundled (.ethereum tx) =>
    if tx.txType = 0 then tx.v ≠ 27 ∧ tx.v ≠ 28 ∧ tx.v ≠ 1 ∧ tx.v ≠ 0 else true
  | _ => true

/-- RLP has no negative integers.  The amounts of a bundle's transactions have none either. -/
def BlockTx.encodes : BlockTx → Bool
  | .bundled _ => true
  | .payment p => 0 ≤ p.value

/-- `types.DeriveSha`, with which `types.NewBlock` enters the transactions in a `StackTrie`.  `EncodeIndex`
does not look at errors, so that a transaction that cannot be encoded is entered as no bytes at all. -/
def deriveSha (txs : List BlockTx) : Except GoError Unit :=
  if txs.all BlockTx.encodes then return () else throw (.panic (ascii "deletion not supported"))

structure Header where
  number : ℕ
  gasLimit : ℕ
  /-- `nil` before London. -/
  baseFee : Option ℕ
  deriving DecidableEq, Repr

structure BuildBlockArgs where
  parent : Hash
  timestamp : UInt64
  feeRecipient : Address
  gasLimit : UInt64
  random : Hash

/-- What a block is built with. -/
structure Worker (S : Type) where
  getBalance : S → Address → ℤ
  getNonce : S → Address → UInt64
  isEIP155 : ℕ → Bool
  /-- `crypto.GenerateKey`, as the address of the key. -/
  generateKey : Except GoError Address
  /-- The header and the state of a block with the given coinbase. -/
  prepareWork : BuildBlockArgs → Address → Except GoError (Header × S)
  /-- `core.ApplyTransaction` with so much gas in the pool: the gas used and the new state. -/
  applyTransaction : Header → Address → ℕ → S → BlockTx → Except GoError (ℕ × S)
  /-- The pool has to hold the transaction's gas, and it uses no more than that. -/
  gas_of_apply : ∀ header coinbase gas s tx used s',
    applyTransaction header coinbase gas s tx = .ok (used, s') → used ≤ tx.gas ∧ tx.gas ≤ gas
  /-- `types.Sender` with the latest signer for the transaction's chain. -/
  sender : Transaction → Except GoError Address
  /-- `types.SignTx`; the signature itself is not followed. -/
  signTx : Address → Payment → Except GoError Unit
  hash : BlockTx → Hash
  finalizeAndAssemble : S → List BlockTx → Except GoError Unit
  /-- The block is made by `types.NewBlock`. -/
  deriveSha_of_finalize : ∀ s txs, finalizeAndAssemble s txs = .ok () → deriveSha txs = .ok ()

/-- `environment`. -/
structure Environment (S : Type) where
  header : Header
  coinbase : Address
  state : S
  /-- `nil` until the first transaction. -/
  gasPool : Option ℕ
  txs : List BlockTx

/-- What has become of a bundle. -/
structure BundleRecord where
  bundle : SBundle
  /-- What the coinbase has gained by it. -/
  profit : ℤ
  refund : Option Payment
  /-- The gas in the pool after the bundle, and what the refund has used. -/
  gasLeft : ℕ
  refundGas : ℕ

structure BuiltBlock where
  header : Header
  txs : List BlockTx
  profit : ℤ
  bundles : List BundleRecord
  payment : Payment
  /-- The gas in the pool before the last payment, and what that has used. -/
  gasLeft : ℕ
  paymentGas : ℕ

namespace Environment

variable {S : Type}

def gas (env : Environment S) : ℕ := env.gasPool.getD env.header.gasLimit

end Environment

namespace Worker

variable {S : Type} (W : Worker S)

def balance (env : Environment S) : ℤ := W.getBalance env.state env.coinbase

def commitTransaction (env : Environment S) (tx : BlockTx) : Except GoError (Environment S) := do
  let (used, state) ← W.applyTransaction env.header env.coinbase env.gas env.state tx
  return { env with state := state, gasPool := some (env.gas - used), txs := env.txs ++ [tx] }

/-- The loop of `rawCommitTransactions`. -/
def commitAll : List BlockTx → Environment S → Except GoError (Environment S)
  | [], env => return env
  | tx :: txs, env => do
    if env.gas < txGas then
      -- not enough gas for any further transaction: the rest is left out
      return env
    if tx.protected_ ∧ ¬ W.isEIP155 env.header.number then
      throw (.error (ascii "invalid reply protected tx 0x" ++ hexDigits 64 (W.hash tx).toNat) none)
    let env ← W.commitTransaction env tx
    commitAll txs env

def rawCommitTransactions (env : Environment S) (txs : List BlockTx) :
    Except GoError (Environment S) :=
  W.commitAll txs { env with gasPool := some env.gas }

/-- The percentage of a bundle that wants a refund and has several transactions; zero stands for ten. -/
def refundPercent (bundle : SBundle) : Option ℤ :=
  if bundle.txs.length > 1 then bundle.refundPercent.map fun p => if p = 0 then 10 else p else none

/-- A payment of the coinbase to an account. -/
def newPayment (env : Environment S) (baseFee : ℕ) (to_ : Address) (value : ℤ) : Payment where
  nonce := W.getNonce env.state env.coinbase
  to_ := to_
  value := value
  gas := transferGas
  gasPrice := baseFee

/-- The refund of a bundle with profit `bundleProfit`, paid to the sender of its first transaction. -/
def payRefund (baseFee : ℕ) (bundle : SBundle) (bundleProfit refundPrct : ℤ) (env : Environment S) :
    Except GoError (Payment × Environment S) := do
  let refundAmt := bundleProfit / refundPrct - transferGas * baseFee
  let some bidTx := bundle.txs.head?
    | throw (.panic (ascii "runtime error: index out of range [0] with length 0"))
  let refundAddr ← W.sender bidTx
  let paymentTx := W.newPayment env baseFee refundAddr refundAmt
  W.signTx env.coinbase paymentTx
  let env ← W.rawCommitTransactions env [.payment paymentTx]
  return (paymentTx, env)

/-- One round of the loop of `buildBlockFromBundles`. -/
def commitBundle (baseFee : ℕ) (bundle : SBundle) (env : Environment S) :
    Except GoError (BundleRecord × Environment S) := do
  let profitPreBundle := W.balance env
  let env ← W.rawCommitTransactions env (bundle.txs.map .bundled)
  let bundleProfit := W.balance env - profitPreBundle
  match refundPercent bundle with
  | none => return (⟨bundle, bundleProfit, none, env.gas, 0⟩, env)
  | some refundPrct =>
    let (refund, paid) ← W.payRefund baseFee bundle bundleProfit refundPrct env
    return (⟨bundle, bundleProfit, some refund, env.gas, env.gas - paid.gas⟩, paid)

def commitBundles (baseFee : ℕ) : List SBundle → Environment S →
    Except GoError (List BundleRecord × Environment S)
  | [], env => return ([], env)
  | bundle :: bundles, env => do
    let (record, env) ← W.commitBundle baseFee bundle env
    let (records, env) ← commitBundles baseFee bundles env
    return (record :: records, env)

/-- The payment to the fee recipient, and the environment after it. -/
def payProposer (baseFee : ℕ) (feeRecipient : Address) (profitPre : ℤ) (env : Environment S) :
    Except GoError (Payment × Environment S) := do
  let proposerProfit := W.balance env - profitPre - transferGas * baseFee
  let paymentTx := W.newPayment env baseFee feeRecipient proposerProfit
  (W.signTx env.coinbase paymentTx).mapError (GoError.wrap (ascii "could not sign proposer payment: "))
  let env ← (W.rawCommitTransactions env [.payment paymentTx]).mapError
    (GoError.wrap (ascii "could not sign proposer payment: "))
  return (paymentTx, env)

/-- `buildBlockFromBundles`. -/
def buildBlockFromBundles (args : BuildBlockArgs) (bundles : List SBundle) :
    Except GoError BuiltBlock := do
  let ephemeralAddr ← W.generateKey
  let (header, state) ← W.prepareWork args ephemeralAddr
  let work : Environment S :=
    { header := header, coinbase := ephemeralAddr, state := state, gasPool := none, txs := [] }
  let some baseFee := header.baseFee | throw nilDereference
  let profitPre := W.balance work
  let (records, work) ← W.commitBundles baseFee bundles work
  let (payment, paid) ← W.payProposer baseFee args.feeRecipient profitPre work
  W.finalizeAndAssemble paid.state paid.txs
  return { header := header, txs := paid.txs, profit := payment.value, bundles := records,
           payment := payment, gasLeft := work.gas, paymentGas := work.gas - paid.gas }

end Worker

end Suift
