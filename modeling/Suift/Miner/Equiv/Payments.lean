import Suift.Miner.Equiv.Worker
import Suift.VM.Bundles
import Mathlib.Tactic.Linarith
import Mathlib.Tactic.Ring

/-!
# The payments of a block

The amounts that `buildBlockFromBundles` pays, against what the bundles have brought.

* `Balanced`: what is left of the profits of the bundles after the refunds, in terms of each bundle's share.
* `payments_sound_iff`: when no payment is negative and all of them together are covered.  A payment that is
  in the block is not negative, or the block could not be made; one that is left out for lack of gas may be.
* `refund_eq_percentage_iff`: the refund is the profit divided by the percentage.
-/

namespace Suift

open Fallible

namespace BundleRecord

open Worker (refundPercent)

variable (r : BundleRecord)

/-- The refund that is made for a bundle, zero if there is none. -/
def refundValue : ℤ := (r.refund.map Payment.value).getD 0

/-- The profit divided by the percentage. -/
def share : ℤ := ((refundPercent r.bundle).map (r.profit / ·)).getD 0

/-- The share, less the cost of a transfer. -/
def refundDue (baseFee : ℕ) : ℤ := r.share - transferGas * baseFee

/-- There is gas for the refund that is due. -/
def refunded : Bool := (refundPercent r.bundle).isSome && decide (txGas ≤ r.gasLeft)

/-- There is no gas for the refund that is due. -/
def unrefunded : Bool := (refundPercent r.bundle).isSome && decide (r.gasLeft < txGas)

end BundleRecord

namespace BuiltBlock

variable (b : BuiltBlock)

/-- What all bundles have brought to the coinbase. -/
def bundleProfit : ℤ := (b.bundles.map BundleRecord.profit).sum

def refunds : ℤ := (b.bundles.map BundleRecord.refundValue).sum

/-- The gas that the refunds have used. -/
def refundGas : ℕ := (b.bundles.map BundleRecord.refundGas).sum

def refunded : List BundleRecord := b.bundles.filter BundleRecord.refunded

def unrefunded : List BundleRecord := b.bundles.filter BundleRecord.unrefunded

end BuiltBlock

theorem encodes_of_deriveSha {txs : List BlockTx} (h : deriveSha txs = .ok ()) {p : Payment}
    (hp : .payment p ∈ txs) : 0 ≤ p.value := by
  unfold deriveSha at h
  split_ifs at h with hall
  exact of_decide_eq_true (List.all_eq_true.mp hall _ hp)

namespace Worker

variable {S : Type} {W : Worker S} {env env' : Environment S} {baseFee : ℕ}

/-- What a refund costs the one-time account: its value, and the base fee for the gas of a transfer.  The
account that is paid has signed a transaction, so that it has no code, and it is not the one-time
account. -/
def RefundsCost (W : Worker S) : Prop :=
  ∀ (header : Header) coinbase gas s p used s' tx (baseFee : ℕ), W.generateKey = .ok coinbase →
    header.baseFee = some baseFee → W.sender tx = .ok p.to_ → p.gasPrice = baseFee →
    W.applyTransaction header coinbase gas s (.payment p) = .ok (used, s') →
    used = txGas ∧ W.getBalance s' coinbase = W.getBalance s coinbase - p.value - txGas * baseFee

/-! ### The refunds -/

theorem payRefund_cases (hcost : W.RefundsCost) (hkey : W.generateKey = .ok env.coinbase)
    (hfee : env.header.baseFee = some baseFee) {bundle : SBundle} {bundleProfit refundPrct : ℤ}
    {p : Payment} (h : W.payRefund baseFee bundle bundleProfit refundPrct env = .ok (p, env')) :
    (env.gas < txGas ∧ env.gas - env'.gas = 0 ∧ W.balance env' = W.balance env) ∨
      (txGas ≤ env.gas ∧ env.gas - env'.gas = txGas ∧ .payment p ∈ env'.txs ∧
        W.balance env' = W.balance env - p.value - txGas * baseFee) := by
  obtain ⟨⟨tx, -, hsender⟩, hp, hcommit⟩ := payRefund_eq_ok h
  have hcoinbase := (commits_of_rawCommitTransactions hcommit).coinbase
  rcases rawCommitTransactions_singleton_eq_ok hcommit with
    ⟨hshort, -, hstate, hgas⟩ | ⟨henough, htxs, used, happly, hgas⟩
  · refine .inl ⟨hshort, by omega, ?_⟩
    rw [balance, hcoinbase, hstate]
    rfl
  · have hprice : p.gasPrice = baseFee := by
      rw [hp]
      rfl
    obtain ⟨rfl, hbalance⟩ := hcost _ _ _ _ _ _ _ tx _ hkey hfee hsender hprice happly
    refine .inr ⟨henough, by omega, ?_, ?_⟩
    · rw [htxs]
      exact List.mem_append_right _ (List.mem_singleton_self _)
    · rw [balance, hcoinbase, hbalance]
      rfl

/-- What a bundle comes to: it has no refund, or one that is paid, or one that is left out. -/
theorem commitBundle_cases (hcost : W.RefundsCost) (hkey : W.generateKey = .ok env.coinbase)
    (hfee : env.header.baseFee = some baseFee) {bundle : SBundle} {r : BundleRecord}
    (h : W.commitBundle baseFee bundle env = .ok (r, env')) :
    (r.refunded = false ∧ r.unrefunded = false ∧ r.refund = none ∧ r.refundGas = 0 ∧
        W.balance env' = W.balance env + r.profit) ∨
      ∃ p, r.refund = some p ∧ p.value = r.refundDue baseFee ∧
        ((r.refunded = true ∧ r.unrefunded = false ∧ r.refundGas = txGas ∧ .payment p ∈ env'.txs ∧
            W.balance env' = W.balance env + r.profit - p.value - txGas * baseFee) ∨
          (r.refunded = false ∧ r.unrefunded = true ∧ r.refundGas = 0 ∧
            W.balance env' = W.balance env + r.profit)) := by
  obtain ⟨env₁, hcommit, hbundle, hprofit, hleft, ⟨hdue, hrefund, hgas, rfl⟩ |
    ⟨percent, p, hdue, hrefund, hpaid, hgas⟩⟩ := commitBundle_eq_ok h
  · rw [← hbundle] at hdue
    refine .inl ⟨?_, ?_, hrefund, hgas, by omega⟩
    · rw [BundleRecord.refunded, hdue]
      rfl
    · rw [BundleRecord.unrefunded, hdue]
      rfl
  · have hcommits := commits_of_rawCommitTransactions hcommit
    rw [← hcommits.coinbase] at hkey
    rw [← hcommits.header] at hfee
    rw [← hbundle] at hdue
    obtain ⟨-, hp, -⟩ := payRefund_eq_ok hpaid
    have hvalue : p.value = r.refundDue baseFee := by
      rw [hp, BundleRecord.refundDue, BundleRecord.share, hdue]
      rfl
    have hrefunded : r.refunded = decide (txGas ≤ env₁.gas) := by
      rw [BundleRecord.refunded, hdue, hleft, Option.isSome_some, Bool.true_and]
    have hunrefunded : r.unrefunded = decide (env₁.gas < txGas) := by
      rw [BundleRecord.unrefunded, hdue, hleft, Option.isSome_some, Bool.true_and]
    refine .inr ⟨p, hrefund, hvalue, ?_⟩
    rcases payRefund_cases hcost hkey hfee hpaid with
      ⟨hshort, hused, hbalance⟩ | ⟨henough, hused, hmem, hbalance⟩
    · refine .inr ⟨?_, ?_, hgas.trans hused, by omega⟩
      · rw [hrefunded, decide_eq_false (not_le.mpr hshort)]
      · rw [hunrefunded, decide_eq_true hshort]
    · refine .inl ⟨?_, ?_, hgas.trans hused, hmem, by omega⟩
      · rw [hrefunded, decide_eq_true henough]
      · rw [hunrefunded, decide_eq_false (not_lt.mpr henough)]

/-- The accounts of the bundles.  Of a share that is refunded the one-time account saves the difference
between the gas that the transfer is counted with and the gas that it uses. -/
structure Balanced (baseFee : ℕ) (before after : ℤ) (records : List BundleRecord) : Prop where
  balance : after = before + (records.map BundleRecord.profit).sum -
    ((records.filter BundleRecord.refunded).map BundleRecord.share).sum +
      (records.filter BundleRecord.refunded).length * ((transferGas - txGas) * baseFee)
  refunds : (records.map BundleRecord.refundValue).sum =
    ((records.filter BundleRecord.refunded).map BundleRecord.share).sum -
      (records.filter BundleRecord.refunded).length * (transferGas * baseFee) +
        ((records.filter BundleRecord.unrefunded).map (·.refundDue baseFee)).sum
  refundGas : (records.map BundleRecord.refundGas).sum =
    (records.filter BundleRecord.refunded).length * txGas

theorem Balanced.nil (baseFee : ℕ) (before : ℤ) : Balanced baseFee before before [] := by
  constructor <;> simp

theorem Balanced.cons {before before' after : ℤ} {r : BundleRecord} {records : List BundleRecord}
    (h : Balanced baseFee before' after records)
    (hbalance : before' = before + r.profit -
      if r.refunded then r.share - (transferGas - txGas) * baseFee else 0)
    (hvalue : r.refundValue = if r.refunded ∨ r.unrefunded then r.refundDue baseFee else 0)
    (hgas : r.refundGas = if r.refunded then txGas else 0)
    (hexclusive : ¬ (r.refunded = true ∧ r.unrefunded = true)) :
    Balanced baseFee before after (r :: records) := by
  obtain ⟨hbalance', hrefunds', hgas'⟩ := h
  cases hrefunded : r.refunded
  · simp only [hrefunded, Bool.false_eq_true, if_false, false_or] at hbalance hvalue hgas
    refine ⟨?_, ?_, ?_⟩
    · simp only [List.map_cons, List.sum_cons, List.filter_cons, hrefunded, Bool.false_eq_true, if_false,
        hbalance', hbalance]
      ring
    · simp only [List.map_cons, List.sum_cons, List.filter_cons, hrefunded, Bool.false_eq_true, if_false,
        hrefunds', hvalue]
      split_ifs
      · rw [List.map_cons, List.sum_cons]
        ring
      · ring
    · simp only [List.map_cons, List.sum_cons, List.filter_cons, hrefunded, Bool.false_eq_true, if_false,
        hgas', hgas, zero_add]
  · have hunrefunded : r.unrefunded = false := by
      rw [Bool.eq_false_iff]
      exact fun hu => hexclusive ⟨hrefunded, hu⟩
    simp only [hrefunded, if_true, true_or] at hbalance hvalue hgas
    refine ⟨?_, ?_, ?_⟩
    · simp only [List.map_cons, List.sum_cons, List.filter_cons, hrefunded, if_true, List.length_cons,
        hbalance', hbalance]
      push_cast
      ring
    · simp only [List.map_cons, List.sum_cons, List.filter_cons, hrefunded, hunrefunded, if_true,
        Bool.false_eq_true, if_false, List.length_cons, hrefunds', hvalue]
      unfold BundleRecord.refundDue
      push_cast
      ring
    · simp only [List.map_cons, List.sum_cons, List.filter_cons, hrefunded, if_true, List.length_cons, hgas',
        hgas]
      ring

theorem balanced_of_commitBundles (hcost : W.RefundsCost) (hkey : W.generateKey = .ok env.coinbase)
    (hfee : env.header.baseFee = some baseFee) {bundles : List SBundle} {records : List BundleRecord}
    (h : W.commitBundles baseFee bundles env = .ok (records, env')) :
    Balanced baseFee (W.balance env) (W.balance env') records := by
  induction bundles generalizing env records with
  | nil =>
    obtain ⟨rfl, rfl⟩ := Prod.mk.inj (Except.ok.inj h)
    exact .nil baseFee _
  | cons bundle bundles ih =>
    simp only [commitBundles, bind_eq_ok_iff, pure_eq_ok_iff, Prod.mk.injEq] at h
    obtain ⟨⟨r, env₁⟩, hbundle, ⟨rs, env₂⟩, hbundles, rfl, rfl⟩ := h
    have hcommits := commits_of_commitBundle hbundle
    have hfirst := commitBundle_cases hcost hkey hfee hbundle
    rw [← hcommits.coinbase] at hkey
    rw [← hcommits.header] at hfee
    have hrest := ih hkey hfee hbundles
    rcases hfirst with ⟨hrefunded, hunrefunded, hrefund, hgas, hbalance⟩ | ⟨p, hrefund, hvalue,
      ⟨hrefunded, hunrefunded, hgas, -, hbalance⟩ | ⟨hrefunded, hunrefunded, hgas, hbalance⟩⟩
    · apply hrest.cons
      · simp [hrefunded, hbalance]
      · simp [BundleRecord.refundValue, hrefund, hrefunded, hunrefunded]
      · simp [hgas, hrefunded]
      · simp [hrefunded]
    · apply hrest.cons
      · rw [hbalance, hvalue, hrefunded, if_pos rfl]
        unfold BundleRecord.refundDue
        ring
      · simp [BundleRecord.refundValue, hrefund, hrefunded, hvalue]
      · simp [hgas, hrefunded]
      · simp [hunrefunded]
    · apply hrest.cons
      · simp [hrefunded, hbalance]
      · simp [BundleRecord.refundValue, hrefund, hunrefunded, hvalue]
      · simp [hgas, hrefunded]
      · simp [hrefunded]

/-- A refund for which there is gas is in the block, and one for which there is none does not leave any
for what follows. -/
theorem refunds_of_commitBundles (hcost : W.RefundsCost) (hkey : W.generateKey = .ok env.coinbase)
    (hfee : env.header.baseFee = some baseFee) {bundles : List SBundle} {records : List BundleRecord}
    (h : W.commitBundles baseFee bundles env = .ok (records, env')) {r : BundleRecord} (hr : r ∈ records) :
    env'.gas ≤ r.gasLeft ∧ ∀ p ∈ r.refund, p.value = r.refundDue baseFee ∧
      (.payment p ∈ env'.txs ∨ r.unrefunded = true) := by
  induction bundles generalizing env records with
  | nil =>
    obtain ⟨rfl, -⟩ := Prod.mk.inj (Except.ok.inj h)
    exact absurd hr List.not_mem_nil
  | cons bundle bundles ih =>
    simp only [commitBundles, bind_eq_ok_iff, pure_eq_ok_iff, Prod.mk.injEq] at h
    obtain ⟨⟨r', env₁⟩, hbundle, ⟨rs, env₂⟩, hbundles, rfl, rfl⟩ := h
    have hcommits := commits_of_commitBundle hbundle
    rcases List.mem_cons.mp hr with rfl | hmem
    · obtain ⟨hlater, -⟩ := commits_of_commitBundles hbundles
      obtain ⟨done, -, htxs, -⟩ := hlater.committed
      refine ⟨hlater.gas_le.trans (gas_le_of_commitBundle hbundle), ?_⟩
      intro p hp
      rcases commitBundle_cases hcost hkey hfee hbundle with ⟨-, -, hrefund, -⟩ | ⟨p', hrefund, hvalue,
        ⟨-, -, -, hmem, -⟩ | ⟨-, hunrefunded, -⟩⟩
      · rw [hrefund] at hp
        cases hp
      · obtain rfl := Option.some.inj (hrefund.symm.trans hp)
        exact ⟨hvalue, .inl (by rw [htxs]; exact List.mem_append_left _ hmem)⟩
      · obtain rfl := Option.some.inj (hrefund.symm.trans hp)
        exact ⟨hvalue, .inr hunrefunded⟩
    · rw [← hcommits.coinbase] at hkey
      rw [← hcommits.header] at hfee
      exact ih hkey hfee hbundles hmem

/-- The refund of a bundle: its profit divided by the percentage, less the cost of a transfer. -/
theorem refund_of_commitBundles {bundles : List SBundle} {records : List BundleRecord}
    (h : W.commitBundles baseFee bundles env = .ok (records, env')) {r : BundleRecord} (hr : r ∈ records) :
    (refundPercent r.bundle = none ∧ r.refund = none) ∨
      ∃ percent p, refundPercent r.bundle = some percent ∧ r.refund = some p ∧
        p.value = r.profit / percent - transferGas * baseFee := by
  induction bundles generalizing env records with
  | nil =>
    obtain ⟨rfl, -⟩ := Prod.mk.inj (Except.ok.inj h)
    exact absurd hr List.not_mem_nil
  | cons bundle bundles ih =>
    simp only [commitBundles, bind_eq_ok_iff, pure_eq_ok_iff, Prod.mk.injEq] at h
    obtain ⟨⟨r', env₁⟩, hbundle, ⟨rs, env₂⟩, hbundles, rfl, rfl⟩ := h
    rcases List.mem_cons.mp hr with rfl | hmem
    · obtain ⟨_, -, rfl, -, -, ⟨hdue, hrefund, -⟩ | ⟨percent, p, hdue, hrefund, hpaid, -⟩⟩ :=
        commitBundle_eq_ok hbundle
      · exact .inl ⟨hdue, hrefund⟩
      · obtain ⟨-, hp, -⟩ := payRefund_eq_ok hpaid
        refine .inr ⟨percent, p, hdue, hrefund, ?_⟩
        rw [hp]
        rfl
    · exact ih hbundles hmem

theorem refund_of_build {args : BuildBlockArgs} {bundles : List SBundle} {b : BuiltBlock}
    (h : W.buildBlockFromBundles args bundles = .ok b) (hfee : b.header.baseFee = some baseFee)
    {r : BundleRecord} (hr : r ∈ b.bundles) :
    (refundPercent r.bundle = none ∧ r.refund = none) ∨
      ∃ percent p, refundPercent r.bundle = some percent ∧ r.refund = some p ∧
        p.value = r.profit / percent - transferGas * baseFee := by
  obtain ⟨_, _, _, baseFee', -, -, hfee', -, hbundles, -⟩ := buildBlockFromBundles_eq_ok h
  obtain rfl : baseFee' = baseFee := Option.some.inj (hfee'.symm.trans hfee)
  exact refund_of_commitBundles hbundles hr

/-! ### The payments together -/

/-- What the fee recipient is paid: what is left, less the cost of a transfer.  The payment is in the block
and uses no more than that, or there was no gas for it. -/
theorem payment_of_payProposer {feeRecipient : Address} {profitPre : ℤ} {p : Payment}
    (h : W.payProposer baseFee feeRecipient profitPre env = .ok (p, env')) :
    p.value = W.balance env - profitPre - transferGas * baseFee ∧
      ((txGas ≤ env.gas ∧ .payment p ∈ env'.txs ∧ env.gas - env'.gas ≤ transferGas) ∨
        (env.gas < txGas ∧ env.gas - env'.gas = 0)) := by
  obtain ⟨hp, hcommit⟩ := payProposer_eq_ok h
  refine ⟨by rw [hp]; rfl, ?_⟩
  rcases rawCommitTransactions_singleton_eq_ok hcommit with
    ⟨hshort, -, -, hgas⟩ | ⟨henough, htxs, used, happly, hgas⟩
  · exact .inr ⟨hshort, by omega⟩
  · have hused : used ≤ p.gas := (W.gas_of_apply _ _ _ _ _ _ _ happly).1
    have hlimit : p.gas = transferGas := by
      rw [hp]
      rfl
    refine .inl ⟨henough, ?_, by omega⟩
    rw [htxs]
    exact List.mem_append_right _ (List.mem_singleton_self _)

theorem payProposer_txs {feeRecipient : Address} {profitPre : ℤ} {p : Payment} {tx : BlockTx}
    (h : W.payProposer baseFee feeRecipient profitPre env = .ok (p, env')) (htx : tx ∈ env.txs) :
    tx ∈ env'.txs := by
  obtain ⟨done, -, htxs, -⟩ := (commits_of_rawCommitTransactions (payProposer_eq_ok h).2).committed
  rw [htxs]
  exact List.mem_append_left _ htx

/-- No refund is negative, if those that are left out are worth their transfer. -/
theorem forall_refund_nonneg_iff {records : List BundleRecord} {txs : List BlockTx}
    (hsha : deriveSha txs = .ok ())
    (hvalue : ∀ r ∈ records, ∀ p ∈ r.refund, p.value = r.refundDue baseFee ∧
      (.payment p ∈ txs ∨ r.unrefunded = true))
    (hrefund : ∀ r ∈ records, r.refund.isSome = (refundPercent r.bundle).isSome) :
    (∀ r ∈ records, ∀ p ∈ r.refund, 0 ≤ p.value) ↔
      ∀ r ∈ records.filter BundleRecord.unrefunded, (transferGas * baseFee : ℤ) ≤ r.share := by
  constructor
  · intro h r hr
    obtain ⟨hmem, hunrefunded⟩ := List.mem_filter.mp hr
    have hdue : r.refund.isSome = true := by
      rw [hrefund r hmem]
      exact (Bool.and_eq_true_iff.mp hunrefunded).1
    obtain ⟨p, hp⟩ := Option.isSome_iff_exists.mp hdue
    have hnonneg := h r hmem p hp
    rw [(hvalue r hmem p hp).1] at hnonneg
    exact sub_nonneg.mp hnonneg
  · intro h r hr p hp
    obtain ⟨hp', hin | hunrefunded⟩ := hvalue r hr p hp
    · exact encodes_of_deriveSha hsha hin
    · rw [hp']
      exact sub_nonneg.mpr (h r (List.mem_filter.mpr ⟨hr, hunrefunded⟩))

theorem refundsCost_transfers (ephemeral : Address) (header : Header) (start : Accounts) :
    (transfers ephemeral header start).RefundsCost := by
  intro header' coinbase gas s p used s' tx baseFee hkey hfee hsender hprice happly
  obtain rfl : ephemeral = coinbase := Except.ok.inj hkey
  have hto : p.to_ ≠ ephemeral := by
    replace hsender : namedSender ephemeral tx = .ok p.to_ := hsender
    unfold namedSender at hsender
    split at hsender
    · split_ifs at hsender with hne
      rw [← Except.ok.inj hsender]
      exact hne
    · cases hsender
  simp only [transfers, toMessage, hfee, bind_eq_ok_iff, Accounts.transitionDb, Accounts.buyGas,
    ite_throw_eq_ok_iff, pure_eq_ok_iff, Prod.mk.injEq] at happly
  obtain ⟨_, hmsg, _, ⟨-, -, -, -, -, -, -, rfl⟩, -, -, rfl, rfl⟩ := happly
  obtain rfl := Except.ok.inj hmsg
  refine ⟨rfl, ?_⟩
  simp only [transfers, Accounts.addBalance, Option.getD_some, Function.update_self,
    Function.update_of_ne hto.symm, hprice]
  ring

def bundleWith (percent : ℤ) : SBundle := { sampleBundle with refundPercent := some percent }

/-- With gas for the payment the block that has no bundles cannot be made. -/
example : ((sampleWorker 200000).buildBlockFromBundles sampleArgs []).map BuiltBlock.profit =
    .error (.panic (Text.ascii "deletion not supported")) := by
  decide +kernel

/-! ### The percentage -/

/-- Dividing by a percentage takes that percentage of every amount for ten percent only. -/
theorem forall_div_eq_percentage_iff {percent : ℤ} (hone : 1 ≤ percent) :
    (∀ profit : ℤ, profit / percent = profit * percent / 100) ↔ percent = 10 := by
  constructor
  · intro h
    have hdiv : 100 * percent / percent = 100 := Int.mul_ediv_cancel _ (by omega)
    have hmul : 100 * percent * percent / 100 = percent * percent := by
      rw [mul_assoc]
      exact Int.mul_ediv_cancel_left _ (by norm_num)
    have hsquare : percent * percent = 100 := by
      have hp := h (100 * percent)
      omega
    nlinarith
  · rintro rfl profit
    omega

/-- What is divided by more is less. -/
theorem div_le_div_of_percent_le {profit percent percent' : ℤ} (hprofit : 0 ≤ profit)
    (hone : 1 ≤ percent) (hle : percent ≤ percent') : profit / percent' ≤ profit / percent := by
  have hnonneg : 0 ≤ profit / percent' := Int.ediv_nonneg hprofit (by omega)
  rw [Int.le_ediv_iff_mul_le (by omega)]
  calc profit / percent' * percent ≤ profit / percent' * percent' :=
        mul_le_mul_of_nonneg_left hle hnonneg
    _ ≤ profit := Int.ediv_mul_le profit (by omega)

/-- The entries that `fillMevShareBundle` writes for the transactions of the user's bundle. -/
theorem percent_of_fillMevShareBundle {X : Externals} {ctx : SuaveContext} {bidId : BidId} {bid : Bid}
    {pair : MatchedPair} {out : Bytes} (hinputs : FillMevShareBundle.inputs X ctx bidId = .ok (bid, pair))
    (hout : FillMevShareBundle.runImpl X ctx bidId = .ok out) :
    ∃ share, X.marshalShareBundle share = .ok out ∧
      share.refund.length = pair.userBundle.txs.length ∧
      ∀ entry ∈ share.refund, entry.percent = pair.userBundle.refundPercent.getD 10 := by
  simp only [FillMevShareBundle.runImpl, hinputs, bind_eq_ok_iff, Except.ok.injEq] at hout
  obtain ⟨_, rfl, body, -, hmarshal⟩ := hout
  refine ⟨_, hmarshal, by simp, ?_⟩
  intro entry hentry
  obtain ⟨i, -, rfl⟩ := List.mem_map.mp hentry
  rfl

/-- **The refund of a bundle** with a percentage between one and a hundred is that percentage of its
profit, less the cost of the transfer, exactly if dividing by the percentage gives the same.  That holds
for all profits only if the percentage is ten, and a higher percentage gives a lower refund. -/
theorem refund_eq_percentage_iff {args : BuildBlockArgs} {bundles : List SBundle} {b : BuiltBlock}
    (h : W.buildBlockFromBundles args bundles = .ok b) (hfee : b.header.baseFee = some baseFee)
    {r : BundleRecord} (hr : r ∈ b.bundles) (htxs : 2 ≤ r.bundle.txs.length) {percent : ℤ}
    (hpercent : r.bundle.refundPercent = some percent) (hone : 1 ≤ percent) (hhundred : percent ≤ 100) :
    (∃ p, r.refund = some p ∧
      (p.value = r.profit * percent / 100 - transferGas * baseFee ↔
        r.profit / percent = r.profit * percent / 100)) ∧
    ((∀ profit : ℤ, profit / percent = profit * percent / 100) ↔ percent = 10) ∧
    (∀ percent', percent ≤ percent' → 0 ≤ r.profit → r.profit / percent' ≤ r.profit / percent) ∧
    ∀ X ctx bidId bid pair out, FillMevShareBundle.inputs X ctx bidId = .ok (bid, pair) →
      pair.userBundle.refundPercent = r.bundle.refundPercent →
      FillMevShareBundle.runImpl X ctx bidId = .ok out →
      ∃ share, X.marshalShareBundle share = .ok out ∧
        share.refund.length = pair.userBundle.txs.length ∧ ∀ entry ∈ share.refund, entry.percent = percent := by
  have hdue : refundPercent r.bundle = some percent := by
    have hseveral : r.bundle.txs.length > 1 := htxs
    rw [refundPercent, if_pos hseveral, hpercent, Option.map_some, if_neg (by omega)]
  refine ⟨?_, forall_div_eq_percentage_iff hone, ?_, ?_⟩
  · rcases refund_of_build h hfee hr with ⟨hnone, -⟩ | ⟨percent', p, hsome, hrefund, hvalue⟩
    · rw [hdue] at hnone
      cases hnone
    · obtain rfl : percent' = percent := Option.some.inj (hsome.symm.trans hdue)
      exact ⟨p, hrefund, by rw [hvalue, sub_left_inj]⟩
  · exact fun percent' hle hprofit => div_le_div_of_percent_le hprofit hone hle
  · intro X ctx bidId bid pair out hinputs hsame hout
    obtain ⟨share, hmarshal, hlength, hentries⟩ := percent_of_fillMevShareBundle hinputs hout
    refine ⟨share, hmarshal, hlength, ?_⟩
    intro entry hentry
    rw [hentries entry hentry, hsame, hpercent, Option.getD_some]

theorem refund_eq_percentage_iff_bundleWith :
    ∃ b r p, (sampleWorker 200000).buildBlockFromBundles sampleArgs [bundleWith 10] = .ok b ∧
      r ∈ b.bundles ∧ r.refund = some p ∧ p.value = r.profit * 10 / 100 - transferGas * (1 : ℕ) := by
  have hbuild : ((sampleWorker 200000).buildBlockFromBundles sampleArgs [bundleWith 10]).map
      (fun b => (b.header.baseFee, b.bundles.map fun r => r.bundle)) = .ok (some 1, [bundleWith 10]) := by
    decide +kernel
  obtain ⟨b, hb, hfacts⟩ := map_eq_ok_iff.mp hbuild
  obtain ⟨hfee, hbundles⟩ := Prod.mk.inj hfacts
  obtain ⟨r, hr, hbundle⟩ : ∃ r ∈ b.bundles, r.bundle = bundleWith 10 := by
    rw [← List.mem_map, hbundles]
    exact List.mem_singleton_self _
  have hpercent : r.bundle.refundPercent = some 10 := by rw [hbundle]; rfl
  have htxs : 2 ≤ r.bundle.txs.length := by rw [hbundle]; decide
  obtain ⟨⟨p, hp, hvalue⟩, hten, -⟩ :=
    refund_eq_percentage_iff hb hfee hr htxs hpercent (by norm_num) (by norm_num)
  exact ⟨b, r, p, hb, hr, hp, hvalue.mpr (hten.mpr rfl r.profit)⟩

/-- Twelve percent of a profit of 420000 are 50400, but a twelfth of it is 35000. -/
theorem exists_wrong_refund :
    ∃ b r p, (sampleWorker 200000).buildBlockFromBundles sampleArgs [bundleWith 12] = .ok b ∧
      b.bundles = [r] ∧ r.profit = 420000 ∧ r.refund = some p ∧ p.value = 7000 ∧
      r.profit * 12 / 100 - transferGas * (1 : ℕ) = 22400 := by
  have hbuild : ((sampleWorker 200000).buildBlockFromBundles sampleArgs [bundleWith 12]).map
      (fun b => b.bundles.map fun r => (r.profit, r.refund)) =
        .ok [(420000, some ⟨0, 1, 7000, 28000, 1⟩)] := by
    decide +kernel
  obtain ⟨b, hb, hfacts⟩ := map_eq_ok_iff.mp hbuild
  obtain ⟨r, hbundles, hr⟩ := List.map_eq_singleton_iff.mp hfacts
  obtain ⟨hprofit, hrefund⟩ := Prod.mk.inj hr
  refine ⟨b, r, _, hb, hbundles, hprofit, hrefund, rfl, ?_⟩
  rw [hprofit, transferGas]
  norm_num

end Worker

end Suift
