import Suift.Miner.Transfers

/-!
# Which transactions a block holds

`rawCommitTransactions` stops without an error when the gas pool holds less than the least that a
transaction costs, and the pool only gets emptier.  So transactions are left out from some point on, and
if any is then so is the last one, the payment to the fee recipient (`txs_eq_iff`).
-/

namespace Suift

open Fallible

/-- What the block should hold for a bundle: its transactions, and the refund if there is one. -/
def BundleRecord.txs (r : BundleRecord) : List BlockTx :=
  r.bundle.txs.map .bundled ++ r.refund.toList.map .payment

/-- From `env` to `env'` some of `txs` have been committed, and all of them if there is gas left for
another one. -/
structure Environment.Commits {S : Type} (env env' : Environment S) (txs : List BlockTx) : Prop where
  header : env'.header = env.header
  coinbase : env'.coinbase = env.coinbase
  gas_le : env'.gas ≤ env.gas
  committed : ∃ done : List BlockTx, done.Sublist txs ∧ env'.txs = env.txs ++ done ∧
    (txGas ≤ env'.gas → done = txs)

namespace Environment.Commits

variable {S : Type} {env env₁ env₂ : Environment S} {txs txs₁ txs₂ : List BlockTx}

theorem refl (env : Environment S) : env.Commits env [] where
  header := rfl
  coinbase := rfl
  gas_le := le_rfl
  committed := ⟨[], List.Sublist.refl _, (List.append_nil _).symm, fun _ => rfl⟩

theorem trans (h₁ : env.Commits env₁ txs₁) (h₂ : env₁.Commits env₂ txs₂) :
    env.Commits env₂ (txs₁ ++ txs₂) where
  header := h₂.header.trans h₁.header
  coinbase := h₂.coinbase.trans h₁.coinbase
  gas_le := h₂.gas_le.trans h₁.gas_le
  committed := by
    obtain ⟨done₁, hsub₁, htxs₁, hall₁⟩ := h₁.committed
    obtain ⟨done₂, hsub₂, htxs₂, hall₂⟩ := h₂.committed
    refine ⟨done₁ ++ done₂, hsub₁.append hsub₂, by rw [htxs₂, htxs₁, List.append_assoc], ?_⟩
    intro hgas
    rw [hall₁ (hgas.trans h₂.gas_le), hall₂ hgas]

/-- Once the gas is short everything may be left out. -/
theorem of_gas_lt (hgas : env.gas < txGas) (txs : List BlockTx) : env.Commits env txs where
  header := rfl
  coinbase := rfl
  gas_le := le_rfl
  committed := ⟨[], List.nil_sublist _, (List.append_nil _).symm, fun h => absurd h (not_le.mpr hgas)⟩

end Environment.Commits

namespace Worker

variable {S : Type} {W : Worker S} {env env' : Environment S} {baseFee : ℕ}

theorem commits_of_commitTransaction {tx : BlockTx} (h : W.commitTransaction env tx = .ok env') :
    env.Commits env' [tx] := by
  simp only [commitTransaction, bind_eq_ok_iff, pure_eq_ok_iff] at h
  obtain ⟨⟨used, state⟩, -, rfl⟩ := h
  exact { header := rfl
          coinbase := rfl
          gas_le := Nat.sub_le _ _
          committed := ⟨[tx], List.Sublist.refl _, rfl, fun _ => rfl⟩ }

theorem commits_of_commitAll {txs : List BlockTx} (h : W.commitAll txs env = .ok env') :
    env.Commits env' txs := by
  induction txs generalizing env with
  | nil =>
    obtain rfl := Except.ok.inj h
    exact .refl env
  | cons tx txs ih =>
    unfold commitAll at h
    by_cases hgas : env.gas < txGas
    · rw [if_pos hgas] at h
      obtain rfl := Except.ok.inj h
      exact .of_gas_lt hgas _
    · rw [if_neg hgas] at h
      simp only [ite_throw_eq_ok_iff, bind_eq_ok_iff] at h
      obtain ⟨-, env₁, hcommit, hrest⟩ := h
      exact (commits_of_commitTransaction hcommit).trans (ih hrest)

theorem commits_of_rawCommitTransactions {txs : List BlockTx}
    (h : W.rawCommitTransactions env txs = .ok env') : env.Commits env' txs := by
  have hcommits := commits_of_commitAll h
  exact ⟨hcommits.header, hcommits.coinbase, hcommits.gas_le, hcommits.committed⟩

/-! ### What the parts of a build return -/

theorem payRefund_eq_ok {bundle : SBundle} {bundleProfit refundPrct : ℤ} {p : Payment}
    (h : W.payRefund baseFee bundle bundleProfit refundPrct env = .ok (p, env')) :
    (∃ tx, bundle.txs.head? = some tx ∧ W.sender tx = .ok p.to_) ∧
      p = W.newPayment env baseFee p.to_ (bundleProfit / refundPrct - transferGas * baseFee) ∧
      W.rawCommitTransactions env [.payment p] = .ok env' := by
  unfold payRefund at h
  cases hhead : bundle.txs.head? with
  | none =>
    rw [hhead] at h
    exact absurd h (by simp)
  | some tx =>
    rw [hhead] at h
    simp only [bind_eq_ok_iff, pure_eq_ok_iff, Prod.mk.injEq] at h
    obtain ⟨refundAddr, hsender, _, -, env₁, hcommit, rfl, rfl⟩ := h
    exact ⟨⟨tx, rfl, hsender⟩, rfl, hcommit⟩

/-- A bundle is committed; then its refund is paid, if it is due one. -/
theorem commitBundle_eq_ok {bundle : SBundle} {r : BundleRecord}
    (h : W.commitBundle baseFee bundle env = .ok (r, env')) :
    ∃ env₁, W.rawCommitTransactions env (bundle.txs.map .bundled) = .ok env₁ ∧ r.bundle = bundle ∧
      r.profit = W.balance env₁ - W.balance env ∧ r.gasLeft = env₁.gas ∧
      (refundPercent bundle = none ∧ r.refund = none ∧ r.refundGas = 0 ∧ env' = env₁ ∨
        ∃ refundPrct p, refundPercent bundle = some refundPrct ∧ r.refund = some p ∧
          W.payRefund baseFee bundle r.profit refundPrct env₁ = .ok (p, env') ∧
          r.refundGas = env₁.gas - env'.gas) := by
  simp only [commitBundle, bind_eq_ok_iff] at h
  obtain ⟨env₁, hcommit, hrefund⟩ := h
  refine ⟨env₁, hcommit, ?_⟩
  cases hpercent : refundPercent bundle with
  | none =>
    rw [hpercent] at hrefund
    obtain ⟨rfl, rfl⟩ := Prod.mk.inj (Except.ok.inj hrefund)
    exact ⟨rfl, rfl, rfl, .inl ⟨rfl, rfl, rfl, rfl⟩⟩
  | some refundPrct =>
    rw [hpercent] at hrefund
    simp only [bind_eq_ok_iff, pure_eq_ok_iff, Prod.mk.injEq] at hrefund
    obtain ⟨⟨p, paid⟩, hpaid, rfl, rfl⟩ := hrefund
    exact ⟨rfl, rfl, rfl, .inr ⟨refundPrct, p, rfl, rfl, hpaid, rfl⟩⟩

theorem payProposer_eq_ok {feeRecipient : Address} {profitPre : ℤ} {p : Payment}
    (h : W.payProposer baseFee feeRecipient profitPre env = .ok (p, env')) :
    p = W.newPayment env baseFee feeRecipient
        (W.balance env - profitPre - transferGas * baseFee) ∧
      W.rawCommitTransactions env [.payment p] = .ok env' := by
  simp only [payProposer, bind_eq_ok_iff, mapError_eq_ok_iff, pure_eq_ok_iff, Prod.mk.injEq] at h
  obtain ⟨_, -, env₁, hcommit, rfl, rfl⟩ := h
  exact ⟨rfl, hcommit⟩

/-- The stages of a build that returns a block. -/
theorem buildBlockFromBundles_eq_ok {args : BuildBlockArgs} {bundles : List SBundle} {b : BuiltBlock}
    (h : W.buildBlockFromBundles args bundles = .ok b) :
    ∃ (work₀ work paid : Environment S) (baseFee : ℕ),
      W.generateKey = .ok work₀.coinbase ∧ work₀.header = b.header ∧
      b.header.baseFee = some baseFee ∧ work₀.txs = [] ∧
      W.commitBundles baseFee bundles work₀ = .ok (b.bundles, work) ∧
      W.payProposer baseFee args.feeRecipient (W.balance work₀) work = .ok (b.payment, paid) ∧
      b.txs = paid.txs ∧ b.profit = b.payment.value ∧ b.gasLeft = work.gas ∧
      b.paymentGas = work.gas - paid.gas ∧ deriveSha b.txs = .ok () := by
  simp only [buildBlockFromBundles, bind_eq_ok_iff] at h
  obtain ⟨addr, hkey, ⟨header, state⟩, -, h⟩ := h
  cases hfee : header.baseFee with
  | none =>
    rw [hfee] at h
    exact absurd h (by simp)
  | some baseFee =>
    rw [hfee] at h
    simp only [bind_eq_ok_iff, pure_eq_ok_iff] at h
    obtain ⟨⟨records, work⟩, hbundles, ⟨payment, paid⟩, hpaid, _, hfinalize, rfl⟩ := h
    exact ⟨_, work, paid, baseFee, hkey, rfl, hfee, rfl, hbundles, hpaid, rfl, rfl, rfl, rfl,
      W.deriveSha_of_finalize _ _ hfinalize⟩

/-! ### Inclusion -/

theorem commits_of_commitBundle {bundle : SBundle} {r : BundleRecord}
    (h : W.commitBundle baseFee bundle env = .ok (r, env')) : env.Commits env' r.txs := by
  obtain ⟨env₁, hcommit, rfl, -, -, ⟨-, hrefund, -, rfl⟩ | ⟨_, p, -, hrefund, hpaid, -⟩⟩ :=
    commitBundle_eq_ok h
  · unfold BundleRecord.txs
    rw [hrefund, Option.toList_none, List.map_nil, List.append_nil]
    exact commits_of_rawCommitTransactions hcommit
  · unfold BundleRecord.txs
    rw [hrefund, Option.toList_some, List.map_singleton]
    obtain ⟨-, -, hpayment⟩ := payRefund_eq_ok hpaid
    exact (commits_of_rawCommitTransactions hcommit).trans (commits_of_rawCommitTransactions hpayment)

/-- The refund uses gas that was left after the bundle. -/
theorem gas_le_of_commitBundle {bundle : SBundle} {r : BundleRecord}
    (h : W.commitBundle baseFee bundle env = .ok (r, env')) : env'.gas ≤ r.gasLeft := by
  obtain ⟨env₁, -, -, -, hleft, ⟨-, -, -, rfl⟩ | ⟨_, p, -, -, hpaid, -⟩⟩ := commitBundle_eq_ok h
  · exact hleft.ge
  · obtain ⟨-, -, hpayment⟩ := payRefund_eq_ok hpaid
    rw [hleft]
    exact (commits_of_rawCommitTransactions hpayment).gas_le

/-- One record per bundle, with a refund exactly where one is due. -/
theorem commits_of_commitBundles {bundles : List SBundle} {records : List BundleRecord}
    (h : W.commitBundles baseFee bundles env = .ok (records, env')) :
    env.Commits env' (records.flatMap BundleRecord.txs) ∧
      records.map BundleRecord.bundle = bundles ∧
      ∀ r ∈ records, r.refund.isSome = (refundPercent r.bundle).isSome := by
  induction bundles generalizing env records with
  | nil =>
    obtain ⟨rfl, rfl⟩ := Prod.mk.inj (Except.ok.inj h)
    exact ⟨.refl env, rfl, fun r hr => absurd hr List.not_mem_nil⟩
  | cons bundle bundles ih =>
    simp only [commitBundles, bind_eq_ok_iff, pure_eq_ok_iff, Prod.mk.injEq] at h
    obtain ⟨⟨r, env₁⟩, hbundle, ⟨rs, env₂⟩, hbundles, rfl, rfl⟩ := h
    obtain ⟨hcommits, hmap, hrefunds⟩ := ih hbundles
    refine ⟨?_, ?_, ?_⟩
    · rw [List.flatMap_cons]
      exact (commits_of_commitBundle hbundle).trans hcommits
    · obtain ⟨_, -, hr, -⟩ := commitBundle_eq_ok hbundle
      rw [List.map_cons, hr, hmap]
    · intro r' hr'
      rcases List.mem_cons.mp hr' with rfl | hmem
      · obtain ⟨_, -, rfl, -, -, ⟨hdue, hrefund, -⟩ | ⟨_, _, hdue, hrefund, -⟩⟩ :=
          commitBundle_eq_ok hbundle
        · rw [hdue, hrefund]
          rfl
        · rw [hdue, hrefund]
          rfl
      · exact hrefunds r' hmem

/-- A single transaction is left out if the gas is short, and executed otherwise. -/
theorem rawCommitTransactions_singleton_eq_ok {tx : BlockTx}
    (h : W.rawCommitTransactions env [tx] = .ok env') :
    (env.gas < txGas ∧ env'.txs = env.txs ∧ env'.state = env.state ∧ env'.gas = env.gas) ∨
      (txGas ≤ env.gas ∧ env'.txs = env.txs ++ [tx] ∧ ∃ used,
        W.applyTransaction env.header env.coinbase env.gas env.state tx = .ok (used, env'.state) ∧
          env'.gas = env.gas - used) := by
  unfold rawCommitTransactions commitAll at h
  by_cases hgas : env.gas < txGas
  · rw [if_pos (show Environment.gas { env with gasPool := some env.gas } < txGas from hgas)] at h
    obtain rfl := Except.ok.inj h
    exact .inl ⟨hgas, rfl, rfl, rfl⟩
  · rw [if_neg (show ¬ Environment.gas { env with gasPool := some env.gas } < txGas from hgas)] at h
    simp only [ite_throw_eq_ok_iff, bind_eq_ok_iff, commitAll, pure_eq_ok_iff, commitTransaction] at h
    obtain ⟨-, _, ⟨⟨used, s'⟩, happly, rfl⟩, rfl⟩ := h
    exact .inr ⟨not_lt.mp hgas, rfl, used, happly, rfl⟩

/-- **The transactions of a block** are those of the bundles with the refunds that are due, and the
payment of the profit to the fee recipient, exactly if there is gas for another transaction before that
payment. -/
theorem txs_eq_iff {args : BuildBlockArgs} {bundles : List SBundle} {b : BuiltBlock}
    (h : W.buildBlockFromBundles args bundles = .ok b) :
    (b.bundles.map BundleRecord.bundle = bundles ∧
      (∀ r ∈ b.bundles, r.refund.isSome = (refundPercent r.bundle).isSome) ∧
      b.payment.to_ = args.feeRecipient ∧ b.payment.value = b.profit) ∧
    (b.txs = b.bundles.flatMap BundleRecord.txs ++ [.payment b.payment] ↔ txGas ≤ b.gasLeft) := by
  obtain ⟨work₀, work, paid, baseFee, -, -, -, hempty, hbundles, hpaid, htxs, hprofit, hgas, -⟩ :=
    buildBlockFromBundles_eq_ok h
  obtain ⟨hcommits, hmap, hrefunds⟩ := commits_of_commitBundles hbundles
  obtain ⟨hpayment, hcommit⟩ := payProposer_eq_ok hpaid
  refine ⟨⟨hmap, hrefunds, by rw [hpayment]; rfl, hprofit.symm⟩, ?_⟩
  obtain ⟨done, hsub, hdone, hall⟩ := hcommits.committed
  rw [hempty, List.nil_append] at hdone
  rw [htxs, hgas]
  rcases rawCommitTransactions_singleton_eq_ok hcommit with ⟨hshort, hlast, -⟩ | ⟨henough, hlast, -⟩
  · refine iff_of_false ?_ (not_le.mpr hshort)
    -- what is there is shorter by at least the payment
    intro heq
    rw [hlast, hdone] at heq
    have hlength := congrArg List.length heq
    have hle := hsub.length_le
    rw [List.length_append, List.length_singleton] at hlength
    omega
  · refine iff_of_true ?_ henough
    rw [hlast, hdone, hall henough]

/-- With enough gas the block holds the bundle, its refund and the payment. -/
theorem txs_eq_iff_sampleBundle :
    ∃ b, (sampleWorker 200000).buildBlockFromBundles sampleArgs [sampleBundle] = .ok b ∧
      b.txs = b.bundles.flatMap BundleRecord.txs ++ [.payment b.payment] ∧ b.txs.length = 4 := by
  have hbuild : ((sampleWorker 200000).buildBlockFromBundles sampleArgs [sampleBundle]).map
      (fun b => (b.txs.length, decide (txGas ≤ b.gasLeft))) = .ok (4, true) := by
    decide +kernel
  obtain ⟨b, hb, hfacts⟩ := map_eq_ok_iff.mp hbuild
  obtain ⟨hlength, hgas⟩ := Prod.mk.inj hfacts
  exact ⟨b, hb, (txs_eq_iff hb).2.mpr (of_decide_eq_true hgas), hlength⟩

/-- With gas for the bundle only, its refund is left out, and so is the payment of the profit that is
reported. -/
theorem exists_payments_left_out :
    ∃ b p, (sampleWorker 50000).buildBlockFromBundles sampleArgs [sampleBundle] = .ok b ∧
      b.txs = [.bundled (sampleTx 0), .bundled (sampleTx 1)] ∧
      b.bundles.map BundleRecord.refund = [some p] ∧ p.value = 14000 ∧ b.profit = 392000 := by
  have hbuild : ((sampleWorker 50000).buildBlockFromBundles sampleArgs [sampleBundle]).map
      (fun b => (b.txs, b.bundles.map BundleRecord.refund, b.profit)) =
        .ok ([.bundled (sampleTx 0), .bundled (sampleTx 1)], [some ⟨0, 1, 14000, 28000, 1⟩], 392000) := by
    decide +kernel
  obtain ⟨b, hb, hfacts⟩ := map_eq_ok_iff.mp hbuild
  simp only [Prod.mk.injEq] at hfacts
  exact ⟨b, _, hb, hfacts.1, hfacts.2.1, rfl, hfacts.2.2⟩

end Worker

end Suift
