import Suift.Lib.ExchangeSort
import Suift.Peekers.Bids
import Suift.VM.Equiv.Rollback
import Suift.VM.RuntimeAdapter

/-!
# The order of the bids in a block

The loops that sort are an exchange sort: the invariant of the inner one is that the entries before index
`i` stay, and that the entry at `i` has come there by a `pass` over the later ones looked at so far
(`foldlM_exchange`); the outer one makes one pass for each index (`foldlM_exchangeLater`).  No index is out
of range, and `n - 1` does not underflow, since there is at least one bid.

The inner loop of `buildMevShare` stops at the first match bid whose first merged id is that of the user's
bid (`bidToInsert_eq_ok_iff`).
-/

namespace Suift.Peekers

open Fallible Text ExchangeSort

theorem index_eq_ok_iff {α : Type} {xs : List α} {i : ℕ} {x : α} :
    index xs i = .ok x ↔ xs[i]? = some x := by
  unfold index
  cases xs[i]? with
  | none => simp
  | some y => simp

theorem bytesEqual_eq {l r : Bytes} (h : l.length = r.length) : bytesEqual l r = .ok (decide (l = r)) := by
  induction l generalizing r with
  | nil =>
    obtain rfl : r = [] := List.eq_nil_of_length_eq_zero h.symm
    rfl
  | cons b l ih =>
    cases r with
    | nil => simp at h
    | cons c r =>
      rw [bytesEqual, ih (by simpa using h)]
      by_cases hb : b = c
      · simp [hb]
      · simp [hb, pure, Except.pure]

theorem idsEqual_eq (l r : BidId) : idsEqual l r = .ok (decide (l = r)) := by
  have hinj : Rlp.bigEndian 16 l.toNat = Rlp.bigEndian 16 r.toNat ↔ l = r := by
    constructor
    · intro h
      have hvalue := congrArg Rlp.ofBigEndian h
      rw [Rlp.ofBigEndian_bigEndian (by simpa using l.isLt),
        Rlp.ofBigEndian_bigEndian (by simpa using r.isLt)] at hvalue
      exact BitVec.eq_of_toNat_eq hvalue
    · rintro rfl
      rfl
  unfold idsEqual
  rw [bytesEqual_eq (by rw [Rlp.length_bigEndian, Rlp.length_bigEndian])]
  simp [hinj]

/-! ### The sort -/

/-- The key that the entries are sorted by. -/
def EgpBidPair.key (pair : EgpBidPair) : ℕ := pair.egp.toNat

theorem EgpBidPair.key_lt_iff {x y : EgpBidPair} : x.key < y.key ↔ x.egp < y.egp :=
  UInt64.lt_iff_toNat_lt.symm

/-- The entries at `pre.length` and behind `done` are compared. -/
theorem exchange_eq (pre done ys : List EgpBidPair) (x y : EgpBidPair) :
    exchange pre.length (pre ++ x :: (done ++ y :: ys)) (pre.length + 1 + done.length) =
      .ok (if x.key < y.key then pre ++ y :: (done ++ x :: ys) else pre ++ x :: (done ++ y :: ys)) := by
  have hx : index (pre ++ x :: (done ++ y :: ys)) pre.length = .ok x := by
    rw [index_eq_ok_iff]
    simp
  have hindex : pre.length + 1 + done.length - pre.length = done.length + 1 := by omega
  have hy : index (pre ++ x :: (done ++ y :: ys)) (pre.length + 1 + done.length) = .ok y := by
    rw [index_eq_ok_iff, List.getElem?_append_right (by omega), hindex]
    simp
  have hset : ((pre ++ x :: (done ++ y :: ys)).set pre.length y).set (pre.length + 1 + done.length) x =
      pre ++ y :: (done ++ x :: ys) := by
    rw [List.set_append_right _ _ le_rfl, List.set_append_right _ _ (by omega), hindex]
    simp
  unfold exchange
  rw [hx, hy]
  show (if x.egp < y.egp then _ else _) = _
  by_cases h : x.egp < y.egp
  · rw [if_pos h, if_pos (EgpBidPair.key_lt_iff.mpr h), hset]
    rfl
  · rw [if_neg h, if_neg (fun hkey => h (EgpBidPair.key_lt_iff.mp hkey))]
    rfl

/-- The inner loop, when `done` has been looked at. -/
theorem foldlM_exchange (pre done ys : List EgpBidPair) (x : EgpBidPair) :
    (List.range' (pre.length + 1 + done.length) ys.length).foldlM (exchange pre.length)
        (pre ++ x :: (done ++ ys)) =
      .ok (pre ++ (pass EgpBidPair.key x ys).1 :: (done ++ (pass EgpBidPair.key x ys).2)) := by
  induction ys generalizing x done with
  | nil => rfl
  | cons y ys ih =>
    rw [List.length_cons, List.range'_succ, List.foldlM_cons, exchange_eq]
    show (List.range' (pre.length + 1 + done.length + 1) ys.length).foldlM _ _ = _
    have hindex : pre.length + 1 + done.length + 1 = pre.length + 1 + (done ++ [x]).length := by
      simp
      omega
    have hindex' : pre.length + 1 + done.length + 1 = pre.length + 1 + (done ++ [y]).length := by
      simp
      omega
    -- the entry that does not travel on has been looked at
    by_cases h : x.key < y.key
    · rw [if_pos h, pass_cons_of_lt _ h, hindex]
      simpa using ih (done ++ [x]) y
    · rw [if_neg h, pass_cons_of_not_lt _ h, hindex']
      simpa using ih (done ++ [y]) x

/-- The outer loop, when the entries in `pre` have their places. -/
theorem foldlM_exchangeLater (pre ys : List EgpBidPair) (x : EgpBidPair) :
    (List.range' pre.length ys.length).foldlM (exchangeLater (pre.length + 1 + ys.length))
        (pre ++ x :: ys) =
      .ok (pre ++ sort EgpBidPair.key (x :: ys)) := by
  induction hn : ys.length generalizing pre x ys with
  | zero =>
    obtain rfl := List.eq_nil_of_length_eq_zero hn
    simp [sort_cons, pure, Except.pure]
  | succ n ih =>
    have hinner : exchangeLater (pre.length + 1 + ys.length) (pre ++ x :: ys) pre.length =
        .ok (pre ++ (pass EgpBidPair.key x ys).1 :: (pass EgpBidPair.key x ys).2) := by
      have hcount : pre.length + 1 + ys.length - (pre.length + 1) = ys.length := by omega
      unfold exchangeLater
      rw [hcount]
      simpa using foldlM_exchange pre [] ys x
    rw [List.range'_succ, List.foldlM_cons, ← hn, hinner]
    -- the first of the later entries is next
    cases hpass : (pass EgpBidPair.key x ys).2 with
    | nil =>
      have hlength := length_pass EgpBidPair.key x ys
      rw [hpass, hn] at hlength
      simp at hlength
    | cons z zs =>
      have hlength : zs.length = n := by
        have hlength := length_pass EgpBidPair.key x ys
        rw [hpass, hn] at hlength
        simpa using hlength
      have hnext := ih (pre ++ [(pass EgpBidPair.key x ys).1]) zs z hlength
      rw [sort_cons, hpass]
      show (List.range' (pre.length + 1) n).foldlM _ _ = _
      have hbound : (pre ++ [(pass EgpBidPair.key x ys).1]).length + 1 + n = pre.length + 1 + ys.length := by
        simp
        omega
      rw [hbound] at hnext
      simpa using hnext

theorem sortByEGP_eq {bidsByEGP : List EgpBidPair} (h : bidsByEGP ≠ []) :
    sortByEGP bidsByEGP = .ok (sort EgpBidPair.key bidsByEGP) := by
  obtain ⟨x, ys, rfl⟩ := List.exists_cons_of_ne_nil h
  have hlast : checkedSub (x :: ys).length 1 = .ok ys.length := by
    unfold checkedSub
    rw [if_pos (by simp)]
    rfl
  have hloop := foldlM_exchangeLater [] ys x
  simp only [sortByEGP, hlast]
  show (List.range ys.length).foldlM (exchangeLater (ys.length + 1)) (x :: ys) = _
  rw [List.range_eq_range']
  simpa [Nat.add_comm] using hloop

theorem ne_nil_of_length_eq {α β : Type} {xs : List α} {ys : List β} (h : xs.length = ys.length)
    (hne : ys ≠ []) : xs ≠ [] := by
  rintro rfl
  exact hne (List.eq_nil_of_length_eq_zero h.symm)

/-! ### Simulation results -/

variable {S : Suave} {key : GoString}

/-- The simulation result that is read for the `i`-th bid. -/
def StoredEgp (S : Suave) (key : GoString) (i : ℕ) (bid : InnerBid) (egp : UInt64) : Prop :=
  ∃ data, S.confidentialRetrieve (.simResults i) bid.id key = .ok data ∧ S.decodeUint64 data = .ok egp

/-- The ids are those of the bids, in the order of falling simulation results. -/
def OrderedByEgp (S : Suave) (key : GoString) (bids : List InnerBid) (ids : List BidId) : Prop :=
  ∃ entries sorted : List EgpBidPair,
    entries.length = bids.length ∧
    (∀ i bid, bids[i]? = some bid →
      ∃ entry, entries[i]? = some entry ∧ entry.bidId = bid.id ∧ StoredEgp S key i bid entry.egp) ∧
    sorted.Perm entries ∧ sorted.Pairwise (fun a b => b.egp ≤ a.egp) ∧
    ids = sorted.map EgpBidPair.bidId

theorem egpBidPair_eq_ok_iff {i : ℕ} {bid : InnerBid} {pair : EgpBidPair} :
    egpBidPair S key i bid = .ok pair ↔ pair.bidId = bid.id ∧ StoredEgp S key i bid pair.egp := by
  simp only [egpBidPair, bind_eq_ok_iff, pure_eq_ok_iff, StoredEgp]
  constructor
  · rintro ⟨data, hdata, egp, hegp, rfl⟩
    exact ⟨rfl, data, hdata, hegp⟩
  · rintro ⟨hid, data, hdata, hegp⟩
    exact ⟨data, hdata, pair.egp, hegp, by rw [← hid]⟩

theorem OrderedByEgp.perm {bids : List InnerBid} {ids : List BidId} (h : OrderedByEgp S key bids ids) :
    ids.Perm (bids.map InnerBid.id) := by
  obtain ⟨entries, sorted, hlength, hentries, hperm, -, rfl⟩ := h
  have hids : entries.map EgpBidPair.bidId = bids.map InnerBid.id := by
    apply List.ext_getElem?
    intro i
    rw [List.getElem?_map, List.getElem?_map]
    cases hbid : bids[i]? with
    | none =>
      have hnone : entries[i]? = none := by
        rw [List.getElem?_eq_none_iff] at hbid ⊢
        omega
      rw [hnone]
      rfl
    | some bid =>
      obtain ⟨entry, hentry, hid, -⟩ := hentries i bid hbid
      rw [hentry, Option.map_some, Option.map_some, hid]
  rw [← hids]
  exact hperm.map _

/-- What the last part of both functions returns. -/
theorem orderedByEgp_of_allBidIds {bids : List InnerBid} {ids : List BidId} (hbids : bids ≠ [])
    (h : allBidIds S key bids = .ok ids) : OrderedByEgp S key bids ids := by
  simp only [allBidIds, bind_eq_ok_iff, pure_eq_ok_iff, mapIdxFrom_eq_ok_iff, egpBidPair_eq_ok_iff,
    Nat.zero_add] at h
  obtain ⟨entries, ⟨hlength, hentries⟩, sorted, hsort, rfl⟩ := h
  have hne : entries ≠ [] := ne_nil_of_length_eq hlength hbids
  obtain rfl := Except.ok.inj ((sortByEGP_eq hne).symm.trans hsort)
  refine ⟨entries, _, hlength, hentries, sort_perm _ entries, ?_, rfl⟩
  refine (pairwise_sort EgpBidPair.key entries).imp ?_
  intro a b hle
  exact UInt64.le_iff_toNat_le.mpr hle

/-- It returns something if every simulation result can be read. -/
theorem exists_allBidIds {bids : List InnerBid} (hbids : bids ≠ [])
    (h : ∀ i bid, bids[i]? = some bid → ∃ egp, StoredEgp S key i bid egp) :
    ∃ ids, allBidIds S key bids = .ok ids := by
  obtain ⟨entries, hentries⟩ : ∃ entries, mapIdxFrom (egpBidPair S key) 0 bids = .ok entries := by
    apply exists_mapIdxFrom_eq_ok
    intro i bid hbid
    obtain ⟨egp, hegp⟩ := h i bid hbid
    exact ⟨⟨egp, bid.id⟩, egpBidPair_eq_ok_iff.mpr ⟨rfl, by simpa using hegp⟩⟩
  have hne : entries ≠ [] := ne_nil_of_length_eq (mapIdxFrom_eq_ok_iff.mp hentries).1 hbids
  refine ⟨(sort EgpBidPair.key entries).map EgpBidPair.bidId, ?_⟩
  simp [allBidIds, hentries, sortByEGP_eq hne]

/-! ### Matches -/

/-- The first id that the `j`-th match bid merges, as it is read for the `i`-th user bid. -/
def NamesFirst (S : Suave) (i j : ℕ) (matchBid : InnerBid) (id : BidId) : Prop :=
  ∃ data ids, S.confidentialRetrieve (.mergedBids i j) matchBid.id (ascii "mevshare:v0:mergedBids") =
    .ok data ∧ S.decodeBidIds data = .ok ids ∧ ids[0]? = some id

/-- What a user's bid contributes: the first match bid that names it, or itself if none does.  `names` says
which id the match bid at an index names. -/
def Contributes (names : ℕ → InnerBid → BidId → Prop) (userBid : InnerBid) (matchBids : List InnerBid)
    (bid : InnerBid) : Prop :=
  (bid = userBid ∧ ∀ j matchBid, matchBids[j]? = some matchBid →
    ∃ id, names j matchBid id ∧ id ≠ userBid.id) ∨
  ∃ j, matchBids[j]? = some bid ∧ names j bid userBid.id ∧
    ∀ k < j, ∀ matchBid, matchBids[k]? = some matchBid → ∃ id, names k matchBid id ∧ id ≠ userBid.id

theorem contributes_nil_iff {names : ℕ → InnerBid → BidId → Prop} {userBid bid : InnerBid} :
    Contributes names userBid [] bid ↔ bid = userBid := by
  simp [Contributes]

theorem contributes_cons_iff {names : ℕ → InnerBid → BidId → Prop} {userBid matchBid bid : InnerBid}
    {matchBids : List InnerBid} :
    Contributes names userBid (matchBid :: matchBids) bid ↔
      (names 0 matchBid userBid.id ∧ bid = matchBid) ∨
      ((∃ id, names 0 matchBid id ∧ id ≠ userBid.id) ∧
        Contributes (fun j => names (j + 1)) userBid matchBids bid) := by
  constructor
  · rintro (⟨rfl, hall⟩ | ⟨j, hj, hnames, hbefore⟩)
    · exact .inr ⟨hall 0 matchBid rfl, .inl ⟨rfl, fun j => hall (j + 1)⟩⟩
    · cases j with
      | zero =>
        obtain rfl : matchBid = bid := by simpa using hj
        exact .inl ⟨hnames, rfl⟩
      | succ j =>
        refine .inr ⟨hbefore 0 (by omega) matchBid rfl, .inr ⟨j, hj, hnames, ?_⟩⟩
        intro k hk
        exact hbefore (k + 1) (by omega)
  · rintro (⟨hnames, rfl⟩ | ⟨hfirst, ⟨rfl, hall⟩ | ⟨j, hj, hnames, hbefore⟩⟩)
    · exact .inr ⟨0, rfl, hnames, fun k hk => absurd hk (Nat.not_lt_zero k)⟩
    · refine .inl ⟨rfl, ?_⟩
      intro j matchBid' hj
      cases j with
      | zero =>
        obtain rfl : matchBid = matchBid' := by simpa using hj
        exact hfirst
      | succ j => exact hall j matchBid' hj
    · refine .inr ⟨j + 1, hj, hnames, ?_⟩
      intro k hk matchBid' hk'
      cases k with
      | zero =>
        obtain rfl : matchBid = matchBid' := by simpa using hk'
        exact hfirst
      | succ k => exact hbefore k (by omega) matchBid' hk'

/-- What the inner loop of `buildMevShare` returns, from the match bid with index `j` on. -/
theorem bidToInsert_eq_ok_iff {i j : ℕ} {userBid bid : InnerBid} {matchBids : List InnerBid} :
    bidToInsert S i userBid j matchBids = .ok bid ↔
      Contributes (fun k => NamesFirst S i (j + k)) userBid matchBids bid := by
  induction matchBids generalizing j with
  | nil =>
    rw [bidToInsert, pure_eq_ok_iff, contributes_nil_iff]
    exact eq_comm
  | cons matchBid matchBids ih =>
    have hstep : bidToInsert S i userBid j (matchBid :: matchBids) = .ok bid ↔
        ∃ first, NamesFirst S i j matchBid first ∧
          if first = userBid.id then bid = matchBid
          else bidToInsert S i userBid (j + 1) matchBids = .ok bid := by
      simp only [bidToInsert, bind_eq_ok_iff, index_eq_ok_iff, idsEqual_eq, NamesFirst]
      constructor
      · rintro ⟨data, hdata, ids, hids, first, hfirst, b, hb, hbid⟩
        obtain rfl := Except.ok.inj hb
        refine ⟨first, ⟨data, ids, hdata, hids, hfirst⟩, ?_⟩
        by_cases h : first = userBid.id
        · rw [if_pos h]
          rw [if_pos (decide_eq_true h)] at hbid
          exact (Except.ok.inj hbid).symm
        · rw [if_neg h]
          rw [if_neg (by simpa using h)] at hbid
          exact hbid
      · rintro ⟨first, ⟨data, ids, hdata, hids, hfirst⟩, hbid⟩
        refine ⟨data, hdata, ids, hids, first, hfirst, _, rfl, ?_⟩
        by_cases h : first = userBid.id
        · rw [if_pos h] at hbid
          rw [if_pos (decide_eq_true h), hbid]
          rfl
        · rw [if_neg h] at hbid
          rw [if_neg (by simpa using h)]
          exact hbid
    have hnext : (fun k => NamesFirst S i (j + (k + 1))) = fun k => NamesFirst S i (j + 1 + k) := by
      ext k
      rw [Nat.add_right_comm, Nat.add_assoc]
    rw [hstep, contributes_cons_iff, hnext, ← ih]
    constructor
    · rintro ⟨first, hfirst, hbid⟩
      by_cases h : first = userBid.id
      · rw [if_pos h] at hbid
        exact .inl ⟨h ▸ hfirst, hbid⟩
      · rw [if_neg h] at hbid
        exact .inr ⟨⟨first, hfirst, h⟩, hbid⟩
    · rintro (⟨hnames, hbid⟩ | ⟨⟨id, hnames, hid⟩, hbid⟩)
      · exact ⟨userBid.id, hnames, by rwa [if_pos rfl]⟩
      · exact ⟨id, hnames, by rwa [if_neg hid]⟩

/-! ### The functions -/

variable {this : Address} {blockArgs : EthBackend.BuildBlockArgs} {blockHeight : UInt64}
  {ids : List BidId}

/-- The function `f` hands these ids to `buildAndEmit`, whatever that does. -/
def Passes (f : BuildAndEmit → Except Revert Bytes) (blockArgs : EthBackend.BuildBlockArgs)
    (blockHeight : UInt64) (ids : List BidId) (namespace_ : GoString) : Prop :=
  ∀ buildAndEmit, f buildAndEmit = buildAndEmit blockArgs blockHeight ids namespace_

theorem require_eq_ok_iff {p : Bool} {u : Unit} : require p = .ok u ↔ p = true := by
  unfold require
  simp

theorem buildFromPool_eq_ok_iff
    {buildAndEmit : BuildAndEmit} {ret : Bytes} :
    buildFromPool S this buildAndEmit blockArgs blockHeight = .ok ret ↔
      S.isConfidential = .ok true ∧ ∃ bids, S.fetchBids blockHeight (ascii "default:v0:ethBundles") = .ok bids ∧
        bids ≠ [] ∧ ∃ ids, allBidIds S (ascii "default:v0:ethBundleSimResults") bids = .ok ids ∧
          buildAndEmit blockArgs blockHeight ids [] = .ok ret := by
  simp only [buildFromPool, bind_eq_ok_iff, require_eq_ok_iff, ite_throw_eq_ok_iff, List.length_eq_zero_iff]
  constructor
  · rintro ⟨b, hb, -, rfl, bids, hbids, hne, ids, hids, hret⟩
    exact ⟨hb, bids, hbids, hne, ids, hids, hret⟩
  · rintro ⟨hb, bids, hbids, hne, ids, hids, hret⟩
    exact ⟨true, hb, (), rfl, bids, hbids, hne, ids, hids, hret⟩

theorem buildMevShare_eq_ok_iff
    {buildAndEmit : BuildAndEmit} {ret : Bytes} :
    buildMevShare S this buildAndEmit blockArgs blockHeight = .ok ret ↔
      S.isConfidential = .ok true ∧
        ∃ matchBids, S.fetchBids blockHeight (ascii "mevshare:v0:matchBids") = .ok matchBids ∧
        ∃ userBids, S.fetchBids blockHeight (ascii "mevshare:v0:unmatchedBundles") = .ok userBids ∧
        userBids ≠ [] ∧
        ∃ bids, mapIdxFrom (fun i userBid => bidToInsert S i userBid 0 matchBids) 0 userBids = .ok bids ∧
        ∃ ids, allBidIds S (ascii "mevshare:v0:ethBundleSimResults") bids = .ok ids ∧
          buildAndEmit blockArgs blockHeight ids (ascii "mevshare:v0") = .ok ret := by
  simp only [buildMevShare, bind_eq_ok_iff, require_eq_ok_iff, ite_throw_eq_ok_iff, List.length_eq_zero_iff]
  constructor
  · rintro ⟨b, hb, -, rfl, matchBids, hmatch, userBids, huser, hne, bids, hbids, ids, hids, hret⟩
    exact ⟨hb, matchBids, hmatch, userBids, huser, hne, bids, hbids, ids, hids, hret⟩
  · rintro ⟨hb, matchBids, hmatch, userBids, huser, hne, bids, hbids, ids, hids, hret⟩
    exact ⟨true, hb, (), rfl, matchBids, hmatch, userBids, huser, hne, bids, hbids, ids, hids, hret⟩

/-- A `buildAndEmit` that accepts only these ids. -/
def acceptOnly (ids : List BidId) : BuildAndEmit :=
  fun _ _ ids' _ => if ids' = ids then pure [] else throw .empty

/-- The bids that the users' bids contribute. -/
theorem mapIdxFrom_bidToInsert_eq_ok_iff {matchBids userBids bids : List InnerBid} :
    mapIdxFrom (fun i userBid => bidToInsert S i userBid 0 matchBids) 0 userBids = .ok bids ↔
      bids.length = userBids.length ∧ ∀ i userBid, userBids[i]? = some userBid →
        ∃ bid, bids[i]? = some bid ∧ Contributes (NamesFirst S i) userBid matchBids bid := by
  rw [mapIdxFrom_eq_ok_iff]
  simp only [bidToInsert_eq_ok_iff, Nat.zero_add]

theorem passes_buildFromPool {bids : List InnerBid} (hconf : S.isConfidential = .ok true)
    (hbids : S.fetchBids blockHeight (ascii "default:v0:ethBundles") = .ok bids) (hne : bids ≠ [])
    (hids : allBidIds S (ascii "default:v0:ethBundleSimResults") bids = .ok ids) :
    Passes (buildFromPool S this · blockArgs blockHeight) blockArgs blockHeight ids [] := by
  intro buildAndEmit
  simp only [buildFromPool, hconf, hbids, hids, require, bind, Except.bind, pure, Except.pure, if_true]
  exact if_neg (by simpa using hne)

theorem passes_buildMevShare {matchBids userBids bids : List InnerBid}
    (hconf : S.isConfidential = .ok true)
    (hmatch : S.fetchBids blockHeight (ascii "mevshare:v0:matchBids") = .ok matchBids)
    (huser : S.fetchBids blockHeight (ascii "mevshare:v0:unmatchedBundles") = .ok userBids)
    (hne : userBids ≠ [])
    (hbids : mapIdxFrom (fun i userBid => bidToInsert S i userBid 0 matchBids) 0 userBids = .ok bids)
    (hids : allBidIds S (ascii "mevshare:v0:ethBundleSimResults") bids = .ok ids) :
    Passes (buildMevShare S this · blockArgs blockHeight) blockArgs blockHeight ids
      (ascii "mevshare:v0") := by
  intro buildAndEmit
  simp only [buildMevShare, hconf, hmatch, huser, hbids, hids, require, bind, Except.bind, pure,
    Except.pure, if_true]
  exact if_neg (by simpa using hne)

/-- **The order of the bids in a block.**  If `buildFromPool` comes to `buildAndEmit`, it passes the ids of
all bids that it has fetched, in the order of falling simulation results; and it comes there if there is
a bid and all results can be read.  `buildMevShare` does the same with one bid for each user's bid: the
first match bid that names it as its first merged id, or else the user's bid itself. -/
theorem passes_orderedByEgp (S : Suave) (this : Address) (blockArgs : EthBackend.BuildBlockArgs)
    (blockHeight : UInt64) :
    (∀ ids, Passes (buildFromPool S this · blockArgs blockHeight) blockArgs blockHeight ids [] →
      ∃ bids, S.fetchBids blockHeight (ascii "default:v0:ethBundles") = .ok bids ∧ bids ≠ [] ∧
        ids.Perm (bids.map InnerBid.id) ∧
        OrderedByEgp S (ascii "default:v0:ethBundleSimResults") bids ids) ∧
    (∀ bids, S.isConfidential = .ok true →
      S.fetchBids blockHeight (ascii "default:v0:ethBundles") = .ok bids → bids ≠ [] →
      (∀ i bid, bids[i]? = some bid →
        ∃ egp, StoredEgp S (ascii "default:v0:ethBundleSimResults") i bid egp) →
      ∃ ids, Passes (buildFromPool S this · blockArgs blockHeight) blockArgs blockHeight ids []) ∧
    (∀ ids, Passes (buildMevShare S this · blockArgs blockHeight) blockArgs blockHeight ids
        (ascii "mevshare:v0") →
      ∃ matchBids userBids bids,
        S.fetchBids blockHeight (ascii "mevshare:v0:matchBids") = .ok matchBids ∧
        S.fetchBids blockHeight (ascii "mevshare:v0:unmatchedBundles") = .ok userBids ∧ userBids ≠ [] ∧
        bids.length = userBids.length ∧
        (∀ i userBid, userBids[i]? = some userBid →
          ∃ bid, bids[i]? = some bid ∧ Contributes (NamesFirst S i) userBid matchBids bid) ∧
        ids.Perm (bids.map InnerBid.id) ∧
        OrderedByEgp S (ascii "mevshare:v0:ethBundleSimResults") bids ids) ∧
    (∀ matchBids userBids, S.isConfidential = .ok true →
      S.fetchBids blockHeight (ascii "mevshare:v0:matchBids") = .ok matchBids →
      S.fetchBids blockHeight (ascii "mevshare:v0:unmatchedBundles") = .ok userBids → userBids ≠ [] →
      (∀ i userBid, userBids[i]? = some userBid →
        ∃ bid, Contributes (NamesFirst S i) userBid matchBids bid ∧
          ∃ egp, StoredEgp S (ascii "mevshare:v0:ethBundleSimResults") i bid egp) →
      ∃ ids, Passes (buildMevShare S this · blockArgs blockHeight) blockArgs blockHeight ids
        (ascii "mevshare:v0")) := by
  refine ⟨?_, ?_, ?_, ?_⟩
  · intro ids hpasses
    have hok := (hpasses (acceptOnly ids)).trans (if_pos rfl)
    obtain ⟨-, bids, hbids, hne, ids', hids', haccept⟩ := buildFromPool_eq_ok_iff.mp hok
    obtain ⟨rfl, -⟩ := ite_else_throw_eq_ok_iff.mp haccept
    have hordered := orderedByEgp_of_allBidIds hne hids'
    exact ⟨bids, hbids, hne, hordered.perm, hordered⟩
  · intro bids hconf hbids hne hegps
    obtain ⟨ids, hids⟩ := exists_allBidIds hne hegps
    exact ⟨ids, passes_buildFromPool hconf hbids hne hids⟩
  · intro ids hpasses
    have hok := (hpasses (acceptOnly ids)).trans (if_pos rfl)
    obtain ⟨-, matchBids, hmatch, userBids, huser, hne, bids, hbids, ids', hids', haccept⟩ :=
      buildMevShare_eq_ok_iff.mp hok
    obtain ⟨rfl, -⟩ := ite_else_throw_eq_ok_iff.mp haccept
    obtain ⟨hlength, hcontributes⟩ := mapIdxFrom_bidToInsert_eq_ok_iff.mp hbids
    have hordered := orderedByEgp_of_allBidIds (ne_nil_of_length_eq hlength hne) hids'
    exact ⟨matchBids, userBids, bids, hmatch, huser, hne, hlength, hcontributes, hordered.perm, hordered⟩
  · intro matchBids userBids hconf hmatch huser hne hall
    have hinsert : ∀ i userBid, userBids[i]? = some userBid →
        ∃ bid, bidToInsert S i userBid 0 matchBids = .ok bid ∧
          ∃ egp, StoredEgp S (ascii "mevshare:v0:ethBundleSimResults") i bid egp := by
      intro i userBid hi
      obtain ⟨bid, hcontributes, hegp⟩ := hall i userBid hi
      exact ⟨bid, bidToInsert_eq_ok_iff.mpr (by simpa using hcontributes), hegp⟩
    obtain ⟨bids, hbids⟩ : ∃ bids, mapIdxFrom (fun i userBid => bidToInsert S i userBid 0 matchBids) 0
        userBids = .ok bids := by
      apply exists_mapIdxFrom_eq_ok
      intro i userBid hi
      obtain ⟨bid, hbid, -⟩ := hinsert i userBid hi
      exact ⟨bid, by simpa using hbid⟩
    obtain ⟨hlength, hresults⟩ := mapIdxFrom_eq_ok_iff.mp hbids
    have hegps : ∀ i bid, bids[i]? = some bid →
        ∃ egp, StoredEgp S (ascii "mevshare:v0:ethBundleSimResults") i bid egp := by
      intro i bid hi
      -- the bid is the one that the user's bid with this index contributes
      obtain ⟨hlt, -⟩ := List.getElem?_eq_some_iff.mp hi
      have huserBid := List.getElem?_eq_getElem (hlength ▸ hlt)
      obtain ⟨bid', hbid', hinserted⟩ := hresults i _ huserBid
      obtain ⟨bid'', hbid'', hegp⟩ := hinsert i _ huserBid
      rw [Nat.zero_add] at hinserted
      obtain rfl := Option.some.inj (hi.symm.trans hbid')
      obtain rfl := Except.ok.inj (hinserted.symm.trans hbid'')
      exact hegp
    obtain ⟨ids, hids⟩ := exists_allBidIds (ne_nil_of_length_eq hlength hne) hegps
    exact ⟨ids, passes_buildMevShare hconf hmatch huser hne hbids hids⟩

/-! ### A block from seven bids -/

def poolBid (id : BidId) (version : String) : Bid where
  id := id
  salt := 0
  decryptionCondition := 7
  allowedPeekers := some [allowedPeekerAny]
  allowedStores := none
  version := ascii version
  creationTx := none
  signature := []

/-- `abi.encode` of a simulation result. -/
def encodeUint64 (egp : UInt64) : Bytes := (Abi.Fields.cons (.uint .u64) .nil).pack (egp.toBitVec, ())

/-- `abi.decode` of a single value, as the ABI decoder of the node reads it. -/
def decodeValue (t : Abi.Typ) (data : Bytes) : Except Revert t.Val :=
  match (Abi.Fields.cons t .nil).unpack data with
  | .ok (v, ()) => .ok v
  | .error _ => .error .empty

theorem nodup_poolIds : ([1, 2, 3, 4, 5, 6, 7] : List BidId).Nodup := by decide

/-- Three bundles, three user bids, and a match bid for the second of these, with one tie in each pool. -/
def poolStore : TransactionalStore where
  sourceTx := none
  pendingBids :=
    [poolBid 1 "default:v0:ethBundles", poolBid 2 "default:v0:ethBundles",
      poolBid 3 "default:v0:ethBundles", poolBid 4 "mevshare:v0:unmatchedBundles",
      poolBid 5 "mevshare:v0:unmatchedBundles", poolBid 6 "mevshare:v0:matchBids",
      poolBid 7 "mevshare:v0:unmatchedBundles"]
  pendingWrites := some
    [⟨poolBid 1 "", 0xe, ascii "default:v0:ethBundleSimResults", encodeUint64 5⟩,
      ⟨poolBid 2 "", 0xe, ascii "default:v0:ethBundleSimResults", encodeUint64 9⟩,
      ⟨poolBid 3 "", 0xe, ascii "default:v0:ethBundleSimResults", encodeUint64 5⟩,
      ⟨poolBid 4 "", 0xe, ascii "mevshare:v0:ethBundleSimResults", encodeUint64 5⟩,
      ⟨poolBid 6 "", 0xe, ascii "mevshare:v0:ethBundleSimResults", encodeUint64 8⟩,
      ⟨poolBid 7 "", 0xe, ascii "mevshare:v0:ethBundleSimResults", encodeUint64 5⟩,
      ⟨poolBid 6 "", 0xe, ascii "mevshare:v0:mergedBids", SuaveAbi.encodeBidIds [5, 6]⟩]
  nodup := nodup_poolIds

def poolSuave : Suave :=
  Suave.onStore Rollback.mockRuntime.externals poolStore [some 0xe] Rollback.mockMoment
    (fun _ => Rollback.mockMoment) (fun _ => [])
    (fun data => (decodeValue (.uint .u64) data).map UInt64.ofBitVec)
    (decodeValue (.slice SuaveAbi.bidId))

def poolArgs : EthBackend.BuildBlockArgs := ⟨0, [], 0, 0, 0, 0, 0, []⟩

theorem passes_poolSuave :
    Passes (buildFromPool poolSuave 0xe · poolArgs 7) poolArgs 7 [2, 1, 3] [] ∧
      Passes (buildMevShare poolSuave 0xe · poolArgs 7) poolArgs 7 [6, 4, 7] (ascii "mevshare:v0") := by
  constructor
  · exact passes_buildFromPool rfl rfl (by decide +kernel) (by decide +kernel)
  · have hbids : mapIdxFrom (fun i userBid => bidToInsert poolSuave i userBid 0
        ([poolBid 6 "mevshare:v0:matchBids"].map Bid.toInnerBid)) 0
        ([poolBid 4 "mevshare:v0:unmatchedBundles", poolBid 5 "mevshare:v0:unmatchedBundles",
          poolBid 7 "mevshare:v0:unmatchedBundles"].map Bid.toInnerBid) =
        .ok ([poolBid 4 "mevshare:v0:unmatchedBundles", poolBid 6 "mevshare:v0:matchBids",
          poolBid 7 "mevshare:v0:unmatchedBundles"].map Bid.toInnerBid) := by
      decide +kernel
    exact passes_buildMevShare rfl rfl rfl (by decide +kernel) hbids (by decide +kernel)

/-- The call goes through on the store with its ties. -/
theorem passes_orderedByEgp_poolSuave :
    (∃ bids, poolSuave.fetchBids 7 (ascii "default:v0:ethBundles") = .ok bids ∧
      OrderedByEgp poolSuave (ascii "default:v0:ethBundleSimResults") bids [2, 1, 3]) ∧
    (∃ ids, Passes (buildFromPool poolSuave 0xe · poolArgs 7) poolArgs 7 ids []) ∧
    (∃ bids : List InnerBid, ([6, 4, 7] : List BidId).Perm (bids.map InnerBid.id) ∧
      OrderedByEgp poolSuave (ascii "mevshare:v0:ethBundleSimResults") bids [6, 4, 7]) ∧
    ∃ ids, Passes (buildMevShare poolSuave 0xe · poolArgs 7) poolArgs 7 ids (ascii "mevshare:v0") := by
  obtain ⟨hpool, hpool', hshare, hshare'⟩ := passes_orderedByEgp poolSuave 0xe poolArgs 7
  obtain ⟨bids, hbids, hne, -, hordered⟩ := hpool _ passes_poolSuave.1
  obtain ⟨matchBids, userBids, chosen, hmatch, huser, huserne, hlength, hchosen, hperm, hsharedOrdered⟩ :=
    hshare _ passes_poolSuave.2
  refine ⟨⟨bids, hbids, hordered⟩, ?_, ⟨chosen, hperm, hsharedOrdered⟩, ?_⟩
  · apply hpool' bids rfl hbids hne
    intro i bid hi
    obtain ⟨entries, -, -, hentries, -⟩ := hordered
    obtain ⟨entry, -, -, hegp⟩ := hentries i bid hi
    exact ⟨entry.egp, hegp⟩
  · apply hshare' matchBids userBids rfl hmatch huser huserne
    intro i userBid hi
    obtain ⟨bid, hbid, hcontributes⟩ := hchosen i userBid hi
    obtain ⟨entries, -, -, hentries, -⟩ := hsharedOrdered
    obtain ⟨entry, -, -, hegp⟩ := hentries i bid hbid
    exact ⟨bid, hcontributes, entry.egp, hegp⟩

end Suift.Peekers
