import Suift.CStore.Equiv.TransactionalStore
import Suift.Lib.Fallible
import Suift.Types.Equiv.Binary
import Suift.VM.Bundles
import Suift.VM.Equiv.Libraries

/-!
# Whose bundle data reaches a precompile's result

The access check of a precompile on a bid passes when everybody is allowed, or when the bid lists both
the precompile and another address on the caller stack (`exists_checkIsPrecompileCallAllowed_iff`).

`buildEthBlock` makes that check on the bids it is called with, directly or through a merged bid.  The
pair that a match bid names is read with a bare `Retrieve` under the precompile's address, which asks
only for the precompile to be listed.  `fillMevShareBundle` reads the pair through `confRetrieve`,
which asks only for a listed address on the stack, possibly the precompile itself.  So in both cases
one half of the check is missing on the pair (`sources_allowed_iff`).

The recorded sources are complete: the bundles do not depend on bundle data of any other bid
(`mergedBundles_of_agrees`, `inputs_of_agrees`).
-/

namespace Suift

open Fallible Text

variable {X : Externals} {ctx : SuaveContext}

/-! ### The access check -/

theorem innermost_isSome_iff {callerStack : List (Option Address)} {p : Address → Bool} :
    (innermost callerStack p).isSome ↔ ∃ c, some c ∈ callerStack ∧ p c := by
  unfold innermost
  rw [List.findSome?_isSome_iff]
  constructor
  · rintro ⟨x, hx, hsome⟩
    cases x with
    | none => exact absurd hsome (by simp)
    | some c =>
      refine ⟨c, List.mem_reverse.mp hx, ?_⟩
      simpa [Option.filter] using hsome
  · rintro ⟨c, hc, hp⟩
    exact ⟨some c, List.mem_reverse.mpr hc, by simp [Option.filter, hp]⟩

/-- The bid lists somebody on the caller stack other than the precompile. -/
def Bid.ListsCaller (ctx : SuaveContext) (precompile : Address) (bid : Bid) : Prop :=
  ∃ caller, some caller ∈ ctx.callerStack ∧ caller ≠ precompile ∧
    caller ∈ bid.allowedPeekers.elems

/-- Whom the check lets through. -/
theorem exists_checkIsPrecompileCallAllowed_iff {precompile : Address} {bid : Bid} :
    (∃ caller, checkIsPrecompileCallAllowed X ctx precompile bid = .ok caller) ↔
      allowedPeekerAny ∈ bid.allowedPeekers.elems ∨
        ((precompile ∈ bid.allowedPeekers.elems ∨ precompile = confStoreAddress ∨
            precompile = confRetrieveAddress) ∧ bid.ListsCaller ctx precompile) := by
  have hloop : (innermost ctx.callerStack fun caller =>
      caller ≠ precompile && bid.allowedPeekers.elems.contains caller).isSome ↔
      bid.ListsCaller ctx precompile := by
    rw [innermost_isSome_iff]
    simp [Bid.ListsCaller]
  unfold checkIsPrecompileCallAllowed
  by_cases hany : allowedPeekerAny ∈ bid.allowedPeekers.elems
  · simp [hany]
  · -- without the wildcard the precompile itself has to pass, and then one of its callers
    by_cases hself : precompile ∈ bid.allowedPeekers.elems ∨ precompile = confStoreAddress ∨
        precompile = confRetrieveAddress
    · have hpass : (!bid.allowedPeekers.elems.contains precompile &&
          decide (precompile ≠ confStoreAddress) && decide (precompile ≠ confRetrieveAddress)) =
          false := by
        rcases hself with h | h | h <;> simp [h]
      have hwild : bid.allowedPeekers.elems.contains allowedPeekerAny = false := by simpa using hany
      simp only [hwild, hpass, hany, hself, Bool.false_eq_true, if_false, false_or, true_and]
      rw [← hloop]
      cases innermost ctx.callerStack fun caller =>
        caller ≠ precompile && bid.allowedPeekers.elems.contains caller <;> simp
    · simp only [not_or] at hself
      simp [hany, hself]

/-- The id is that of a bid on which the check of `precompile` passes. -/
def CallAllowed (X : Externals) (ctx : SuaveContext) (precompile : Address) (id : BidId) : Prop :=
  ∃ bid caller, ctx.confidentialStore.fetchBidById id = .ok bid ∧
    checkIsPrecompileCallAllowed X ctx precompile bid = .ok caller

/-! ### Reading bundles -/

theorem exists_of_decodeBundle {data : Except GoError Bytes} {retrieving unmarshalling : GoString}
    {bundle : SBundle} (h : decodeBundle X data retrieving unmarshalling = .ok bundle) :
    ∃ bytes, data = .ok bytes := by
  simp only [decodeBundle, bind_eq_ok_iff, mapError_eq_ok_iff] at h
  obtain ⟨bytes, hdata, -⟩ := h
  exact ⟨bytes, hdata⟩

/-- The two bids of a matched pair have been read. -/
theorem exists_of_readMatchedPair {read : BidId → GoString → Except GoError Bytes}
    {matchBidIds : List BidId} {pair : MatchedPair} (h : readMatchedPair X read matchBidIds = .ok pair) :
    ∀ id ∈ [pair.userId, pair.matchId], ∃ bytes, read id (ascii "mevshare:v0:ethBundles") = .ok bytes := by
  simp only [readMatchedPair, bind_eq_ok_iff, pure_eq_ok_iff] at h
  obtain ⟨userId, -, userBundle, huser, matchId, -, matchBundle, hmatch, rfl⟩ := h
  simp only [List.forall_mem_cons, List.not_mem_nil, false_implies, implies_true, and_true]
  exact ⟨exists_of_decodeBundle huser, exists_of_decodeBundle hmatch⟩

namespace BuildEthBlock

theorem exists_of_singleBundle {bid : InnerBid} {key : String} {m : SourcedBundle}
    (h : singleBundle X ctx bid key = .ok m) :
    ∀ id ∈ m.sources, ∃ key bytes, read ctx id key = .ok bytes := by
  simp only [singleBundle, bind_eq_ok_iff, pure_eq_ok_iff] at h
  obtain ⟨bundle, hbundle, rfl⟩ := h
  intro id hid
  obtain rfl := List.mem_singleton.mp hid
  exact ⟨_, exists_of_decodeBundle hbundle⟩

/-- Every source of a bundle has been read under the precompile's address. -/
theorem exists_of_mergedBundle {bid : InnerBid} {m : SourcedBundle}
    (h : mergedBundle X ctx bid = .ok m) :
    ∀ id ∈ m.sources, ∃ key bytes, read ctx id key = .ok bytes := by
  unfold mergedBundle at h
  split_ifs at h
  · -- a match bid: the pair it names
    simp only [matchedBundle, bind_eq_ok_iff, mapError_eq_ok_iff, pure_eq_ok_iff] at h
    obtain ⟨_, -, _, -, pair, hpair, rfl⟩ := h
    intro id hid
    exact ⟨_, exists_of_readMatchedPair hpair id hid⟩
  · exact exists_of_singleBundle h
  · exact exists_of_singleBundle h

theorem callAllowed_of_bidToMerge {bidId : BidId} {bid : InnerBid}
    (h : bidToMerge X ctx bidId = .ok bid) : CallAllowed X ctx buildEthBlockAddress bid.id := by
  simp only [bidToMerge, bind_eq_ok_iff, mapError_eq_ok_iff, pure_eq_ok_iff] at h
  obtain ⟨b, hfetch, caller, hcheck, rfl⟩ := h
  refine ⟨b, caller, ?_, hcheck⟩
  rw [show b.toInnerBid.id = bidId from ctx.confidentialStore.id_eq bidId b hfetch]
  exact hfetch

/-- A bundle with a single source is that of a bid which has been checked. -/
theorem callAllowed_of_mergedBundle {bid : InnerBid} {m : SourcedBundle} {id : BidId}
    (h : mergedBundle X ctx bid = .ok m)
    (hbid : CallAllowed X ctx buildEthBlockAddress bid.id) (hid : m.sources = [id]) :
    CallAllowed X ctx buildEthBlockAddress id := by
  have hsingle : ∀ key, singleBundle X ctx bid key = .ok m → id = bid.id := by
    intro key hkey
    simp only [singleBundle, bind_eq_ok_iff, pure_eq_ok_iff] at hkey
    obtain ⟨bundle, -, rfl⟩ := hkey
    exact (List.singleton_inj.mp hid).symm
  unfold mergedBundle at h
  split_ifs at h
  · simp only [matchedBundle, bind_eq_ok_iff, pure_eq_ok_iff] at h
    obtain ⟨_, -, _, -, pair, -, rfl⟩ := h
    exact absurd hid (by simp)
  · rw [hsingle _ h]
    exact hbid
  · rw [hsingle _ h]
    exact hbid

/-- Each merged bundle is made from a bid that has been checked. -/
theorem exists_of_mergedBundles {bidId : BidId} {merged : List SourcedBundle}
    (h : mergedBundles X ctx bidId = .ok merged) {m : SourcedBundle} (hm : m ∈ merged) :
    ∃ bid, mergedBundle X ctx bid = .ok m ∧ CallAllowed X ctx buildEthBlockAddress bid.id := by
  simp only [mergedBundles, bind_eq_ok_iff] at h
  obtain ⟨ids, -, bids, hbids, hmerged⟩ := h
  obtain ⟨bid, hbid, hbundle⟩ := exists_of_mapM_eq_ok hmerged m hm
  obtain ⟨id, -, hid⟩ := exists_of_mapM_eq_ok hbids bid hbid
  exact ⟨bid, hbundle, callAllowed_of_bidToMerge hid⟩

/-- A source of a merged bundle lists the precompile, or allows everybody. -/
theorem exists_bid_of_source {bidId : BidId} {merged : List SourcedBundle}
    (h : mergedBundles X ctx bidId = .ok merged) {m : SourcedBundle} (hm : m ∈ merged) {id : BidId}
    (hid : id ∈ m.sources) :
    ∃ bid, ctx.confidentialStore.fetchBidById id = .ok bid ∧ bid.allows buildEthBlockAddress := by
  obtain ⟨bid, hbundle, -⟩ := exists_of_mergedBundles h hm
  obtain ⟨key, bytes, hread⟩ := exists_of_mergedBundle hbundle id hid
  exact ctx.confidentialStore.allows_of_retrieve id _ key bytes hread

end BuildEthBlock

theorem callAllowed_of_confRetrieve {id : BidId} {key : GoString} {data : Bytes}
    (h : confRetrieve X ctx id key = .ok data) : CallAllowed X ctx confRetrieveAddress id := by
  simp only [confRetrieve, bind_eq_ok_iff, mapError_eq_ok_iff] at h
  obtain ⟨bid, hfetch, caller, hcheck, -⟩ := h
  exact ⟨bid, caller, hfetch, hcheck⟩

/-- The bids of the pair have passed the check of `confRetrieve`. -/
theorem FillMevShareBundle.callAllowed_confRetrieve {bidId : BidId} {bid : Bid} {pair : MatchedPair}
    (h : inputs X ctx bidId = .ok (bid, pair)) :
    ∀ id ∈ [pair.userId, pair.matchId], CallAllowed X ctx confRetrieveAddress id := by
  simp only [inputs, bind_eq_ok_iff, pure_eq_ok_iff] at h
  obtain ⟨_, -, _, -, _, -, _, -, _, hpair, heq⟩ := h
  cases heq
  intro id hid
  obtain ⟨bytes, hread⟩ := exists_of_readMatchedPair hpair id hid
  exact callAllowed_of_confRetrieve hread

theorem callAllowed_iff {precompile : Address} {id : BidId} {bid : Bid}
    (hbid : ctx.confidentialStore.fetchBidById id = .ok bid) :
    CallAllowed X ctx precompile id ↔
      ∃ caller, checkIsPrecompileCallAllowed X ctx precompile bid = .ok caller := by
  constructor
  · rintro ⟨b, caller, hb, hcheck⟩
    rw [hbid] at hb
    cases hb
    exact ⟨caller, hcheck⟩
  · rintro ⟨caller, hcheck⟩
    exact ⟨bid, caller, hbid, hcheck⟩

/-- **Whose data the bundle precompiles use.**  In a successful `buildEthBlock` the check passes on
every bid that contributes a bundle of its own; it passes on all contributing bids exactly when each of
them allows everybody or lists some caller other than the precompile.  In a successful
`fillMevShareBundle` the two matched bids have passed the check of `confRetrieve`; that of the
precompile passes on them exactly when each of them allows everybody, or lists the precompile and some
other caller. -/
theorem sources_allowed_iff (X : Externals) (ctx : SuaveContext) (bidId : BidId) :
    (∀ merged, BuildEthBlock.mergedBundles X ctx bidId = .ok merged →
      (∀ m ∈ merged, ∀ id, m.sources = [id] → CallAllowed X ctx buildEthBlockAddress id) ∧
      ((∀ m ∈ merged, ∀ id ∈ m.sources, CallAllowed X ctx buildEthBlockAddress id) ↔
        ∀ m ∈ merged, ∀ id ∈ m.sources, ∃ bid, ctx.confidentialStore.fetchBidById id = .ok bid ∧
          (allowedPeekerAny ∈ bid.allowedPeekers.elems ∨
            bid.ListsCaller ctx buildEthBlockAddress))) ∧
    (∀ bid pair, FillMevShareBundle.inputs X ctx bidId = .ok (bid, pair) →
      (∀ id ∈ [pair.userId, pair.matchId], CallAllowed X ctx confRetrieveAddress id) ∧
      ((∀ id ∈ [pair.userId, pair.matchId], CallAllowed X ctx fillMevShareBundleAddress id) ↔
        ∀ id ∈ [pair.userId, pair.matchId], ∃ b, ctx.confidentialStore.fetchBidById id = .ok b ∧
          (allowedPeekerAny ∈ b.allowedPeekers.elems ∨
            (fillMevShareBundleAddress ∈ b.allowedPeekers.elems ∧
              b.ListsCaller ctx fillMevShareBundleAddress)))) := by
  refine ⟨?_, ?_⟩
  · intro merged hmerged
    refine ⟨?_, ?_⟩
    · intro m hm id hid
      obtain ⟨bid, hbundle, hbid⟩ := BuildEthBlock.exists_of_mergedBundles hmerged hm
      exact BuildEthBlock.callAllowed_of_mergedBundle hbundle hbid hid
    · -- source by source: being read already means that the precompile is listed
      have hsource : ∀ m ∈ merged, ∀ id ∈ m.sources,
          (CallAllowed X ctx buildEthBlockAddress id ↔
            ∃ bid, ctx.confidentialStore.fetchBidById id = .ok bid ∧
              (allowedPeekerAny ∈ bid.allowedPeekers.elems ∨
                bid.ListsCaller ctx buildEthBlockAddress)) := by
        intro m hm id hid
        obtain ⟨bid, hbid, hallows⟩ := BuildEthBlock.exists_bid_of_source hmerged hm hid
        have hself : buildEthBlockAddress ∈ bid.allowedPeekers.elems ∨
            allowedPeekerAny ∈ bid.allowedPeekers.elems := by simpa [Bid.allows] using hallows
        rw [callAllowed_iff hbid, exists_checkIsPrecompileCallAllowed_iff, hbid]
        simp only [Except.ok.injEq, exists_eq_left']
        rcases hself with hself | hself
        · simp [hself]
        · simp [hself]
      constructor
      · intro hall m hm id hid
        exact (hsource m hm id hid).mp (hall m hm id hid)
      · intro hall m hm id hid
        exact (hsource m hm id hid).mpr (hall m hm id hid)
  · intro bid pair hinputs
    have hsource : ∀ id, CallAllowed X ctx fillMevShareBundleAddress id ↔
        ∃ b, ctx.confidentialStore.fetchBidById id = .ok b ∧
          (allowedPeekerAny ∈ b.allowedPeekers.elems ∨
            (fillMevShareBundleAddress ∈ b.allowedPeekers.elems ∧
              b.ListsCaller ctx fillMevShareBundleAddress)) := by
      intro id
      have hstore : fillMevShareBundleAddress ≠ confStoreAddress := by decide
      have hretrieve : fillMevShareBundleAddress ≠ confRetrieveAddress := by decide
      unfold CallAllowed
      simp only [exists_and_left, exists_checkIsPrecompileCallAllowed_iff, hstore, hretrieve, or_false]
    refine ⟨FillMevShareBundle.callAllowed_confRetrieve hinputs, ?_⟩
    simp only [hsource]

/-! ### The sources are all there is -/

/-- The keys that bundle data is stored under. -/
def bundleKeys : List GoString := [ascii "mevshare:v0:ethBundles", ascii "default:v0:ethBundles"]

/-- `S'` differs from `S` at most in the bundle data of bids that are not in `ids`. -/
structure ConfidentialStore.Agrees (S S' : ConfidentialStore) (ids : List BidId) : Prop where
  fetchBidById : ∀ id, S'.fetchBidById id = S.fetchBidById id
  retrieve : ∀ id caller key, id ∈ ids ∨ key ∉ bundleKeys →
    S'.retrieve id caller key = S.retrieve id caller key

theorem readMatchedPair_of_agrees {read read' : BidId → GoString → Except GoError Bytes}
    {matchBidIds : List BidId} {pair : MatchedPair} (h : readMatchedPair X read matchBidIds = .ok pair)
    (hread : ∀ id ∈ [pair.userId, pair.matchId], ∀ key, read' id key = read id key) :
    readMatchedPair X read' matchBidIds = .ok pair := by
  simp only [readMatchedPair, bind_eq_ok_iff, pure_eq_ok_iff] at h ⊢
  obtain ⟨userId, huserId, userBundle, huser, matchId, hmatchId, matchBundle, hmatch, rfl⟩ := h
  have huserRead := hread userId (by simp)
  have hmatchRead := hread matchId (by simp)
  exact ⟨userId, huserId, userBundle, by rw [huserRead]; exact huser, matchId, hmatchId, matchBundle,
    by rw [hmatchRead]; exact hmatch, rfl⟩

section Agrees

variable {S' : ConfidentialStore}

theorem BuildEthBlock.mergedBundle_of_agrees {bid : InnerBid} {m : SourcedBundle}
    (h : mergedBundle X ctx bid = .ok m) (hS : ctx.confidentialStore.Agrees S' m.sources) :
    mergedBundle X { ctx with confidentialStore := S' } bid = .ok m := by
  have hsingle : ∀ key, singleBundle X ctx bid key = .ok m →
      singleBundle X { ctx with confidentialStore := S' } bid key = .ok m := by
    intro key hkey
    simp only [singleBundle, bind_eq_ok_iff, pure_eq_ok_iff] at hkey ⊢
    obtain ⟨bundle, hbundle, rfl⟩ := hkey
    refine ⟨bundle, ?_, rfl⟩
    rw [read, hS.retrieve _ _ _ (.inl List.mem_cons_self)]
    exact hbundle
  unfold mergedBundle at h ⊢
  split_ifs at h ⊢
  · simp only [matchedBundle, bind_eq_ok_iff, pure_eq_ok_iff] at h ⊢
    obtain ⟨bytes, hbytes, ids, hids, pair, hpair, rfl⟩ := h
    refine ⟨bytes, ?_, ids, hids, pair, ?_, rfl⟩
    · -- the ids of the pair are not bundle data
      rw [read, hS.retrieve _ _ _ (.inr (by decide))]
      exact hbytes
    · exact readMatchedPair_of_agrees hpair fun id hid key => hS.retrieve id _ key (.inl hid)
  · exact hsingle _ h
  · exact hsingle _ h

/-- The merged bundles are made from the bundle data of their sources alone. -/
theorem BuildEthBlock.mergedBundles_of_agrees {bidId : BidId} {merged : List SourcedBundle}
    (h : mergedBundles X ctx bidId = .ok merged)
    (hS : ctx.confidentialStore.Agrees S' (merged.flatMap SourcedBundle.sources)) :
    mergedBundles X { ctx with confidentialStore := S' } bidId = .ok merged := by
  have hids : bidIds X { ctx with confidentialStore := S' } bidId = bidIds X ctx bidId := by
    unfold bidIds
    rw [read, hS.retrieve _ _ _ (.inr (by decide))]
    rfl
  have hbid : bidToMerge X { ctx with confidentialStore := S' } = bidToMerge X ctx := by
    funext id
    unfold bidToMerge
    rw [hS.fetchBidById]
    rfl
  simp only [mergedBundles, bind_eq_ok_iff, hids, hbid] at h ⊢
  obtain ⟨ids, hids, bids, hbids, hmerged⟩ := h
  refine ⟨ids, hids, bids, hbids, mapM_eq_ok_of_forall hmerged ?_⟩
  intro bid m hm hbundle
  refine mergedBundle_of_agrees hbundle ⟨hS.fetchBidById, ?_⟩
  intro id caller key hkey
  refine hS.retrieve id caller key (hkey.imp_left fun hid => ?_)
  exact List.mem_flatMap.mpr ⟨m, hm, hid⟩

theorem confRetrieve_of_agrees {ids : List BidId} (hS : ctx.confidentialStore.Agrees S' ids)
    {id : BidId} {key : GoString} (hkey : id ∈ ids ∨ key ∉ bundleKeys) :
    confRetrieve X { ctx with confidentialStore := S' } id key = confRetrieve X ctx id key := by
  unfold confRetrieve
  simp only [hS.fetchBidById, hS.retrieve id _ key hkey]
  rfl

/-- The filled bundle is made from the bundle data of the pair alone. -/
theorem FillMevShareBundle.inputs_of_agrees {bidId : BidId} {bid : Bid} {pair : MatchedPair}
    (h : inputs X ctx bidId = .ok (bid, pair))
    (hS : ctx.confidentialStore.Agrees S' [pair.userId, pair.matchId]) :
    inputs X { ctx with confidentialStore := S' } bidId = .ok (bid, pair) := by
  simp only [inputs, bind_eq_ok_iff, pure_eq_ok_iff, hS.fetchBidById] at h ⊢
  obtain ⟨b, hb, caller, hcheck, bytes, hbytes, ids, hids, p, hpair, heq⟩ := h
  cases heq
  refine ⟨bid, hb, caller, hcheck, bytes, ?_, ids, hids, pair, ?_, rfl⟩
  · rw [confRetrieve_of_agrees hS (.inr (by decide))]
    exact hbytes
  · exact readMatchedPair_of_agrees hpair fun id hid key => confRetrieve_of_agrees hS (.inl hid)

end Agrees

/-! ### Who names the pair -/

theorem ids_of_readMatchedPair {read : BidId → GoString → Except GoError Bytes} {userId matchId : BidId}
    {others : List BidId} {pair : MatchedPair}
    (h : readMatchedPair X read (userId :: matchId :: others) = .ok pair) :
    pair.userId = userId ∧ pair.matchId = matchId := by
  simp only [readMatchedPair, bind_eq_ok_iff, pure_eq_ok_iff] at h
  obtain ⟨_, huser, _, -, _, hmatch, _, -, rfl⟩ := h
  exact ⟨(Except.ok.inj huser).symm, (Except.ok.inj hmatch).symm⟩

/-- The pair of a match bid is the one that its contract has stored with `abi.encode`. -/
theorem FillMevShareBundle.pair_of_encodeBidIds (hX : X.unpackBidIds = unpackBidIds) {bidId : BidId}
    {bid : Bid} {pair : MatchedPair} {userId matchId : BidId} {others : List BidId}
    (h : inputs X ctx bidId = .ok (bid, pair))
    (hdata : confRetrieve X ctx bidId (ascii "mevshare:v0:mergedBids") =
      .ok (SuaveAbi.encodeBidIds (userId :: matchId :: others)))
    (hlength : (SuaveAbi.encodeBidIds (userId :: matchId :: others)).length < 2 ^ 63) :
    pair.userId = userId ∧ pair.matchId = matchId := by
  simp only [inputs, hdata, hX, bind_eq_ok_iff, mapError_eq_ok_iff, pure_eq_ok_iff, Prod.mk.injEq] at h
  obtain ⟨_, -, _, -, _, hbytes, _, hids, _, hpair, -, rfl⟩ := h
  obtain rfl := Except.ok.inj hbytes
  rw [unpackBidIds_encodeBidIds hlength] at hids
  obtain rfl := Except.ok.inj hids
  exact ids_of_readMatchedPair hpair

/-! ### A store that is one, and match bids that name somebody else's bids -/

/-- A transactional store on a local store is what the precompiles work with. -/
def TransactionalStore.confidentialStore (t : TransactionalStore) (C : EngineConfig)
    {l : LocalConfidentialStore} (hl : l.WF) : ConfidentialStore where
  fetchBidById := t.fetchBidById (C.engine LocalConfidentialStore.backend) l
  fetchBidsByProtocolAndBlock := t.fetchBidsByProtocolAndBlock (C.engine LocalConfidentialStore.backend) l
  retrieve := t.retrieve (C.engine LocalConfidentialStore.backend) l
  id_eq _ _ h := TransactionalStore.fetchBidById_id hl h
  allows_of_retrieve id caller key data h := by
    simp only [TransactionalStore.retrieve, bind_eq_ok_iff, ite_throw_eq_ok_iff] at h
    obtain ⟨bid, hbid, hallows, -⟩ := h
    exact ⟨bid, hbid, by simpa using hallows⟩

/-- A bid with one precompile and one contract as its peekers. -/
def contractBid (id : BidId) (precompile contract : Address) (version : String) : Bid where
  id := id
  salt := 0
  decryptionCondition := 0
  allowedPeekers := some [precompile, contract]
  allowedStores := none
  version := ascii version
  creationTx := some mockRequest
  signature := []

theorem nodup_matchIds : ([1, 2, 3] : List BidId).Nodup := by decide

/-- The bundles of the bids `1` and `2`, which are for `buildEthBlock` and a contract each, and the match
bid `3` for a precompile and the contract `0xa`, which names the two. -/
def matchStore (contract precompile : Address) : TransactionalStore where
  sourceTx := some mockRequest
  pendingBids :=
    [contractBid 1 buildEthBlockAddress contract "mevshare:v0:unmatchedBundles",
      contractBid 2 buildEthBlockAddress 0xa "mevshare:v0:unmatchedBundles",
      contractBid 3 precompile 0xa "mevshare:v0:matchBids"]
  pendingWrites := some
    [⟨contractBid 1 buildEthBlockAddress contract "mevshare:v0:unmatchedBundles", contract,
        ascii "mevshare:v0:ethBundles", ascii "\x7b\x7d"⟩,
      ⟨contractBid 2 buildEthBlockAddress 0xa "mevshare:v0:unmatchedBundles", 0xa,
        ascii "mevshare:v0:ethBundles", ascii "\x7b\x7d"⟩,
      ⟨contractBid 3 precompile 0xa "mevshare:v0:matchBids", 0xa, ascii "mevshare:v0:mergedBids",
        SuaveAbi.encodeBidIds [1, 2]⟩]
  nodup := nodup_matchIds

def sampleExternals : Externals :=
  goExternals noEthereum (fun _ => []) (fun _ => []) (fun _ => []) (fun _ => [])

/-- Contract `0xa` calls the precompile. -/
def matchContext (contract precompile : Address) : SuaveContext where
  confidentialStore := (matchStore contract precompile).confidentialStore mockConfig
    LocalConfidentialStore.empty_wf
  callerStack := [some 0xa, some precompile]

theorem fetchBidById_matchContext (contract precompile : Address) :
    (matchContext contract precompile).confidentialStore.fetchBidById 1 =
      .ok (contractBid 1 buildEthBlockAddress contract "mevshare:v0:unmatchedBundles") := rfl

/-- Contract `0xa` gets the bundle of the bid `1` into its block although that bid, which is for the contract
`0xb`, lists nobody on the caller stack but the precompile.  And it gets a bundle filled with the bid `1`
although that bid, which is for `0xa` this time, does not list the precompile. -/
theorem exists_source_not_allowed :
    (¬ ∀ (X : Externals) (ctx : SuaveContext) (bidId : BidId) (merged : List SourcedBundle),
      BuildEthBlock.mergedBundles X ctx bidId = .ok merged →
        ∀ m ∈ merged, ∀ id ∈ m.sources, CallAllowed X ctx buildEthBlockAddress id) ∧
    ¬ ∀ (X : Externals) (ctx : SuaveContext) (bidId : BidId) (bid : Bid) (pair : MatchedPair) (out : Bytes),
      FillMevShareBundle.inputs X ctx bidId = .ok (bid, pair) →
        FillMevShareBundle.runImpl X ctx bidId = .ok out →
        ∀ id ∈ [pair.userId, pair.matchId], CallAllowed X ctx fillMevShareBundleAddress id := by
  constructor
  · intro hall
    have hmerged : BuildEthBlock.mergedBundles sampleExternals (matchContext 0xb buildEthBlockAddress) 3 =
        .ok [⟨⟨some 0, [], [], none⟩, [1, 2]⟩] := by
      decide +kernel
    have hrefused : (checkIsPrecompileCallAllowed sampleExternals (matchContext 0xb buildEthBlockAddress)
        buildEthBlockAddress (contractBid 1 buildEthBlockAddress 0xb "mevshare:v0:unmatchedBundles")).isOk =
          false := by
      decide +kernel
    have hallowed := hall _ _ _ _ hmerged _ List.mem_cons_self 1 List.mem_cons_self
    obtain ⟨caller, hcheck⟩ := (callAllowed_iff (fetchBidById_matchContext _ _)).mp hallowed
    rw [hcheck] at hrefused
    cases hrefused
  · intro hall
    have hlength : (SuaveAbi.encodeBidIds [1, 2]).length < 2 ^ 63 := by decide +kernel
    have hdata : confRetrieve sampleExternals (matchContext 0xa fillMevShareBundleAddress) 3
        (ascii "mevshare:v0:mergedBids") = .ok (SuaveAbi.encodeBidIds [1, 2]) := by
      decide +kernel
    have hrun : (FillMevShareBundle.runImpl sampleExternals (matchContext 0xa fillMevShareBundleAddress)
        3).isOk = true := by
      decide +kernel
    have hrefused : (checkIsPrecompileCallAllowed sampleExternals
        (matchContext 0xa fillMevShareBundleAddress) fillMevShareBundleAddress
        (contractBid 1 buildEthBlockAddress 0xa "mevshare:v0:unmatchedBundles")).isOk = false := by
      decide +kernel
    cases hout : FillMevShareBundle.runImpl sampleExternals (matchContext 0xa fillMevShareBundleAddress) 3 with
    | error err =>
      rw [hout] at hrun
      cases hrun
    | ok out =>
      obtain ⟨⟨bid, pair⟩, hinputs, -⟩ := bind_eq_ok_iff.mp hout
      obtain ⟨huser, -⟩ := FillMevShareBundle.pair_of_encodeBidIds rfl hinputs hdata hlength
      have hallowed := hall _ _ _ _ _ _ hinputs hout pair.userId List.mem_cons_self
      rw [huser] at hallowed
      obtain ⟨caller, hcheck⟩ := (callAllowed_iff (fetchBidById_matchContext _ _)).mp hallowed
      rw [hcheck] at hrefused
      cases hrefused

end Suift
