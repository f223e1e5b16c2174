import Suift.CStore.Equiv.Panics
import Suift.Types.Equiv.Binary
import Suift.VM.EthBackend
import Suift.VM.Equiv.Bundles
import Suift.VM.Libraries

/-!
# When the bundle precompiles panic

Each of the four trusts data that somebody else has written.

* `simulateBundle` reads through the envelope of the backend, whose fields are `nil` after a reply of `null`;
  for a block that uses no gas it returns a `nil` number with a `nil` error, which its caller reads.
* `extractHint` takes the first transaction of a bundle and reads its recipient, which a contract creation
  does not have.
* `buildEthBlock` and `fillMevShareBundle` take the first two ids of a pair, of which there may be less; the
  second one only after the first bundle has been read (`ShortPair`).
* `buildEthBlock` reads the withdrawals of the block through pointers, and converts a bloom filter of any
  length (`UnreadableBlock`).

Nothing else makes them panic, as long as the libraries, the store and the backend return normally.
-/

namespace Suift

open Fallible Text Json Hexutil

/-! ### Libraries that return normally -/

structure Externals.Total (X : Externals) : Prop where
  unpackBidIds : ∀ data, ¬ Panics (X.unpackBidIds data)
  unmarshalSBundle : ∀ data, ¬ Panics (X.unmarshalSBundle data)
  marshalBinary : ∀ tx, ¬ Panics (X.marshalBinary tx)
  marshalShareBundle : ∀ bundle, ¬ Panics (X.marshalShareBundle bundle)

structure ConfidentialStore.Total (S : ConfidentialStore) : Prop where
  fetchBidById : ∀ id, ¬ Panics (S.fetchBidById id)
  retrieve : ∀ id caller key, ¬ Panics (S.retrieve id caller key)

structure EthBackend.Total (eth : EthBackend) : Prop where
  buildEthBlock : ∀ txs, ¬ Panics (eth.buildEthBlock txs)
  buildEthBlockFromBundles : ∀ blockArgs bundles, ¬ Panics (eth.buildEthBlockFromBundles blockArgs bundles)

structure BuildEthBlock.BlockLibraries.Total (L : BlockLibraries) : Prop where
  fromBig : ∀ n, ¬ Panics (L.fromBig n)
  publicKeyFromSecretKey : ¬ Panics L.publicKeyFromSecretKey
  blsPublicKeyToPublicKey : ∀ pk, ¬ Panics (L.blsPublicKeyToPublicKey pk)
  signMessage : ∀ message, ¬ Panics (L.signMessage message)
  marshalBidRequest : ∀ request, ¬ Panics (L.marshalBidRequest request)
  marshalEnvelope : ∀ envelope, ¬ Panics (L.marshalEnvelope envelope)

@[simp]
theorem isPanic_panic (text : GoString) : (GoError.panic text).IsPanic := trivial

@[simp]
theorem not_isPanic_new (text : String) : ¬ (GoError.new text).IsPanic := id

@[simp]
theorem isPanic_nilDereference : nilDereference.IsPanic := trivial

@[simp]
theorem isPanic_replaceWith_errBidNotFound (err : GoError) :
    (errBidNotFound.replaceWith err).IsPanic ↔ err.IsPanic := by
  cases err <;> rfl

@[simp]
theorem not_isPanic_toGoError (err : UnpackError) : ¬ err.toGoError.IsPanic := by
  cases err <;> exact id

theorem not_panics_errTxTypeNotSupported {α : Type} :
    ¬ Panics (.error errTxTypeNotSupported : Except GoError α) := by
  rintro ⟨_, herr, hpanic⟩
  cases herr
  exact hpanic

@[simp]
theorem not_panics_ok {α : Type} (a : α) : ¬ Panics (.ok a : Except GoError α) := not_fails_pure a

@[simp]
theorem panics_error_iff {α : Type} {err : GoError} : Panics (.error err : Except GoError α) ↔ err.IsPanic :=
  fails_throw_iff

/-! ### The codecs of the source -/

structure EthBinary.Total (U : EthBinary) : Prop where
  marshal : ∀ tx, ¬ Panics (U.marshal tx)
  unmarshalLegacy : ∀ b, ¬ Panics (U.unmarshalLegacy b)
  decode : ∀ type b, ¬ Panics (U.decode type b)

theorem not_panics_unpackBidIds (data : Bytes) : ¬ Panics (unpackBidIds data) := by
  simp only [Panics, unpackBidIds, fails_ite_throw_iff, not_fails_pure, GoError.isPanic_error,
    not_isPanic_new, and_false, or_self, not_false_iff]

theorem not_panics_decodeStruct (typ : String) (fields : Rlp.Fields) (b : Bytes) :
    ¬ Panics (decodeStruct typ fields b) := by
  intro h
  obtain ⟨_, -, hpanic⟩ :=
    (fails_mapError_iff (x := (Rlp.Schema.struct typ fields).decode.decodeBytes typ b)).mp h
  exact hpanic

theorem not_panics_unmarshalBinary {U : EthBinary} (hU : U.Total) (b : Bytes) :
    ¬ Panics (unmarshalBinary U b) := by
  unfold unmarshalBinary
  split_ifs
  · simp [hU.unmarshalLegacy]
  · unfold decodeTyped
    split
    · simp [errShortTypedTx]
    · simp [errShortTypedTx]
    · split_ifs
      · simp [hU.decode]
      · simp [not_panics_decodeStruct]
      · simp [not_panics_decodeStruct]
      · exact not_panics_errTxTypeNotSupported

theorem not_panics_unmarshalSBundle {U : EthBinary} (hU : U.Total) (jsonError : Bytes → GoString)
    (data : Bytes) : ¬ Panics (unmarshalSBundle U jsonError data) := by
  have htxs : ∀ txs : List Bytes, ¬ Panics (txs.mapM (unmarshalBinary U)) :=
    fun txs => not_fails_mapM fun b _ => not_panics_unmarshalBinary hU b
  unfold unmarshalSBundle
  cases (parse data).bind (sbundleFormat.decode {}) with
  | none => simp
  | some rpcSBundle => simp [htxs]

theorem total_goExternals {U : EthBinary} (hU : U.Total) (jsonError : Bytes → GoString)
    (precompileAddressToName : Address → GoString) (formatInnerBid : InnerBid → GoString)
    (formatBid : Bid → GoString) :
    (goExternals U jsonError precompileAddressToName formatInnerBid formatBid).Total where
  unpackBidIds := not_panics_unpackBidIds
  unmarshalSBundle := not_panics_unmarshalSBundle hU jsonError
  marshalBinary tx := by
    show ¬ Panics (marshalBinary U tx)
    cases tx with
    | ethereum tx => exact hU.marshal tx
    | record tx => exact not_panics_ok _
    | request tx => exact not_panics_ok _
    | suave tx => exact not_panics_ok _
  marshalShareBundle _ := not_panics_ok _

/-- A transaction on a local store reads it without panicking. -/
theorem total_confidentialStore (t : TransactionalStore) (C : EngineConfig) {l : LocalConfidentialStore}
    (hl : l.WF) : (t.confidentialStore C hl).Total := by
  have hstored : ∀ id, ¬ Panics (LocalConfidentialStore.fetchBidById l id) := by
    intro id
    unfold LocalConfidentialStore.fetchBidById
    split
    · simp
    · exact not_panics_ok _
  have hfetch : ∀ id, ¬ Panics (t.fetchBidById (C.engine LocalConfidentialStore.backend) l id) := by
    intro id
    unfold TransactionalStore.fetchBidById
    split
    · exact not_panics_ok _
    · exact hstored id
  have hvalue : ∀ bid caller key, ¬ Panics (LocalConfidentialStore.retrieve l bid caller key) := by
    intro bid caller key
    unfold LocalConfidentialStore.retrieve
    split
    · simp
    · exact not_panics_ok _
  refine ⟨hfetch, ?_⟩
  intro id caller key
  show ¬ Panics (t.retrieve (C.engine LocalConfidentialStore.backend) l id caller key)
  have hengine : ¬ Panics ((C.engine LocalConfidentialStore.backend).retrieve l id caller key) := by
    unfold ConfidentialStoreEngine.retrieve
    have hstored' : ¬ Fails GoError.IsPanic (LocalConfidentialStore.backend.fetchBidById l id) := hstored id
    have hvalue' : ∀ bid, ¬ Fails GoError.IsPanic (LocalConfidentialStore.backend.retrieve l bid caller key) :=
      fun bid => hvalue bid caller key
    simp [hstored', hvalue']
  unfold TransactionalStore.retrieve
  simp only [Panics, fails_bind_iff, hfetch id, false_or]
  rintro ⟨bid, -, hpanics⟩
  rw [fails_ite_throw_iff] at hpanics
  rcases hpanics with ⟨-, h⟩ | ⟨-, h⟩
  · exact h
  · split at h
    · exact not_panics_ok _ h
    · exact hengine h

/-! ### Reading a pair -/

section Read

variable {X : Externals} {ctx : SuaveContext}

theorem not_panics_checkIsPrecompileCallAllowed {precompile : Address} {bid : Bid} :
    ¬ Panics (checkIsPrecompileCallAllowed X ctx precompile bid) := by
  unfold checkIsPrecompileCallAllowed
  dsimp only
  split_ifs
  · exact not_panics_ok _
  · simp
  · split
    · exact not_panics_ok _
    · simp

theorem not_panics_confRetrieve (hS : ctx.confidentialStore.Total) (bidId : BidId) (key : GoString) :
    ¬ Panics (confRetrieve X ctx bidId key) := by
  unfold confRetrieve
  simp [hS.fetchBidById, hS.retrieve, not_panics_checkIsPrecompileCallAllowed]

theorem panics_indexBidId_iff {ids : List BidId} {i : ℕ} : Panics (indexBidId ids i) ↔ ids[i]? = none := by
  unfold indexBidId
  cases ids[i]? with
  | none => simp
  | some id => simp

theorem indexBidId_eq_ok_iff {ids : List BidId} {i : ℕ} {id : BidId} :
    indexBidId ids i = .ok id ↔ ids[i]? = some id := by
  unfold indexBidId
  cases ids[i]? with
  | none => simp
  | some id' => simp

theorem decodeBundle_eq_ok_iff {data : Except GoError Bytes} {retrieving unmarshalling : GoString}
    {bundle : SBundle} :
    decodeBundle X data retrieving unmarshalling = .ok bundle ↔
      ∃ bytes, data = .ok bytes ∧ X.unmarshalSBundle bytes = .ok bundle := by
  simp only [decodeBundle, bind_eq_ok_iff, mapError_eq_ok_iff]

theorem not_panics_decodeBundle (hX : X.Total) {data : Except GoError Bytes} (hdata : ¬ Panics data)
    (retrieving unmarshalling : GoString) :
    ¬ Panics (decodeBundle X data retrieving unmarshalling) := by
  unfold decodeBundle
  simp [hdata, hX.unmarshalSBundle]

/-- There is no first id, or no second one when it is needed. -/
def ShortPair (X : Externals) (read : BidId → GoString → Except GoError Bytes) (ids : List BidId) : Prop :=
  ids = [] ∨ ∃ userId bundle data, ids = [userId] ∧ read userId (ascii "mevshare:v0:ethBundles") = .ok data ∧
    X.unmarshalSBundle data = .ok bundle

theorem panics_readMatchedPair_iff (hX : X.Total) {read : BidId → GoString → Except GoError Bytes}
    (hread : ∀ id key, ¬ Panics (read id key)) {ids : List BidId} :
    Panics (readMatchedPair X read ids) ↔ ShortPair X read ids := by
  simp only [Panics, readMatchedPair, fails_bind_iff, not_panics_decodeBundle hX (hread _ _), false_or,
    not_fails_pure, and_false, exists_false, or_false, panics_indexBidId_iff, indexBidId_eq_ok_iff,
    decodeBundle_eq_ok_iff]
  rcases ids with _ | ⟨userId, _ | ⟨matchId, rest⟩⟩
  · simp [ShortPair]
  · simp [ShortPair]
  · simp [ShortPair]

end Read

/-! ### Putting bundles together -/

namespace BuildEthBlock

variable {X : Externals} {ctx : SuaveContext}

/-- The match bid names a pair that is too short. -/
def NamesShortPair (X : Externals) (ctx : SuaveContext) (bid : InnerBid) : Prop :=
  bid.version = ascii "mevshare:v0:matchBids" ∧ ∃ data ids,
    read ctx bid.id (ascii "mevshare:v0:mergedBids") = .ok data ∧ X.unpackBidIds data = .ok ids ∧
    ShortPair X (read ctx) ids

theorem not_panics_bidIds (hX : X.Total) (hS : ctx.confidentialStore.Total) (bidId : BidId) :
    ¬ Panics (bidIds X ctx bidId) := by
  have hread := hS.retrieve bidId buildEthBlockAddress (ascii "default:v0:mergedBids")
  change ¬ Panics (read ctx bidId (ascii "default:v0:mergedBids")) at hread
  unfold bidIds
  split
  · rename_i data _
    simp [hX.unpackBidIds data]
  · rename_i text htext
    rw [htext] at hread
    exact absurd (panics_error_iff.mpr (isPanic_panic text)) hread
  · exact not_panics_ok _

theorem not_panics_bidToMerge (hS : ctx.confidentialStore.Total) (bidId : BidId) :
    ¬ Panics (bidToMerge X ctx bidId) := by
  unfold bidToMerge
  simp [hS.fetchBidById, not_panics_checkIsPrecompileCallAllowed]

theorem panics_mergedBundle_iff (hX : X.Total) (hS : ctx.confidentialStore.Total) {bid : InnerBid} :
    Panics (mergedBundle X ctx bid) ↔ NamesShortPair X ctx bid := by
  have hread : ∀ id key, ¬ Panics (read ctx id key) := fun id key => hS.retrieve id _ key
  have hsingle : ∀ key, ¬ Panics (singleBundle X ctx bid key) := by
    intro key
    unfold singleBundle
    simp [not_panics_decodeBundle hX (hread _ _)]
  unfold mergedBundle NamesShortPair
  by_cases hmatch : bid.version = ascii "mevshare:v0:matchBids"
  · rw [if_pos hmatch, matchedBundle]
    simp [hread, hX.unpackBidIds, panics_readMatchedPair_iff hX hread, hmatch]
  · rw [if_neg hmatch]
    simp only [hmatch, false_and, iff_false]
    split_ifs
    · exact hsingle _
    · exact hsingle _
    · simp

/-- The bundles are put together in order, and the first one that cannot be ends the call. -/
theorem panics_mergedBundles_iff (hX : X.Total) (hS : ctx.confidentialStore.Total) {bidId : BidId} :
    Panics (mergedBundles X ctx bidId) ↔
      ∃ ids bids, bidIds X ctx bidId = .ok ids ∧ ids.mapM (bidToMerge X ctx) = .ok bids ∧
        ∃ done bid rest, bids = done ++ bid :: rest ∧ (∀ b ∈ done, ∃ m, mergedBundle X ctx b = .ok m) ∧
          NamesShortPair X ctx bid := by
  have hids := not_panics_bidIds hX hS bidId
  have hbids : ∀ ids : List BidId, ¬ Panics (ids.mapM (bidToMerge X ctx)) :=
    fun ids => not_fails_mapM fun id _ => not_panics_bidToMerge hS id
  simp only [Panics, mergedBundles, fails_bind_iff, hids, hbids, false_or, fails_mapM_iff,
    panics_mergedBundle_iff hX hS]
  constructor
  · rintro ⟨ids, hids, bids, hbids, hpanics⟩
    exact ⟨ids, bids, hids, hbids, hpanics⟩
  · rintro ⟨ids, bids, hids, hbids, hpanics⟩
    exact ⟨ids, hids, bids, hbids, hpanics⟩

/-- The backend's answer cannot be read: it was `null`, a withdrawal is, or the bloom filter is too long. -/
def UnreadableBlock (L : BlockLibraries) : Option EthBackend.ExecutionPayloadEnvelope → Prop
  | none => True
  | some envelope =>
    none ∈ envelope.executionPayload.withdrawals ∨
      ((∃ fee, L.fromBig envelope.executionPayload.baseFeePerGas = .ok fee) ∧
        256 < envelope.executionPayload.logsBloom.length)

variable {L : BlockLibraries}

theorem panics_bytesToBloom_iff {b : Bytes} : Panics (bytesToBloom b) ↔ 256 < b.length := by
  unfold bytesToBloom
  by_cases h : 256 < b.length
  · simp [h]
  · simp [h]

theorem panics_copyWithdrawals_iff {wds : List (Option EthBackend.Withdrawal)} :
    Panics (wds.mapM copyWithdrawal) ↔ none ∈ wds := by
  simp only [Panics, fails_mapM_iff]
  constructor
  · rintro ⟨done, wd, rest, rfl, -, hpanics⟩
    cases wd with
    | none => simp
    | some wd => exact absurd hpanics (not_panics_ok wd)
  · intro hnone
    -- the first `nil` of the list
    obtain ⟨done, rest, rfl, hdone⟩ := List.eq_append_cons_of_mem hnone
    refine ⟨done, none, rest, rfl, ?_, panics_error_iff.mpr isPanic_nilDereference⟩
    intro wd hwd
    cases wd with
    | none => exact absurd hwd hdone
    | some wd => exact ⟨wd, rfl⟩

theorem copyWithdrawals_eq_ok {wds : List (Option EthBackend.Withdrawal)} (h : none ∉ wds) :
    ∃ copies, wds.mapM copyWithdrawal = .ok copies := by
  cases hcopies : wds.mapM copyWithdrawal with
  | ok copies => exact ⟨copies, rfl⟩
  | error err =>
    -- copying a withdrawal goes wrong in no other way
    have hfails : Fails (fun _ => True) (wds.mapM copyWithdrawal) := ⟨err, hcopies, trivial⟩
    obtain ⟨done, wd, rest, rfl, -, err', herr', -⟩ := fails_mapM_iff.mp hfails
    cases wd with
    | none => exact absurd (by simp) h
    | some wd => cases herr'

theorem panics_executableDataToCapellaExecutionPayload_iff (hL : L.Total)
    {data : EthBackend.ExecutableData} :
    Panics (executableDataToCapellaExecutionPayload L data) ↔
      none ∈ data.withdrawals ∨
        ((∃ fee, L.fromBig data.baseFeePerGas = .ok fee) ∧ 256 < data.logsBloom.length) := by
  have hfee := hL.fromBig data.baseFeePerGas
  have hwithdrawals : Panics (data.withdrawals.mapM copyWithdrawal) ↔ none ∈ data.withdrawals :=
    panics_copyWithdrawals_iff
  have hbloom : Panics (bytesToBloom data.logsBloom) ↔ 256 < data.logsBloom.length :=
    panics_bytesToBloom_iff
  simp only [Panics] at hfee hwithdrawals hbloom ⊢
  simp only [executableDataToCapellaExecutionPayload, fails_bind_iff, hwithdrawals, hfee, hbloom, false_or,
    not_fails_pure, and_false, exists_false, or_false]
  by_cases hnone : none ∈ data.withdrawals
  · simp [hnone]
  · obtain ⟨copies, hcopies⟩ := copyWithdrawals_eq_ok hnone
    simp [hnone, hcopies]

theorem panics_signBlock_iff (hL : L.Total) {blockArgs : EthBackend.BuildBlockArgs}
    {envelope : Option EthBackend.ExecutionPayloadEnvelope} :
    Panics (signBlock L blockArgs envelope) ↔ UnreadableBlock L envelope := by
  cases envelope with
  | none => simp [signBlock, UnreadableBlock]
  | some envelope =>
    refine Iff.trans ?_ (panics_executableDataToCapellaExecutionPayload_iff hL)
    rw [signBlock]
    simp [hL.publicKeyFromSecretKey, hL.blsPublicKeyToPublicKey, hL.signMessage, hL.marshalBidRequest,
      hL.marshalEnvelope]

/-- The bundles cannot be put together, or the block that is built from them cannot be read. -/
theorem panics_runImpl_iff (hX : X.Total) (hS : ctx.confidentialStore.Total) {eth : EthBackend}
    (heth : eth.Total) (hL : L.Total) {blockArgs : EthBackend.BuildBlockArgs} {bidId : BidId} :
    Panics (runImpl X ctx (buildAndSign L eth blockArgs) bidId) ↔
      (∃ ids bids, bidIds X ctx bidId = .ok ids ∧ ids.mapM (bidToMerge X ctx) = .ok bids ∧
        ∃ done bid rest, bids = done ++ bid :: rest ∧ (∀ b ∈ done, ∃ m, mergedBundle X ctx b = .ok m) ∧
          NamesShortPair X ctx bid) ∨
      ∃ merged envelope, mergedBundles X ctx bidId = .ok merged ∧
        eth.buildEthBlockFromBundles blockArgs (merged.map SourcedBundle.bundle) = .ok envelope ∧
        UnreadableBlock L envelope := by
  rw [← panics_mergedBundles_iff hX hS, runImpl]
  simp [buildAndSign, heth.buildEthBlockFromBundles, panics_signBlock_iff hL]

end BuildEthBlock

/-! ### The precompiles -/

theorem SimulateBundle.panics_run_iff {X : Externals} (hX : X.Total) {eth : EthBackend} (heth : eth.Total)
    {bundleData : Bytes} :
    Panics (run X eth bundleData) ↔
      ∃ bundle envelope, X.unmarshalSBundle bundleData = .ok bundle ∧
        eth.buildEthBlock bundle.txs = .ok envelope ∧
        (envelope = none ∨ ∃ e, envelope = some e ∧ e.executionPayload.gasUsed = 0) := by
  have hbundle := hX.unmarshalSBundle bundleData
  unfold run runImpl
  cases hdata : X.unmarshalSBundle bundleData with
  | error err =>
    rw [hdata] at hbundle
    simpa [bind, Except.bind] using hbundle
  | ok bundle =>
    have henvelope := heth.buildEthBlock bundle.txs
    cases hreply : eth.buildEthBlock bundle.txs with
    | error err =>
      rw [hreply] at henvelope
      simpa [hreply, bind, Except.bind] using henvelope
    | ok envelope =>
      cases envelope with
      | none => simp [hreply]
      | some e =>
        by_cases hgas : e.executionPayload.gasUsed = 0
        · simp [hreply, hgas]
        · simp [hreply, hgas]

theorem ExtractHint.panics_runImpl_iff {X : Externals} (hX : X.Total) {bundleBytes : Bytes} :
    Panics (runImpl X bundleBytes) ↔
      ∃ bundle, X.unmarshalSBundle bundleBytes = .ok bundle ∧
        (bundle.txs = [] ∨ ∃ tx rest, bundle.txs = tx :: rest ∧ tx.to_ = none) := by
  have hbundle := hX.unmarshalSBundle bundleBytes
  unfold runImpl
  cases hdata : X.unmarshalSBundle bundleBytes with
  | error err =>
    rw [hdata] at hbundle
    simpa [bind, Except.bind] using hbundle
  | ok bundle =>
    cases htxs : bundle.txs with
    | nil => simp [indexTransaction, htxs]
    | cons tx rest =>
      cases hto : tx.to_ with
      | none => simp [indexTransaction, htxs, hto]
      | some to_ => simp [indexTransaction, htxs, hto]

theorem FillMevShareBundle.panics_runImpl_iff {X : Externals} (hX : X.Total) {ctx : SuaveContext}
    (hS : ctx.confidentialStore.Total) {bidId : BidId} :
    Panics (runImpl X ctx bidId) ↔
      ∃ bid caller data ids, ctx.confidentialStore.fetchBidById bidId = .ok bid ∧
        checkIsPrecompileCallAllowed X ctx fillMevShareBundleAddress bid = .ok caller ∧
        confRetrieve X ctx bidId (ascii "mevshare:v0:mergedBids") = .ok data ∧
        X.unpackBidIds data = .ok ids ∧ ShortPair X (confRetrieve X ctx) ids := by
  have hentry : ∀ tx, ¬ Panics (bodyEntry X tx) := by
    intro tx
    unfold bodyEntry
    simp [hX.marshalBinary]
  have hbody : ∀ txs : List Transaction, ¬ Panics (txs.mapM (bodyEntry X)) :=
    fun txs => not_fails_mapM fun tx _ => hentry tx
  have hread := not_panics_confRetrieve (X := X) hS
  have hpair : ∀ ids, Panics (readMatchedPair X (confRetrieve X ctx) ids) ↔
      ShortPair X (confRetrieve X ctx) ids := fun ids => panics_readMatchedPair_iff hX hread
  unfold runImpl inputs
  simp only [Panics] at hbody hread hpair ⊢
  simp [hS.fetchBidById, not_panics_checkIsPrecompileCallAllowed, hread, hX.unpackBidIds, hpair, hbody,
    hX.marshalShareBundle]

@[simp]
theorem not_panics_packOutput {α : Type} (pack : α → Option Bytes) (output : α) :
    ¬ Panics (packOutput pack output) := by
  unfold packOutput
  split
  · exact not_panics_ok _
  · simp

namespace BundlePanics

def libraries : Externals := goExternals noEthereum (fun _ => []) (fun _ => []) (fun _ => []) (fun _ => [])

/-- The input of the first two is the bundle data itself, that of the other two the id of the bid. -/
def abi : EthAbi where
  unpackSimulateBundle := .ok
  unpackExtractHint := .ok
  unpackBuildEthBlock input := .ok (⟨0, [], 0, 0, 0, 0, 0, []⟩, BitVec.ofNat 128 (Rlp.ofBigEndian input), [])
  unpackFillMevShareBundle input := .ok (BitVec.ofNat 128 (Rlp.ofBigEndian input))
  packSimulateBundle _ := some []
  packBuildEthBlock _ := some []

/-- A backend that puts nothing into its blocks. -/
def emptyBlocks : EthBackend where
  buildEthBlock _ := .ok (some ⟨⟨0, 0, 0, 0, [], 0, 0, 0, 0, 0, [], 0, 0, [], []⟩, 0⟩)
  buildEthBlockFromBundles _ _ := .ok (some ⟨⟨0, 0, 0, 0, [], 0, 0, 0, 0, 0, [], 0, 0, [], []⟩, 0⟩)

def blockLibraries : BuildEthBlock.BlockLibraries where
  fromBig _ := .ok []
  publicKeyFromSecretKey := .ok []
  blsPublicKeyToPublicKey := .ok
  signMessage _ := .ok []
  marshalBidRequest _ := .ok []
  marshalEnvelope _ := .ok []

def emptyBundle : Bytes := ascii "\x7b\x7d"

def creation : ConfidentialComputeRequest where
  confidentialComputeRecord :=
    { nonce := 0, gasPrice := 0, gas := 0, to_ := none, value := 0, data := [], executionNode := 0,
      confidentialInputsHash := 0, chainID := 0, v := 0, r := 0, s := 0 }
  confidentialInputs := []

/-- A bundle whose only transaction creates a contract. -/
def creationBundle : Bytes :=
  print (.obj [(ascii "txs",
    .arr [ofBytes (encodeTyped confidentialComputeRequestTxType requestSchema creation.toVal)])])

/-- A match bid for everybody, made by the contract `0xa`. -/
def matchBid : Bid where
  id := 3
  salt := 0
  decryptionCondition := 0
  allowedPeekers := some [allowedPeekerAny]
  allowedStores := none
  version := ascii "mevshare:v0:matchBids"
  creationTx := some mockRequest
  signature := []

/-- The contract has stored an empty list as the pair. -/
def store : TransactionalStore where
  sourceTx := some mockRequest
  pendingBids := [matchBid]
  pendingWrites := some
    [⟨matchBid, 0xa, ascii "mevshare:v0:mergedBids", Rlp.bigEndian 32 32 ++ Rlp.bigEndian 32 0⟩]
  nodup := List.nodup_singleton _

def context : SuaveContext where
  confidentialStore := store.confidentialStore mockConfig LocalConfidentialStore.empty_wf
  callerStack := [some 0xb]

theorem total_libraries : libraries.Total :=
  total_goExternals ⟨fun _ => not_panics_errTxTypeNotSupported, fun _ => not_panics_errTxTypeNotSupported,
    fun _ _ => not_panics_errTxTypeNotSupported⟩ _ _ _ _

theorem total_emptyBlocks : emptyBlocks.Total where
  buildEthBlock _ := not_panics_ok _
  buildEthBlockFromBundles _ _ := not_panics_ok _

theorem total_blockLibraries : blockLibraries.Total where
  fromBig _ := not_panics_ok _
  publicKeyFromSecretKey := not_panics_ok _
  blsPublicKeyToPublicKey _ := not_panics_ok _
  signMessage _ := not_panics_ok _
  marshalBidRequest _ := not_panics_ok _
  marshalEnvelope _ := not_panics_ok _

end BundlePanics

end Suift
