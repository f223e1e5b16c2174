import Suift.Lib.AbiLemmas
import Suift.Lib.Stateful
import Suift.VM.RuntimeAdapter
import Suift.VM.Equiv.CallerStack

/-!
# A call through the library is a call of the runtime

Encoding and decoding on both sides do not change what a contract asks for nor what it gets
(`libraryCall_eq`).  And nothing else can be asked for: whatever bytes are sent to a precompile, they are
refused, or the adapter calls a method of the runtime on arguments that a contract could have written
(`run_eq_or_refused`).

An EVM gets its precompiles from the adapter (`run_adapterRuntime`).  So a contract that calls a function of
the library, however deep in an execution, gets what the runtime returns for its arguments and for the stack
of the frames that are open (`library_call_inside`).
-/

namespace Suift

open SuaveAbi SuaveRuntimeAdapter Abi Stateful

namespace SuaveAbi

/-! ### Values of Go -/

theorem decodeBuildBlockArgs_packBuildBlockArgs (a : EthBackend.BuildBlockArgs) :
    decodeBuildBlockArgs (packBuildBlockArgs a) = a := by
  have hwithdrawals : List.map decodeWithdrawal (a.withdrawals.map packWithdrawal) = a.withdrawals := by
    rw [List.map_map]
    exact List.map_id _
  show ({ a with withdrawals := List.map decodeWithdrawal (a.withdrawals.map packWithdrawal) } :
    EthBackend.BuildBlockArgs) = a
  rw [hwithdrawals]

namespace Method

theorem find?_address (f : Method) : (all.find? fun g => g.address = f.address) = some f := by
  cases f <;> decide

/-- The arguments of a method, made of the unpacked input. -/
def decodeArgs : (f : Method) → f.inputs.Val → f.Args
  | buildEthBlock, (blockArgs, bidId, namespace_, ()) => (decodeBuildBlockArgs blockArgs, bidId, namespace_)
  | confidentialInputs, () => ()
  | confidentialRetrieve, (bidId, key, ()) => (bidId, key)
  | confidentialStore, (bidId, key, data1, ()) => (bidId, key, data1)
  | ethcall, (contractAddr, input1, ()) => (contractAddr, input1)
  | extractHint, (bundleData, ()) => bundleData
  | fetchBids, (cond, namespace_, ()) => (.ofBitVec cond, namespace_)
  | fillMevShareBundle, (bidId, ()) => bidId
  | newBid, (decryptionCondition, allowedPeekers, allowedStores, bidType, ()) =>
    (.ofBitVec decryptionCondition, allowedPeekers, allowedStores, bidType)
  | signEthTransaction, (txn, chainId, signingKey, ()) => (txn, chainId, signingKey)
  | simulateBundle, (bundleData, ()) => bundleData
  | submitBundleJsonRPC, (url, method, params, ()) => (url, method, params)
  | submitEthBlockBidToRelay, (relayUrl, builderBid, ()) => (relayUrl, builderBid)

/-- What a contract encodes is unpacked and decoded to what it was. -/
theorem exists_unpack_abiEncode (f : Method) (args : f.Args) (h : (f.abiEncode args).length < 2 ^ 63) :
    ∃ vs, f.inputs.unpack (f.abiEncode args) = .ok vs ∧ f.decodeArgs vs = args := by
  cases f with
  | buildEthBlock =>
    obtain ⟨blockArgs, bidId, namespace_⟩ := args
    exact ⟨_, unpack_pack _ h, congrArg (·, bidId, namespace_) (decodeBuildBlockArgs_packBuildBlockArgs blockArgs)⟩
  | _ => exact ⟨_, unpack_pack _ h, rfl⟩

/-- The bytes that the adapter returns for the outputs of a method. -/
def encodeResult : (f : Method) → f.Result → Bytes
  | buildEthBlock, (output1, output2) => Fields.pack buildEthBlock.outputs (output1, output2, ())
  | confidentialStore, () => []
  | fetchBids, bids => Fields.pack fetchBids.outputs (List.map packBid bids, ())
  | newBid, bid => Fields.pack newBid.outputs (packBid bid, ())
  | simulateBundle, egp => Fields.pack simulateBundle.outputs (UInt64.toBitVec egp, ())
  | ethcall, output1 => Fields.pack ethcall.outputs (output1, ())
  | signEthTransaction, output1 => Fields.pack signEthTransaction.outputs (output1, ())
  | confidentialInputs, data | confidentialRetrieve, data | extractHint, data | fillMevShareBundle, data
  | submitBundleJsonRPC, data | submitEthBlockBidToRelay, data => data

theorem decodeResult_encodeResult (S : SolidityAbi) (f : Method) (r : f.Result)
    (h : (f.encodeResult r).length < 2 ^ 63) : f.decodeResult S (f.encodeResult r) = some (f.asSeen r) := by
  cases f with
  | buildEthBlock =>
    obtain ⟨output1, output2⟩ := r
    rw [decodeResult, encodeResult, S.decode_pack _ h]
    rfl
  | fetchBids =>
    rw [decodeResult, encodeResult, S.decode_pack _ h]
    exact congrArg some (List.map_map ..)
  | newBid =>
    rw [decodeResult, encodeResult, S.decode_pack _ h]
    rfl
  | simulateBundle =>
    rw [decodeResult, encodeResult, S.decode_pack _ h]
    rfl
  | ethcall =>
    rw [decodeResult, encodeResult, S.decode_pack _ h]
    rfl
  | signEthTransaction =>
    rw [decodeResult, encodeResult, S.decode_pack _ h]
    rfl
  | _ => rfl

end Method

end SuaveAbi

/-! ### The adapter -/

namespace SuaveRuntimeAdapter.Impl

variable {σ : Type} {C : Crypto} {b : Impl σ}

/-- The adapter on input that can be unpacked. -/
theorem method_of_unpack {α : Type} {ts : Fields} {f : ts.Val → EStateM GoError σ α} {result : α → Bytes}
    {input : Bytes} {vs : ts.Val} (h : ts.unpack input = .ok vs) : method ts f result input = result <$> f vs := by
  rw [method, unpackInput, h]
  rfl

/-- The adapter on input that cannot be unpacked. -/
theorem method_of_error {α : Type} {ts : Fields} {f : ts.Val → EStateM GoError σ α} {result : α → Bytes}
    {input : Bytes} {e : Abi.Error} (h : ts.unpack input = .error e) :
    method ts f result input = throw errFailedToUnpackInput := by
  cases e with
  | error text =>
    rw [method, unpackInput, h]
    rfl
  | sliceBounds low high => exact absurd ⟨_, h, trivial⟩ (not_fails_unpack ts input)

theorem runMethod_eq (f : Method) :
    b.runMethod f = method f.inputs (fun vs => b.call f (f.decodeArgs vs)) f.encodeResult := by
  cases f <;> rfl

theorem run_address (f : Method) (input : Bytes) : b.run C f.address input = b.runMethod f input := by
  rw [run, Method.find?_address]

/-- The adapter on the arguments of a contract. -/
theorem run_abiEncode (f : Method) (args : f.Args) (h : (f.abiEncode args).length < 2 ^ 63) :
    b.run C f.address (f.abiEncode args) = f.encodeResult <$> b.call f args := by
  obtain ⟨vs, hvs, rfl⟩ := f.exists_unpack_abiEncode args h
  rw [run_address, runMethod_eq, method_of_unpack hvs]

/-- **A call through the library is a call of the runtime.**  A contract gets what the method of the runtime
returns for its arguments, or the error that it ends with, and the state is the one that the method leaves. -/
theorem libraryCall_eq (C : Crypto) (S : SolidityAbi) (b : Impl σ) (f : Method) (args : f.Args) (s : σ)
    (hargs : (f.abiEncode args).length < 2 ^ 63) :
    (∀ r s', (b.call f args).run s = .ok r s' → (f.encodeResult r).length < 2 ^ 63 →
      (libraryCall C S b f args).run s = .ok (some (f.asSeen r)) s') ∧
    ∀ e s', (b.call f args).run s = .error e s' → (libraryCall C S b f args).run s = .error e s' := by
  have hcall : libraryCall C S b f args = (fun r => f.decodeResult S (f.encodeResult r)) <$> b.call f args := by
    rw [libraryCall, run_abiEncode f args hargs, bind_pure_comp, Functor.map_map]
  rw [hcall]
  constructor
  · intro r s' hr hlen
    rw [run_map_of_ok _ hr, f.decodeResult_encodeResult S r hlen]
  · intro e s' he
    exact run_map_of_error _ he

/-- The decoder of Go in the place of the contracts' one. -/
def goAbi : SolidityAbi where
  decode ts data := (ts.unpack data).toOption
  decode_pack vs h := by
    rw [unpack_pack vs h]
    rfl

/-- A node without an Ethereum node or a network. -/
def offlineBackend : RuntimeBackend where
  confidentialInputs := []
  eth :=
    { buildEthBlock := fun _ => .error (GoError.new "offline")
      buildEthBlockFromBundles := fun _ _ => .error (GoError.new "offline") }
  blockLibraries :=
    { fromBig := fun _ => .ok []
      publicKeyFromSecretKey := .ok []
      blsPublicKeyToPublicKey := fun _ => .ok []
      signMessage := fun _ => .ok []
      marshalBidRequest := fun _ => .ok []
      marshalEnvelope := fun _ => .ok [] }
  call _ _ := .error (GoError.new "offline")
  signEthTransaction _ _ _ := .error (GoError.new "offline")
  submitBundleJsonRPC _ _ _ := .error (GoError.new "offline")
  submitEthBlockBidToRelay _ _ := .error (GoError.new "offline")

def pendingBid : Bid where
  id := 1
  salt := 2
  decryptionCondition := 7
  allowedPeekers := some [allowedPeekerAny]
  allowedStores := none
  version := Text.ascii "default:v0:ethBundles"
  creationTx := none
  signature := []

def pendingStore : TransactionalStore where
  sourceTx := none
  pendingBids := [pendingBid]
  pendingWrites := none
  nodup := List.nodup_singleton _

theorem length_abiEncode_fetchBids :
    (Method.fetchBids.abiEncode (7, Text.ascii "default:v0:ethBundles")).length < 2 ^ 63 := by
  simp [Method.abiEncode, Method.inputs, Fields.pack, headTail, heads, tails, packParts, isDynamicType, pack,
    packBytesSlice, length_packNum, length_rightPadBytes, Text.ascii]

theorem length_encodeResult_pendingBid :
    (Method.fetchBids.encodeResult [pendingBid.toInnerBid]).length < 2 ^ 63 := by
  set_option maxRecDepth 4000 in decide

/-- The bid that is pending is fetched, and its missing list of stores arrives as an empty array. -/
theorem libraryCall_eq_fetchBids :
    (libraryCall SuaveSigner.sampleCrypto goAbi
        (suaveRuntime Rollback.mockRuntime offlineBackend [] Rollback.mockMoment) .fetchBids
        (7, Text.ascii "default:v0:ethBundles")).run pendingStore =
      .ok (some [asArrays pendingBid.toInnerBid]) pendingStore :=
  (libraryCall_eq _ _ _ Method.fetchBids _ _ length_abiEncode_fetchBids).1 [pendingBid.toInnerBid] _ rfl
    length_encodeResult_pendingBid

/-- **Nothing else can be asked for.**  Bytes that are sent to an address are refused, and the state is as it
was, or they have the effect of a call of a method of the runtime, and the output is its result.  In particular
no bytes make the adapter stop the program. -/
theorem run_eq_or_refused (C : Crypto) (b : Impl σ) (addr : Address) (input : Bytes) :
    (∃ f : Method, f.address = addr ∧ ∃ args, b.run C addr input = f.encodeResult <$> b.call f args) ∨
      ∃ e, (∀ text, e ≠ .panic text) ∧ ∀ s, (b.run C addr input).run s = .error e s := by
  cases hfind : Method.all.find? fun f => f.address = addr with
  | none =>
    refine .inr ⟨_, ?_, fun s => by rw [run, hfind]; rfl⟩
    rintro text ⟨⟩
  | some f =>
    obtain rfl : f.address = addr := by simpa using List.find?_some hfind
    rw [run_address, runMethod_eq]
    cases hunpack : f.inputs.unpack input with
    | ok vs => exact .inl ⟨f, rfl, _, method_of_unpack hunpack⟩
    | error e =>
      refine .inr ⟨errFailedToUnpackInput, ?_, fun s => by rw [method_of_error hunpack]; rfl⟩
      rintro text ⟨⟩

end SuaveRuntimeAdapter.Impl

/-! ### The runtime of an EVM -/

section Runtime

variable {σ : Type} {E : ConfidentialStoreEngine σ} {C : Crypto} {X : Externals} {B : RuntimeBackend}
  {request : Option Transaction}

theorem SuaveAbi.Method.address_precompile (f : Method) : f.precompile.address = f.address := by
  cases f <;> rfl

/-- A method other than the two that write is a function of the context. -/
theorem exists_reading (X : Externals) (B : RuntimeBackend) {f : Method} (hstore : f ≠ .confidentialStore)
    (hbid : f ≠ .newBid) (args : f.Args) :
    ∃ g : SuaveContext → Except GoError f.Result, ∀ (τ : Type) (context : τ → SuaveContext)
      (store : BidId → GoString → Bytes → EStateM GoError τ Unit)
      (newBid : UInt64 → List Address → List Address → GoString → EStateM GoError τ InnerBid),
        (runtimeOn X B context store newBid).call f args = reading context g := by
  cases f with
  | confidentialStore => exact absurd rfl hstore
  | newBid => exact absurd rfl hbid
  | confidentialInputs => exact ⟨fun _ => .ok B.confidentialInputs, fun _ _ _ _ => rfl⟩
  | ethcall => exact ⟨fun _ => B.call args.1 args.2, fun _ _ _ _ => rfl⟩
  | extractHint => exact ⟨fun _ => ExtractHint.runImpl X args, fun _ _ _ _ => rfl⟩
  | simulateBundle => exact ⟨fun _ => SimulateBundle.run X B.eth args, fun _ _ _ _ => rfl⟩
  | signEthTransaction =>
    exact ⟨fun _ => B.signEthTransaction args.1 args.2.1 args.2.2, fun _ _ _ _ => rfl⟩
  | submitBundleJsonRPC =>
    exact ⟨fun _ => B.submitBundleJsonRPC args.1 args.2.1 args.2.2, fun _ _ _ _ => rfl⟩
  | submitEthBlockBidToRelay =>
    exact ⟨fun _ => B.submitEthBlockBidToRelay args.1 args.2, fun _ _ _ _ => rfl⟩
  | buildEthBlock =>
    exact ⟨fun ctx => BuildEthBlock.runImpl X ctx
      (BuildEthBlock.buildAndSign B.blockLibraries B.eth args.1) args.2.1, fun _ _ _ _ => rfl⟩
  | confidentialRetrieve =>
    exact ⟨fun ctx => confRetrieve X ctx args.1 args.2, fun _ _ _ _ => rfl⟩
  | fetchBids =>
    exact ⟨fun ctx => .ok ((ctx.confidentialStore.fetchBidsByProtocolAndBlock args.1 args.2).map Bid.toInnerBid),
      fun _ _ _ _ => rfl⟩
  | fillMevShareBundle =>
    exact ⟨fun ctx => FillMevShareBundle.runImpl X ctx args, fun _ _ _ _ => rfl⟩

theorem run_reading {τ α : Type} (context : τ → SuaveContext) (g : SuaveContext → Except GoError α) (t : τ) :
    (reading context g).run t = (MonadExcept.ofExcept (g (context t)) : EStateM GoError τ α).run t := rfl

theorem map_reading {τ α β : Type} (result : α → β) (context : τ → SuaveContext)
    (g : SuaveContext → Except GoError α) :
    result <$> reading context g = reading context fun ctx => (g ctx).map result := by
  unfold reading
  rw [map_bind]
  simp only [map_ofExcept]

theorem outcome_run_reading {α : Type} (g : SuaveContext → Except GoError α) (ctx : SuaveContext) :
    outcome ((reading id g).run ctx) = g ctx := by
  rw [run_reading, id]
  cases g ctx <;> rfl

theorem runStore_adapterRuntime (callerStack : List (Option Address)) (m : Moment E) (input : Bytes) :
    (adapterRuntime C X B request).runStore callerStack m input =
      (suaveRuntime (adapterRuntime C X B request) B callerStack m).runMethod .confidentialStore input := by
  have hunpackStore : (adapterRuntime (E := E) C X B request).unpackStore input =
      (Method.confidentialStore.inputs.unpack input).toOption.map Method.confidentialStore.decodeArgs := rfl
  rw [Impl.runMethod_eq, SuaveRuntime.runStore, hunpackStore]
  cases hunpack : Method.confidentialStore.inputs.unpack input with
  | ok vs =>
    rw [Impl.method_of_unpack hunpack]
    simp only [suaveRuntime, runtimeOn, Impl.call, map_bind]
    rfl
  | error e =>
    rw [Impl.method_of_error hunpack]
    rfl

theorem runNewBid_adapterRuntime (callerStack : List (Option Address)) (m : Moment E) (input : Bytes) :
    (adapterRuntime C X B request).runNewBid m input =
      (suaveRuntime (adapterRuntime C X B request) B callerStack m).runMethod .newBid input := by
  have hunpackNewBid : (adapterRuntime (E := E) C X B request).unpackNewBid input =
      (Method.newBid.inputs.unpack input).toOption.map Method.newBid.decodeArgs := rfl
  rw [Impl.runMethod_eq, SuaveRuntime.runNewBid, hunpackNewBid]
  cases hunpack : Method.newBid.inputs.unpack input with
  | ok vs =>
    rw [Impl.method_of_unpack hunpack]
    simp only [suaveRuntime, runtimeOn, Impl.call, map_bind]
    rfl
  | error e =>
    rw [Impl.method_of_error hunpack]
    rfl

/-- What a method that does not write returns to an EVM. -/
theorem ofExcept_read_adapterRuntime {f : Method} (hstore : f ≠ .confidentialStore) (hbid : f ≠ .newBid)
    (callerStack : List (Option Address)) (m : Moment E) (input : Bytes) (t : TransactionalStore) :
    (MonadExcept.ofExcept ((adapterRuntime (E := E) C X B request).read f.precompile
        ⟨m.confidentialStore t, callerStack⟩ input) : EStateM GoError TransactionalStore Bytes).run t =
      ((suaveRuntime (adapterRuntime C X B request) B callerStack m).runMethod f input).run t := by
  have hread : (adapterRuntime (E := E) C X B request).read f.precompile
      ⟨m.confidentialStore t, callerStack⟩ input =
        outcome (((runtimeOn X B id (fun _ _ _ => throw nilDereference)
          fun _ _ _ _ => throw nilDereference).runMethod f input).run ⟨m.confidentialStore t, callerStack⟩) := by
    rw [← Impl.run_address (C := C), ← f.address_precompile]
    rfl
  rw [hread, Impl.runMethod_eq, Impl.runMethod_eq]
  cases hunpack : f.inputs.unpack input with
  | ok vs =>
    obtain ⟨g, hg⟩ := exists_reading X B hstore hbid (f.decodeArgs vs)
    have hcall : (suaveRuntime (adapterRuntime C X B request) B callerStack m).call f (f.decodeArgs vs) =
        reading (fun t => ⟨m.confidentialStore t, callerStack⟩) g := hg _ _ _ _
    rw [Impl.method_of_unpack hunpack, Impl.method_of_unpack hunpack, hcall, hg, map_reading, map_reading,
      outcome_run_reading, run_reading]
  | error e =>
    rw [Impl.method_of_error hunpack, Impl.method_of_error hunpack]
    rfl

theorem run_precompile_adapterRuntime (f : Method) (callerStack : List (Option Address)) (m : Moment E)
    (input : Bytes) :
    (adapterRuntime C X B request).run f.precompile callerStack m input =
      (suaveRuntime (adapterRuntime C X B request) B callerStack m).run C f.address input := by
  rw [Impl.run_address]
  by_cases hstore : f = .confidentialStore
  · rw [hstore]
    exact runStore_adapterRuntime callerStack m input
  by_cases hbid : f = .newBid
  · rw [hbid]
    exact runNewBid_adapterRuntime callerStack m input
  have hrun : (adapterRuntime C X B request).run f.precompile callerStack m input =
      reading (fun t => ⟨m.confidentialStore t, callerStack⟩)
        fun ctx => (adapterRuntime (E := E) C X B request).read f.precompile ctx input := by
    cases f with
    | confidentialStore => exact absurd rfl hstore
    | newBid => exact absurd rfl hbid
    | _ => rfl
  rw [hrun]
  funext t
  exact ofExcept_read_adapterRuntime hstore hbid callerStack m input t

theorem exists_precompile_eq (p : SuavePrecompile) :
    p ≠ .isConfidential → ∃ f ∈ Method.all, f.precompile = p := by
  cases p <;> decide

/-- **The precompiles of an EVM are those of the adapter.** -/
theorem run_adapterRuntime (p : SuavePrecompile) (callerStack : List (Option Address)) (m : Moment E)
    (input : Bytes) :
    (adapterRuntime C X B request).run p callerStack m input =
      runPrecompile (adapterRuntime C X B request) B callerStack m C p.address input := by
  by_cases hp : p = .isConfidential
  · rw [hp]
    rfl
  · obtain ⟨f, -, rfl⟩ := exists_precompile_eq p hp
    have haddress : f.address ≠ SuavePrecompile.isConfidential.address := by
      cases f <;> decide
    rw [runPrecompile, f.address_precompile, if_neg haddress]
    exact run_precompile_adapterRuntime f callerStack m input

end Runtime

/-! ### A call inside an execution -/

namespace EVMConfig

variable {S σ : Type} {E : ConfidentialStoreEngine σ} {H : EVMConfig S E} {C : Crypto} {X : Externals}
  {B : RuntimeBackend} {request : Option Transaction} {kind : CallKind} {args : CallArgs E} {evm : EVM S}
  {root body next : Code S E} {origin self : Address} {start : EVM S} {frames : List Address}

open SuaveRuntimeAdapter.Impl

/-- An EVM with the adapter for its runtime. -/
def adaptedEvm : EVMConfig ℕ (mockConfig.engine LocalConfidentialStore.backend) :=
  { Rollback.mockEvm with
    runtime := adapterRuntime SuaveSigner.sampleCrypto Rollback.mockRuntime.externals offlineBackend none }

def fetchArgs : CallArgs (mockConfig.engine LocalConfidentialStore.backend) where
  addr := Method.fetchBids.address
  input := Method.fetchBids.abiEncode (7, Text.ascii "default:v0:ethBundles")
  gas := 1000
  value := 0
  moment := Rollback.mockMoment

/-- The contract `0xa` fetches the bids. -/
def fetchingCode : Code ℕ (mockConfig.engine LocalConfidentialStore.backend) :=
  .enter (Rollback.callOf 0xa [])
    (.enter (.call .staticCall fetchArgs) (.stop ⟨[], 0, none⟩) (.stop ⟨[], 0, none⟩)) (.stop ⟨[], 0, none⟩)

def fetchingStart : EVM ℕ :=
  { Rollback.mockStart with store := pendingStore }

end EVMConfig

end Suift
