import Suift.VM.SuaveContext

/-!
# The precompiles that put bundles together

`buildEthBlock.runImpl` and `fillMevShareBundle.runImpl` of `core/vm/contracts_suave_eth.go`.  The
bids they are called with may refer to other bids: a merged bid lists bids under
`default:v0:mergedBids`, and a match bid names a pair under `mevshare:v0:mergedBids`.

A bundle is kept together with the ids of the bids whose bundle data it was read from
(`SourcedBundle`).  The source does not record these; `mergedBundles` is what it hands to
`BuildEthBlockFromBundles` once they are dropped.
-/

namespace Suift

open Text

/-- `%v` on an array of sixteen bytes. -/
def formatBytes16 (id : BidId) : GoString :=
  ascii "[" ++ List.intercalate (ascii " ")
    ((List.range 16).map fun i => decimal (id.toNat / 256 ^ (15 - i) % 256)) ++ ascii "]"

/-- `ids[i]`, which panics when there is no such element. -/
def indexBidId (ids : List BidId) (i : ℕ) : Except GoError BidId :=
  match ids[i]? with
  | some id => .ok id
  | none =>
    .error (.panic (ascii "runtime error: index out of range [" ++ decimal i ++ ascii "] with length " ++
      decimal ids.length))

/-- Bundle data that has been read, decoded; the two texts start the errors. -/
def decodeBundle (X : Externals) (data : Except GoError Bytes) (retrieving unmarshalling : GoString) :
    Except GoError SBundle := do
  let bundleBytes ← data.mapError (GoError.wrap retrieving)
  (X.unmarshalSBundle bundleBytes).mapError (GoError.wrap unmarshalling)

/-- The bundles of a matched pair and the bids they come from. -/
structure MatchedPair where
  userId : BidId
  matchId : BidId
  userBundle : SBundle
  matchBundle : SBundle

/-- Read the two bundles that a match bid names; `read` fetches data under a key. -/
def readMatchedPair (X : Externals) (read : BidId → GoString → Except GoError Bytes)
    (matchBidIds : List BidId) : Except GoError MatchedPair := do
  let userId ← indexBidId matchBidIds 0
  let userBundle ← decodeBundle X (read userId (ascii "mevshare:v0:ethBundles"))
    (ascii "could not retrieve bundle data for bidId " ++ formatBytes16 userId ++ ascii ": ")
    (ascii "could not unmarshal user bundle data for bidId " ++ formatBytes16 userId ++ ascii ": ")
  let matchId ← indexBidId matchBidIds 1
  let matchBundle ← decodeBundle X (read matchId (ascii "mevshare:v0:ethBundles"))
    (ascii "could not retrieve match bundle data for bidId " ++ formatBytes16 matchId ++ ascii ": ")
    (ascii "could not unmarshal match bundle data for bidId " ++ formatBytes16 matchId ++ ascii ": ")
  return { userId := userId, matchId := matchId, userBundle := userBundle,
           matchBundle := matchBundle }

structure SourcedBundle where
  bundle : SBundle
  sources : List BidId
  deriving DecidableEq

namespace BuildEthBlock

variable (X : Externals) (ctx : SuaveContext)

/-- `Retrieve` under the precompile's own address. -/
def read (bidId : BidId) (key : GoString) : Except GoError Bytes :=
  ctx.confidentialStore.retrieve bidId buildEthBlockAddress key

/-- The bids to build from: those a merged bid lists, else the bid itself. -/
def bidIds (bidId : BidId) : Except GoError (List BidId) :=
  match read ctx bidId (ascii "default:v0:mergedBids") with
  | .ok mergedBidsBytes =>
    (X.unpackBidIds mergedBidsBytes).mapError (GoError.wrap (ascii "could not unpack merged bid ids: "))
  | .error (.panic text) => .error (.panic text)
  | .error (.error _ _) => .ok [bidId]

/-- One round of the loop that fills `bidsToMerge`. -/
def bidToMerge (bidId : BidId) : Except GoError InnerBid := do
  let bid ← (ctx.confidentialStore.fetchBidById bidId).mapError
    (GoError.wrap (ascii "could not fetch bid id " ++ formatBytes16 bidId ++ ascii ": "))
  let _ ← checkIsPrecompileCallAllowed X ctx buildEthBlockAddress bid
  return bid.toInnerBid

/-- The bundle under `key` of a bid that is not a match bid. -/
def singleBundle (bid : InnerBid) (key : String) : Except GoError SourcedBundle := do
  let bundle ← decodeBundle X (read ctx bid.id (ascii key))
    (ascii "could not retrieve bundle data for bidId " ++ formatBytes16 bid.id ++
      ascii ", from cdas: ")
    (ascii "could not unmarshal bundle data for bidId " ++ formatBytes16 bid.id ++
      ascii ", from cdas: ")
  return { bundle := bundle, sources := [bid.id] }

/-- The bundle of a match bid: the user's transactions followed by the matching ones. -/
def matchedBundle (bid : InnerBid) : Except GoError SourcedBundle := do
  let matchedBundleIdsBytes ← (read ctx bid.id (ascii "mevshare:v0:mergedBids")).mapError
    (GoError.wrap (ascii "could not retrieve bid ids data for bid " ++ X.formatInnerBid bid ++
      ascii ", from cdas: "))
  let matchBidIds ← (X.unpackBidIds matchedBundleIdsBytes).mapError
    (GoError.wrap (ascii "could not unpack bid ids data for bid " ++ X.formatInnerBid bid ++
      ascii ", from cdas: "))
  let pair ← readMatchedPair X (read ctx) matchBidIds
  return { bundle := { pair.userBundle with
             txs := pair.userBundle.txs ++ pair.matchBundle.txs }
           sources := [pair.userId, pair.matchId] }

/-- One round of the loop that fills `mergedBundles`. -/
def mergedBundle (bid : InnerBid) : Except GoError SourcedBundle :=
  if bid.version = ascii "mevshare:v0:matchBids" then matchedBundle X ctx bid
  else if bid.version = ascii "mevshare:v0:unmatchedBundles" then
    singleBundle X ctx bid "mevshare:v0:ethBundles"
  else if bid.version = ascii "default:v0:ethBundles" then
    singleBundle X ctx bid "default:v0:ethBundles"
  else .error (.error (ascii "unknown bid version " ++ bid.version) none)

def mergedBundles (bidId : BidId) : Except GoError (List SourcedBundle) := do
  let ids ← bidIds X ctx bidId
  let bidsToMerge ← ids.mapM (bidToMerge X ctx)
  bidsToMerge.mapM (mergedBundle X ctx)

/-- `buildEthBlock.runImpl`.  `build` stands for `BuildEthBlockFromBundles` and the signing of the
block it returns. -/
def runImpl {α : Type} (build : List SBundle → Except GoError α) (bidId : BidId) :
    Except GoError α := do
  let merged ← mergedBundles X ctx bidId
  build (merged.map SourcedBundle.bundle)

end BuildEthBlock

namespace FillMevShareBundle

variable (X : Externals) (ctx : SuaveContext)

/-- The checks and reads at the start of `runImpl`: the match bid and the pair it names. -/
def inputs (bidId : BidId) : Except GoError (Bid × MatchedPair) := do
  let bid ← ctx.confidentialStore.fetchBidById bidId
  let _ ← checkIsPrecompileCallAllowed X ctx fillMevShareBundleAddress bid
  let matchedBundleIdsBytes ← confRetrieve X ctx bidId (ascii "mevshare:v0:mergedBids")
  let matchBidIds ← (X.unpackBidIds matchedBundleIdsBytes).mapError
    (GoError.wrap (ascii "could not unpack bid ids data for bid " ++ X.formatBid bid ++
      ascii ", from cdas: "))
  let pair ← readMatchedPair X (confRetrieve X ctx) matchBidIds
  return (bid, pair)

/-- The text of one transaction in the body. -/
def bodyEntry (tx : Transaction) : Except GoError GoString := do
  let txBytes ← (X.marshalBinary tx).mapError
    (GoError.wrap (ascii "could not marshal transaction: "))
  return ascii "0x" ++ txBytes.flatMap fun b => hexDigits 2 b.toNat

/-- `fillMevShareBundle.runImpl`. -/
def runImpl (bidId : BidId) : Except GoError Bytes := do
  let (bid, pair) ← inputs X ctx bidId
  let body ← (pair.userBundle.txs ++ pair.matchBundle.txs).mapM (bodyEntry X)
  X.marshalShareBundle
    { version := ascii "v0.1"
      inclusionBlock := ascii "0x" ++ hexadecimal bid.decryptionCondition.toNat
      body := body
      refund := (List.range pair.userBundle.txs.length).map fun i =>
        { bodyIdx := i, percent := pair.userBundle.refundPercent.getD 10 } }

end FillMevShareBundle

end Suift
