import Suift.CStore.Equiv.Json
import Suift.Types.Equiv.Signing

/-!
# What the id of a bid commits to

`calculateBidId` hashes the JSON of a bid with its own id left out.  The JSON determines the salt, the
condition and both lists, `nil` lists included, but of the version it shows only the runes: every byte
that is not part of well-formed UTF-8 is written as `\ufffd`.  So two bids have the same body if they agree
up to the values of such bytes (`bidBody_eq_iff`), and the id of a bid determines all of it exactly if its
version is well-formed UTF-8.

No hash to sixteen bytes is injective on all bodies.  What is assumed is that no other body has the hash of
the bid at hand.
-/

namespace Suift

open Text Json Hexutil Rlp Utf8

/-- The two bids are the same apart from their ids. -/
def InnerBid.SameContents (b c : InnerBid) : Prop :=
  b.salt = c.salt ∧ b.decryptionCondition = c.decryptionCondition ∧
    b.allowedPeekers = c.allowedPeekers ∧ b.allowedStores = c.allowedStores ∧ b.version = c.version

/-- What the id of a bid is the hash of. -/
def bidBody (bid : InnerBid) : Bytes := print (innerBidJson { bid with id := emptyId })

theorem calculateBidId_jsonEncoding (C : Crypto) (E : EthCodec) (newSHA1 : UUID → Bytes → UUID)
    (bid : InnerBid) :
    calculateBidId (jsonEncoding C E newSHA1) bid = .ok (newSHA1 bidUuidSpace (bidBody bid)) := rfl

theorem wf_innerBidJson (bid : InnerBid) : (innerBidJson bid).WF := by
  have hname : ∀ f : BidField, Token (ascii f.name) := (bidFormat mockCodec).token_name
  apply wf_obj
  simp only [List.forall_mem_cons, List.not_mem_nil, false_implies, implies_true, and_true]
  exact ⟨⟨hname .id, wf_idJson _⟩, ⟨hname .salt, wf_idJson _⟩,
    ⟨hname .decryptionCondition, wf_num_decimal _⟩, ⟨hname .allowedPeekers, wf_addresses _⟩,
    ⟨hname .allowedStores, wf_addresses _⟩, ⟨hname .version, wf_stringJson _⟩⟩

/-! ### The parts of the body -/

theorem idJson_inj {i j : BidId} (h : idJson i = idJson j) : i = j := by
  apply Option.some.inj
  rw [← decodeId_idJson i 0, h, decodeId_idJson]

theorem encodeSlice_ofAddress_inj {as bs : Slice Address}
    (h : encodeSlice ofAddress as = encodeSlice ofAddress bs) : as = bs := by
  apply Option.some.inj
  rw [← decodeAddresses_encodeSlice as none, h, decodeAddresses_encodeSlice]

theorem decimal_toNat_inj {m n : UInt64} (h : decimal m.toNat = decimal n.toNat) : m = n := by
  apply UInt64.toNat_inj.mp
  apply Option.some.inj
  rw [← ofDigits_decimal, h, ofDigits_decimal]

/-- The body shows everything but the values of invalid bytes. -/
theorem bidBody_eq_iff {b c : InnerBid} :
    bidBody b = bidBody c ↔
      b.salt = c.salt ∧ b.decryptionCondition = c.decryptionCondition ∧
        b.allowedPeekers = c.allowedPeekers ∧ b.allowedStores = c.allowedStores ∧
        runes b.version = runes c.version := by
  constructor
  · intro h
    have hjson := print_inj (wf_innerBidJson _) (wf_innerBidJson _) h
    simp only [innerBidJson, stringJson, Value.obj.injEq, List.cons.injEq, Prod.mk.injEq, Value.num.injEq,
      Value.str.injEq, true_and, and_true] at hjson
    obtain ⟨hsalt, hcondition, hpeekers, hstores, hversion⟩ := hjson
    exact ⟨idJson_inj hsalt, decimal_toNat_inj hcondition, encodeSlice_ofAddress_inj hpeekers,
      encodeSlice_ofAddress_inj hstores, escape_eq_iff.mp hversion⟩
  · rintro ⟨hsalt, hcondition, hpeekers, hstores, hversion⟩
    rw [bidBody, bidBody, innerBidJson, innerBidJson, stringJson, stringJson, hsalt, hcondition, hpeekers,
      hstores, escape_eq_iff.mpr hversion]

/-! ### The id -/

/-- **What an id commits to.**  If no other body has the hash of this one, the bids with the same id are those
that agree in everything but the values of the invalid bytes of their versions.  There is a bid with other
contents among them exactly if this version is not well-formed UTF-8. -/
theorem calculateBidId_commits_iff (C : Crypto) (E : EthCodec) (newSHA1 : UUID → Bytes → UUID)
    (b : InnerBid)
    (hcollision : ∀ c, newSHA1 bidUuidSpace (bidBody b) = newSHA1 bidUuidSpace (bidBody c) →
      bidBody b = bidBody c) :
    (∀ c, calculateBidId (jsonEncoding C E newSHA1) b = calculateBidId (jsonEncoding C E newSHA1) c ↔
      b.salt = c.salt ∧ b.decryptionCondition = c.decryptionCondition ∧
        b.allowedPeekers = c.allowedPeekers ∧ b.allowedStores = c.allowedStores ∧
        runes b.version = runes c.version) ∧
    ((∀ c, calculateBidId (jsonEncoding C E newSHA1) b = calculateBidId (jsonEncoding C E newSHA1) c →
      b.SameContents c) ↔ Valid b.version) := by
  have heq : ∀ c, calculateBidId (jsonEncoding C E newSHA1) b =
      calculateBidId (jsonEncoding C E newSHA1) c ↔ bidBody b = bidBody c := by
    intro c
    rw [calculateBidId_jsonEncoding, calculateBidId_jsonEncoding, Except.ok.injEq]
    exact ⟨hcollision c, fun h => by rw [h]⟩
  refine ⟨fun c => (heq c).trans bidBody_eq_iff, ?_⟩
  constructor
  · intro hcommits
    by_contra hinvalid
    obtain ⟨version, hrunes, hne⟩ := exists_runes_eq_ne hinvalid
    have hbody : bidBody b = bidBody { b with version := version } :=
      bidBody_eq_iff.mpr ⟨rfl, rfl, rfl, rfl, hrunes.symm⟩
    exact hne (hcommits { b with version := version } ((heq _).mpr hbody)).2.2.2.2.symm
  · intro hvalid c hid
    obtain ⟨hsalt, hcondition, hpeekers, hstores, hversion⟩ := bidBody_eq_iff.mp ((heq c).mp hid)
    exact ⟨hsalt, hcondition, hpeekers, hstores, eq_of_runes_eq hvalid hversion⟩

/-- A bid for everybody with the given version. -/
def sampleVersioned (version : GoString) : InnerBid where
  id := 7
  salt := 1
  decryptionCondition := 10
  allowedPeekers := some [allowedPeekerAny]
  allowedStores := none
  version := version

/-- A hash under which no other body has that of `sampleVersioned`. -/
def distinguishingHash (version : GoString) (_ : UUID) (body : Bytes) : UUID :=
  if body = bidBody (sampleVersioned version) then 1 else 0

theorem distinguishingHash_eq {version : GoString} (c : InnerBid)
    (h : distinguishingHash version bidUuidSpace (bidBody (sampleVersioned version)) =
      distinguishingHash version bidUuidSpace (bidBody c)) :
    bidBody (sampleVersioned version) = bidBody c := by
  by_contra hne
  rw [distinguishingHash, distinguishingHash, if_pos rfl, if_neg (Ne.symm hne)] at h
  exact absurd h (by decide)

/-- The JSON encoding with that hash. -/
def distinguishingEncoding (version : GoString) : Encoding :=
  jsonEncoding SuaveSigner.sampleCrypto mockCodec (distinguishingHash version)

/-- The id of a bid with a well-formed version determines it. -/
theorem calculateBidId_commits_of_ascii :
    Valid (ascii "default:v0:ethBundles") ∧
      ∀ c, calculateBidId (distinguishingEncoding (ascii "default:v0:ethBundles"))
          (sampleVersioned (ascii "default:v0:ethBundles")) =
        calculateBidId (distinguishingEncoding (ascii "default:v0:ethBundles")) c →
        (sampleVersioned (ascii "default:v0:ethBundles")).SameContents c := by
  have hvalid : Valid (ascii "default:v0:ethBundles") := by decide +kernel
  exact ⟨hvalid,
    (calculateBidId_commits_iff SuaveSigner.sampleCrypto mockCodec _ _ distinguishingHash_eq).2.mpr hvalid⟩

/-- Two versions of one invalid byte each: the bodies, and therefore the ids, are the same. -/
theorem calculateBidId_collides :
    (∀ newSHA1,
      calculateBidId (jsonEncoding SuaveSigner.sampleCrypto mockCodec newSHA1) (sampleVersioned [0xff]) =
        calculateBidId (jsonEncoding SuaveSigner.sampleCrypto mockCodec newSHA1) (sampleVersioned [0xfe])) ∧
    ¬ (sampleVersioned [0xff]).SameContents (sampleVersioned [0xfe]) := by
  have hbody : bidBody (sampleVersioned [0xff]) = bidBody (sampleVersioned [0xfe]) :=
    bidBody_eq_iff.mpr ⟨rfl, rfl, rfl, rfl, rfl⟩
  refine ⟨fun newSHA1 => ?_, ?_⟩
  · rw [calculateBidId_jsonEncoding, calculateBidId_jsonEncoding, hbody]
  · rintro ⟨-, -, -, -, hversion⟩
    exact absurd hversion (by decide)

end Suift
