import Suift.CStore.AbstractStore
import Suift.CStore.Equiv.Json

/-!
# How the database backends lay out a store

Redis and Pebble differ in the key of an index entry and in what they do with an entry that cannot be
read.  Apart from that `InitializeBid` is one and the same program (`backend_initializeBid`): look for the
bid, set it, get the index entry, set it.

`Represents a db` says that the database holds the abstract store `a`.  The keys of bids, values and
index entries are all different, so each operation changes the two in step.
-/

namespace Suift

open Text Json Database Hexutil

/-! ### Keys -/

theorem hyphen_notMem_decimal (n : ℕ) : 45 ∉ decimal n := by
  have hdigits : ∀ b ∈ decimal n, b ≠ 45 :=
    forall_mem_digits (P := fun b => b ≠ 45) (by norm_num) (by decide) n
  exact fun h => hdigits 45 h rfl

theorem uint64_of_decimal_eq {m n : UInt64} (h : decimal m.toNat = decimal n.toNat) : m = n := by
  have hm := ofDigits_decimal m.toNat
  rw [h, ofDigits_decimal] at hm
  exact UInt64.toNat_inj.mp (Option.some.inj hm).symm

theorem LocalConfidentialStore.indexKey_inj {v v' : GoString} {n n' : UInt64}
    (h : indexKey v n = indexKey v' n') : v = v' ∧ n = n' := by
  have hframe : (v ++ ascii "-bn") ++ 45 :: decimal n.toNat = (v' ++ ascii "-bn") ++ 45 :: decimal n'.toNat := by
    have hdrop := congrArg (List.drop 9) h
    simpa [indexKey, ascii] using hdrop
  obtain ⟨hv, hn⟩ := append_cons_inj_of_notMem_right (hyphen_notMem_decimal _) (hyphen_notMem_decimal _) hframe
  exact ⟨List.append_cancel_right hv, uint64_of_decimal_eq hn⟩

/-- A bid's id is hexadecimal, and `t` is not a hexadecimal digit. -/
theorem formatRedisBidKey_ne_valueKey (id id' : BidId) (key : GoString) :
    formatRedisBidKey id ≠ formatRedisBidValueKey id' key := by
  intro h
  have hframe : hexBidId id = ascii "data-" ++ (hexBidId id' ++ (ascii "-" ++ key)) := by
    have hdrop := congrArg (List.drop 4) h
    simpa [formatRedisBidKey, formatRedisBidValueKey, ascii] using hdrop
  have hmem : (116 : UInt8) ∈ hexBidId id := by
    rw [hframe]
    exact List.mem_append_left _ (by decide)
  obtain ⟨d, hd, hdigit⟩ := mem_hexDigits _ hmem
  have hne : ∀ d < 16, (116 : UInt8) ≠ hexDigit d := by decide
  exact hne d hd hdigit

theorem formatRedisBidKey_inj {i j : BidId} (h : formatRedisBidKey i = formatRedisBidKey j) : i = j := by
  have hhex : hexBidId i ++ [] = hexBidId j ++ [] := by
    rw [List.append_nil, List.append_nil]
    exact List.append_cancel_left h
  exact (hexBidId_append_inj hhex).1

theorem formatRedisBidValueKey_inj {i j : BidId} {k k' : GoString}
    (h : formatRedisBidValueKey i k = formatRedisBidValueKey j k') : i = j ∧ k = k' := by
  obtain ⟨hid, htail⟩ := hexBidId_append_inj (List.append_cancel_left h)
  exact ⟨hid, List.append_cancel_left htail⟩

namespace DatabaseKind

/-- The key of an index entry. -/
def indexKey : DatabaseKind → UInt64 → GoString → GoString
  | redis, blockNumber, version =>
    formatRedisBidValueKey RedisStoreBackend.mempoolConfStoreId
      (RedisStoreBackend.indexKey version blockNumber)
  | pebble, blockNumber, version =>
    PebbleStoreBackend.bidByBlockAndProtocolIndexDbKey blockNumber version

/-- The id belongs to the backend itself. -/
def Reserved : DatabaseKind → BidId → Prop
  | redis, id => id = RedisStoreBackend.mempoolConfStoreId
  | pebble, _ => False

variable {kind : DatabaseKind}

theorem indexKey_inj {n n' : UInt64} {v v' : GoString} (h : kind.indexKey n v = kind.indexKey n' v') :
    n = n' ∧ v = v' := by
  cases kind with
  | redis =>
    obtain ⟨hv, hn⟩ := LocalConfidentialStore.indexKey_inj (formatRedisBidValueKey_inj h).2
    exact ⟨hn, hv⟩
  | pebble =>
    have hframe : decimal n.toNat ++ 45 :: (ascii "ns-" ++ v) = decimal n'.toNat ++ 45 :: (ascii "ns-" ++ v') :=
      List.append_cancel_left h
    obtain ⟨hn, hv⟩ := append_cons_inj_of_notMem (hyphen_notMem_decimal _) (hyphen_notMem_decimal _) hframe
    exact ⟨uint64_of_decimal_eq hn, List.append_cancel_left hv⟩

theorem formatRedisBidKey_ne_indexKey (id : BidId) (n : UInt64) (v : GoString) :
    formatRedisBidKey id ≠ kind.indexKey n v := by
  cases kind with
  | redis => exact formatRedisBidKey_ne_valueKey _ _ _
  | pebble =>
    intro h
    have hfourth := congrArg (fun s => s[3]?) h
    exact absurd hfourth (by
      simp [formatRedisBidKey, indexKey, PebbleStoreBackend.bidByBlockAndProtocolIndexDbKey, ascii])

theorem formatRedisBidValueKey_ne_indexKey {id : BidId} (hid : ¬ kind.Reserved id) (key : GoString)
    (n : UInt64) (v : GoString) : formatRedisBidValueKey id key ≠ kind.indexKey n v := by
  cases kind with
  | redis => exact fun h => hid (formatRedisBidValueKey_inj h).1
  | pebble =>
    intro h
    have hfourth := congrArg (fun s => s[3]?) h
    exact absurd hfourth (by
      simp [formatRedisBidValueKey, indexKey, PebbleStoreBackend.bidByBlockAndProtocolIndexDbKey, ascii])

/-! ### `InitializeBid` as a program -/

/-- The ids in an index entry; without one there are none. -/
def decodeEntry (kind : DatabaseKind) (J : StoreCodec) : Option Bytes → Except GoError (List BidId)
  | none => .ok []
  | some data =>
    match kind with
    | redis => J.mustDecodeIds data
    | pebble => J.unmarshalIds data

/-- Put the bid into its index entry. -/
def indexProgram (kind : DatabaseKind) (J : StoreCodec) (bid : Bid) :
    Program GoString Bytes (Except GoError Unit) :=
  .get (kind.indexKey bid.decryptionCondition bid.version) fun entry =>
    match kind.decodeEntry J entry with
    | .ok ids =>
      .set (kind.indexKey bid.decryptionCondition bid.version) (marshalIds (ids ++ [bid.id])) (.done (.ok ()))
    | .error err => .done (.error err)

/-- The four requests of `InitializeBid`. -/
def initializeProgram (kind : DatabaseKind) (J : StoreCodec) (bid : Bid) :
    Program GoString Bytes (Except GoError Unit) :=
  .get (formatRedisBidKey bid.id) fun
    | some _ => .done (.error errBidAlreadyPresent)
    | none => .set (formatRedisBidKey bid.id) (J.marshalBid bid) (kind.indexProgram J bid)

theorem backend_initializeBid (J : StoreCodec) (bid : Bid) :
    (kind.backend J).initializeBid bid = kind.initializeProgram J bid := by
  -- binding a request gives the request with the rest of the program behind it
  cases kind with
  | redis =>
    refine congrArg (Program.get (formatRedisBidKey bid.id)) (funext fun found => ?_)
    cases found with
    | some data => rfl
    | none =>
      refine congrArg (Program.set (formatRedisBidKey bid.id) (J.marshalBid bid)) ?_
      refine congrArg (Program.get (indexKey redis bid.decryptionCondition bid.version))
        (funext fun entry => ?_)
      cases entry with
      | none => rfl
      | some data =>
        show Program.bind (Program.bind (Program.done (J.mustDecodeIds data)) _) _ = _
        simp only [decodeEntry]
        cases J.mustDecodeIds data <;> rfl
  | pebble =>
    refine congrArg (Program.get (formatRedisBidKey bid.id)) (funext fun found => ?_)
    cases found with
    | some data => rfl
    | none =>
      refine congrArg (Program.set (formatRedisBidKey bid.id) (J.marshalBid bid)) ?_
      refine congrArg (Program.get (indexKey pebble bid.decryptionCondition bid.version))
        (funext fun entry => ?_)
      cases entry with
      | none => rfl
      | some data =>
        show ExceptT.bindCont (fun ids => write (indexKey pebble bid.decryptionCondition bid.version)
          (marshalIds (ids ++ [bid.id]))) (J.unmarshalIds data) = _
        simp only [decodeEntry]
        cases J.unmarshalIds data <;> rfl

end DatabaseKind

/-! ### Reading what was written -/

namespace StoreCodec

variable (J : StoreCodec)

theorem unmarshalIds_marshalIds (ids : List BidId) : J.unmarshalIds (marshalIds ids) = .ok ids := by
  have hwf : (Value.arr (ids.map idJson)).WF := by
    apply wf_arr
    intro v hv
    obtain ⟨id, -, rfl⟩ := List.mem_map.mp hv
    exact wf_idJson id
  have hdecode : decodeSlice 0 decodeId none (.arr (ids.map idJson)) = some (some ids) := by
    show (decodeElems 0 decodeId [] (ids.map idJson)).map some = some (some ids)
    rw [decodeElems_map (g := fun id => some id) decodeId_idJson, mapM_some, Option.map_some]
  unfold unmarshalIds marshalIds
  rw [parse_print hwf, Option.bind_some, hdecode]
  rfl

theorem unmarshalBid_cases (data : Bytes) :
    (∃ bid, J.unmarshalBid data = .ok bid) ∨ ∃ text, J.unmarshalBid data = .error (.error text none) := by
  unfold unmarshalBid
  cases (parse data).bind ((bidFormat J.eth).decode emptyBid) with
  | none => exact .inr ⟨_, rfl⟩
  | some bid => exact .inl ⟨bid, rfl⟩

/-- JSON gives the bid back. -/
def RoundTrips (bid : Bid) : Prop := J.unmarshalBid (J.marshalBid bid) = .ok bid

/-- Whatever JSON makes of a bid, it has the same id. -/
theorem id_of_unmarshalBid_marshalBid {bid bid' : Bid}
    (h : J.unmarshalBid (J.marshalBid bid) = .ok bid') : bid'.id = bid.id := by
  unfold unmarshalBid marshalBid at h
  rw [parse_print (wf_bidJson bid), Option.bind_some, decode_bidJson] at h
  cases htx : decodeTxPointer J.eth (txPointerJson J.crypto J.eth bid.creationTx) with
  | none =>
    rw [htx] at h
    cases h
  | some tx =>
    rw [htx] at h
    cases h
    rfl

end StoreCodec

/-! ### Fetching -/

theorem exec_attempt {α : Type} (x : Request α) (db : ByteMap) :
    exec (attempt x) db =
      match exec x db with
      | (.ok a, db') => (.ok (some a), db')
      | (.error (.error _ _), db') => (.ok none, db')
      | (.error (.panic text), db') => (.error (.panic text), db') := by
  unfold attempt
  rw [exec_bind, exec_lift, show Program.run x.run db = exec x db from rfl]
  generalize exec x db = r
  obtain ⟨(⟨text, w⟩ | text) | a, db'⟩ := r <;> rfl

/-- The bid that is found under the id. -/
def found (J : StoreCodec) (db : ByteMap) (bidId : BidId) : Option Bid :=
  (db (formatRedisBidKey bidId)).bind fun data => (J.unmarshalBid data).toOption

theorem found_eq_some_iff {J : StoreCodec} {db : ByteMap} {bidId : BidId} {bid : Bid} :
    found J db bidId = some bid ↔
      ∃ data, db (formatRedisBidKey bidId) = some data ∧ J.unmarshalBid data = .ok bid := by
  have hoption : ∀ r : Except GoError Bid, r.toOption = some bid ↔ r = .ok bid := by
    rintro (err | b)
    · exact ⟨nofun, nofun⟩
    · exact ⟨fun h => congrArg Except.ok (Option.some.inj h), fun h => congrArg some (Except.ok.inj h)⟩
  unfold found
  rw [Option.bind_eq_some_iff]
  simp only [hoption]

namespace DatabaseKind

variable (kind : DatabaseKind) (J : StoreCodec) (db : ByteMap)

/-- `FetchBidById` changes nothing, and fails with an error if there is no bid or it cannot be read. -/
theorem exec_fetchBidById (bidId : BidId) :
    ∃ r, exec ((kind.backend J).fetchBidById bidId) db = (r, db) ∧
      match found J db bidId with
      | some bid => r = .ok bid
      | none => ∃ text w, r = .error (.error text w) := by
  cases kind with
  | redis =>
    show ∃ r, exec (RedisStoreBackend.fetchBidById J bidId) db = (r, db) ∧ _
    unfold RedisStoreBackend.fetchBidById found
    rw [exec_bind, exec_read]
    cases db (formatRedisBidKey bidId) with
    | none => exact ⟨_, rfl, _, _, rfl⟩
    | some data =>
      simp only [exec_mk_pure, Option.bind_some]
      rcases J.unmarshalBid_cases data with ⟨bid, h⟩ | ⟨text, h⟩
      · exact ⟨_, rfl, by rw [h]; rfl⟩
      · exact ⟨_, rfl, by rw [h]; exact ⟨_, _, rfl⟩⟩
  | pebble =>
    show ∃ r, exec (PebbleStoreBackend.fetchBidById J bidId) db = (r, db) ∧ _
    unfold PebbleStoreBackend.fetchBidById found
    rw [exec_bind, exec_read, PebbleStoreBackend.formatPebbleBidKey]
    cases db (formatRedisBidKey bidId) with
    | none => exact ⟨_, rfl, _, _, rfl⟩
    | some data =>
      simp only [exec_mk_pure, Option.bind_some]
      rcases J.unmarshalBid_cases data with ⟨bid, h⟩ | ⟨text, h⟩
      · exact ⟨_, rfl, by rw [h]; rfl⟩
      · exact ⟨_, rfl, by rw [h]; exact ⟨_, _, rfl⟩⟩

theorem exec_attempt_fetchBidById (bidId : BidId) :
    exec (attempt ((kind.backend J).fetchBidById bidId)) db = (.ok (found J db bidId), db) := by
  obtain ⟨r, hexec, hr⟩ := exec_fetchBidById kind J db bidId
  rw [exec_attempt, hexec]
  cases hfound : found J db bidId with
  | some bid =>
    rw [hfound] at hr
    rw [hr]
  | none =>
    rw [hfound] at hr
    obtain ⟨text, w, rfl⟩ := hr
    rfl

theorem exec_fetchEach (ids : List BidId) :
    exec (fetchEach (kind.backend J).fetchBidById ids) db = (.ok (ids.filterMap (found J db)), db) := by
  induction ids with
  | nil => rfl
  | cons id ids ih =>
    rw [fetchEach, exec_bind, exec_attempt_fetchBidById]
    simp only [exec_bind, ih, exec_pure]
    cases hfound : found J db id with
    | none => rw [List.filterMap_cons_none hfound]; rfl
    | some bid => rw [List.filterMap_cons_some hfound]; rfl

/-- `FetchBidsByProtocolAndBlock` on an index entry that can be read. -/
theorem exec_fetchBidsByProtocolAndBlock {n : UInt64} {v : GoString} {ids : List BidId}
    (h : kind.decodeEntry J (db (kind.indexKey n v)) = .ok ids) :
    exec ((kind.backend J).fetchBidsByProtocolAndBlock n v) db =
      (.ok (ids.filterMap (found J db)), db) := by
  have heach := exec_fetchEach kind J db ids
  cases kind with
  | redis =>
    show exec (RedisStoreBackend.fetchBidsByProtocolAndBlock J n v) db = _
    unfold RedisStoreBackend.fetchBidsByProtocolAndBlock RedisStoreBackend.retrieve
    rw [exec_bind, exec_attempt, exec_bind, exec_read]
    have hkey : formatRedisBidValueKey RedisStoreBackend.mempoolConfidentialStoreBid.id
        (RedisStoreBackend.indexKey v n) = indexKey redis n v := rfl
    rw [hkey]
    cases hentry : db (indexKey redis n v) with
    | none =>
      rw [hentry] at h
      cases h
      rfl
    | some data =>
      rw [hentry] at h
      replace h : J.mustDecodeIds data = .ok ids := h
      simp only [exec_pure, exec_bind, exec_mk_pure, h]
      exact heach
  | pebble =>
    show exec (PebbleStoreBackend.fetchBidsByProtocolAndBlock J n v) db = _
    unfold PebbleStoreBackend.fetchBidsByProtocolAndBlock
    rw [exec_bind, exec_read]
    have hkey : PebbleStoreBackend.bidByBlockAndProtocolIndexDbKey n v = indexKey pebble n v := rfl
    rw [hkey]
    cases hentry : db (indexKey pebble n v) with
    | none =>
      rw [hentry] at h
      cases h
      rfl
    | some data =>
      rw [hentry] at h
      replace h : J.unmarshalIds data = .ok ids := h
      simp only [h]
      exact heach

end DatabaseKind

end Suift
