import Suift.CStore.Equiv.DatabaseBackends
import Suift.CStore.Equiv.LocalStore
import Suift.CStore.Mock

/-!
# The three storage backends refine one abstract store

For each backend there is a relation between its state and the abstract store which every operation
keeps, and under which it gives the abstract store's answer.  The answers to any sequence of operations
are then the same (`backends_refine`).
-/

namespace Suift

open Text Json Database

/-! ### The databases -/

/-- The index entry of these ids: none for a list that has never been written. -/
def indexEntry (ids : List BidId) : Option Bytes := if ids = [] then none else some (marshalIds ids)

namespace DatabaseKind

variable {kind : DatabaseKind} {J : StoreCodec} {a : AbstractStore} {db : ByteMap}

theorem decodeEntry_some_marshalIds (ids : List BidId) :
    kind.decodeEntry J (some (marshalIds ids)) = .ok ids := by
  have hids := J.unmarshalIds_marshalIds ids
  cases kind with
  | redis =>
    show J.mustDecodeIds (marshalIds ids) = _
    rw [StoreCodec.mustDecodeIds, hids]
    rfl
  | pebble => exact hids

theorem decodeEntry_indexEntry (ids : List BidId) : kind.decodeEntry J (indexEntry ids) = .ok ids := by
  unfold indexEntry
  split_ifs with h
  · rw [h]
    rfl
  · exact decodeEntry_some_marshalIds ids

/-- The database holds the abstract store. -/
structure Represents (kind : DatabaseKind) (J : StoreCodec) (a : AbstractStore) (db : ByteMap) : Prop where
  bid : ∀ id, db (formatRedisBidKey id) = (a.bid? id).map J.marshalBid
  index : ∀ n v, db (kind.indexKey n v) = indexEntry ((a.bidsFor n v).map Bid.id)
  value : ∀ id key, ¬ kind.Reserved id → db (formatRedisBidValueKey id key) = a.values (id, key)

theorem represents_empty : kind.Represents J .empty fun _ => none where
  bid _ := rfl
  index _ _ := rfl
  value _ _ _ := rfl

/-- The database after a new bid has been put in. -/
def insertBid (kind : DatabaseKind) (J : StoreCodec) (a : AbstractStore) (db : ByteMap) (bid : Bid) :
    ByteMap :=
  Function.update (Function.update db (formatRedisBidKey bid.id) (some (J.marshalBid bid)))
    (kind.indexKey bid.decryptionCondition bid.version)
    (some (marshalIds ((a.bidsFor bid.decryptionCondition bid.version).map Bid.id ++ [bid.id])))

theorem exec_initializeBid (h : kind.Represents J a db) (bid : Bid) :
    exec ((kind.backend J).initializeBid bid) db =
      if bid.id ∈ a.initialized.map Bid.id then (.error errBidAlreadyPresent, db)
      else (.ok (), kind.insertBid J a db bid) := by
  rw [backend_initializeBid, exec, initializeProgram, ExceptT.run, Program.run]
  split_ifs with hmem
  · obtain ⟨b, hb⟩ := Option.ne_none_iff_exists'.mp (mt a.bid?_eq_none_iff.mp (not_not.mpr hmem))
    rw [h.bid, hb]
    rfl
  · rw [h.bid, a.bid?_eq_none_iff.mpr hmem]
    -- setting the bid does not touch the index entry that is read next
    have hindex : Function.update db (formatRedisBidKey bid.id) (some (J.marshalBid bid))
        (kind.indexKey bid.decryptionCondition bid.version) =
        indexEntry ((a.bidsFor bid.decryptionCondition bid.version).map Bid.id) := by
      rw [Function.update_of_ne (formatRedisBidKey_ne_indexKey _ _ _).symm, h.index]
    show Program.run (kind.indexProgram J bid) (Function.update db _ _) = _
    unfold indexProgram
    rw [Program.run, hindex, decodeEntry_indexEntry]
    rfl

theorem Represents.insertBid (h : kind.Represents J a db) {bid : Bid}
    (hnew : bid.id ∉ a.initialized.map Bid.id) :
    kind.Represents J (a.add bid hnew) (kind.insertBid J a db bid) where
  bid id := by
    rw [DatabaseKind.insertBid, Function.update_of_ne (formatRedisBidKey_ne_indexKey _ _ _),
      AbstractStore.bid?_add]
    split_ifs with hid
    · rw [hid, Function.update_self]
      rfl
    · have hne : formatRedisBidKey id ≠ formatRedisBidKey bid.id := fun heq =>
        hid (formatRedisBidKey_inj heq)
      rw [Function.update_of_ne hne, h.bid]
  index n v := by
    rw [DatabaseKind.insertBid, AbstractStore.bidsFor_add]
    split_ifs with hkey
    · obtain ⟨rfl, rfl⟩ := hkey
      rw [Function.update_self, List.map_append, List.map_singleton, indexEntry, if_neg (by simp)]
    · have hne : kind.indexKey n v ≠ kind.indexKey bid.decryptionCondition bid.version := fun heq =>
        hkey (indexKey_inj heq)
      rw [Function.update_of_ne hne, Function.update_of_ne (formatRedisBidKey_ne_indexKey _ _ _).symm,
        h.index]
  value id key hid := by
    rw [DatabaseKind.insertBid, Function.update_of_ne (formatRedisBidValueKey_ne_indexKey hid _ _ _),
      Function.update_of_ne (formatRedisBidKey_ne_valueKey _ _ _).symm, h.value id key hid]
    rfl

theorem Represents.insertValue (h : kind.Represents J a db) {id : BidId} (hid : ¬ kind.Reserved id)
    (key : GoString) (value : Bytes) :
    kind.Represents J { a with values := Function.update a.values (id, key) (some value) }
      (Function.update db (formatRedisBidValueKey id key) (some value)) where
  bid i := by
    rw [Function.update_of_ne (formatRedisBidKey_ne_valueKey _ _ _), h.bid]
    rfl
  index n v := by
    rw [Function.update_of_ne (formatRedisBidValueKey_ne_indexKey hid _ _ _).symm, h.index]
    rfl
  value i k hi := by
    show _ = Function.update a.values (id, key) (some value) (i, k)
    by_cases hkey : (i, k) = (id, key)
    · obtain ⟨rfl, rfl⟩ := Prod.mk.inj hkey
      rw [Function.update_self, Function.update_self]
    · have hne : formatRedisBidValueKey i k ≠ formatRedisBidValueKey id key := by
        intro heq
        obtain ⟨rfl, rfl⟩ := formatRedisBidValueKey_inj heq
        exact hkey rfl
      rw [Function.update_of_ne hne, Function.update_of_ne hkey, h.value i k hi]

/-- The bids of the store are found, as far as JSON gives them back. -/
theorem Represents.found_eq (h : kind.Represents J a db) (hjson : ∀ b ∈ a.initialized, J.RoundTrips b) :
    found J db = a.bid? := by
  funext id
  unfold found
  rw [h.bid]
  cases hbid : a.bid? id with
  | none => rfl
  | some b =>
    have hround := hjson b (a.bid?_eq_some_iff.mp hbid).1
    rw [Option.map_some, Option.bind_some, hround]
    rfl

end DatabaseKind

/-- The operation is not on the reserved bid, and JSON round-trips the bid that it initializes. -/
def StoreOp.Regular (J : StoreCodec) : StoreOp → Prop
  | .initializeBid bid => bid.id ≠ RedisStoreBackend.mempoolConfStoreId ∧ J.RoundTrips bid
  | .store bid _ _ _ => bid.id ≠ RedisStoreBackend.mempoolConfStoreId
  | .retrieve bid _ _ => bid.id ≠ RedisStoreBackend.mempoolConfStoreId
  | .fetchBidById bidId => bidId ≠ RedisStoreBackend.mempoolConfStoreId
  | .fetchBidsByProtocolAndBlock _ _ => True

namespace DatabaseKind

variable {kind : DatabaseKind} {J : StoreCodec} {a : AbstractStore} {db : ByteMap}

theorem not_reserved {id : BidId} (h : id ≠ RedisStoreBackend.mempoolConfStoreId) : ¬ kind.Reserved id := by
  cases kind with
  | redis => exact h
  | pebble => exact fun h => h

theorem exec_store (bid : Bid) (caller : Address) (key : GoString) (value : Bytes) :
    exec ((kind.backend J).store bid caller key value) db =
      (.ok bid, Function.update db (formatRedisBidValueKey bid.id key) (some value)) := by
  cases kind <;> rfl

theorem exec_retrieve (kind : DatabaseKind) (J : StoreCodec) (db : ByteMap) (bid : Bid) (caller : Address) (key : GoString) :
    ∃ r, exec ((kind.backend J).retrieve bid caller key) db = (r, db) ∧
      match db (formatRedisBidValueKey bid.id key) with
      | some value => r = .ok value
      | none => ∃ text w, r = .error (.error text w) := by
  cases kind with
  | redis =>
    show ∃ r, exec (RedisStoreBackend.retrieve bid caller key) db = (r, db) ∧ _
    unfold RedisStoreBackend.retrieve
    rw [exec_bind, exec_read]
    cases db (formatRedisBidValueKey bid.id key) with
    | none => exact ⟨_, rfl, _, _, rfl⟩
    | some value => exact ⟨_, rfl, rfl⟩
  | pebble =>
    show ∃ r, exec (PebbleStoreBackend.retrieve bid caller key) db = (r, db) ∧ _
    unfold PebbleStoreBackend.retrieve
    rw [exec_bind, exec_read, PebbleStoreBackend.formatPebbleBidValueKey]
    cases db (formatRedisBidValueKey bid.id key) with
    | none => exact ⟨_, rfl, _, _, rfl⟩
    | some value => exact ⟨_, rfl, rfl⟩

/-- One operation: the database gives the abstract store's answer and goes on representing it. -/
theorem simulates_answer (h : kind.Represents J a db) (hjson : ∀ b ∈ a.initialized, J.RoundTrips b)
    {op : StoreOp} (hop : op.Regular J) :
    ((kind.backend J).answer db op).1 = (a.answer op).1 ∧
      kind.Represents J (a.answer op).2 ((kind.backend J).answer db op).2 ∧
      ∀ b ∈ (a.answer op).2.initialized, J.RoundTrips b := by
  cases op with
  | initializeBid bid =>
    have hexec := exec_initializeBid h bid
    simp only [DatabaseBackend.answer, Request.answer, AbstractStore.answer, hexec]
    split_ifs with hmem
    · exact ⟨rfl, h, hjson⟩
    · refine ⟨rfl, h.insertBid hmem, ?_⟩
      intro b hb
      rcases List.mem_append.mp hb with hb | hb
      · exact hjson b hb
      · obtain rfl := List.mem_singleton.mp hb
        exact hop.2
  | store bid caller key value =>
    simp only [DatabaseBackend.answer, Request.answer, AbstractStore.answer, exec_store]
    exact ⟨rfl, h.insertValue (not_reserved hop) key value, hjson⟩
  | retrieve bid caller key =>
    obtain ⟨r, hexec, hr⟩ := exec_retrieve kind J db bid caller key
    rw [h.value bid.id key (not_reserved hop)] at hr
    simp only [DatabaseBackend.answer, Request.answer, AbstractStore.answer, hexec]
    refine ⟨?_, h, hjson⟩
    cases hvalue : a.values (bid.id, key) with
    | none =>
      rw [hvalue] at hr
      obtain ⟨text, w, rfl⟩ := hr
      rfl
    | some value =>
      rw [hvalue] at hr
      rw [hr]
      rfl
  | fetchBidById bidId =>
    obtain ⟨r, hexec, hr⟩ := exec_fetchBidById kind J db bidId
    rw [h.found_eq hjson] at hr
    simp only [DatabaseBackend.answer, Request.answer, AbstractStore.answer, hexec]
    refine ⟨?_, h, hjson⟩
    cases hbid : a.bid? bidId with
    | none =>
      rw [hbid] at hr
      obtain ⟨text, w, rfl⟩ := hr
      rfl
    | some bid =>
      rw [hbid] at hr
      rw [hr]
      rfl
  | fetchBidsByProtocolAndBlock n v =>
    have hentry : kind.decodeEntry J (db (kind.indexKey n v)) = .ok ((a.bidsFor n v).map Bid.id) := by
      rw [h.index, decodeEntry_indexEntry]
    have hexec := exec_fetchBidsByProtocolAndBlock kind J db hentry
    rw [h.found_eq hjson, a.filterMap_bid?_bidsFor] at hexec
    simp only [DatabaseBackend.answer, Request.answer, AbstractStore.answer, hexec]
    exact ⟨rfl, h, hjson⟩

end DatabaseKind

/-! ### The reserved bid -/

/-- A bid without a transaction comes back from JSON if its version is UTF-8. -/
theorem StoreCodec.roundTrips_of_creationTx_eq_none (J : StoreCodec) {bid : Bid}
    (htx : bid.creationTx = none) (hversion : Utf8.Valid bid.version) : J.RoundTrips bid := by
  have hcoerced : ({ bid.coerced with creationTx := none } : Bid) = bid := by
    rw [Bid.coerced, Utf8.coerce_of_valid hversion, ← htx]
  unfold RoundTrips unmarshalBid marshalBid
  rw [parse_print (wf_bidJson _), Option.bind_some, decode_bidJson, htx]
  show Except.ok ({ bid.coerced with creationTx := none } : Bid) = _
  rw [hcoerced]

/-- The abstract store in which the reserved bid has been initialized. -/
def AbstractStore.withMempool : AbstractStore :=
  AbstractStore.empty.add RedisStoreBackend.mempoolConfidentialStoreBid List.not_mem_nil

/-- Starting does nothing but to initialize the reserved bid. -/
theorem RedisStoreBackend.exec_start_snd (J : StoreCodec) (db : ByteMap) :
    (exec (start J) db).2 = (exec (initializeBid J mempoolConfidentialStoreBid) db).2 := by
  unfold start
  rw [exec_bind, exec_lift, show Program.run (initializeBid J mempoolConfidentialStoreBid).run db =
    exec (initializeBid J mempoolConfidentialStoreBid) db from rfl]
  generalize exec (initializeBid J mempoolConfidentialStoreBid) db = r
  obtain ⟨err | u, db'⟩ := r
  · dsimp only
    split_ifs <;> rfl
  · rfl

theorem DatabaseKind.represents_fresh_redis (J : StoreCodec) :
    redis.Represents J .withMempool (redis.backend J).fresh := by
  have hempty : redis.Represents J .empty fun _ => none := represents_empty
  have hnew : RedisStoreBackend.mempoolConfidentialStoreBid.id ∉
      AbstractStore.empty.initialized.map Bid.id := List.not_mem_nil
  have hexec := exec_initializeBid hempty RedisStoreBackend.mempoolConfidentialStoreBid
  rw [if_neg hnew] at hexec
  have hfresh : (redis.backend J).fresh =
      redis.insertBid J .empty (fun _ => none) RedisStoreBackend.mempoolConfidentialStoreBid :=
    (RedisStoreBackend.exec_start_snd J _).trans (congrArg Prod.snd hexec)
  rw [hfresh]
  exact hempty.insertBid hnew

/-! ### The local store -/

namespace LocalConfidentialStore

/-- The local store holds the abstract store. -/
structure Represents (a : AbstractStore) (l : LocalConfidentialStore) : Prop where
  bid : l.bids = a.bid?
  index : ∀ n v, (l.index (indexKey v n)).getD [] = (a.bidsFor n v).map Bid.id
  value : l.value = a.values

theorem represents_empty : Represents .empty empty where
  bid := rfl
  index _ _ := rfl
  value := rfl

theorem Represents.insertBid {a : AbstractStore} {l : LocalConfidentialStore} (h : Represents a l)
    {bid : Bid} (hnew : bid.id ∉ a.initialized.map Bid.id) :
    Represents (a.add bid hnew) (l.insertBid bid) where
  bid := by
    funext id
    show Function.update l.bids bid.id (some bid) id = _
    rw [AbstractStore.bid?_add, h.bid, Function.update_apply]
  index n v := by
    show (Function.update l.index (indexKey bid.version bid.decryptionCondition) _ (indexKey v n)).getD [] = _
    rw [AbstractStore.bidsFor_add]
    split_ifs with hkey
    · obtain ⟨rfl, rfl⟩ := hkey
      rw [Function.update_self, Option.getD_some, h.index, List.map_append, List.map_singleton]
    · have hne : indexKey v n ≠ indexKey bid.version bid.decryptionCondition := by
        intro heq
        obtain ⟨rfl, rfl⟩ := indexKey_inj heq
        exact hkey ⟨rfl, rfl⟩
      rw [Function.update_of_ne hne, h.index]
  value := by
    have hvalue := value_insertBids l [bid]
    exact hvalue.trans h.value

theorem simulates_answer {a : AbstractStore} {l : LocalConfidentialStore} (h : Represents a l)
    (op : StoreOp) :
    (backend.answer l op).1 = (a.answer op).1 ∧ Represents (a.answer op).2 (backend.answer l op).2 := by
  cases op with
  | initializeBid bid =>
    have hrun : (backend.initializeBid bid).run l = _ := atomic.run_initializeBid bid l
    simp only [ConfidentialStorageBackend.answer, AbstractStore.answer, hrun]
    have hbids : (atomic.bids l bid.id).isSome ↔ bid.id ∈ a.initialized.map Bid.id := by
      show (l.bids bid.id).isSome ↔ _
      rw [h.bid, ← not_iff_not, Option.not_isSome_iff_eq_none, a.bid?_eq_none_iff]
    by_cases hmem : bid.id ∈ a.initialized.map Bid.id
    · rw [if_pos (hbids.mpr hmem), dif_pos hmem]
      exact ⟨rfl, h⟩
    · rw [if_neg (mt hbids.mp hmem), dif_neg hmem]
      exact ⟨rfl, h.insertBid hmem⟩
  | store bid caller key value =>
    refine ⟨rfl, h.bid, h.index, ?_⟩
    show (l.insertWrite ⟨bid, caller, key, value⟩).value = _
    rw [value_insertWrite, h.value]
    rfl
  | retrieve bid caller key =>
    refine ⟨?_, h⟩
    have hvalue : l.dataMap (dataKey bid.id key) = a.values (bid.id, key) := congrFun h.value (bid.id, key)
    show Answer.ofExcept .value (retrieve l bid caller key) = (a.values (bid.id, key)).elim .error .value
    rw [retrieve, hvalue]
    cases a.values (bid.id, key) <;> rfl
  | fetchBidById bidId =>
    refine ⟨?_, h⟩
    show Answer.ofExcept .bid (fetchBidById l bidId) = (a.bid? bidId).elim .error .bid
    rw [fetchBidById, h.bid]
    cases a.bid? bidId <;> rfl
  | fetchBidsByProtocolAndBlock n v =>
    refine ⟨?_, h⟩
    have hfetch : fetchBidsByProtocolAndBlock l n v = ((l.index (indexKey v n)).getD []).filterMap l.bids := by
      unfold fetchBidsByProtocolAndBlock
      cases l.index (indexKey v n) <;> rfl
    show Answer.bids (fetchBidsByProtocolAndBlock l n v) = .bids (a.bidsFor n v)
    rw [hfetch, h.index, h.bid, a.filterMap_bid?_bidsFor]

end LocalConfidentialStore

/-- **The three backends refine one abstract store.**  A sequence of operations that are not on the
reserved bid, with bids that JSON round-trips, has the answers of the abstract store on each of them,
started on empty storage.  For Redis the reserved bid has been initialized. -/
theorem backends_refine {J : StoreCodec} {ops : List StoreOp} (hops : ∀ op ∈ ops, op.Regular J) :
    answers LocalConfidentialStore.backend.answer .empty ops = answers AbstractStore.answer .empty ops ∧
      answers (RedisStoreBackend.backend J).answer (RedisStoreBackend.backend J).fresh ops =
        answers AbstractStore.answer .withMempool ops ∧
      answers (PebbleStoreBackend.backend J).answer (PebbleStoreBackend.backend J).fresh ops =
        answers AbstractStore.answer .empty ops := by
  have hdatabase : ∀ (kind : DatabaseKind) (a : AbstractStore) (db : ByteMap),
      kind.Represents J a db → (∀ b ∈ a.initialized, J.RoundTrips b) →
      answers (kind.backend J).answer db ops = answers AbstractStore.answer a ops := by
    intro kind a db hrep hjson
    refine answers_eq_of_simulation (P := StoreOp.Regular J)
      (R := fun a db => kind.Represents J a db ∧ ∀ b ∈ a.initialized, J.RoundTrips b) ?_ ⟨hrep, hjson⟩ hops
    intro a db op h hop
    exact DatabaseKind.simulates_answer h.1 h.2 hop
  refine ⟨?_, ?_, ?_⟩
  · refine answers_eq_of_simulation (P := StoreOp.Regular J) (R := LocalConfidentialStore.Represents) ?_
      LocalConfidentialStore.represents_empty hops
    intro a l op h _
    exact LocalConfidentialStore.simulates_answer h op
  · apply hdatabase .redis _ _ (DatabaseKind.represents_fresh_redis J)
    intro b hb
    obtain rfl := List.mem_singleton.mp hb
    exact J.roundTrips_of_creationTx_eq_none rfl (by decide)
  · apply hdatabase .pebble _ _ DatabaseKind.represents_empty
    exact fun b hb => absurd hb List.not_mem_nil

/-! ### One bid with one value -/

def mockStoreCodec : StoreCodec where
  crypto := SuaveSigner.sampleCrypto
  eth := mockCodec
  errorText _ := []

/-- A bid in the index entry that also holds the reserved bid. -/
def bareBid : Bid := { emptyBid with id := 5 }

def bareOps : List StoreOp :=
  [.initializeBid bareBid, .store bareBid 0 [] [1], .retrieve bareBid 0 [], .fetchBidById 5,
    .fetchBidsByProtocolAndBlock 0 []]

theorem backends_refine_bareOps :
    answers LocalConfidentialStore.backend.answer .empty bareOps =
        [.nil, .bid bareBid, .value [1], .bid bareBid, .bids [bareBid]] ∧
      answers (RedisStoreBackend.backend mockStoreCodec).answer
          (RedisStoreBackend.backend mockStoreCodec).fresh bareOps =
        [.nil, .bid bareBid, .value [1], .bid bareBid,
          .bids [RedisStoreBackend.mempoolConfidentialStoreBid, bareBid]] ∧
      answers (PebbleStoreBackend.backend mockStoreCodec).answer
          (PebbleStoreBackend.backend mockStoreCodec).fresh bareOps =
        [.nil, .bid bareBid, .value [1], .bid bareBid, .bids [bareBid]] := by
  have hregular : ∀ op ∈ bareOps, op.Regular mockStoreCodec := by
    have hid : bareBid.id ≠ RedisStoreBackend.mempoolConfStoreId := by decide
    have hround : mockStoreCodec.RoundTrips bareBid :=
      mockStoreCodec.roundTrips_of_creationTx_eq_none rfl (by decide)
    simp only [bareOps, List.forall_mem_cons, StoreOp.Regular, List.not_mem_nil, false_implies,
      implies_true, and_true]
    exact ⟨⟨hid, hround⟩, hid, hid, hid⟩
  obtain ⟨hlocal, hredis, hpebble⟩ := backends_refine hregular
  refine ⟨hlocal.trans ?_, hredis.trans ?_, hpebble.trans ?_⟩
  · decide +kernel
  · decide +kernel
  · decide +kernel

end Suift
