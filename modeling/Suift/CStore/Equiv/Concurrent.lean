import Suift.CStore.Equiv.Refinement
import Suift.Lib.LostUpdate

/-!
# Bids that are initialized at the same time

`Finalize` runs on the RPC thread while `ProcessMessages` takes in messages, and both call `InitializeBid`.
On Redis and Pebble the index entry is got, extended and set again, and nothing keeps another call from
doing the same in between.

Calls that have all returned success leave every bid in its index entry exactly if no two of them
overlapped on one entry (`fetchBids_concurrent_iff`).  The index is the general picture of parties that append
to shared cells, as far as the requests for index entries are concerned (`Sim`).
-/

namespace Suift

open Text Json Database

namespace DatabaseKind

variable {ι : Type} {kind : DatabaseKind} {J : StoreCodec}

/-! ### The calls -/

/-- `InitializeBid` is called for each of the bids. -/
def concurrent (kind : DatabaseKind) (J : StoreCodec) (db : ByteMap) (bids : ι → Bid) :
    System ι GoString Bytes (Except GoError Unit) :=
  System.init db fun i => (kind.backend J).initializeBid (bids i)

/-- The key of the index entry to which the bid belongs. -/
def entryKey (kind : DatabaseKind) (bid : Bid) : GoString :=
  kind.indexKey bid.decryptionCondition bid.version

/-- The call for bid `j` sets the index entry of bid `i` after the call for `i` has got it and before that
one sets it. -/
def Overlap (kind : DatabaseKind) (bids : ι → Bid) (trace : List (ι × Access GoString)) (i j : ι) : Prop :=
  j ≠ i ∧ (bids j).decryptionCondition = (bids i).decryptionCondition ∧
    (bids j).version = (bids i).version ∧
    [(i, .get (kind.entryKey (bids i))), (j, .set (kind.entryKey (bids i))),
      (i, .set (kind.entryKey (bids i)))].Sublist trace

/-- Every index entry can be read, its bids are there, and what is found under an id is a bid of that
id. -/
structure Coherent (kind : DatabaseKind) (J : StoreCodec) (db : ByteMap) : Prop where
  index : ∀ n v, ∃ ids, kind.decodeEntry J (db (kind.indexKey n v)) = .ok ids ∧
    ∀ id ∈ ids, db (formatRedisBidKey id) ≠ none
  bid : ∀ id bid, found J db id = some bid → bid.id = id

theorem Represents.coherent {a : AbstractStore} {db : ByteMap} (h : kind.Represents J a db) :
    kind.Coherent J db where
  index n v := by
    refine ⟨(a.bidsFor n v).map Bid.id, by rw [h.index, decodeEntry_indexEntry], ?_⟩
    intro id hid
    obtain ⟨b, hb, rfl⟩ := List.mem_map.mp hid
    have hmem : b ∈ a.initialized := List.mem_of_mem_filter hb
    rw [h.bid, a.bid?_eq_some_iff.mpr ⟨hmem, rfl⟩]
    exact Option.some_ne_none _
  bid id bid hfound := by
    obtain ⟨data, hdata, hbid⟩ := found_eq_some_iff.mp hfound
    rw [h.bid] at hdata
    obtain ⟨b, hb, rfl⟩ := Option.map_eq_some_iff.mp hdata
    rw [J.id_of_unmarshalBid_marshalBid hbid]
    exact (a.bid?_eq_some_iff.mp hb).2

/-! ### The requests for index entries -/

/-- The condition and the version under which the bid is found. -/
def entryOf (bid : Bid) : UInt64 × GoString := (bid.decryptionCondition, bid.version)

/-- The request for its index entry with which a call reads or writes it. -/
def request (kind : DatabaseKind) (bids : ι → Bid) : LostUpdate.Access ι → ι × Access GoString
  | .read i => (i, .get (kind.entryKey (bids i)))
  | .write i => (i, .set (kind.entryKey (bids i)))

/-- What a request does to the index. -/
def access (kind : DatabaseKind) (bids : ι → Bid) : ι × Access GoString → Option (LostUpdate.Access ι)
  | (i, .get k) => if k = kind.entryKey (bids i) then some (.read i) else none
  | (i, .set k) => if k = kind.entryKey (bids i) then some (.write i) else none

theorem isPartialInv_request (kind : DatabaseKind) (bids : ι → Bid) :
    Function.IsPartialInv (kind.request bids) (kind.access bids) := by
  rintro (i | i) ⟨j, k | k⟩
  · simp only [access, request, Option.ite_none_right_eq_some, Option.some.injEq,
      LostUpdate.Access.read.injEq, Prod.mk.injEq, Access.get.injEq]
    constructor
    · rintro ⟨rfl, rfl⟩
      exact ⟨rfl, rfl⟩
    · rintro ⟨rfl, rfl⟩
      exact ⟨rfl, rfl⟩
  · simp [access, request]
  · simp [access, request]
  · simp only [access, request, Option.ite_none_right_eq_some, Option.some.injEq,
      LostUpdate.Access.write.injEq, Prod.mk.injEq, Access.set.injEq]
    constructor
    · rintro ⟨rfl, rfl⟩
      exact ⟨rfl, rfl⟩
    · rintro ⟨rfl, rfl⟩
      exact ⟨rfl, rfl⟩

/-- What has been done to the index. -/
def accesses (kind : DatabaseKind) (bids : ι → Bid) (trace : List (ι × Access GoString)) :
    List (LostUpdate.Access ι) :=
  trace.filterMap (kind.access bids)

/-- Two calls overlap exactly if they are in conflict about an index entry. -/
theorem exists_overlap_iff {bids : ι → Bid} {trace : List (ι × Access GoString)} :
    (∃ i j, kind.Overlap bids trace i j) ↔
      ∃ c, LostUpdate.Conflict (fun i => entryOf (bids i)) c (kind.accesses bids trace) := by
  have hsub : ∀ i j, entryOf (bids j) = entryOf (bids i) →
      ([.read i, .write j, .write i].Sublist (kind.accesses bids trace) ↔
        [(i, .get (kind.entryKey (bids i))), (j, .set (kind.entryKey (bids i))),
          (i, .set (kind.entryKey (bids i)))].Sublist trace) := by
    intro i j heq
    have hkey : kind.entryKey (bids j) = kind.entryKey (bids i) := by
      obtain ⟨hn, hv⟩ := Prod.mk.inj heq
      rw [entryKey, hn, hv, entryKey]
    unfold accesses
    rw [LostUpdate.sublist_filterMap_iff_of_isPartialInv (kind.isPartialInv_request bids), List.map_cons,
      List.map_cons, List.map_singleton, request, request, request, hkey]
  constructor
  · rintro ⟨i, j, hne, hn, hv, htrace⟩
    have heq : entryOf (bids j) = entryOf (bids i) := Prod.ext hn hv
    exact ⟨_, i, j, hne, rfl, heq, (hsub i j heq).mpr htrace⟩
  · rintro ⟨c, i, j, hne, rfl, heq, haccesses⟩
    obtain ⟨hn, hv⟩ := Prod.mk.inj heq
    exact ⟨i, j, hne, hn, hv, (hsub i j heq).mp haccesses⟩

section Accesses

variable {bids : ι → Bid} {trace : List (ι × Access GoString)} {i : ι}

theorem accesses_concat_bidKey (id : BidId) :
    kind.accesses bids (trace ++ [(i, .get (formatRedisBidKey id))]) = kind.accesses bids trace ∧
      kind.accesses bids (trace ++ [(i, .set (formatRedisBidKey id))]) = kind.accesses bids trace := by
  have hne : formatRedisBidKey id ≠ kind.entryKey (bids i) := formatRedisBidKey_ne_indexKey _ _ _
  simp [accesses, access, hne]

theorem accesses_concat_get :
    kind.accesses bids (trace ++ [(i, .get (kind.entryKey (bids i)))]) =
      kind.accesses bids trace ++ [.read i] := by
  simp [accesses, access]

theorem accesses_concat_set :
    kind.accesses bids (trace ++ [(i, .set (kind.entryKey (bids i)))]) =
      kind.accesses bids trace ++ [.write i] := by
  simp [accesses, access]

end Accesses

/-! ### How far the calls are -/

/-- Where the call for `bid` is: what is left of its program, what it has done to the index, and what is
under the bid's key, as compared with the database `db₀` at the beginning. -/
inductive Stage (kind : DatabaseKind) (J : StoreCodec) (db₀ db : ByteMap) (bid : Bid) (i : ι)
    (accesses : List (LostUpdate.Access ι)) (seen : List BidId) :
    Program GoString Bytes (Except GoError Unit) → Prop
  | called (hdb : db (formatRedisBidKey bid.id) = db₀ (formatRedisBidKey bid.id))
      (hread : .read i ∉ accesses) (hwrite : .write i ∉ accesses) :
      Stage kind J db₀ db bid i accesses seen (kind.initializeProgram J bid)
  | absent (hdb : db (formatRedisBidKey bid.id) = db₀ (formatRedisBidKey bid.id))
      (hnew : db₀ (formatRedisBidKey bid.id) = none)
      (hread : .read i ∉ accesses) (hwrite : .write i ∉ accesses) :
      Stage kind J db₀ db bid i accesses seen
        (.set (formatRedisBidKey bid.id) (J.marshalBid bid) (kind.indexProgram J bid))
  | stored (hdb : db (formatRedisBidKey bid.id) = some (J.marshalBid bid))
      (hnew : db₀ (formatRedisBidKey bid.id) = none)
      (hread : .read i ∉ accesses) (hwrite : .write i ∉ accesses) :
      Stage kind J db₀ db bid i accesses seen (kind.indexProgram J bid)
  | fetched (hdb : db (formatRedisBidKey bid.id) = some (J.marshalBid bid))
      (hnew : db₀ (formatRedisBidKey bid.id) = none)
      (hread : .read i ∈ accesses) (hwrite : .write i ∉ accesses) :
      Stage kind J db₀ db bid i accesses seen
        (.set (kind.entryKey bid) (marshalIds (seen ++ [bid.id])) (.done (.ok ())))
  | returned (hdb : db (formatRedisBidKey bid.id) = some (J.marshalBid bid))
      (hnew : db₀ (formatRedisBidKey bid.id) = none) (hwrite : .write i ∈ accesses) :
      Stage kind J db₀ db bid i accesses seen (.done (.ok ()))
  | failed (err : GoError) (hdb : db (formatRedisBidKey bid.id) = db₀ (formatRedisBidKey bid.id))
      (hwrite : .write i ∉ accesses) :
      Stage kind J db₀ db bid i accesses seen (.done (.error err))

section Stage

variable {db₀ db db' : ByteMap} {bid : Bid} {i : ι} {accesses accesses' : List (LostUpdate.Access ι)}
  {seen seen' : List BidId} {program : Program GoString Bytes (Except GoError Unit)}

/-- A call stays where it is as long as nobody touches what it looks at. -/
theorem Stage.frame (h : kind.Stage J db₀ db bid i accesses seen program)
    (hkey : db' (formatRedisBidKey bid.id) = db (formatRedisBidKey bid.id))
    (hreads : .read i ∈ accesses' ↔ .read i ∈ accesses)
    (hwrites : .write i ∈ accesses' ↔ .write i ∈ accesses) (hseen : seen' = seen) :
    kind.Stage J db₀ db' bid i accesses' seen' program := by
  rw [hseen]
  cases h with
  | called hdb hread hwrite => exact .called (hkey.trans hdb) (mt hreads.mp hread) (mt hwrites.mp hwrite)
  | absent hdb hnew hread hwrite =>
    exact .absent (hkey.trans hdb) hnew (mt hreads.mp hread) (mt hwrites.mp hwrite)
  | stored hdb hnew hread hwrite =>
    exact .stored (hkey.trans hdb) hnew (mt hreads.mp hread) (mt hwrites.mp hwrite)
  | fetched hdb hnew hread hwrite =>
    exact .fetched (hkey.trans hdb) hnew (hreads.mpr hread) (mt hwrites.mp hwrite)
  | returned hdb hnew hwrite => exact .returned (hkey.trans hdb) hnew (hwrites.mpr hwrite)
  | failed err hdb hwrite => exact .failed err (hkey.trans hdb) (mt hwrites.mp hwrite)

/-- What is under the bid's key is what was there before, or the bid where there was nothing; it is the bid
once the index has been written. -/
theorem Stage.bidKey (h : kind.Stage J db₀ db bid i accesses seen program) :
    (db (formatRedisBidKey bid.id) = db₀ (formatRedisBidKey bid.id) ∧ .write i ∉ accesses) ∨
      (db (formatRedisBidKey bid.id) = some (J.marshalBid bid) ∧ db₀ (formatRedisBidKey bid.id) = none) := by
  cases h with
  | called hdb hread hwrite => exact .inl ⟨hdb, hwrite⟩
  | absent hdb hnew hread hwrite => exact .inl ⟨hdb, hwrite⟩
  | stored hdb hnew hread hwrite => exact .inr ⟨hdb, hnew⟩
  | fetched hdb hnew hread hwrite => exact .inr ⟨hdb, hnew⟩
  | returned hdb hnew hwrite => exact .inr ⟨hdb, hnew⟩
  | failed err hdb hwrite => exact .inl ⟨hdb, hwrite⟩

/-- A call that has returned success has found nothing under the bid's key and has written the index. -/
theorem Stage.of_ok (h : kind.Stage J db₀ db bid i accesses seen program) (hok : program = .done (.ok ())) :
    db (formatRedisBidKey bid.id) = some (J.marshalBid bid) ∧ db₀ (formatRedisBidKey bid.id) = none ∧
      .write i ∈ accesses := by
  cases h with
  | called hdb hread hwrite => exact nomatch hok
  | absent hdb hnew hread hwrite => exact nomatch hok
  | stored hdb hnew hread hwrite => exact nomatch hok
  | fetched hdb hnew hread hwrite => exact nomatch hok
  | returned hdb hnew hwrite => exact ⟨hdb, hnew, hwrite⟩
  | failed err hdb hwrite => exact nomatch hok

end Stage

/-! ### The run -/

variable [DecidableEq ι]

/-- The index after the requests of the trace, as parties that append to shared cells leave it. -/
def indexAfter (kind : DatabaseKind) (bids : ι → Bid) (contents : UInt64 × GoString → List BidId)
    (trace : List (ι × Access GoString)) : LostUpdate.State ι (UInt64 × GoString) BidId :=
  LostUpdate.State.run (fun i => entryOf (bids i)) (fun i => (bids i).id) ⟨contents, fun _ => []⟩
    (kind.accesses bids trace)

/-- The invariant of a run that started from the database `db₀` with an index of these contents. -/
structure Sim (kind : DatabaseKind) (J : StoreCodec) (bids : ι → Bid) (db₀ : ByteMap)
    (contents : UInt64 × GoString → List BidId) (s : System ι GoString Bytes (Except GoError Unit)) :
    Prop where
  wellFormed : LostUpdate.WellFormed (kind.accesses bids s.trace)
  entry : ∀ n v, kind.decodeEntry J (s.db (kind.indexKey n v)) =
    .ok ((kind.indexAfter bids contents s.trace).cell (n, v))
  other : ∀ id, (∀ i, (bids i).id ≠ id) → s.db (formatRedisBidKey id) = db₀ (formatRedisBidKey id)
  stage : ∀ i, kind.Stage J db₀ s.db (bids i) i (kind.accesses bids s.trace)
    ((kind.indexAfter bids contents s.trace).seen i) (s.programs i)

section Run

variable {bids : ι → Bid} {db₀ : ByteMap} {contents : UInt64 × GoString → List BidId}
  {s : System ι GoString Bytes (Except GoError Unit)}

theorem sim_concurrent (hcontents : ∀ n v, kind.decodeEntry J (db₀ (kind.indexKey n v)) = .ok (contents (n, v))) :
    kind.Sim J bids db₀ contents (kind.concurrent J db₀ bids) where
  wellFormed := .nil
  entry := hcontents
  other _ _ := rfl
  stage i := by
    have hprogram : (kind.concurrent J db₀ bids).programs i = kind.initializeProgram J (bids i) :=
      backend_initializeBid J (bids i)
    rw [hprogram]
    exact .called rfl List.not_mem_nil List.not_mem_nil

/-- A step of the call for bid `i`: the others see nothing of it under the keys of their bids. -/
theorem Sim.update (h : kind.Sim J bids db₀ contents s) (hids : Function.Injective fun i => (bids i).id)
    {i : ι} {db : ByteMap} {program : Program GoString Bytes (Except GoError Unit)}
    {trace : List (ι × Access GoString)} (hwf : LostUpdate.WellFormed (kind.accesses bids trace))
    (hentry : ∀ n v, kind.decodeEntry J (db (kind.indexKey n v)) =
      .ok ((kind.indexAfter bids contents trace).cell (n, v)))
    (hother : ∀ id, id ≠ (bids i).id → db (formatRedisBidKey id) = s.db (formatRedisBidKey id))
    (hstage : kind.Stage J db₀ db (bids i) i (kind.accesses bids trace)
      ((kind.indexAfter bids contents trace).seen i) program)
    (hframe : ∀ j, j ≠ i →
      (.read j ∈ kind.accesses bids trace ↔ .read j ∈ kind.accesses bids s.trace) ∧
      (.write j ∈ kind.accesses bids trace ↔ .write j ∈ kind.accesses bids s.trace) ∧
      (kind.indexAfter bids contents trace).seen j = (kind.indexAfter bids contents s.trace).seen j) :
    kind.Sim J bids db₀ contents ⟨db, Function.update s.programs i program, trace⟩ where
  wellFormed := hwf
  entry := hentry
  other id hid := (hother id (Ne.symm (hid i))).trans (h.other id hid)
  stage j := by
    by_cases hij : j = i
    · subst hij
      show kind.Stage J db₀ db (bids j) j _ _ (Function.update s.programs j program j)
      rw [Function.update_self]
      exact hstage
    · show kind.Stage J db₀ db (bids j) j _ _ (Function.update s.programs i program j)
      rw [Function.update_of_ne hij]
      obtain ⟨hreads, hwrites, hseen⟩ := hframe j hij
      exact (h.stage j).frame (hother _ fun heq => hij (hids heq)) hreads hwrites hseen

/-- A step that leaves the index alone. -/
theorem Sim.update_of_accesses_eq (h : kind.Sim J bids db₀ contents s)
    (hids : Function.Injective fun i => (bids i).id) {i : ι} {db : ByteMap}
    {program : Program GoString Bytes (Except GoError Unit)} {trace : List (ι × Access GoString)}
    (htrace : kind.accesses bids trace = kind.accesses bids s.trace)
    (hindex : ∀ n v, db (kind.indexKey n v) = s.db (kind.indexKey n v))
    (hother : ∀ id, id ≠ (bids i).id → db (formatRedisBidKey id) = s.db (formatRedisBidKey id))
    (hstage : kind.Stage J db₀ db (bids i) i (kind.accesses bids s.trace)
      ((kind.indexAfter bids contents s.trace).seen i) program) :
    kind.Sim J bids db₀ contents ⟨db, Function.update s.programs i program, trace⟩ := by
  have hafter : kind.indexAfter bids contents trace = kind.indexAfter bids contents s.trace := by
    rw [indexAfter, htrace, indexAfter]
  apply h.update hids
  · rw [htrace]
    exact h.wellFormed
  · intro n v
    rw [hindex, hafter]
    exact h.entry n v
  · exact hother
  · rw [htrace, hafter]
    exact hstage
  · intro j _
    rw [htrace, hafter]
    exact ⟨Iff.rfl, Iff.rfl, rfl⟩

theorem indexAfter_concat_get {trace : List (ι × Access GoString)} {i : ι} :
    kind.indexAfter bids contents (trace ++ [(i, .get (kind.entryKey (bids i)))]) =
      (kind.indexAfter bids contents trace).step (fun i => entryOf (bids i)) (fun i => (bids i).id)
        (.read i) := by
  rw [indexAfter, accesses_concat_get, LostUpdate.State.run_concat]
  rfl

theorem indexAfter_concat_set {trace : List (ι × Access GoString)} {i : ι} :
    kind.indexAfter bids contents (trace ++ [(i, .set (kind.entryKey (bids i)))]) =
      (kind.indexAfter bids contents trace).step (fun i => entryOf (bids i)) (fun i => (bids i).id)
        (.write i) := by
  rw [indexAfter, accesses_concat_set, LostUpdate.State.run_concat]
  rfl

variable (hids : Function.Injective fun i => (bids i).id) {i : ι}

include hids

/-- The call looks for its bid. -/
theorem Sim.step_called (h : kind.Sim J bids db₀ contents s)
    (hprogram : s.programs i = kind.initializeProgram J (bids i))
    (hdb : s.db (formatRedisBidKey (bids i).id) = db₀ (formatRedisBidKey (bids i).id))
    (hread : .read i ∉ kind.accesses bids s.trace) (hwrite : .write i ∉ kind.accesses bids s.trace) :
    kind.Sim J bids db₀ contents (s.step i) := by
  rw [System.step_of_get hprogram]
  apply h.update_of_accesses_eq hids (accesses_concat_bidKey (bids i).id).1 (fun _ _ => rfl) (fun _ _ => rfl)
  cases hfound : s.db (formatRedisBidKey (bids i).id) with
  | none => exact .absent hdb (hdb.symm.trans hfound) hread hwrite
  | some data => exact .failed _ hdb hwrite

/-- The call stores its bid. -/
theorem Sim.step_absent (h : kind.Sim J bids db₀ contents s)
    (hprogram : s.programs i =
      .set (formatRedisBidKey (bids i).id) (J.marshalBid (bids i)) (kind.indexProgram J (bids i)))
    (hnew : db₀ (formatRedisBidKey (bids i).id) = none)
    (hread : .read i ∉ kind.accesses bids s.trace) (hwrite : .write i ∉ kind.accesses bids s.trace) :
    kind.Sim J bids db₀ contents (s.step i) := by
  rw [System.step_of_set hprogram]
  apply h.update_of_accesses_eq hids (accesses_concat_bidKey (bids i).id).2
  · intro n v
    rw [Function.update_of_ne (formatRedisBidKey_ne_indexKey _ _ _).symm]
  · intro id hid
    have hne : formatRedisBidKey id ≠ formatRedisBidKey (bids i).id := fun heq => hid (formatRedisBidKey_inj heq)
    rw [Function.update_of_ne hne]
  · exact .stored (Function.update_self _ _ _) hnew hread hwrite

/-- The call reads its index entry, which can always be read. -/
theorem Sim.step_stored (h : kind.Sim J bids db₀ contents s)
    (hprogram : s.programs i = kind.indexProgram J (bids i))
    (hdb : s.db (formatRedisBidKey (bids i).id) = some (J.marshalBid (bids i)))
    (hnew : db₀ (formatRedisBidKey (bids i).id) = none)
    (hread : .read i ∉ kind.accesses bids s.trace) (hwrite : .write i ∉ kind.accesses bids s.trace) :
    kind.Sim J bids db₀ contents (s.step i) := by
  have hentry := h.entry (bids i).decryptionCondition (bids i).version
  rw [System.step_of_get hprogram]
  apply h.update hids
  · rw [← entryKey, accesses_concat_get]
    exact h.wellFormed.concat_read hread
  · intro n v
    rw [← entryKey, indexAfter_concat_get]
    exact h.entry n v
  · exact fun _ _ => rfl
  · rw [hentry, ← entryKey, accesses_concat_get, indexAfter_concat_get]
    have hseen : ((kind.indexAfter bids contents s.trace).step (fun i => entryOf (bids i))
        (fun i => (bids i).id) (.read i)).seen i =
        (kind.indexAfter bids contents s.trace).cell ((bids i).decryptionCondition, (bids i).version) :=
      Function.update_self _ _ _
    rw [← hseen]
    exact .fetched hdb hnew (by simp) (by simpa using hwrite)
  · intro j hij
    rw [← entryKey, accesses_concat_get, indexAfter_concat_get]
    exact ⟨by simp [hij], by simp, Function.update_of_ne hij _ _⟩

/-- The call writes its index entry. -/
theorem Sim.step_fetched (h : kind.Sim J bids db₀ contents s)
    (hprogram : s.programs i = .set (kind.entryKey (bids i))
      (marshalIds ((kind.indexAfter bids contents s.trace).seen i ++ [(bids i).id])) (.done (.ok ())))
    (hdb : s.db (formatRedisBidKey (bids i).id) = some (J.marshalBid (bids i)))
    (hnew : db₀ (formatRedisBidKey (bids i).id) = none)
    (hread : .read i ∈ kind.accesses bids s.trace) (hwrite : .write i ∉ kind.accesses bids s.trace) :
    kind.Sim J bids db₀ contents (s.step i) := by
  have hbidKey : ∀ id, formatRedisBidKey id ≠ kind.entryKey (bids i) := fun id =>
    formatRedisBidKey_ne_indexKey _ _ _
  rw [System.step_of_set hprogram]
  apply h.update hids
  · rw [accesses_concat_set]
    exact h.wellFormed.concat_write hread hwrite
  · intro n v
    rw [indexAfter_concat_set]
    show _ = Except.ok (Function.update (kind.indexAfter bids contents s.trace).cell (entryOf (bids i)) _ (n, v))
    by_cases hkey : (n, v) = entryOf (bids i)
    · obtain ⟨rfl, rfl⟩ := Prod.mk.inj hkey
      rw [← entryKey, Function.update_self, decodeEntry_some_marshalIds, hkey, Function.update_self]
    · have hne : kind.indexKey n v ≠ kind.entryKey (bids i) := by
        intro heq
        obtain ⟨hn, hv⟩ := indexKey_inj heq
        exact hkey (Prod.ext hn hv)
      rw [Function.update_of_ne hne, Function.update_of_ne hkey, h.entry]
  · intro id _
    rw [Function.update_of_ne (hbidKey id)]
  · rw [accesses_concat_set]
    exact .returned (by rw [Function.update_of_ne (hbidKey _), hdb]) hnew (by simp)
  · intro j hij
    rw [accesses_concat_set, indexAfter_concat_set]
    exact ⟨by simp, by simp [hij], rfl⟩

theorem Sim.step (h : kind.Sim J bids db₀ contents s) (i : ι) : kind.Sim J bids db₀ contents (s.step i) := by
  have hstage := h.stage i
  generalize hprogram : s.programs i = program at hstage
  cases hstage with
  | called hdb hread hwrite => exact h.step_called hids hprogram hdb hread hwrite
  | absent hdb hnew hread hwrite => exact h.step_absent hids hprogram hnew hread hwrite
  | stored hdb hnew hread hwrite => exact h.step_stored hids hprogram hdb hnew hread hwrite
  | fetched hdb hnew hread hwrite => exact h.step_fetched hids hprogram hdb hnew hread hwrite
  | returned hdb hnew hwrite =>
    rw [System.step_of_done hprogram]
    exact h
  | failed err hdb hwrite =>
    rw [System.step_of_done hprogram]
    exact h

theorem Sim.run (h : kind.Sim J bids db₀ contents s) (schedule : List ι) :
    kind.Sim J bids db₀ contents (s.run schedule) :=
  System.run_induction (fun _ i h => h.step hids i) h schedule

omit hids

/-- What is under the key of a bid stays there, or it is a bid of the calls that was not there before. -/
theorem Sim.bidKey (h : kind.Sim J bids db₀ contents s) (id : BidId) :
    s.db (formatRedisBidKey id) = db₀ (formatRedisBidKey id) ∨
      ∃ i, (bids i).id = id ∧ s.db (formatRedisBidKey id) = some (J.marshalBid (bids i)) := by
  by_cases hid : ∃ i, (bids i).id = id
  · obtain ⟨i, rfl⟩ := hid
    rcases (h.stage i).bidKey with ⟨hsame, -⟩ | ⟨hstored, -⟩
    · exact .inl hsame
    · exact .inr ⟨i, rfl, hstored⟩
  · exact .inl (h.other id (not_exists.mp hid))

theorem Sim.coherent (h : kind.Sim J bids db₀ contents s) (hcoherent : kind.Coherent J db₀)
    (hcontents : ∀ c, ∀ id ∈ contents c, db₀ (formatRedisBidKey id) ≠ none) : kind.Coherent J s.db where
  index n v := by
    refine ⟨_, h.entry n v, ?_⟩
    intro id hid
    rcases LostUpdate.mem_or_exists_of_mem_cell _ h.wellFormed hid with hbase | ⟨i, hwrite, rfl⟩
    · rcases h.bidKey id with hsame | ⟨i, -, hstored⟩
      · rw [hsame]
        exact hcontents _ id hbase
      · rw [hstored]
        exact Option.some_ne_none _
    · rcases (h.stage i).bidKey with ⟨-, hnot⟩ | ⟨hstored, -⟩
      · exact absurd hwrite hnot
      · rw [hstored]
        exact Option.some_ne_none _
  bid id bid hfound := by
    rcases h.bidKey id with hsame | ⟨i, rfl, hstored⟩
    · apply hcoherent.bid id bid
      rw [found, ← hsame]
      exact hfound
    · obtain ⟨data, hdata, hbid⟩ := found_eq_some_iff.mp hfound
      rw [hstored] at hdata
      obtain rfl := Option.some.inj hdata
      exact J.id_of_unmarshalBid_marshalBid hbid

end Run

/-- Every run starts from an index that is known. -/
theorem Coherent.exists_sim {db : ByteMap} (h : kind.Coherent J db) {bids : ι → Bid}
    (hids : Function.Injective fun i => (bids i).id) (schedule : List ι) :
    ∃ contents, (∀ c, ∀ id ∈ contents c, db (formatRedisBidKey id) ≠ none) ∧
      kind.Sim J bids db contents ((kind.concurrent J db bids).run schedule) := by
  choose ids hentry hbids using h.index
  exact ⟨fun c => ids c.1 c.2, fun c => hbids c.1 c.2, (sim_concurrent hentry).run hids schedule⟩

/-- Calls of `InitializeBid` leave a coherent database, whatever the order of their requests is and
however far they are. -/
theorem Coherent.concurrent {db : ByteMap} (h : kind.Coherent J db) {bids : ι → Bid}
    (hids : Function.Injective fun i => (bids i).id) (schedule : List ι) :
    kind.Coherent J ((kind.concurrent J db bids).run schedule).db := by
  obtain ⟨contents, hcontents, hsim⟩ := h.exists_sim hids schedule
  exact hsim.coherent h hcontents

/-- **When no bid is lost from the index.**  `InitializeBid` is called for bids with different ids, in any
interleaving of the requests, and all calls have returned success.  Then each bid is fetched once by its
condition and version if and only if JSON round-trips the bids and no call has set an index entry between
another call's getting and setting it. -/
theorem fetchBids_concurrent_iff {db : ByteMap} (hdb : kind.Coherent J db) {bids : ι → Bid}
    (hids : Function.Injective fun i => (bids i).id) {schedule : List ι}
    (hok : ∀ i, ((kind.concurrent J db bids).run schedule).programs i = .done (.ok ())) :
    (∀ i, ∃ result, (exec ((kind.backend J).fetchBidsByProtocolAndBlock (bids i).decryptionCondition
        (bids i).version) ((kind.concurrent J db bids).run schedule).db).1 = .ok result ∧
        result.count (bids i) = 1) ↔
      (∀ i, J.RoundTrips (bids i)) ∧
        ¬ ∃ i j, kind.Overlap bids ((kind.concurrent J db bids).run schedule).trace i j := by
  obtain ⟨contents, hcontents, hsim⟩ := hdb.exists_sim hids schedule
  have hafter := hdb.concurrent hids schedule
  generalize (kind.concurrent J db bids).run schedule = s at hok hsim hafter
  have hreturned := fun i => (hsim.stage i).of_ok (hok i)
  have hfresh : ∀ i, (bids i).id ∉
      (⟨contents, fun _ => []⟩ : LostUpdate.State ι (UInt64 × GoString) BidId).cell (entryOf (bids i)) :=
    fun i hmem => hcontents _ _ hmem (hreturned i).2.1
  -- what the call for bid `i` would fetch
  have hfetch := fun i => exec_fetchBidsByProtocolAndBlock kind J s.db
    (hsim.entry (bids i).decryptionCondition (bids i).version)
  have hfound : ∀ i, J.RoundTrips (bids i) ↔ found J s.db (bids i).id = some (bids i) := by
    intro i
    rw [found_eq_some_iff, (hreturned i).1]
    simp [StoreCodec.RoundTrips]
  rw [exists_overlap_iff]
  constructor
  · intro h
    have hmem : ∀ i, ∃ id ∈ (kind.indexAfter bids contents s.trace).cell (entryOf (bids i)),
        found J s.db id = some (bids i) := by
      intro i
      obtain ⟨result, hresult, hcount⟩ := h i
      rw [hfetch i] at hresult
      obtain rfl := Except.ok.inj hresult
      exact List.mem_filterMap.mp (List.one_le_count_iff.mp hcount.ge)
    refine ⟨?_, ?_⟩
    · intro i
      obtain ⟨id, -, hid⟩ := hmem i
      rw [hfound, hafter.bid id _ hid]
      exact hid
    · rintro ⟨c, hconflict⟩
      refine LostUpdate.not_conflict_of_all_mem hids hfresh hsim.wellFormed ?_ c hconflict
      intro i _
      obtain ⟨id, hid, hbid⟩ := hmem i
      rw [hafter.bid id _ hbid]
      exact hid
  · rintro ⟨hround, hnot⟩ i
    refine ⟨_, congrArg Prod.fst (hfetch i), ?_⟩
    have hconflict := fun hc => hnot ⟨entryOf (bids i), hc⟩
    have hcount := LostUpdate.count_eq_one_of_not_conflict hids hfresh hsim.wellFormed (hreturned i).2.2
      hconflict
    rw [List.count_filterMap, ← hcount, List.count]
    refine List.countP_congr fun id _ => ?_
    rw [beq_iff_eq, beq_iff_eq]
    constructor
    · exact fun hid => (hafter.bid id _ hid).symm
    · rintro rfl
      exact (hfound i).mp (hround i)

/-! ### Two bids in one index entry -/

/-- Two bids for block 1. -/
def pairBids : Bool → Bid
  | false => { emptyBid with id := 5, decryptionCondition := 1 }
  | true => { emptyBid with id := 6, decryptionCondition := 1 }

/-- Two calls on a new database. -/
def pairCalls (kind : DatabaseKind) : System Bool GoString Bytes (Except GoError Unit) :=
  kind.concurrent mockStoreCodec (kind.backend mockStoreCodec).fresh pairBids

/-- The calls take turns: both get the index entry before one of them sets it. -/
def inTurn : List Bool := [false, true, false, true, false, true, false, true]

/-- The second call is made when the first one has returned. -/
def oneByOne : List Bool := [false, false, false, false, true, true, true, true]

theorem result_inTurn :
    (∀ i, ((redis.pairCalls.run inTurn).programs i).result = some (.ok ())) ∧
      ∀ i, ((pebble.pairCalls.run inTurn).programs i).result = some (.ok ()) := by
  decide +kernel

/-- Two bids of one block are initialized at the same time, and both calls return success.  On either
database only the second bid is fetched. -/
theorem exists_bid_lost :
    ((∀ i, (redis.pairCalls.run inTurn).programs i = .done (.ok ())) ∧
        (exec ((redis.backend mockStoreCodec).fetchBidsByProtocolAndBlock 1 [])
          (redis.pairCalls.run inTurn).db).1 = .ok [pairBids true]) ∧
      (∀ i, (pebble.pairCalls.run inTurn).programs i = .done (.ok ())) ∧
        (exec ((pebble.backend mockStoreCodec).fetchBidsByProtocolAndBlock 1 [])
          (pebble.pairCalls.run inTurn).db).1 = .ok [pairBids true] := by
  refine ⟨⟨fun i => Program.result_eq_some_iff.mp (result_inTurn.1 i), ?_⟩,
    fun i => Program.result_eq_some_iff.mp (result_inTurn.2 i), ?_⟩
  · decide +kernel
  · decide +kernel

theorem oneByOne_returned :
    (∀ i, ((redis.pairCalls.run oneByOne).programs i).result = some (.ok ())) ∧
      (redis.pairCalls.run oneByOne).trace =
        [(false, .get (formatRedisBidKey 5)), (false, .set (formatRedisBidKey 5)),
          (false, .get (redis.indexKey 1 [])), (false, .set (redis.indexKey 1 [])),
          (true, .get (formatRedisBidKey 6)), (true, .set (formatRedisBidKey 6)),
          (true, .get (redis.indexKey 1 [])), (true, .set (redis.indexKey 1 []))] := by
  decide +kernel

theorem fetchBids_concurrent_iff_oneByOne :
    (∀ i, (redis.pairCalls.run oneByOne).programs i = .done (.ok ())) ∧
      ∀ i, ∃ result, (exec ((redis.backend mockStoreCodec).fetchBidsByProtocolAndBlock
        (pairBids i).decryptionCondition (pairBids i).version) (redis.pairCalls.run oneByOne).db).1 =
          .ok result ∧ result.count (pairBids i) = 1 := by
  have hok : ∀ i, (redis.pairCalls.run oneByOne).programs i = .done (.ok ()) := fun i =>
    Program.result_eq_some_iff.mp (oneByOne_returned.1 i)
  have hids : Function.Injective fun i => (pairBids i).id := by decide
  refine ⟨hok, (fetchBids_concurrent_iff (represents_fresh_redis mockStoreCodec).coherent hids hok).mpr
    ⟨?_, ?_⟩⟩
  · rintro (_ | _)
    · exact mockStoreCodec.roundTrips_of_creationTx_eq_none rfl (by decide)
    · exact mockStoreCodec.roundTrips_of_creationTx_eq_none rfl (by decide)
  · have htrace := oneByOne_returned.2
    rintro ⟨i, j, hne, -, -, hsub⟩
    replace hsub : List.Sublist _ (redis.pairCalls.run oneByOne).trace := hsub
    rw [htrace] at hsub
    revert hsub hne
    revert i j
    decide +kernel

end DatabaseKind

end Suift
