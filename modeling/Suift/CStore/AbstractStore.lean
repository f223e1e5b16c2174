import Suift.CStore.DatabaseBackends

/-!
# What a storage backend is for

The abstract store knows the bids that have been initialized, in that order, and the values.  Every
operation gives an `Answer`: what a backend returns, without the texts of its errors.

`answers` are those to a sequence of operations, for the abstract store and for the three backends alike.
-/

namespace Suift

open Database

/-- The operations of `ConfidentialStorageBackend`. -/
inductive StoreOp
  | initializeBid (bid : Bid)
  | store (bid : Bid) (caller : Address) (key : GoString) (value : Bytes)
  | retrieve (bid : Bid) (caller : Address) (key : GoString)
  | fetchBidById (bidId : BidId)
  | fetchBidsByProtocolAndBlock (blockNumber : UInt64) (namespace_ : GoString)

inductive Answer
  | nil
  | bid (bid : Bid)
  | value (value : Bytes)
  | bids (bids : List Bid)
  | error
  | panic
  deriving DecidableEq, Repr

/-- The answer of a call that returns `f a` on success. -/
def Answer.ofExcept {α : Type} (f : α → Answer) : Except GoError α → Answer
  | .ok a => f a
  | .error (.error _ _) => .error
  | .error (.panic _) => .panic

/-- The answers to operations one after the other. -/
def answers {σ ω : Type} (answer : σ → ω → Answer × σ) : σ → List ω → List Answer
  | _, [] => []
  | s, op :: ops => (answer s op).1 :: answers answer (answer s op).2 ops

/-- A relation that the operations in `P` keep, and under which they have the same answers, is a
refinement. -/
theorem answers_eq_of_simulation {σ τ ω : Type} {f : σ → ω → Answer × σ} {g : τ → ω → Answer × τ}
    {R : σ → τ → Prop} {P : ω → Prop}
    (hstep : ∀ s t op, R s t → P op → (g t op).1 = (f s op).1 ∧ R (f s op).2 (g t op).2)
    {s : σ} {t : τ} (hR : R s t) {ops : List ω} (hops : ∀ op ∈ ops, P op) :
    answers g t ops = answers f s ops := by
  induction ops generalizing s t with
  | nil => rfl
  | cons op ops ih =>
    rw [List.forall_mem_cons] at hops
    obtain ⟨hanswer, hnext⟩ := hstep s t op hR hops.1
    rw [answers, answers, hanswer, ih hnext hops.2]

/-! ### The abstract store -/

structure AbstractStore where
  /-- The initialized bids, oldest first. -/
  initialized : List Bid
  values : BidId × GoString → Option Bytes
  nodup : (initialized.map Bid.id).Nodup

namespace AbstractStore

def empty : AbstractStore where
  initialized := []
  values _ := none
  nodup := List.nodup_nil

/-- The bid with this id. -/
def bid? (a : AbstractStore) (bidId : BidId) : Option Bid :=
  a.initialized.find? fun bid => bid.id = bidId

/-- The bids for this block and version, in the order of their initialization. -/
def bidsFor (a : AbstractStore) (blockNumber : UInt64) (version : GoString) : List Bid :=
  a.initialized.filter fun bid => bid.decryptionCondition = blockNumber ∧ bid.version = version

def add (a : AbstractStore) (bid : Bid) (h : bid.id ∉ a.initialized.map Bid.id) : AbstractStore where
  initialized := a.initialized ++ [bid]
  values := a.values
  nodup := by
    rw [List.map_append, List.map_singleton, ← List.concat_eq_append]
    exact List.Nodup.concat h a.nodup

def answer (a : AbstractStore) : StoreOp → Answer × AbstractStore
  | .initializeBid bid =>
    if h : bid.id ∈ a.initialized.map Bid.id then (.error, a) else (.nil, a.add bid h)
  | .store bid _ key value =>
    (.bid bid, { a with values := Function.update a.values (bid.id, key) (some value) })
  | .retrieve bid _ key => ((a.values (bid.id, key)).elim .error .value, a)
  | .fetchBidById bidId => ((a.bid? bidId).elim .error .bid, a)
  | .fetchBidsByProtocolAndBlock blockNumber namespace_ => (.bids (a.bidsFor blockNumber namespace_), a)

theorem bid?_eq_some_iff (a : AbstractStore) {id : BidId} {bid : Bid} :
    a.bid? id = some bid ↔ bid ∈ a.initialized ∧ bid.id = id := by
  unfold bid?
  constructor
  · intro h
    exact ⟨List.mem_of_find?_eq_some h, by simpa using List.find?_some h⟩
  · rintro ⟨hmem, rfl⟩
    cases hfind : a.initialized.find? fun b => b.id = bid.id with
    | none => exact absurd (List.find?_eq_none.mp hfind bid hmem) (by simp)
    | some b =>
      have hid : b.id = bid.id := by simpa using List.find?_some hfind
      rw [List.inj_on_of_nodup_map a.nodup (List.mem_of_find?_eq_some hfind) hmem hid]

theorem bid?_eq_none_iff (a : AbstractStore) {id : BidId} :
    a.bid? id = none ↔ id ∉ a.initialized.map Bid.id := by
  rw [bid?, List.find?_eq_none]
  simp

theorem bid?_add {a : AbstractStore} {bid : Bid} (h : bid.id ∉ a.initialized.map Bid.id) (id : BidId) :
    (a.add bid h).bid? id = if id = bid.id then some bid else a.bid? id := by
  have hbid : a.bid? bid.id = none := a.bid?_eq_none_iff.mpr h
  show (a.initialized ++ [bid]).find? _ = _
  rw [List.find?_append]
  by_cases hid : id = bid.id
  · subst hid
    rw [if_pos rfl]
    unfold bid? at hbid
    simp [hbid]
  · rw [if_neg hid]
    have hne : ([bid].find? fun b => b.id = id) = none := by simp [Ne.symm hid]
    rw [hne, Option.or_none]
    rfl

theorem bidsFor_add {a : AbstractStore} {bid : Bid} (h : bid.id ∉ a.initialized.map Bid.id)
    (blockNumber : UInt64) (version : GoString) :
    (a.add bid h).bidsFor blockNumber version =
      if blockNumber = bid.decryptionCondition ∧ version = bid.version then
        a.bidsFor blockNumber version ++ [bid]
      else a.bidsFor blockNumber version := by
  show (a.initialized ++ [bid]).filter _ = _
  rw [List.filter_append]
  split_ifs with hkey
  · obtain ⟨rfl, rfl⟩ := hkey
    simp [bidsFor]
  · have hnil : ([bid].filter fun b => b.decryptionCondition = blockNumber ∧ b.version = version) = [] := by
      simp only [List.filter_eq_nil_iff, List.mem_singleton, forall_eq, decide_eq_true_eq]
      rintro ⟨rfl, rfl⟩
      exact hkey ⟨rfl, rfl⟩
    rw [hnil, List.append_nil]
    rfl

/-- Looking up the ids of the bids for a block gives these bids. -/
theorem filterMap_bid?_bidsFor (a : AbstractStore) (blockNumber : UInt64) (version : GoString) :
    ((a.bidsFor blockNumber version).map Bid.id).filterMap a.bid? = a.bidsFor blockNumber version := by
  have hbid : ∀ bid ∈ a.bidsFor blockNumber version, a.bid? bid.id = some bid := fun bid hbid =>
    a.bid?_eq_some_iff.mpr ⟨List.mem_of_mem_filter hbid, rfl⟩
  generalize a.bidsFor blockNumber version = bids at hbid
  induction bids with
  | nil => rfl
  | cons bid bids ih =>
    rw [List.forall_mem_cons] at hbid
    rw [List.map_cons, List.filterMap_cons_some hbid.1, ih hbid.2]

end AbstractStore

/-! ### The backends -/

/-- A backend behind the interface of the engine. -/
def ConfidentialStorageBackend.answer {σ : Type} (B : ConfidentialStorageBackend σ) (s : σ) :
    StoreOp → Answer × σ
  | .initializeBid bid =>
    match (B.initializeBid bid).run s with
    | .ok () s' => (.nil, s')
    | .error err s' => (.ofExcept (fun _ : Unit => .nil) (.error err), s')
  | .store bid caller key value =>
    match (B.store bid caller key value).run s with
    | .ok bid' s' => (.bid bid', s')
    | .error err s' => (.ofExcept .bid (.error err), s')
  | .retrieve bid caller key => (.ofExcept .value (B.retrieve s bid caller key), s)
  | .fetchBidById bidId => (.ofExcept .bid (B.fetchBidById s bidId), s)
  | .fetchBidsByProtocolAndBlock blockNumber namespace_ =>
    (.bids (B.fetchBidsByProtocolAndBlock s blockNumber namespace_), s)

/-- The result of a request as an answer, and the database after it. -/
def Request.answer {α : Type} (f : α → Answer) (x : Request α) (db : ByteMap) : Answer × ByteMap :=
  (.ofExcept f (exec x db).1, (exec x db).2)

/-- A database backend whose operations are run one after the other. -/
def DatabaseBackend.answer (B : DatabaseBackend) (db : ByteMap) : StoreOp → Answer × ByteMap
  | .initializeBid bid => Request.answer (fun _ => .nil) (B.initializeBid bid) db
  | .store bid caller key value => Request.answer .bid (B.store bid caller key value) db
  | .retrieve bid caller key => Request.answer .value (B.retrieve bid caller key) db
  | .fetchBidById bidId => Request.answer .bid (B.fetchBidById bidId) db
  | .fetchBidsByProtocolAndBlock blockNumber namespace_ =>
    Request.answer .bids (B.fetchBidsByProtocolAndBlock blockNumber namespace_) db

/-- The database of a backend that has started on an empty one. -/
def DatabaseBackend.fresh (B : DatabaseBackend) : ByteMap := (exec B.start fun _ => none).2

end Suift
