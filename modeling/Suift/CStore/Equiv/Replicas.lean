import Suift.CStore.Equiv.LocalStore
import Suift.CStore.Mock

/-!
# Replicas that receive the same messages

An engine on an empty local store that takes valid messages in some order ends with the first copy of
each bid and with the last value under each key (`storage_deliver`).  Which copy is first and which
value is last depends on the order, so replicas agree for every schedule exactly when the messages
themselves do: those that write one key leave the same value there, and those that carry one bid carry
the same copy first (`replicas_agree_iff`).
-/

namespace Suift

open WriteLog Stateful

open LocalConfidentialStore

/-- The storage of an engine that starts empty and takes the messages in this order. -/
def deliver (C : EngineConfig) (schedule : List DAMessage) : LocalConfidentialStore :=
  (after (forM schedule (C.engine backend).newMessage) ⟨empty, []⟩).storage

/-- All writes of the messages, in this order. -/
def allWrites (schedule : List DAMessage) : List StoreWrite :=
  schedule.flatMap fun message => message.storeWrites.elems

theorem run_forM_newMessage {C : EngineConfig} {schedule : List DAMessage}
    (h : ∀ message ∈ schedule, C.validateMessage message = .ok true)
    (st : EngineState LocalConfidentialStore) :
    (forM schedule (C.engine backend).newMessage).run st =
      .ok () { st with storage := atomic.takeWrites st.storage (allWrites schedule) } := by
  induction schedule generalizing st with
  | nil => rfl
  | cons message schedule ih =>
    rw [List.forall_mem_cons] at h
    have hmessage : ((C.engine backend).newMessage message).run st = _ :=
      ConfidentialStoreEngine.run_newMessage atomic (fun _ => rfl) message
    rw [h.1] at hmessage
    have happend : allWrites (message :: schedule) =
        message.storeWrites.elems ++ allWrites schedule := rfl
    rw [List.forM_cons, EStateM.run_bind, hmessage]
    simp only
    rw [ih h.2, happend]
    unfold AtomicBackend.takeWrites
    rw [List.foldl_append]

/-- **The storage after a schedule**: the first copy of every bid, and the last value under every key. -/
theorem storage_deliver {C : EngineConfig} {schedule : List DAMessage}
    (h : ∀ message ∈ schedule, C.validateMessage message = .ok true) :
    (∀ id, (deliver C schedule).bids id = (copies (allWrites schedule) id).head?) ∧
      ∀ k, (deliver C schedule).value k = (writesTo (entries (allWrites schedule)) k).getLast? := by
  have hrun := run_forM_newMessage h ⟨empty, []⟩
  have hdeliver : deliver C schedule = atomic.takeWrites empty (allWrites schedule) := by
    rw [deliver, after_of_ok hrun]
  rw [hdeliver]
  constructor
  · intro id
    show atomic.bids (atomic.takeWrites empty (allWrites schedule)) id = _
    rw [atomic.bids_takeWrites]
    exact Option.none_or
  · intro k
    rw [value_takeWrites, replay_apply]
    exact Option.or_none

/-! ### Schedules -/

theorem copies_allWrites (schedule : List DAMessage) (id : BidId) :
    copies (allWrites schedule) id =
      schedule.flatMap fun message => copies message.storeWrites.elems id := by
  induction schedule with
  | nil => rfl
  | cons message schedule ih =>
    have happend : allWrites (message :: schedule) =
        message.storeWrites.elems ++ allWrites schedule := rfl
    rw [happend, List.flatMap_cons, ← ih, copies, List.map_append, List.filter_append]
    rfl

theorem writesTo_allWrites (schedule : List DAMessage) (k : BidId × GoString) :
    writesTo (entries (allWrites schedule)) k =
      schedule.flatMap fun message => writesTo (entries message.storeWrites.elems) k := by
  induction schedule with
  | nil => rfl
  | cons message schedule ih =>
    have happend : allWrites (message :: schedule) =
        message.storeWrites.elems ++ allWrites schedule := rfl
    rw [happend, List.flatMap_cons, ← ih, entries, List.map_append, writesTo, List.filter_append,
      List.map_append]
    rfl

/-- The first element of lists put together, if all that are not empty begin alike. -/
theorem head?_flatMap_eq {α β : Type} {xs : List α} {f : α → List β} {x : α} {b : β} (hx : x ∈ xs)
    (hb : (f x).head? = some b) (h : ∀ y ∈ xs, ∀ c, (f y).head? = some c → c = b) :
    (xs.flatMap f).head? = some b := by
  induction xs with
  | nil => exact absurd hx List.not_mem_nil
  | cons y ys ih =>
    rw [List.forall_mem_cons] at h
    rw [List.flatMap_cons, List.head?_append]
    cases hy : (f y).head? with
    | some c =>
      rw [h.1 c hy]
      rfl
    | none =>
      rcases List.mem_cons.mp hx with rfl | hx
      · rw [hb] at hy
        exact absurd hy (by simp)
      · rw [Option.none_or]
        exact ih hx h.2

/-- The first element of lists put together depends on which lists there are, not on their order or
number, if any two that are not empty begin alike. -/
theorem head?_flatMap_congr {α β : Type} {xs ys : List α} {f : α → List β}
    (hmem : ∀ x, x ∈ xs ↔ x ∈ ys)
    (hf : ∀ x ∈ xs, ∀ y ∈ xs, ∀ b c, (f x).head? = some b → (f y).head? = some c → b = c) :
    (xs.flatMap f).head? = (ys.flatMap f).head? := by
  by_cases hnone : ∀ x ∈ xs, f x = []
  · have hxs : xs.flatMap f = [] := List.flatMap_eq_nil_iff.mpr hnone
    have hys : ys.flatMap f = [] :=
      List.flatMap_eq_nil_iff.mpr fun y hy => hnone y ((hmem y).mpr hy)
    rw [hxs, hys]
  · push Not at hnone
    obtain ⟨x, hx, hne⟩ := hnone
    have hhead : (f x).head? = some ((f x).head hne) := List.head?_eq_some_head hne
    rw [head?_flatMap_eq hx hhead fun y hy c hc => hf y hy x hx c _ hc hhead,
      head?_flatMap_eq ((hmem x).mp hx) hhead fun y hy c hc =>
        hf y ((hmem y).mpr hy) x hx c _ hc hhead]

/-- The same for the last element. -/
theorem getLast?_flatMap_congr {α β : Type} {xs ys : List α} {f : α → List β}
    (hmem : ∀ x, x ∈ xs ↔ x ∈ ys)
    (hf : ∀ x ∈ xs, ∀ y ∈ xs, ∀ b c, (f x).getLast? = some b → (f y).getLast? = some c → b = c) :
    (xs.flatMap f).getLast? = (ys.flatMap f).getLast? := by
  have hreverse : ∀ zs : List α,
      (zs.flatMap f).getLast? = (zs.reverse.flatMap fun z => (f z).reverse).head? := by
    intro zs
    rw [← List.head?_reverse, List.reverse_flatMap]
    rfl
  rw [hreverse xs, hreverse ys]
  apply head?_flatMap_congr
  · intro x
    rw [List.mem_reverse, List.mem_reverse, hmem x]
  · intro x hx y hy b c hb hc
    rw [List.head?_reverse] at hb hc
    exact hf x (List.mem_reverse.mp hx) y (List.mem_reverse.mp hy) b c hb hc

/-- The schedule delivers exactly the messages in `S`, each once or more. -/
def IsSchedule (S schedule : List DAMessage) : Prop := ∀ message, message ∈ schedule ↔ message ∈ S

/-- The two stores hold the same bids and the same values. -/
def Agree (l l' : LocalConfidentialStore) : Prop :=
  (∀ id, l.bids id = l'.bids id) ∧ ∀ k, l.value k = l'.value k

/-- Whatever both messages store, they leave alike: the last value of each key, the first copy of each
bid. -/
def Compatible (message message' : DAMessage) : Prop :=
  (∀ k v v', (writesTo (entries message.storeWrites.elems) k).getLast? = some v →
      (writesTo (entries message'.storeWrites.elems) k).getLast? = some v' → v = v') ∧
    ∀ id b b', (copies message.storeWrites.elems id).head? = some b →
      (copies message'.storeWrites.elems id).head? = some b' → b = b'

theorem isSchedule_concat {S : List DAMessage} {message : DAMessage} (h : message ∈ S) :
    IsSchedule S (S ++ [message]) := by
  intro m
  rw [List.mem_append, List.mem_singleton]
  constructor
  · rintro (hm | rfl)
    · exact hm
    · exact h
  · exact .inl

theorem isSchedule_cons {S : List DAMessage} {message : DAMessage} (h : message ∈ S) :
    IsSchedule S (message :: S) := by
  intro m
  rw [List.mem_cons]
  constructor
  · rintro (rfl | hm)
    · exact h
    · exact hm
  · exact .inr

section

variable {S : List DAMessage}

/-- **Replica agreement.**  Two engines on empty local stores take the messages in `S`, which both find
valid and neither takes for its own.  They end with the same bids and values for every pair of schedules
exactly if any two of the messages are compatible. -/
theorem replicas_agree_iff {C₁ C₂ : EngineConfig} (h₁ : ∀ m ∈ S, C₁.validateMessage m = .ok true)
    (h₂ : ∀ m ∈ S, C₂.validateMessage m = .ok true) :
    (∀ schedule₁ schedule₂, IsSchedule S schedule₁ → IsSchedule S schedule₂ →
        Agree (deliver C₁ schedule₁) (deliver C₂ schedule₂)) ↔
      ∀ m ∈ S, ∀ m' ∈ S, Compatible m m' := by
  have hdeliver₁ : ∀ s, IsSchedule S s → _ := fun s hs =>
    storage_deliver (C := C₁) fun m hm => h₁ m ((hs m).mp hm)
  have hdeliver₂ : ∀ s, IsSchedule S s → _ := fun s hs =>
    storage_deliver (C := C₂) fun m hm => h₂ m ((hs m).mp hm)
  constructor
  · intro hagree m hm m' hm'
    constructor
    · -- deliver each of the two last
      intro k v v' hv hv'
      have hvalue := (hagree _ _ (isSchedule_concat hm) (isSchedule_concat hm')).2 k
      rw [(hdeliver₁ _ (isSchedule_concat hm)).2, (hdeliver₂ _ (isSchedule_concat hm')).2,
        writesTo_allWrites, writesTo_allWrites, List.flatMap_append, List.flatMap_append,
        List.getLast?_append, List.getLast?_append, List.flatMap_singleton, List.flatMap_singleton, hv,
        hv', Option.some_or, Option.some_or] at hvalue
      exact Option.some.inj hvalue
    · -- deliver each of the two first
      intro id b b' hb hb'
      have hbid := (hagree _ _ (isSchedule_cons hm) (isSchedule_cons hm')).1 id
      rw [(hdeliver₁ _ (isSchedule_cons hm)).1, (hdeliver₂ _ (isSchedule_cons hm')).1,
        copies_allWrites, copies_allWrites, List.flatMap_cons, List.flatMap_cons, List.head?_append,
        List.head?_append, hb, hb', Option.some_or, Option.some_or] at hbid
      exact Option.some.inj hbid
  · intro hS schedule₁ schedule₂ hs₁ hs₂
    have hmem : ∀ m, m ∈ schedule₁ ↔ m ∈ schedule₂ := fun m => (hs₁ m).trans (hs₂ m).symm
    constructor
    · intro id
      rw [(hdeliver₁ _ hs₁).1, (hdeliver₂ _ hs₂).1, copies_allWrites, copies_allWrites]
      apply head?_flatMap_congr hmem
      intro m hm m' hm' b b' hb hb'
      exact (hS m ((hs₁ m).mp hm) m' ((hs₁ m').mp hm')).2 id b b' hb hb'
    · intro k
      rw [(hdeliver₁ _ hs₁).2, (hdeliver₂ _ hs₂).2, writesTo_allWrites, writesTo_allWrites]
      apply getLast?_flatMap_congr hmem
      intro m hm m' hm' v v' hv hv'
      exact (hS m ((hs₁ m).mp hm) m' ((hs₁ m').mp hm')).1 k v v' hv hv'

end

/-! ### Two messages about one key -/

/-- A public bid on which the node with key `2` may store. -/
def sharedBid : Bid where
  id := mockEncoding.newSHA1 bidUuidSpace (Rlp.encode (itemOfInnerBid
    ⟨0, 0, 0, some [allowedPeekerAny], some [SuaveSigner.sampleAddress 2], []⟩))
  salt := 0
  decryptionCondition := 0
  allowedPeekers := some [allowedPeekerAny]
  allowedStores := some [SuaveSigner.sampleAddress 2]
  version := []
  creationTx := some mockRequest
  signature := Rlp.bigEndian 20 (SuaveSigner.sampleAddress 2).toNat

/-- The message of the node with key `2` that stores `value` under the empty key. -/
def sharedMessage (value : Bytes) : DAMessage where
  sourceTx := some mockRequest
  storeWrites := some [⟨sharedBid, 0, [], value⟩]
  storeUUID := 9
  signature := Rlp.bigEndian 20 (SuaveSigner.sampleAddress 2).toNat

def mockReplica : EngineConfig := { mockConfig with storeUUID := 2 }

theorem validateMessage_sharedMessage :
    ∀ m ∈ [sharedMessage [1], sharedMessage [2]],
      mockConfig.validateMessage m = .ok true ∧ mockReplica.validateMessage m = .ok true := by
  decide +kernel

theorem replicas_agree_iff_sharedMessage :
    (∀ schedule₁ schedule₂, IsSchedule [sharedMessage [1], sharedMessage [2]] schedule₁ →
        IsSchedule [sharedMessage [1], sharedMessage [2]] schedule₂ →
        Agree (deliver mockConfig schedule₁) (deliver mockReplica schedule₂)) ↔
      ∀ m ∈ [sharedMessage [1], sharedMessage [2]], ∀ m' ∈ [sharedMessage [1], sharedMessage [2]],
        Compatible m m' :=
  replicas_agree_iff (fun m hm => (validateMessage_sharedMessage m hm).1)
    fun m hm => (validateMessage_sharedMessage m hm).2

/-- Two valid messages that arrive in different orders leave different values; and a second delivery of
the older one restores the value that had been overwritten. -/
theorem exists_replicas_disagree :
    (∀ m ∈ [sharedMessage [1], sharedMessage [2]],
      mockConfig.validateMessage m = .ok true ∧ mockReplica.validateMessage m = .ok true) ∧
    (deliver mockConfig [sharedMessage [1], sharedMessage [2]]).value (sharedBid.id, []) = some [2] ∧
    (deliver mockReplica [sharedMessage [2], sharedMessage [1]]).value (sharedBid.id, []) = some [1] ∧
    (deliver mockConfig [sharedMessage [1], sharedMessage [2], sharedMessage [1]]).value
      (sharedBid.id, []) = some [1] := by
  decide +kernel

end Suift
