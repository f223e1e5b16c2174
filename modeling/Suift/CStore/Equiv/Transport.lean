import Suift.CStore.Equiv.Engine
import Suift.CStore.Mock
import Suift.CStore.Network

/-!
# What a node makes of the messages it receives

A run of a node with its subscription is a run of the node alone, in which messages come from nowhere
(`Peer.refines_managedNode`).  These messages are among those received, each at most once and in the order
in which they were received.  None is lost exactly if the node keeps up: at no time have more messages come
in than the channel holds beyond those that were taken out.

After the end of the subscription `ProcessMessages` goes on reading empty messages from the closed channel.
They are handed to `NewMessage` and change nothing.
-/

namespace Suift

open Stateful Text

section Schedules

variable {sender : Bytes → Bytes → Except GoError Address}

/-- The messages in what arrives at the node. -/
def received (D : Decoding) (as : List (PeerAction sender)) : List DAMessage :=
  as.filterMap fun
    | .transport (.receive payload) => D.message payload
    | _ => none

/-- How often the node reads from the channel. -/
def takes (as : List (PeerAction sender)) : ℕ :=
  as.countP fun
    | .transport .take => true
    | _ => false

/-- With `backlog` messages in the channel at the beginning, there are never more messages to be kept than
the channel has room for. -/
def KeepsUp (D : Decoding) (backlog : ℕ) (as : List (PeerAction sender)) : Prop :=
  ∀ done, done <+: as → backlog + (received D done).length ≤ takes done + Subscription.capacity

theorem keepsUp_nil {D : Decoding} {backlog : ℕ} :
    KeepsUp D backlog ([] : List (PeerAction sender)) ↔ backlog ≤ Subscription.capacity := by
  simp [KeepsUp, received, takes]

/-- The backlog changes by what is received and what is taken. -/
theorem keepsUp_cons {D : Decoding} {backlog backlog' : ℕ} {a : PeerAction sender}
    {as : List (PeerAction sender)}
    (h : backlog + (received D [a]).length = takes [a] + backlog') :
    KeepsUp D backlog (a :: as) ↔ backlog ≤ Subscription.capacity ∧ KeepsUp D backlog' as := by
  have hcons : ∀ done, (received D (a :: done)).length =
      (received D [a]).length + (received D done).length ∧ takes (a :: done) = takes [a] + takes done := by
    intro done
    constructor
    · rw [← List.length_append, received, received, received, ← List.filterMap_append]
      rfl
    · rw [takes, takes, takes, ← List.countP_append]
      rfl
  unfold KeepsUp
  constructor
  · intro hkeeps
    refine ⟨?_, ?_⟩
    · have hnil := hkeeps [] List.nil_prefix
      simpa [received, takes] using hnil
    · intro done hdone
      have hmore := hkeeps (a :: done) (List.cons_prefix_cons.mpr ⟨rfl, hdone⟩)
      rw [(hcons done).1, (hcons done).2] at hmore
      omega
  · rintro ⟨hroom, hkeeps⟩ done hdone
    cases done with
    | nil => simpa [received, takes] using hroom
    | cons b done =>
      obtain ⟨rfl, htail⟩ := List.cons_prefix_cons.mp hdone
      have hrest := hkeeps done htail
      rw [(hcons done).1, (hcons done).2]
      omega

end Schedules

/-- The messages that are handed to `NewMessage`. -/
def handled {S : EngineSetup} (bs : List (ManagedAction S)) : List DAMessage :=
  bs.filterMap fun
    | .node (.newMessage message) => some message
    | _ => none

theorem handled_append {S : EngineSetup} (bs cs : List (ManagedAction S)) :
    handled (bs ++ cs) = handled bs ++ handled cs :=
  List.filterMap_append

theorem ManagedNode.run_append {S : EngineSetup} {σ : Type} {B : ConfidentialStorageBackend σ}
    {n n' : ManagedNode S σ} {bs : List (ManagedAction S)} (h : n.run B bs = some n')
    (cs : List (ManagedAction S)) : n.run B (bs ++ cs) = n'.run B cs := by
  induction bs generalizing n with
  | nil =>
    cases h
    rfl
  | cons b bs ih =>
    simp only [run, Option.bind_eq_some_iff] at h
    obtain ⟨n₁, hstep, hrest⟩ := h
    rw [List.cons_append, run, hstep, Option.bind_some, ih hrest]

namespace Peer

open LocalConfidentialStore

variable {S : EngineSetup} {D : Decoding} {p p' : Peer S} {a : PeerAction S.sender}
  {as : List (PeerAction S.sender)}

/-- Without writes `NewMessage` changes nothing, whatever the message is. -/
theorem step_emptyMessage (n : ManagedNode S LocalConfidentialStore) :
    n.step backend (.node (.newMessage emptyMessage)) = some n := by
  have hsame : after ((n.engine backend).newMessage emptyMessage) n.node.engine = n.node.engine := by
    by_cases hvalid : (S.config n.manager).validateMessage emptyMessage = .ok true
    · exact ConfidentialStoreEngine.after_newMessage_of_valid atomic (fun _ => rfl) hvalid _
    · exact ConfidentialStoreEngine.after_newMessage_of_not_valid atomic (fun _ => rfl) hvalid _
  show some { n with node := { n.node with engine := _ } } = some n
  rw [hsame]

theorem act_eq_some {b : ManagedAction S} (h : p.act b = some p') :
    p.managed.run backend [b] = some p'.managed ∧ p'.subscription = p.subscription := by
  unfold act at h
  rw [Option.map_eq_some_iff] at h
  obtain ⟨managed, hstep, rfl⟩ := h
  refine ⟨?_, rfl⟩
  rw [ManagedNode.run, hstep]
  rfl

/-- What a step is: the node acts on its own or a payload is ignored, a message arrives, a message is taken
out of the channel, or the closed channel gives an empty one. -/
theorem step_cases (h : p.step D a = some p') :
    (received D [a] = [] ∧ takes [a] = 0 ∧ p'.subscription.channel = p.subscription.channel ∧
        ∃ bs, p.managed.run backend bs = some p'.managed ∧ handled bs = [] ∧ bs.length ≤ 1) ∨
      (∃ message, received D [a] = [message] ∧ takes [a] = 0 ∧ p'.managed = p.managed ∧
        p.subscription.closed = false ∧
        p'.subscription.channel =
          if p.subscription.channel.length < Subscription.capacity then
            p.subscription.channel ++ [message]
          else p.subscription.channel) ∨
      (∃ message, received D [a] = [] ∧ takes [a] = 1 ∧
        p.subscription.channel = message :: p'.subscription.channel ∧
        p.managed.step backend (.node (.newMessage message)) = some p'.managed) ∨
      (received D [a] = [] ∧ p.subscription.channel = [] ∧ p.subscription.closed = true ∧ p' = p) := by
  cases a with
  | setManager manager =>
    obtain ⟨hrun, hsub⟩ := act_eq_some h
    exact .inl ⟨rfl, rfl, congrArg Subscription.channel hsub, _, hrun, rfl, le_rfl⟩
  | newTransactionalStore sourceTx =>
    obtain ⟨hrun, hsub⟩ := act_eq_some h
    exact .inl ⟨rfl, rfl, congrArg Subscription.channel hsub, _, hrun, rfl, le_rfl⟩
  | apply i op =>
    obtain ⟨hrun, hsub⟩ := act_eq_some h
    exact .inl ⟨rfl, rfl, congrArg Subscription.channel hsub, _, hrun, rfl, le_rfl⟩
  | finalize i order =>
    obtain ⟨hrun, hsub⟩ := act_eq_some h
    exact .inl ⟨rfl, rfl, congrArg Subscription.channel hsub, _, hrun, rfl, le_rfl⟩
  | transport e =>
    cases e with
    | receive payload =>
      have hrec : received D [(.transport (.receive payload) : PeerAction S.sender)] =
          (D.message payload).toList := by
        cases hread : D.message payload <;> simp [received, hread]
      simp only [step, Subscription.step] at h
      cases hclosed : p.subscription.closed with
      | true => simp [hclosed] at h
      | false =>
        rw [hclosed] at h
        cases hread : D.message payload with
        | none =>
          rw [hread] at h hrec
          cases h
          exact .inl ⟨hrec, rfl, rfl, [], rfl, rfl, Nat.zero_le _⟩
        | some message =>
          rw [hread] at h hrec
          refine .inr (.inl ⟨message, hrec, rfl, ?_⟩)
          by_cases hroom : p.subscription.channel.length < Subscription.capacity
          · simp only [hroom, if_true] at h ⊢
            cases h
            exact ⟨rfl, trivial, rfl⟩
          · simp only [hroom, if_false] at h ⊢
            cases h
            exact ⟨rfl, trivial, rfl⟩
    | take =>
      simp only [step, Subscription.step] at h
      cases hchannel : p.subscription.channel with
      | cons message rest =>
        rw [hchannel] at h
        unfold act at h
        rw [Option.map_eq_some_iff] at h
        obtain ⟨managed, hstep, rfl⟩ := h
        exact .inr (.inr (.inl ⟨message, rfl, rfl, rfl, hstep⟩))
      | nil =>
        rw [hchannel] at h
        cases hclosed : p.subscription.closed with
        | false => simp [hclosed] at h
        | true =>
          simp only [hclosed, if_true] at h
          unfold act at h
          rw [step_emptyMessage] at h
          cases h
          exact .inr (.inr (.inr ⟨rfl, rfl, rfl, rfl⟩))
    | cancel =>
      cases h
      exact .inl ⟨rfl, rfl, rfl, [], rfl, rfl, Nat.zero_le _⟩


theorem closed_of_step (hclosed : p.subscription.closed = true) (h : p.step D a = some p') :
    p'.subscription.closed = true ∧ received D [a] = [] := by
  cases a with
  | transport e =>
    cases e with
    | receive payload => simp [step, Subscription.step, hclosed] at h
    | take =>
      rcases step_cases h with ⟨-, htakes, -⟩ | ⟨_, -, htakes, -⟩ | ⟨message, hnone, -, hchannel, -⟩ |
        ⟨hnone, -, -, rfl⟩
      · cases htakes
      · cases htakes
      · refine ⟨?_, hnone⟩
        simp only [step, Subscription.step, hchannel] at h
        rw [(act_eq_some h).2]
        exact hclosed
      · exact ⟨hclosed, hnone⟩
    | cancel =>
      cases h
      exact ⟨rfl, rfl⟩
  | _ =>
    rw [(act_eq_some h).2]
    exact ⟨hclosed, rfl⟩

theorem step_receive_of_room {payload : GoString} {message : DAMessage}
    (hopen : p.subscription.closed = false) (hread : D.message payload = some message)
    (hroom : p.subscription.channel.length < Subscription.capacity) :
    p.step D (.transport (.receive payload)) =
      some { p with subscription :=
        { p.subscription with channel := p.subscription.channel ++ [message] } } := by
  simp only [step, Subscription.step, hopen, hread, hroom, if_true, Bool.false_eq_true, if_false]

/-- A message that is valid is taken in. -/
theorem step_take_of_valid {message : DAMessage} {rest : List DAMessage}
    (hchannel : p.subscription.channel = message :: rest)
    (hvalid : (S.config p.managed.manager).validateMessage message = .ok true) :
    ∃ p', p.step D (.transport .take) = some p' ∧
      p'.managed.node.transactions = p.managed.node.transactions ∧
      p'.managed.node.engine.storage =
        atomic.takeWrites p.managed.node.engine.storage message.storeWrites.elems := by
  have hafter := ConfidentialStoreEngine.after_newMessage_of_valid atomic (fun _ => rfl) hvalid
    p.managed.node.engine
  simp only [step, Subscription.step, hchannel]
  exact ⟨_, rfl, rfl, congrArg EngineState.storage hafter⟩

theorem run_cons {p₁ : Peer S} (h : p.step D a = some p₁) (has : p₁.run D as = some p') :
    p.run D (a :: as) = some p' := by
  rw [run, h, Option.bind_some, has]

/-- Nothing is received after the end of the subscription. -/
theorem received_of_closed (hclosed : p.subscription.closed = true) (h : p.run D as = some p') :
    received D as = [] := by
  induction as generalizing p with
  | nil => rfl
  | cons a as ih =>
    simp only [run, Option.bind_eq_some_iff] at h
    obtain ⟨p₁, hfirst, hrest⟩ := h
    obtain ⟨hclosed₁, hnone⟩ := closed_of_step hclosed hfirst
    rw [← List.singleton_append, received, List.filterMap_append]
    exact List.append_eq_nil_iff.mpr ⟨hnone, ih hclosed₁ hrest⟩

/-- What is handed to `NewMessage` and what is left in the channel, from any state of the channel on. -/
theorem exists_managedRun (h : p.run D as = some p')
    (hroom : p.subscription.channel.length ≤ Subscription.capacity) :
    p'.subscription.channel.length ≤ Subscription.capacity ∧
      ∃ bs kept, p.managed.run backend bs = some p'.managed ∧
        handled bs ++ p'.subscription.channel = p.subscription.channel ++ kept ∧
        kept.Sublist (received D as) ∧
        (kept = received D as ↔ KeepsUp D p.subscription.channel.length as) := by
  induction as generalizing p with
  | nil =>
    cases h
    exact ⟨hroom, [], [], rfl, by simp [handled], List.Sublist.refl _, by simp [keepsUp_nil, hroom, received]⟩
  | cons a as ih =>
    have hreceived : received D (a :: as) = received D [a] ++ received D as := by
      rw [received, received, received, ← List.filterMap_append]
      rfl
    have hall := h
    simp only [run, Option.bind_eq_some_iff] at h
    obtain ⟨p₁, hstep, hrest⟩ := h
    rcases step_cases hstep with ⟨hnone, htakes, hchannel, cs, hcs, hhandled, -⟩ |
      ⟨message, hone, htakes, hmanaged, hopen, hchannel⟩ |
      ⟨message, hnone, htakes, hchannel, hnew⟩ | ⟨hnone, hchannel, hclosed, rfl⟩
    · -- nothing arrives and nothing is taken
      have hkeeps : KeepsUp D p.subscription.channel.length (a :: as) ↔ _ ∧
          KeepsUp D p₁.subscription.channel.length as := keepsUp_cons (by
        rw [hnone, htakes, hchannel, List.length_nil]
        omega)
      obtain ⟨hroom', bs, kept, hbs, hsplit, hsub, hiff⟩ := ih hrest (hchannel ▸ hroom)
      refine ⟨hroom', cs ++ bs, kept, ?_, ?_, ?_, ?_⟩
      · rw [ManagedNode.run_append hcs, hbs]
      · rw [handled_append, hhandled, List.nil_append, hsplit, hchannel]
      · rw [hreceived, hnone]
        exact hsub
      · rw [hreceived, hnone, List.nil_append, hiff, hkeeps]
        simp [hroom]
    · by_cases hspace : p.subscription.channel.length < Subscription.capacity
      · -- the message finds room in the channel
        rw [if_pos hspace] at hchannel
        have hlength : p₁.subscription.channel.length = p.subscription.channel.length + 1 := by
          rw [hchannel, List.length_append, List.length_singleton]
        have hkeeps : KeepsUp D p.subscription.channel.length (a :: as) ↔ _ ∧
            KeepsUp D p₁.subscription.channel.length as := keepsUp_cons (by
          rw [hone, htakes, hlength, List.length_singleton]
          omega)
        obtain ⟨hroom', bs, kept, hbs, hsplit, hsub, hiff⟩ := ih hrest (by omega)
        refine ⟨hroom', bs, message :: kept, ?_, ?_, ?_, ?_⟩
        · rw [← hmanaged, hbs]
        · rw [hsplit, hchannel, List.append_assoc, List.singleton_append]
        · rw [hreceived, hone]
          exact hsub.cons_cons message
        · rw [hreceived, hone, List.singleton_append, List.cons_inj_right, hiff, hkeeps]
          simp [hroom]
      · -- it does not, and from now on there is one message too few
        rw [if_neg hspace] at hchannel
        obtain ⟨hroom', bs, kept, hbs, hsplit, hsub, -⟩ := ih hrest (hchannel ▸ hroom)
        refine ⟨hroom', bs, kept, ?_, ?_, ?_, ?_⟩
        · rw [← hmanaged, hbs]
        · rw [hsplit, hchannel]
        · rw [hreceived, hone]
          exact hsub.cons message
        · rw [hreceived, hone]
          refine iff_of_false ?_ ?_
          · intro hall
            have hle := hsub.length_le
            rw [hall, List.length_append, List.length_singleton] at hle
            omega
          · intro hkeeps
            have hfirst := hkeeps [a] (List.cons_prefix_cons.mpr ⟨rfl, List.nil_prefix⟩)
            rw [hone, htakes, List.length_singleton] at hfirst
            omega
    · -- the first message of the channel is taken in
      have hlength : p.subscription.channel.length = p₁.subscription.channel.length + 1 := by
        rw [hchannel, List.length_cons]
      have hkeeps : KeepsUp D p.subscription.channel.length (a :: as) ↔ _ ∧
          KeepsUp D p₁.subscription.channel.length as := keepsUp_cons (by
        rw [hnone, htakes, hlength, List.length_nil]
        omega)
      obtain ⟨hroom', bs, kept, hbs, hsplit, hsub, hiff⟩ := ih hrest (by omega)
      refine ⟨hroom', .node (.newMessage message) :: bs, kept, ?_, ?_, ?_, ?_⟩
      · rw [ManagedNode.run, hnew, Option.bind_some, hbs]
      · rw [hchannel, List.cons_append, ← hsplit]
        rfl
      · rw [hreceived, hnone]
        exact hsub
      · rw [hreceived, hnone, List.nil_append, hiff, hkeeps]
        simp [hroom]
    · -- after the end both sides hold, since nothing comes in any more
      obtain ⟨hroom', bs, kept, hbs, hsplit, hsub, -⟩ := ih hrest hroom
      have hend := received_of_closed hclosed hall
      rw [received_of_closed hclosed hrest] at hsub
      obtain rfl := List.sublist_nil.mp hsub
      refine ⟨hroom', bs, [], hbs, hsplit, List.nil_sublist _, ?_⟩
      refine iff_of_true hend.symm ?_
      intro done hdone
      have hnothing : received D done = [] := List.sublist_nil.mp (hend ▸ hdone.sublist.filterMap _)
      rw [hnothing, hchannel]
      exact Nat.zero_le _

/-- Every payload can be decoded into a map. -/
def plainDecoding : Decoding where
  codec := mockCodec
  unmarshalsMap _ := true

/-- An empty object is received and taken in, then the subscription is cancelled and the closed channel is
read from. -/
def cancelledRun (sender : Bytes → Bytes → Except GoError Address) : List (PeerAction sender) :=
  [.transport (.receive (ascii "7b7d")), .transport .take, .transport .cancel, .transport .take]

end Peer

end Suift
