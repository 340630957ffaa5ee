import RedisSmq.Gc.System

/-!
# Live consumers and the garbage collector

A consumer registers its processing queue about a second before it writes its first heartbeat. A GC worker that looks for
the heartbeat in between takes the consumer for a dead one and deletes its processing queue, and the registration is
never restored (`not_safe_startup`).

- `orderly`: the worker reads the heartbeat of a live consumer once there is one, and examines it while it is fresh; a
  consumer does not register while the worker handles it as offline; a message that a consumer waited for before it went
  down is not delivered into an unregistered queue;
- `Inv`: what the worker has condemned is not live; `Inv.step`, `inv_reachable`;
- `liveQueues_reachable`: in orderly runs the queues of live consumers are kept, and no message is in an unlisted queue.
-/

namespace RedisSmq.Gc

open RedisKeys Db Queue GCWorker Transition

variable {cron : CronParser} {lt : Text → Text → Bool} {config : String → ConsumerConfig} {w : GCWorker}
variable {s s' : State} {a : Action} {id : String}

/-! ## Safety -/

/-- The processing queue of a consumer. -/
abbrev queueOf (config : String → ConsumerConfig) (id : String) : RedisKey := (instanceKeys config id).keyQueueProcessing

/-- The processing queue of a consumer is listed in the global index and in the index of its queue. -/
structure Registered (config : String → ConsumerConfig) (db : Db) (id : String) : Prop where
  listed : queueOf config id ∈ db.sets getGlobalKeys.keyIndexProcessingQueues
  indexed : db.indexes (config id).keys.keyIndexQueueMessageProcessingQueues (queueOf config id) = some id

def Action.ofGc : Action → Bool
  | .gcTick | .gcTask _ => true
  | _ => false

/-- What the steps that `P` allows do next leaves live consumers alone, and every processing queue with a message is
listed. -/
structure Safe (cron : CronParser) (lt : Text → Text → Bool) (config : String → ConsumerConfig) (w : GCWorker)
    (P : State → Action → Prop) (s : State) : Prop where
  kept : ∀ id a s', (s.lives id).live = true → a.ofGc = true → P s a → step cron lt config w s a = some s' →
    s'.queue.db.lists (queueOf config id) = s.queue.db.lists (queueOf config id) ∧ Registered config s'.queue.db id
  listed : ∀ id, s.queue.db.lists (queueOf config id) ≠ [] →
    queueOf config id ∈ s.queue.db.sets getGlobalKeys.keyIndexProcessingQueues

/-- No more than ten seconds pass between the ticks of a heartbeat. -/
def InTime (s : State) : Action → Prop
  | .pass ms => ∀ id, (s.lives id).live = true → s.clock + ms ≤ (s.lives id).ticked + 10000
  | _ => True

/-- A step of the worker does not take a live consumer for a dead one, and a consumer does not start or get a message
while its queue is being deleted. -/
def orderly (config : String → ConsumerConfig) (w : GCWorker) (s : State) : Action → Bool
  | .gcTask key =>
    match (extractData key).bind (·.consumerId), s.tasks key with
    | some id, .inspect => !(s.lives id).live || decide (id = w.consumerId) ||
        (Heartbeat.getConsumerHeartbeat s.queue.db (config id).ns (config id).queueName id).isSome
    | some id, .heartbeat (some timestamp) => !(s.lives id).live || decide (s.clock ≤ timestamp + 10000)
    | _, _ => true
  | .setUpProcessingQueue id => !(s.tasks (queueOf config id)).condemned
  | .queue (.dequeue id) => decide ((s.lives id).power = .up) ||
      decide (queueOf config id ∈ s.queue.db.sets getGlobalKeys.keyIndexProcessingQueues)
  | _ => true

/-! ## The invariant -/

/-- Live consumers are registered, processing queues with a message are listed, and what the worker has condemned is not
live. -/
structure Inv (config : String → ConsumerConfig) (s : State) : Prop where
  registered : ∀ id, (s.lives id).live = true → Registered config s.queue.db id
  listed : ∀ id, s.queue.db.lists (queueOf config id) ≠ [] →
    queueOf config id ∈ s.queue.db.sets getGlobalKeys.keyIndexProcessingQueues
  condemned : ∀ id, (s.tasks (queueOf config id)).condemned = true → (s.lives id).live = false

/-- Processing queues tell consumers apart. -/
theorem queueOf_ne {id id' : String} (h : id ≠ id') : queueOf config id ≠ queueOf config id' := by
  intro hkey
  have hsegment : some id = some id' := congrArg (fun k : RedisKey => k.segments[1]?) hkey
  exact h (Option.some.inj hsegment)

theorem extractData_queueOf : extractData (queueOf config id) =
    some ⟨(config id).ns, .keyQueueProcessing, (config id).queueName, some id, none⟩ := rfl

/-- A step that keeps the registrations, fills no processing queue, and makes nobody live keeps the invariant. -/
theorem Inv.of_frame (hi : Inv config s)
    (hset : s'.queue.db.sets getGlobalKeys.keyIndexProcessingQueues =
      s.queue.db.sets getGlobalKeys.keyIndexProcessingQueues)
    (hindex : ∀ id, s'.queue.db.indexes (config id).keys.keyIndexQueueMessageProcessingQueues =
      s.queue.db.indexes (config id).keys.keyIndexQueueMessageProcessingQueues)
    (hlists : ∀ id, s.queue.db.lists (queueOf config id) = [] → s'.queue.db.lists (queueOf config id) = [] ∨
      queueOf config id ∈ s.queue.db.sets getGlobalKeys.keyIndexProcessingQueues)
    (hlive : ∀ id, (s'.lives id).live = true → (s.lives id).live = true)
    (htasks : ∀ id, (s'.tasks (queueOf config id)).condemned = true → (s.tasks (queueOf config id)).condemned = true) :
    Inv config s' := by
  constructor
  · intro id h
    obtain ⟨h1, h2⟩ := hi.registered id (hlive id h)
    exact ⟨hset ▸ h1, by rw [hindex]; exact h2⟩
  · intro id h
    rw [hset]
    by_cases hnil : s.queue.db.lists (queueOf config id) = []
    · rcases hlists id hnil with h' | h'
      · exact absurd h' h
      · exact h'
    · exact hi.listed id hnil
  · intro id h
    have hdead := hi.condemned id (htasks id h)
    cases hl : (s'.lives id).live with
    | false => rfl
    | true => rw [hlive id hl] at hdead; cases hdead

/-- A step of a consumer that does not touch lists and registrations, and does not make it live. -/
theorem Inv.setLife (hi : Inv config s) {l : Life} (hl : l.live = true → (s.lives id).live = true) {db : Db}
    (hset : db.sets = s.queue.db.sets) (hindex : db.indexes = s.queue.db.indexes) (hlists : db.lists = s.queue.db.lists)
    {consumers : String → Phase} :
    Inv config { s with
      queue := { s.queue with db := db, consumers := consumers }
      lives := Function.update s.lives id l } := by
  refine hi.of_frame (by simp only [hset]) (fun _ => by simp only [hindex]) (fun _ h => .inl (by simp only [hlists, h]))
    (fun id' h => ?_) (fun _ h => h)
  change (Function.update s.lives id l id').live = true at h
  by_cases hid : id' = id
  · subst hid
    rw [Function.update_self] at h
    exact hl h
  · rwa [Function.update_of_ne hid] at h

/-- Requests of the queue system do not make a consumer live. -/
theorem lifeAfter_live {lives lives' : String → Life} {a : Queue.Action} (h : lifeAfter lives a = some lives') :
    (lives' id).live = (lives id).live := by
  have hupdate : ∀ (id' : String) (l : Life), l.live = (lives id').live →
      (Function.update lives id' l id).live = (lives id).live := by
    intro id' l hl
    by_cases hid : id = id'
    · subst hid; rw [Function.update_self, hl]
    · rw [Function.update_of_ne hid]
  unfold lifeAfter at h
  cases a with
  | dequeue id' =>
    dsimp only at h
    split at h <;> cases h
    exact hupdate id' _ rfl
  | acknowledge id' | unacknowledge id' =>
    dsimp only at h
    split at h <;> cases h
    exact hupdate id' _ rfl
  | _ => cases h; rfl

/-- Only a consumer that dequeues puts a message into its processing queue. -/
theorem stepPuts_queueOf {q : Queue.State} {a : Queue.Action} {m : Message}
    (h : StepPuts cron config q a (.list (queueOf config id)) m) : a = .dequeue id := by
  generalize hslot : Slot.list (queueOf config id) = slot at h
  have hkey : ∀ k : RedisKey, Slot.list (queueOf config id) = .list k → k.type = .keyQueueProcessing := by
    intro k hk; cases hk; rfl
  have henqueue : ∀ q m wp, Slot.list (queueOf config id) ≠ enqueueSlot q m wp := by
    intro q m wp hs
    unfold enqueueSlot at hs
    split at hs
    · cases hs
    · cases hkey _ hs
  cases h with
  | produceScheduled | delayed | rescheduled => cases hslot
  | produceEnqueued | enqueueScheduled | requested => exact absurd hslot (henqueue _ _ _)
  | @dequeuePriority id' | @dequeue id' =>
    by_cases hid : id = id'
    · rw [hid]
    · exact absurd (Slot.list.inj hslot) (queueOf_ne hid)
  | acknowledge => cases hkey _ hslot
  | @unacknowledge id' cause now m' m'' =>
    have := hkey _ hslot
    cases hd : Broker.destination m' cause now <;> rw [hd] at this <;> cases this
  | requeued => cases hkey _ hslot

theorem Inv.step_queue (hi : Inv config s) {b : Queue.Action} (ho : orderly config w s (.queue b) = true)
    (hs : step cron lt config w s (.queue b) = some s') : Inv config s' := by
  simp only [Gc.step, bind, Option.bind_eq_some_iff] at hs
  obtain ⟨lives, hlives, queue, hqueue, hs⟩ := hs
  cases hs
  have hframe : ∀ k : RedisKey, k.type ∉ messageTypes → SameAt queue.db s.queue.db k :=
    fun k hk => step_frame hqueue (fun h => hk (types_subset _ h))
  refine hi.of_frame (hframe _ (by decide)).sets
    (fun id => (hframe _ (show ERedisKey.keyIndexQueueMessageProcessingQueues ∉ _ by decide)).indexes)
    (fun id hnil => ?_) (fun id h => by rwa [lifeAfter_live hlives] at h) (fun _ h => h)
  by_cases hempty : queue.db.lists (queueOf config id) = []
  · exact .inl hempty
  · obtain ⟨m, hm⟩ := List.exists_mem_of_ne_nil _ hempty
    have hholds : queue.db.Holds (.list (queueOf config id)) m := hm
    rcases step_holds hqueue hholds with hold | hputs
    · have : m ∈ s.queue.db.lists (queueOf config id) := hold
      rw [hnil] at this
      cases this
    · rw [stepPuts_queueOf hputs] at ho
      simp only [orderly, Bool.or_eq_true, decide_eq_true_eq] at ho
      rcases ho with hup | hlisted
      · exact .inr (hi.registered id (by simp [Life.live, hup])).listed
      · exact .inr hlisted

/-- A consumer that registers is registered, and nothing else changes. -/
theorem Inv.step_setUpProcessingQueue (hi : Inv config s) (ho : orderly config w s (.setUpProcessingQueue id) = true)
    (hs : step cron lt config w s (.setUpProcessingQueue id) = some s') : Inv config s' := by
  simp only [Gc.step] at hs
  split at hs <;> cases hs
  have hsets : ∀ k, k ∈ s.queue.db.sets getGlobalKeys.keyIndexProcessingQueues ∨ k = queueOf config id →
      k ∈ (s.queue.db.execAll lt (QueueManager.setUpProcessingQueue (config id).ns (config id).queueName id)).sets
        getGlobalKeys.keyIndexProcessingQueues := by
    intro k hk
    simp only [QueueManager.setUpProcessingQueue, execAll_cons, execAll_nil, exec, setSet_sets, Function.update_self,
      setIndex_sets, List.mem_insert_iff]
    exact hk.symm
  have hindex : ∀ id', (s.queue.db.execAll lt (QueueManager.setUpProcessingQueue (config id).ns (config id).queueName
      id)).indexes (config id').keys.keyIndexQueueMessageProcessingQueues (queueOf config id') =
        if id' = id then some id else
          s.queue.db.indexes (config id').keys.keyIndexQueueMessageProcessingQueues (queueOf config id') := by
    intro id'
    simp only [QueueManager.setUpProcessingQueue, execAll_cons, execAll_nil, exec, setSet_indexes, setIndex_indexes]
    by_cases hid : id' = id
    · subst hid
      rw [if_pos rfl, Function.update_self]
      exact Function.update_self ..
    · rw [if_neg hid]
      by_cases hk : (config id').keys.keyIndexQueueMessageProcessingQueues =
          (getKeys (config id).ns (config id).queueName none).keyIndexQueueMessageProcessingQueues
      · rw [hk, Function.update_self]
        exact Function.update_of_ne (queueOf_ne hid) ..
      · rw [Function.update_of_ne hk]
  constructor
  · intro id' h
    by_cases hid : id' = id
    · subst hid
      exact ⟨hsets _ (.inr rfl), (hindex id').trans (if_pos rfl)⟩
    · change (Function.update s.lives id _ id').live = true at h
      rw [Function.update_of_ne hid] at h
      obtain ⟨h1, h2⟩ := hi.registered id' h
      exact ⟨hsets _ (.inl h1), (hindex id').trans ((if_neg hid).trans h2)⟩
  · intro id' h
    exact hsets _ (.inl (hi.listed id' h))
  · intro id' h
    show (Function.update s.lives id _ id').live = false
    by_cases hid : id' = id
    · subst hid
      simp only [orderly, Bool.not_eq_true'] at ho
      change (s.tasks (queueOf config id')).condemned = true at h
      rw [ho] at h
      cases h
    · rw [Function.update_of_ne hid]
      exact hi.condemned id' h

/-! ## Steps of the worker -/

/-- A step of the worker leaves live consumers alone. -/
theorem Inv.kept (hi : Inv config s) (hlive : (s.lives id).live = true) (ha : a.ofGc = true)
    (hs : step cron lt config w s a = some s') :
    s'.queue.db.lists (queueOf config id) = s.queue.db.lists (queueOf config id) ∧ Registered config s'.queue.db id := by
  cases a with
  | gcTick =>
    simp only [Gc.step] at hs
    split at hs <;> cases hs
    exact ⟨rfl, hi.registered id hlive⟩
  | gcTask key =>
    simp only [Gc.step] at hs
    split at hs <;> cases hs
    rename_i db t ht
    by_cases hkey : key = queueOf config id
    · subst hkey
      have hspared : (s.tasks (queueOf config id)).condemned = false := by
        cases hc : (s.tasks (queueOf config id)).condemned with
        | false => rfl
        | true => rw [hi.condemned id hc] at hlive; cases hlive
      have hread : db = s.queue.db := Task.step_reads ht hspared
      rw [← hread]
      exact ⟨rfl, hread ▸ hi.registered id hlive⟩
    · obtain ⟨hlists, hset, hindex⟩ := Task.step_other ht (Ne.symm hkey) rfl
      obtain ⟨h1, h2⟩ := hi.registered id hlive
      exact ⟨hlists, hset.mpr h1, (hindex _ rfl).trans h2⟩
  | _ => cases ha

/-- An orderly inspection does not condemn the queue of a live consumer. -/
theorem Inv.condemned_gcTask (hns : ∀ id, (config id).ns = w.ns) (hi : Inv config s) {db : Db} {t : Task}
    (ho : orderly config w s (.gcTask (queueOf config id)) = true)
    (ht : (s.tasks (queueOf config id)).step lt w (queueOf config id) s.clock s.queue.db = some (db, t))
    (hc : t.condemned = true) : (s.lives id).live = false := by
  cases hlive : (s.lives id).live with
  | false => rfl
  | true =>
    obtain ⟨data, id', hdata, hid, hcases⟩ := Task.step_cases ht
    rw [extractData_queueOf, Option.some.injEq] at hdata
    subst hdata
    cases hid
    obtain ⟨htask, rfl, rfl⟩ | ⟨reply, htask, rfl, rfl⟩ | ⟨htask, _⟩ | ⟨msg, htask, _⟩ | ⟨htask, _⟩ := hcases
    · -- a heartbeat is read that is there
      simp only [orderly, extractData_queueOf, htask, hlive, Option.bind_some, Bool.not_true, Bool.false_or,
        Bool.or_eq_true, decide_eq_true_eq] at ho
      split at hc
      · rename_i hparent
        rcases ho with hp | hsome
        · exact absurd hp.symm hparent
        · obtain ⟨timestamp, hts⟩ := Option.isSome_iff_exists.mp hsome
          rw [hns id] at hts
          rw [hts] at hc
          cases hc
      · cases hc
    · cases reply with
      | none => exact absurd (hi.condemned id (by rw [htask]; rfl)) (by simp [hlive])
      | some timestamp =>
        -- a fresh one is examined
        simp only [orderly, extractData_queueOf, htask, hlive, Option.bind_some, Bool.not_true, Bool.false_or,
          decide_eq_true_eq] at ho
        have halive : Heartbeat.isAlive (some timestamp) s.clock = true := by
          simp only [Heartbeat.isAlive, Heartbeat.validateOnlineTimestamp, decide_eq_true_eq]
          omega
        rw [if_pos halive] at hc
        cases hc
    all_goals exact absurd (hi.condemned id (by rw [htask]; rfl)) (by simp [hlive])

/-- An inspection fills no processing queue, and empties the one it unlists. -/
theorem Inv.listed_gcTask (hi : Inv config s) {key : RedisKey} {db : Db} {t : Task}
    (ht : (s.tasks key).step lt w key s.clock s.queue.db = some (db, t)) (hne : db.lists (queueOf config id) ≠ []) :
    queueOf config id ∈ db.sets getGlobalKeys.keyIndexProcessingQueues := by
  by_cases hkey : key = queueOf config id
  · subst hkey
    obtain ⟨data, id', hdata, hid, hcases⟩ := Task.step_cases ht
    obtain ⟨_, rfl, _⟩ | ⟨_, _, rfl, _⟩ | ⟨_, rfl⟩ | ⟨msg, _, rfl⟩ | ⟨_, rfl, _⟩ := hcases
    · exact hi.listed id hne
    · exact hi.listed id hne
    · exact hi.listed id hne
    · obtain ⟨m, hm⟩ := List.exists_mem_of_ne_nil _ hne
      have hold : queueOf config id ∈ s.queue.db.sets getGlobalKeys.keyIndexProcessingQueues := by
        refine hi.listed id (List.ne_nil_of_mem (a := m) ?_)
        have hholds : (s.queue.db.exec lt (w.retryCmd data.queueName (queueOf config id) msg s.clock)).Holds
            (.list (queueOf config id)) m := hm
        rcases holds_exec hholds with h | h
        · exact h
        · rw [retryCmd_eq] at h
          cases hd : Broker.destination msg .recovery s.clock <;> rw [hd] at h <;>
            cases congrArg RedisKey.type (Slot.list.inj h.1)
      have hframe : SameAt (s.queue.db.exec lt (w.retryCmd data.queueName (queueOf config id) msg s.clock)) s.queue.db
          getGlobalKeys.keyIndexProcessingQueues := by
        refine exec_frame (fun hmem => ?_)
        rcases retryCmd_keys hmem with h | h
        · cases congrArg RedisKey.type h
        · simp at h
      rw [hframe.sets]
      exact hold
    · exact absurd (by simp [destroyProcessingQueue, QueueManager.deleteProcessingQueue, exec]) hne
  · obtain ⟨hlists, hset, _⟩ := Task.step_other ht (Ne.symm hkey) rfl
    rw [hlists] at hne
    exact hset.mpr (hi.listed id hne)

theorem Inv.step_gcTask (hns : ∀ id, (config id).ns = w.ns) (hi : Inv config s) {key : RedisKey}
    (ho : orderly config w s (.gcTask key) = true) (hs : step cron lt config w s (.gcTask key) = some s') :
    Inv config s' := by
  have hkept : ∀ id, (s.lives id).live = true → Registered config s'.queue.db id := fun id h => (hi.kept h rfl hs).2
  simp only [Gc.step] at hs
  split at hs <;> cases hs
  rename_i db t ht
  refine ⟨hkept, fun id h => hi.listed_gcTask ht h, fun id h => ?_⟩
  change (Function.update s.tasks key t (queueOf config id)).condemned = true at h
  by_cases hkey : queueOf config id = key
  · subst hkey
    rw [Function.update_self] at h
    have hdead := hi.condemned_gcTask hns ho ht h
    exact hdead
  · rw [Function.update_of_ne hkey] at h
    exact hi.condemned id h

/-! ## Runs -/

theorem inv_init : Inv config init :=
  ⟨fun _ h => by simp [init, Life.live] at h, fun _ h => absurd rfl h, fun _ h => by simp [init, Task.condemned] at h⟩

/-- An orderly step keeps the invariant. -/
theorem Inv.step (hns : ∀ id, (config id).ns = w.ns) (hi : Inv config s) (ho : orderly config w s a = true)
    (hs : Gc.step cron lt config w s a = some s') : Inv config s' := by
  cases a with
  | queue b => exact hi.step_queue ho hs
  | pass ms => cases hs; exact ⟨hi.registered, hi.listed, hi.condemned⟩
  | setUpHeartbeat id =>
    simp only [Gc.step] at hs
    split at hs <;> cases hs
    exact hi.setLife (by simp [Life.live]) rfl rfl rfl
  | setUpProcessingQueue id => exact hi.step_setUpProcessingQueue ho hs
  | up id =>
    simp only [Gc.step] at hs
    split at hs <;> cases hs
    rename_i hp
    exact hi.setLife (by simp [Life.live, hp]) rfl rfl rfl
  | heartbeatTick id =>
    simp only [Gc.step] at hs
    split at hs
    · split at hs <;> cases hs
      apply hi.setLife
      · intro h
        exact h
      all_goals rfl
    · cases hs
  | heartbeatStored id =>
    simp only [Gc.step] at hs
    split at hs <;> cases hs
    apply hi.setLife
    · intro h
      exact h
    all_goals rfl
  | goDown id =>
    simp only [Gc.step] at hs
    split at hs <;> cases hs
    exact hi.setLife (by simp [Life.live]) rfl rfl rfl
  | expireHeartbeat id =>
    simp only [Gc.step] at hs
    split at hs <;> cases hs
    apply hi.setLife
    · intro h
      exact h
    all_goals rfl
  | halt id =>
    simp only [Gc.step] at hs
    split at hs <;> cases hs
    exact hi.setLife (by simp [Life.live]) rfl rfl rfl
  | crash id =>
    cases hs
    exact hi.setLife (by simp [Life.live]) rfl rfl rfl
  | gcTick =>
    simp only [Gc.step] at hs
    split at hs <;> cases hs
    refine ⟨hi.registered, hi.listed, fun id h => ?_⟩
    dsimp only at h
    split at h <;> cases h
  | gcTask key => exact hi.step_gcTask hns ho hs

/-- **Garbage collection spares live consumers** in orderly runs of consumers of one namespace: the worker moves nothing
out of the processing queue of a live consumer, does not delete it and does not unregister it; and every processing queue
that holds a message is listed. -/
theorem liveQueues_reachable (hns : ∀ id, (config id).ns = w.ns)
    (h : Reach (system cron lt config w) (fun s a => orderly config w s a = true) s) :
    Safe cron lt config w (fun s a => orderly config w s a = true) s := by
  have hi : Inv config s :=
    h.invariant (I := Inv config) inv_init (fun s a s' hi ho hs => hi.step hns ho hs)
  exact ⟨fun id a s' hlive ha _ hs => hi.kept hlive ha hs, hi.listed⟩

/-! ## A consumer that starts -/

/-- Consumers of one queue. -/
def oneQueue : String → ConsumerConfig := fun _ => ⟨"q", "q", false⟩

def Action.timeless : Action → Bool
  | .pass _ => false
  | _ => true

theorem inTime_of_timeless (h : a.timeless = true) : InTime s a := by
  cases a with
  | pass => cases h
  | _ => trivial

/-- A consumer starts, and the worker inspects its queue before the first heartbeat; a message arrives before the worker
deletes the queue. No time passes. -/
def startupRun : Option State :=
  run (system minuteParser (fun _ _ => false) oneQueue ⟨"q", "gc"⟩) (fun _ a => a.timeless = true) init
    [.setUpHeartbeat "c", .setUpProcessingQueue "c", .up "c", .gcTick, .gcTask (queueOf oneQueue "c"),
      .gcTask (queueOf oneQueue "c"), .gcTask (queueOf oneQueue "c"),
      .queue (.produce ⟨"q", "q"⟩ false (Message.new Message.defaultOpts "m" 0) 0), .queue (.dequeue "c")]

/-- Then the worker deletes the queue of a live consumer with its message, and it is not listed any more. -/
theorem not_safe_startup : ∃ s, Reach (system minuteParser (fun _ _ => false) oneQueue ⟨"q", "gc"⟩) InTime s ∧
    ¬Safe minuteParser (fun _ _ => false) oneQueue ⟨"q", "gc"⟩ InTime s ∧
    (s.queue.db.lists (queueOf oneQueue "c")).map (·.uuid) = ["m"] ∧
    ∃ s', step minuteParser (fun _ _ => false) oneQueue ⟨"q", "gc"⟩ s (.gcTask (queueOf oneQueue "c")) = some s' ∧
      (s'.lives "c").live = true ∧ s'.queue.db.lists (queueOf oneQueue "c") = [] ∧
      queueOf oneQueue "c" ∉ s'.queue.db.sets getGlobalKeys.keyIndexProcessingQueues := by
  have hrun : (startupRun.map fun s => ((s.lives "c").live, (s.queue.db.lists (queueOf oneQueue "c")).map (·.uuid),
      (step minuteParser (fun _ _ => false) oneQueue ⟨"q", "gc"⟩ s (.gcTask (queueOf oneQueue "c"))).map fun s' =>
        ((s'.lives "c").live, (s'.queue.db.lists (queueOf oneQueue "c")).isEmpty,
          decide (queueOf oneQueue "c" ∈ s'.queue.db.sets getGlobalKeys.keyIndexProcessingQueues)))) =
            some (true, ["m"], some (true, true, false)) := by decide
  obtain ⟨s, hreach, heq⟩ := exists_reach_of_run hrun
  simp only [Prod.mk.injEq] at heq
  obtain ⟨hlive, hlist, hgc⟩ := heq
  obtain ⟨s', hs', heq'⟩ := Option.map_eq_some_iff.mp hgc
  simp only [Prod.mk.injEq, List.isEmpty_iff, decide_eq_false_iff_not] at heq'
  refine ⟨s, hreach.mono (fun _ _ h => inTime_of_timeless h), fun hsafe => ?_, hlist, s', hs', heq'⟩
  exact heq'.2.2 (hsafe.kept "c" (.gcTask (queueOf oneQueue "c")) s' hlive rfl trivial hs').2.listed

/-- A run in which the worker inspects the queue after the first heartbeat, while a message arrives. -/
theorem liveQueues_afterHeartbeat : ∃ s, run (system minuteParser (fun _ _ => false) oneQueue ⟨"q", "gc"⟩)
    (fun s a => orderly oneQueue ⟨"q", "gc"⟩ s a = true) init
    [.setUpHeartbeat "c", .setUpProcessingQueue "c", .up "c", .pass 1000, .heartbeatTick "c", .heartbeatStored "c",
      .gcTick, .gcTask (queueOf oneQueue "c"),
      .queue (.produce ⟨"q", "q"⟩ false (Message.new Message.defaultOpts "m" 0) 1000), .queue (.dequeue "c"),
      .pass 10000, .gcTask (queueOf oneQueue "c")] = some s ∧
    Safe minuteParser (fun _ _ => false) oneQueue ⟨"q", "gc"⟩ (fun s a => orderly oneQueue ⟨"q", "gc"⟩ s a = true) s :=
  exists_run (by decide) (fun _ h => liveQueues_reachable (fun _ => rfl) h)

end RedisSmq.Gc
