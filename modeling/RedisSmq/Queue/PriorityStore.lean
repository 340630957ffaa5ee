import RedisSmq.Queue.Scheduled

/-!
# The priority store

The pending messages of a priority queue are split over a sorted set of identifiers and a hash of payloads.
`PriorityStore db q` says that every member of the sorted set is the identifier of the payload stored under it.

Producers, the schedule worker, the message manager and consumers keep it (`QueueLinked.step`). The re-queue worker in
priority mode adds the JSON text of a message instead of its identifier, without a payload: a consumer that pops such a
member gets an error, and the message is lost. `priorityStore_reachable` is the invariant over the runs in which no
message of the queue is re-queued in this way.
-/

namespace RedisSmq.Queue

open RedisKeys Db Transition

/-- Every member of the sorted set of the queue is the identifier of the payload stored under it. -/
def PriorityStore (db : Db) (q : TMessageQueue) : Prop :=
  ∀ t ∈ (db.zsets q.keys.keyQueuePriority).members,
    ∃ m, db.hashes q.keys.keyPendingMessagesWithPriority t = some m ∧ t = .id m.uuid

/-- The step does not re-queue a message of the queue in priority mode. -/
def requeuesNot (q : TMessageQueue) (s : State) : Action → Bool
  | .requeueExec =>
    match s.requeueTick with
    | .fetched b => !b.withPriority || b.messages.all (fun i => i.queue ≠ some q)
    | _ => true
  | _ => true

section

variable {cron : CronParser} {lt : Text → Text → Bool} {config : String → ConsumerConfig} {db : Db}
variable {s s' : State} {a : Action} {q q' : TMessageQueue} {m m' : Message} {withPriority : Bool} {now : ℕ}

/-- The payloads of the priority stores lie under their identifiers. -/
def UnderId : Slot → Message → Prop
  | .field key t, m => key.type = .keyPendingMessagesWithPriority → t = .id m.uuid
  | .list _, _ => True

/-- Every step puts payloads under their identifiers. -/
theorem stepPuts_underId {slot : Slot} (h : StepPuts cron config s a slot m) : UnderId slot m := by
  have hfiled := stepPuts_filed h
  cases slot with
  | list key => trivial
  | field key t => exact fun _ => hfiled

/-- The two keys of a priority store. -/
abbrev QueueLinked (db : Db) (q : TMessageQueue) : Prop :=
  Linked db q.keys.keyQueuePriority q.keys.keyPendingMessagesWithPriority

/-- Every step that does not re-queue a message of the queue in priority mode keeps the two keys linked. -/
theorem QueueLinked.step (h : QueueLinked s.db q) (hp : requeuesNot q s a = true)
    (hs : Queue.step cron lt config s a = some s') : QueueLinked s'.db q := by
  refine (step_priorityOps hs).linked (fun op hop n t he => ?_) h
  cases hop with
  | requeue hb hmode hi hq =>
    -- in priority mode no message of the batch is of the queue `q`
    simp only [requeuesNot, hb, hmode, Bool.not_true, Bool.false_or, List.all_eq_true] at hp
    simpa [hq] using hp _ hi
  | enqueue | remove | purge => cases he

/-- A consumer that pops a member of a priority store gets the message with this identifier. -/
theorem PriorityStore.dequeue {id : String} (h : PriorityStore s.db q) (hq : (config id).queue = q)
    (hmode : (config id).priorityQueue = true) (hidle : s.consumers id = .idle)
    (hne : (s.db.zsets q.keys.keyQueuePriority).members ≠ []) :
    ∃ s' m, Queue.step cron lt config s (.dequeue id) = some s' ∧
      (s.db.zsets q.keys.keyQueuePriority).first = some (.id m.uuid) ∧ s'.consumers id = .holding m ∧
      m ∈ s'.db.lists ((config id).keyQueueProcessing id) := by
  subst hq
  cases hfirst : (s.db.zsets (config id).queue.keys.keyQueuePriority).first with
  | none => exact absurd (List.head?_eq_none_iff.mp hfirst) hne
  | some t =>
    obtain ⟨m, hm, rfl⟩ := h t (SortedSet.mem_of_first hfirst)
    obtain ⟨db', hpop, hmem⟩ := zpophgetrpush_some ((config id).keyQueueProcessing id) hfirst hm
    refine ⟨{ s with db := db', consumers := Function.update s.consumers id (.holding m) }, m, ?_, rfl, ?_, hmem⟩
    · have hpop' : s.db.zpophgetrpush (getKeys (config id).ns (config id).queueName none).keyQueuePriority
          (getKeys (config id).ns (config id).queueName none).keyPendingMessagesWithPriority
          ((config id).keyQueueProcessing id) = (db', .message m) := hpop
      simp only [Queue.step, dequeueMessage, hidle, hmode, if_true, hpop']
    · exact Function.update_self ..

/-- **The priority store of a queue** holds identifiers with their payloads, in every state of a run that re-queues no
message of the queue in priority mode; so a consumer always gets the message it pops. -/
theorem priorityStore_reachable (h : Reach (system cron lt config) (fun s a => requeuesNot q s a = true) s) :
    PriorityStore s.db q ∧
      ∀ id, (config id).queue = q → (config id).priorityQueue = true → s.consumers id = .idle →
        (s.db.zsets q.keys.keyQueuePriority).members ≠ [] →
        ∃ s' m, Queue.step cron lt config s (.dequeue id) = some s' ∧
          (s.db.zsets q.keys.keyQueuePriority).first = some (.id m.uuid) ∧ s'.consumers id = .holding m ∧
          m ∈ s'.db.lists ((config id).keyQueueProcessing id) := by
  have hinv : Forall UnderId s.db ∧ QueueLinked s.db q := by
    refine h.invariant (I := fun s => Forall UnderId s.db ∧ QueueLinked s.db q) ⟨Forall.empty, ?_⟩
      (fun s a s' hi hp hs => ?_)
    · intro t ht; cases ht
    · exact ⟨step_forall hs hi.1 (fun _ _ => stepPuts_underId), hi.2.step hp hs⟩
  have hstore : PriorityStore s.db q := fun t ht => by
    obtain ⟨m, hm⟩ := hinv.2 t ht
    exact ⟨m, hm, hinv.1 (.field _ t) m hm rfl⟩
  exact ⟨hstore, fun id hq hmode hidle hne => hstore.dequeue hq hmode hidle hne⟩

end

/-! ## A re-queued message is lost -/

/-- A consumer `c` of the priority queue `q`. -/
def priorityConsumer : String → ConsumerConfig := fun _ => ⟨"ns", "q", true⟩

/-- A message that is re-queued without delay when it fails. -/
def retried : Message := { Message.new Message.defaultOpts "m" 0 with retryDelay := .none }

/-- A message is produced, fails, and is re-queued by the re-queue worker in priority mode. -/
def requeueRun : Option State :=
  run (system minuteParser (fun _ _ => false) priorityConsumer) (fun _ _ => True) init
    [.produce ⟨"q", "ns"⟩ true retried 1, .dequeue "c", .unacknowledge "c" .unacknowledged 2, .requeueFetch true,
      .requeueExec]

/-- Then the priority store has a member without a payload, and the consumer that pops it gets nothing. -/
theorem not_priorityStore_requeueRun : ∃ s, Reach (system minuteParser (fun _ _ => false) priorityConsumer)
    (fun _ _ => True) s ∧ ¬PriorityStore s.db ⟨"q", "ns"⟩ ∧
      ∃ s', step minuteParser (fun _ _ => false) priorityConsumer s (.dequeue "c") = some s' ∧
        s'.consumers "c" = .failed ∧ (s'.db.zsets (getKeys "ns" "q" none).keyQueuePriority).members = [] ∧
        s'.db.lists ((priorityConsumer "c").keyQueueProcessing "c") = [] := by
  have hrun : (requeueRun.map fun s =>
      ((s.db.zsets (getKeys "ns" "q" none).keyQueuePriority).members.map Text.getId,
        (step minuteParser (fun _ _ => false) priorityConsumer s (.dequeue "c")).map fun s' =>
          (s'.consumers "c", (s'.db.zsets (getKeys "ns" "q" none).keyQueuePriority).members.isEmpty,
            (s'.db.lists ((priorityConsumer "c").keyQueueProcessing "c")).isEmpty))) =
              some ([none], some (.failed, true, true)) := by decide
  obtain ⟨s, hreach, heq⟩ := exists_reach_of_run hrun
  obtain ⟨hmembers, hpop⟩ := Prod.mk.inj heq
  refine ⟨s, hreach, fun h => ?_, ?_⟩
  · have hnone : none ∈ (s.db.zsets (getKeys "ns" "q" none).keyQueuePriority).members.map Text.getId := by
      rw [hmembers]; exact List.mem_singleton_self _
    obtain ⟨t, ht, hid⟩ := List.mem_map.mp hnone
    obtain ⟨m, _, rfl⟩ := h t ht
    cases hid
  · obtain ⟨s', hs', heq'⟩ := Option.map_eq_some_iff.mp hpop
    simp only [Prod.mk.injEq, List.isEmpty_iff] at heq'
    exact ⟨s', hs', heq'⟩

/-- A run in which the message is produced, fails and waits to be re-queued, and another one is produced. -/
theorem priorityStore_failedRun : ∃ s, run (system minuteParser (fun _ _ => false) priorityConsumer)
    (fun s a => requeuesNot ⟨"q", "ns"⟩ s a = true) init
    [.produce ⟨"q", "ns"⟩ true retried 1, .dequeue "c", .unacknowledge "c" .unacknowledged 2,
      .produce ⟨"q", "ns"⟩ true { retried with uuid := "m2" } 3] = some s ∧ PriorityStore s.db ⟨"q", "ns"⟩ :=
  exists_run (by decide) (fun _ h => (priorityStore_reachable h).1)

end RedisSmq.Queue
