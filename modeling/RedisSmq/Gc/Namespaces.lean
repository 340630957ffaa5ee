import RedisSmq.Gc.Worker

/-!
# Collecting across namespaces

The index of processing queues is global, while heartbeats, dead-letter queues and queue indexes belong to a namespace.
A worker looks all of them up in the namespace of its own process. `CollectsProperly` says that a queue is only collected
when the heartbeat of its own consumer is missing or old, and in its own namespace.

- `collects_iff`: when an inspection collects a queue;
- `tick_collectsProperly_iff`: a tick is right exactly when every listed queue belongs to the namespace of the worker, or
  to its parent, or has a namesake alive there.
-/

namespace RedisSmq.GCWorker

open RedisKeys Db

/-- A processing queue: the namespace, the queue and the identifier of its consumer. -/
structure ProcessingQueue where
  ns : String
  queueName : String
  consumerId : String
  identified : consumerId.isEmpty = false

namespace ProcessingQueue

variable (q : ProcessingQueue)

def key : RedisKey := (getInstanceKeys q.ns q.queueName q.consumerId).keyQueueProcessing

/-- The heartbeat that the consumer of the queue writes. -/
def heartbeat (db : Db) : Option ℕ := Heartbeat.getConsumerHeartbeat db q.ns q.queueName q.consumerId

def keyQueueDL : RedisKey := (getKeys q.ns q.queueName none).keyQueueDL

def keyIndex : RedisKey := (getKeys q.ns q.queueName none).keyIndexQueueMessageProcessingQueues

theorem extractData_key : extractData q.key = some ⟨q.ns, .keyQueueProcessing, q.queueName, some q.consumerId, none⟩ :=
  rfl

end ProcessingQueue

variable (lt : Text → Text → Bool) (w : GCWorker) (q : ProcessingQueue)

/-- What an inspection comes to that reads the heartbeat in `db` and examines the reply at `now`. -/
def verdict (db : Db) (now : ℕ) : Option Task :=
  (Task.inspect.step lt w q.key now db).bind (fun c =>
    if c.2 = .done then some .done else (c.2.step lt w q.key now c.1).map Prod.snd)

/-- The inspection finds the consumer offline. -/
def Collects (db : Db) (now : ℕ) : Prop := verdict lt w q db now = some .offline

/-- A queue is collected only if its own consumer is offline, and then in its own namespace, whatever other processes do
meanwhile: its messages go to the dead-letter queue of the namespace, and it leaves the index of the namespace. -/
structure CollectsProperly (db : Db) (now : ℕ) : Prop where
  offline : Collects lt w q db now → ∀ timestamp, q.heartbeat db = some timestamp → timestamp + 10000 < now
  deadLetters : Collects lt w q db now → ∀ db' now' msg cause,
    Broker.destination msg .recovery now' = .deadLetter cause →
      ((Task.retry msg).step lt w q.key now' db').map Prod.fst = some (db'.lpoprpush q.key q.keyQueueDL)
  unregisters : Collects lt w q db now → ∀ db' now',
    ((Task.destroy.step lt w q.key now' db').map fun c => c.1.indexes q.keyIndex q.key) = some none

variable {lt w q}

/-- A queue is collected when its consumer is not the parent and has no fresh heartbeat in the namespace of the worker. -/
theorem collects_iff {db : Db} {now : ℕ} : Collects lt w q db now ↔ w.consumerId ≠ q.consumerId ∧
    Heartbeat.isAlive (Heartbeat.getConsumerHeartbeat db w.ns q.queueName q.consumerId) now = false := by
  unfold Collects verdict
  by_cases hparent : w.consumerId = q.consumerId
  · simp [Task.step, ProcessingQueue.extractData_key, q.identified, hparent]
  · cases h : Heartbeat.isAlive (Heartbeat.getConsumerHeartbeat db w.ns q.queueName q.consumerId) now <;>
      simp [Task.step, ProcessingQueue.extractData_key, q.identified, hparent, h]

/-- The request of a dead-lettered message names the dead-letter queue of the namespace of the worker. -/
theorem step_retry_deadLetter {msg : Message} {now : ℕ} {cause : EMessageDeadLetterCause} {db : Db}
    (h : Broker.destination msg .recovery now = .deadLetter cause) :
    ((Task.retry msg).step lt w q.key now db).map Prod.fst =
      some (db.lpoprpush q.key (getKeys w.ns q.queueName none).keyQueueDL) := by
  have hcmd : w.retryCmd q.queueName q.key msg now =
      .lpoprpush q.key (getKeys w.ns q.queueName none).keyQueueDL := by
    rw [retryCmd, Broker.retry_eq]
    simp [Message.createFromMessage, h, Broker.Destination.cmd, ProcessingHandler.deadLetterMessage]
  simp [Task.step, ProcessingQueue.extractData_key, q.identified, hcmd, exec]

/-- The deletion clears the entry of the index of the namespace of the worker, and no other one. -/
theorem step_destroy_index {db : Db} {now : ℕ} :
    ((Task.destroy.step lt w q.key now db).map fun c => c.1.indexes q.keyIndex q.key) =
      some (if w.ns = q.ns then none else db.indexes q.keyIndex q.key) := by
  have hdel : q.keyIndex ≠ q.key := by simp [ProcessingQueue.keyIndex, ProcessingQueue.key, RedisKey.ext_iff]
  have hstep : ((Task.destroy.step lt w q.key now db).map fun c => c.1.indexes q.keyIndex q.key) =
      some ((db.setIndex (getKeys w.ns q.queueName none).keyIndexQueueMessageProcessingQueues q.key none).indexes
        q.keyIndex q.key) := by
    simp [Task.step, ProcessingQueue.extractData_key, q.identified, destroyProcessingQueue,
      QueueManager.deleteProcessingQueue, exec, Function.update_of_ne hdel]
  rw [hstep, Option.some.injEq, setIndex_indexes]
  by_cases hns : w.ns = q.ns
  · rw [if_pos hns, hns]
    simp [ProcessingQueue.keyIndex]
  · have hkey : q.keyIndex ≠ (getKeys w.ns q.queueName none).keyIndexQueueMessageProcessingQueues := by
      simp [ProcessingQueue.keyIndex, RedisKey.ext_iff, Ne.symm hns]
    rw [if_neg hns, Function.update_of_ne hkey]

/-- A queue of another namespace is collected wrongly, unless it is left alone. -/
theorem collectsProperly_iff {db : Db} {now : ℕ} : CollectsProperly lt w q db now ↔
    w.ns = q.ns ∨ w.consumerId = q.consumerId ∨
      Heartbeat.isAlive (Heartbeat.getConsumerHeartbeat db w.ns q.queueName q.consumerId) now = true := by
  constructor
  · intro h
    by_contra hno
    simp only [not_or, Bool.not_eq_true] at hno
    obtain ⟨hns, hparent, halive⟩ := hno
    -- the entry of a registered queue stays
    have hentry := h.unregisters (collects_iff.mpr ⟨hparent, halive⟩)
      (Db.empty.setIndex q.keyIndex q.key (some q.consumerId)) now
    rw [step_destroy_index, if_neg hns] at hentry
    simp at hentry
  · rintro (hns | hleft)
    · constructor
      · intro hc
        have halive := (collects_iff.mp hc).2
        rw [hns] at halive
        exact Heartbeat.isAlive_eq_false.mp halive
      · intro _ db' now' msg cause hd
        rw [step_retry_deadLetter hd, hns]
        rfl
      · intro _ db' now'
        rw [step_destroy_index, if_pos hns]
    · have hnot : ¬Collects lt w q db now := by
        rw [collects_iff]
        rintro ⟨hparent, halive⟩
        rcases hleft with h | h
        · exact hparent h
        · rw [halive] at h; cases h
      exact ⟨fun hc => absurd hc hnot, fun hc => absurd hc hnot, fun hc => absurd hc hnot⟩

/-- **A tick of a GC worker is right exactly when** every listed processing queue belongs to the namespace of the worker
or to its parent, or has a namesake alive in the namespace of the worker. The inspection of each queue reads its
heartbeat from a database of its own and examines it at a time of its own. -/
theorem tick_collectsProperly_iff (lt : Text → Text → Bool) (w : GCWorker) (db : Db)
    (reads : ProcessingQueue → Db × ℕ) :
    (∀ q : ProcessingQueue, q.key ∈ db.sets getGlobalKeys.keyIndexProcessingQueues →
      CollectsProperly lt w q (reads q).1 (reads q).2) ↔
    ∀ q : ProcessingQueue, q.key ∈ db.sets getGlobalKeys.keyIndexProcessingQueues →
      w.ns = q.ns ∨ w.consumerId = q.consumerId ∨
        Heartbeat.isAlive (Heartbeat.getConsumerHeartbeat (reads q).1 w.ns q.queueName q.consumerId) (reads q).2 =
          true := by
  constructor
  · intro h q hq
    exact collectsProperly_iff.mp (h q hq)
  · intro h q hq
    exact collectsProperly_iff.mpr (h q hq)

/-! ## A live consumer of another namespace -/

/-- A consumer of the namespace `ns2`. -/
def foreign : ProcessingQueue := ⟨"ns2", "q", "c", by decide⟩

/-- The database once the consumer is registered, has written its heartbeat at 1000, and holds a message that is not to
be retried. -/
def foreignDb : Db :=
  (Db.empty.execAll (fun _ _ => false) (Heartbeat.onTick (getInstanceKeys "ns2" "q" "c").keyHeartbeat 1000 ::
    QueueManager.setUpProcessingQueue "ns2" "q" "c")).setList foreign.key
      [{ Message.new Message.defaultOpts "m" 0 with retryThreshold := 1 }]

/-- A worker of the namespace `ns1` collects it at 1001: the message goes to the dead-letter queue of `ns1`, and the
queue stays in the index of its own namespace. -/
theorem not_collectsProperly_foreign :
    ¬CollectsProperly (fun _ _ => false) ⟨"ns1", "gc"⟩ foreign foreignDb 1001 ∧
      Collects (fun _ _ => false) ⟨"ns1", "gc"⟩ foreign foreignDb 1001 ∧ foreign.heartbeat foreignDb = some 1000 ∧
      (GCWorker.handleOfflineConsumer (fun _ _ => false) ⟨"ns1", "gc"⟩ "q" foreign.key 1001 foreignDb).lists
        (getKeys "ns1" "q" none).keyQueueDL = [{ Message.new Message.defaultOpts "m" 0 with retryThreshold := 1 }] ∧
      (GCWorker.handleOfflineConsumer (fun _ _ => false) ⟨"ns1", "gc"⟩ "q" foreign.key 1001 foreignDb).indexes
        foreign.keyIndex foreign.key = some "c" := by
  have hcollects : Collects (fun _ _ => false) ⟨"ns1", "gc"⟩ foreign foreignDb 1001 := by
    unfold Collects
    decide
  refine ⟨fun h => ?_, hcollects, by decide, by decide, by decide⟩
  have hold := h.offline hcollects 1000 (by decide)
  omega

end RedisSmq.GCWorker
