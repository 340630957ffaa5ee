import RedisSmq.Broker
import RedisSmq.Effects

/-!
# The garbage collector

`gc.worker.ts` and the heartbeats it looks at. A tick reads the index of processing queues and inspects all of them
concurrently; the inspection of one queue is a `Task`, whose steps are single Redis requests or the examination of a
reply.

- `handleOfflineConsumer` without other requests in between;
- `Task.step`, one step of an inspection, and `Task.run_offline`, which relates it to `handleOfflineConsumer`.
-/

namespace RedisSmq

open RedisKeys

namespace Heartbeat

def validateOnlineTimestamp (timestamp now : ℕ) : Bool := decide (now - timestamp ≤ 10000)

/-- The reply of `getConsumerHeartbeat`. -/
def getConsumerHeartbeat (db : Db) (processNs queueName id : String) : Option ℕ :=
  db.heartbeats getGlobalKeys.keyIndexHeartbeats (getInstanceKeys processNs queueName id).keyHeartbeat

/-- What `isAlive` makes of the reply. -/
def isAlive (reply : Option ℕ) (now : ℕ) : Bool :=
  match reply with
  | none => false
  | some timestamp => validateOnlineTimestamp timestamp now

/-- The request of `onTick`. -/
def onTick (keyHeartbeat : RedisKey) (timestamp : ℕ) : Cmd :=
  .hsetHeartbeat getGlobalKeys.keyIndexHeartbeats keyHeartbeat timestamp

/-- The request of `expireHeartbeat`. -/
def expireHeartbeat (keyHeartbeat : RedisKey) : Cmd :=
  .hdelHeartbeat getGlobalKeys.keyIndexHeartbeats keyHeartbeat

/-- A consumer is not alive when its heartbeat is absent or more than 10 seconds old. -/
theorem isAlive_eq_false {reply : Option ℕ} {now : ℕ} :
    isAlive reply now = false ↔ ∀ timestamp, reply = some timestamp → timestamp + 10000 < now := by
  cases reply with
  | none => simp [isAlive]
  | some timestamp =>
    simp only [isAlive, validateOnlineTimestamp, decide_eq_false_iff_not, Option.some.injEq, forall_eq']
    omega

end Heartbeat

/-- A GC worker: the namespace of its process, and the consumer that started it. -/
structure GCWorker where
  ns : String
  consumerId : String

namespace GCWorker

variable (lt : Text → Text → Bool) (w : GCWorker)

/-- What the reply of `LRANGE processingQueue 0 0` lets the worker do. -/
def retryCmd (queueName : String) (processingQueue : RedisKey) (msg : Message) (now : ℕ) : Cmd :=
  Broker.retry w.ns queueName processingQueue (Message.createFromMessage msg false) .recovery now

/-- `destroyProcessingQueue`. -/
def destroyProcessingQueue (queueName : String) (processingQueue : RedisKey) : List Cmd :=
  QueueManager.deleteProcessingQueue w.ns queueName processingQueue

/-- The database before `handleOfflineConsumer` destroys the processing queue. -/
def collect (queueName : String) (processingQueue : RedisKey) (now : ℕ) (db : Db) : Db :=
  match (db.lists processingQueue).head? with
  | some msg => db.exec lt (w.retryCmd queueName processingQueue msg now)
  | none => db

/-- `handleOfflineConsumer`. -/
def handleOfflineConsumer (queueName : String) (processingQueue : RedisKey) (now : ℕ) (db : Db) : Db :=
  (w.collect lt queueName processingQueue now db).execAll lt (w.destroyProcessingQueue queueName processingQueue)

/-- The inspection of one processing queue. -/
inductive Task
  | inspect
  | heartbeat (reply : Option ℕ)
  | offline
  | retry (msg : Message)
  | destroy
  | done
deriving DecidableEq

/-- A step of an inspection at the clock value `now`; without a consumer identifier the worker panics. -/
def Task.step (processingQueue : RedisKey) (now : ℕ) (db : Db) (t : Task) : Option (Db × Task) :=
  match extractData processingQueue with
  | some ⟨_, _, queueName, some consumerId, _⟩ =>
    if consumerId.isEmpty then none
    else match t with
    | .inspect =>
      if w.consumerId ≠ consumerId then
        some (db, .heartbeat (Heartbeat.getConsumerHeartbeat db w.ns queueName consumerId))
      else some (db, .done)
    | .heartbeat reply => some (db, if Heartbeat.isAlive reply now then .done else .offline)
    | .offline =>
      match (db.lists processingQueue).head? with
      | some msg => some (db, .retry msg)
      | none => some (db, .destroy)
    | .retry msg => some (db.exec lt (w.retryCmd queueName processingQueue msg now), .destroy)
    | .destroy => some (db.execAll lt (w.destroyProcessingQueue queueName processingQueue), .done)
    | .done => none
  | _ => none

/-- The steps of an inspection with nothing in between, at one clock value. -/
def Task.run (processingQueue : RedisKey) (now : ℕ) : ℕ → Db × Task → Option (Db × Task)
  | 0, c => some c
  | n + 1, c => (c.2.step lt w processingQueue now c.1).bind (Task.run processingQueue now n)

/-- From the verdict on, an inspection without other requests in between is `handleOfflineConsumer`. -/
theorem Task.run_offline (ns queueName : String) {id : String} (hid : id.isEmpty = false) (now : ℕ) (db : Db) :
    ∃ n, Task.run lt w (getInstanceKeys ns queueName id).keyQueueProcessing now n (db, .offline) =
      some (w.handleOfflineConsumer lt queueName (getInstanceKeys ns queueName id).keyQueueProcessing now db, .done) := by
  unfold handleOfflineConsumer collect
  cases h : (db.lists (getInstanceKeys ns queueName id).keyQueueProcessing).head? with
  | none => exact ⟨2, by simp [Task.run, Task.step, extractData_keyQueueProcessing, h, hid]⟩
  | some msg => exact ⟨3, by simp [Task.run, Task.step, extractData_keyQueueProcessing, h, hid]⟩

/-! ## What a step of an inspection can do -/

/-- The worker is handling the consumer as offline, or is about to. -/
def Task.condemned : Task → Bool
  | .heartbeat none | .offline | .retry _ | .destroy => true
  | _ => false

variable {lt w} {processingQueue k : RedisKey} {now : ℕ} {db db' : Db} {t t' : Task}

/-- A step only reads, or makes one of two transactions on a queue that is handled as offline. -/
theorem Task.step_cases (h : t.step lt w processingQueue now db = some (db', t')) :
    ∃ data id, extractData processingQueue = some data ∧ data.consumerId = some id ∧
      ((t = .inspect ∧ db' = db ∧ t' = if w.consumerId ≠ id then
          .heartbeat (Heartbeat.getConsumerHeartbeat db w.ns data.queueName id) else .done) ∨
        (∃ reply, t = .heartbeat reply ∧ db' = db ∧ t' = if Heartbeat.isAlive reply now then .done else .offline) ∨
        (t = .offline ∧ db' = db) ∨
        (∃ msg, t = .retry msg ∧ db' = db.exec lt (w.retryCmd data.queueName processingQueue msg now)) ∨
        (t = .destroy ∧ db' = db.execAll lt (w.destroyProcessingQueue data.queueName processingQueue) ∧ t' = .done)) := by
  unfold Task.step at h
  split at h
  · rename_i ns type queueName id producerId hdata
    refine ⟨_, id, hdata, rfl, ?_⟩
    split at h
    · cases h
    cases t with
    | inspect =>
      left
      dsimp only at h
      split at h <;> rename_i hid <;> cases h
      · exact ⟨rfl, rfl, by rw [if_pos hid]⟩
      · exact ⟨rfl, rfl, by rw [if_neg hid]⟩
    | heartbeat reply => cases h; exact .inr (.inl ⟨reply, rfl, rfl, rfl⟩)
    | offline =>
      dsimp only at h
      split at h <;> cases h <;> exact .inr (.inr (.inl ⟨rfl, rfl⟩))
    | retry msg => cases h; exact .inr (.inr (.inr (.inl ⟨msg, rfl, rfl⟩)))
    | destroy => cases h; exact .inr (.inr (.inr (.inr ⟨rfl, rfl, rfl⟩)))
    | done => cases h
  · cases h

/-- The request is the one of the destination of the message that was read. -/
theorem retryCmd_eq {queueName : String} {m : Message} : w.retryCmd queueName processingQueue m now =
    (Broker.destination m .recovery now).cmd w.ns queueName processingQueue :=
  Broker.retry_eq ..

/-- It names the processing queue, and a list or a global list that is none. -/
theorem retryCmd_keys {queueName : String} {m : Message} (hk : k ∈ (w.retryCmd queueName processingQueue m now).keys) :
    k = processingQueue ∨ k.type ∈ [.keyQueueDL, .keyQueueDelay, .keyQueueRequeue] := by
  rw [retryCmd_eq] at hk
  cases hd : Broker.destination m .recovery now <;> rw [hd] at hk <;>
    rcases List.mem_pair.mp hk with rfl | rfl <;> simp

/-- An inspection that has not condemned its queue only reads. -/
theorem Task.step_reads (h : t.step lt w processingQueue now db = some (db', t')) (ht : t.condemned = false) :
    db' = db := by
  obtain ⟨_, _, _, _, ⟨_, h, _⟩ | ⟨_, _, h, _⟩ | ⟨_, h⟩ | ⟨_, rfl, _⟩ | ⟨rfl, _⟩⟩ := step_cases h
  · exact h
  · exact h
  · exact h
  · cases ht
  · cases ht

/-- Deleting a processing queue leaves the other ones alone. -/
theorem deleteProcessingQueue_other {ns queueName : String} (hk : k ≠ processingQueue)
    (hdata : (extractData processingQueue).isSome) :
    (db.execAll lt (QueueManager.deleteProcessingQueue ns queueName processingQueue)).lists k = db.lists k ∧
    (k ∈ (db.execAll lt (QueueManager.deleteProcessingQueue ns queueName processingQueue)).sets
      getGlobalKeys.keyIndexProcessingQueues ↔ k ∈ db.sets getGlobalKeys.keyIndexProcessingQueues) ∧
    ∀ i : RedisKey, i.type = .keyIndexQueueMessageProcessingQueues →
      (db.execAll lt (QueueManager.deleteProcessingQueue ns queueName processingQueue)).indexes i k =
        db.indexes i k := by
  have hset : getGlobalKeys.keyIndexProcessingQueues ≠ processingQueue := by rintro rfl; cases hdata
  have hindex : ∀ i : RedisKey, i.type = .keyIndexQueueMessageProcessingQueues → i ≠ processingQueue := by
    rintro i hi rfl
    simp [extractData, hi] at hdata
  refine ⟨?_, ?_, fun i hi => ?_⟩
  · simp [QueueManager.deleteProcessingQueue, Db.exec, Function.update_of_ne hk]
  · simp only [QueueManager.deleteProcessingQueue, Db.execAll_cons, Db.execAll_nil, Db.exec, Db.del_sets,
      Function.update_of_ne hset, Db.setIndex_sets, Db.setSet_sets, Function.update_self]
    exact List.mem_erase_of_ne hk
  · simp only [QueueManager.deleteProcessingQueue, Db.execAll_cons, Db.execAll_nil, Db.exec, Db.del_indexes,
      Function.update_of_ne (hindex i hi), Db.setIndex_indexes, Db.setSet_indexes]
    by_cases hown : i = (getKeys ns queueName none).keyIndexQueueMessageProcessingQueues
    · rw [hown, Function.update_self, Function.update_of_ne hk]
    · rw [Function.update_of_ne hown]

/-- An inspection leaves the other processing queues alone. -/
theorem Task.step_other (h : t.step lt w processingQueue now db = some (db', t')) (hk : k ≠ processingQueue)
    (htype : k.type = .keyQueueProcessing) : db'.lists k = db.lists k ∧
    (k ∈ db'.sets getGlobalKeys.keyIndexProcessingQueues ↔ k ∈ db.sets getGlobalKeys.keyIndexProcessingQueues) ∧
    ∀ i : RedisKey, i.type = .keyIndexQueueMessageProcessingQueues → db'.indexes i k = db.indexes i k := by
  obtain ⟨data, id, hdata, _, hcases⟩ := step_cases h
  obtain ⟨_, rfl, _⟩ | ⟨_, _, rfl, _⟩ | ⟨_, rfl⟩ | ⟨msg, _, rfl⟩ | ⟨_, rfl, _⟩ := hcases
  · exact ⟨rfl, .rfl, fun _ _ => rfl⟩
  · exact ⟨rfl, .rfl, fun _ _ => rfl⟩
  · exact ⟨rfl, .rfl, fun _ _ => rfl⟩
  · have hframe : ∀ k' : RedisKey, k' ≠ processingQueue → k'.type ∉ [.keyQueueDL, .keyQueueDelay, .keyQueueRequeue] →
        Db.SameAt (db.exec lt (w.retryCmd data.queueName processingQueue msg now)) db k' := by
      intro k' hne htypes
      refine Db.exec_frame (fun hmem => ?_)
      rcases retryCmd_keys hmem with h' | h'
      · exact hne h'
      · exact htypes h'
    refine ⟨(hframe k hk (by simp [htype])).lists, ?_, fun i hi => ?_⟩
    · rw [(hframe getGlobalKeys.keyIndexProcessingQueues (by rintro rfl; cases hdata) (by simp)).sets]
    · rw [(hframe i (by rintro rfl; simp [extractData, hi] at hdata) (by simp [hi])).indexes]
  · exact deleteProcessingQueue_other hk (by rw [hdata]; rfl)

end GCWorker

end RedisSmq
