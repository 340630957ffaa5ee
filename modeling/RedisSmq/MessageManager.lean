import RedisSmq.Db
import RedisSmq.Scheduler.Timestamp

/-!
# The handlers of the message manager

Every handler is given by the Redis requests it makes: the commands of one round trip (`List Cmd`), or an exception
where the source throws. `processNs` is the namespace of the process; one synchronous stretch of a handler reads one
clock value `now`.
-/

namespace RedisSmq

open RedisKeys

/-- `getKeys` for a queue with an explicit namespace. -/
abbrev TMessageQueue.keys (q : TMessageQueue) : QueueKeys := getKeys q.ns q.name (some q.ns)

/-- The keys of one type tell queues apart. -/
theorem TMessageQueue.eq_of_key {q q' : TMessageQueue} {type : ERedisKey}
    (h : RedisKey.mk q.ns type [q.name] = ⟨q'.ns, type, [q'.name]⟩) : q = q' := by
  cases q
  cases q'
  cases h
  rfl

namespace EnqueueHandler

/-- `enqueueMessageWithPriorityMulti`: the message with its priority set, and the commands. -/
def enqueueMessageWithPriorityMulti (q : TMessageQueue) (m : Message) : Message × List Cmd :=
  let (priority, m) := m.getSetPriority
  (m, [.hset q.keys.keyPendingMessagesWithPriority (.id m.uuid) m,
    .zadd q.keys.keyQueuePriority priority.value (.id m.uuid)])

/-- `enqueueMessageWithPriority`: the script `zpushhset`. -/
def enqueueMessageWithPriority (q : TMessageQueue) (m : Message) : List Cmd :=
  let (priority, m) := m.getSetPriority
  [.zadd q.keys.keyQueuePriority priority.value (.id m.uuid),
    .hset q.keys.keyPendingMessagesWithPriority (.id m.uuid) m]

/-- `enqueue` into a transaction: the message as it was changed, and the commands. -/
def enqueueMulti (m : Message) (withPriority : Bool) (now : ℕ) : Except String (Message × List Cmd) :=
  match m.queue with
  | none => .error "Can not enqueue a message without a queue name"
  | some q =>
    let m := m.setPublishedAt now
    if withPriority then .ok (enqueueMessageWithPriorityMulti q m) else .ok (m, [.rpush q.keys.keyQueue m])

/-- `enqueue` with a Redis client: one request. -/
def enqueue (m : Message) (withPriority : Bool) (now : ℕ) : Except String (List Cmd) :=
  match m.queue with
  | none => .error "Can not enqueue a message without a queue name"
  | some q =>
    let m := m.setPublishedAt now
    if withPriority then .ok (enqueueMessageWithPriority q m) else .ok [.rpush q.keys.keyQueue m]

/-- What `enqueueMulti` does to the message: its publication time and, with priority, its priority are set. -/
def enqueued (m : Message) (withPriority : Bool) (now : ℕ) : Message :=
  if withPriority then (m.setPublishedAt now).getSetPriority.2 else m.setPublishedAt now

/-- The commands of `enqueueMulti` for a message of the queue `q`. -/
def enqueueCmds (q : TMessageQueue) (m : Message) (withPriority : Bool) (now : ℕ) : List Cmd :=
  if withPriority then
    [.hset q.keys.keyPendingMessagesWithPriority (.id m.uuid) (enqueued m true now),
      .zadd q.keys.keyQueuePriority (m.priority.getD .normal).value (.id m.uuid)]
  else [.rpush q.keys.keyQueue (enqueued m false now)]

theorem enqueueMulti_ok {m : Message} {q : TMessageQueue} (hq : m.queue = some q) (withPriority : Bool) (now : ℕ) :
    enqueueMulti m withPriority now = .ok (enqueued m withPriority now, enqueueCmds q m withPriority now) := by
  cases withPriority <;>
    simp [enqueueMulti, enqueueMessageWithPriorityMulti, enqueued, enqueueCmds, hq, Message.getSetPriority,
      Message.setPublishedAt]

/-- The transaction of `deletePendingMessageWithPriority`. -/
def deletePendingMessageWithPriority (q : TMessageQueue) (messageId : String) : List Cmd :=
  [.hdel q.keys.keyPendingMessagesWithPriority (.id messageId), .zrem q.keys.keyQueuePriority (.id messageId)]

end EnqueueHandler

namespace ScheduleHandler

variable (cron : CronParser)

/-- `scheduleMessage`. -/
def scheduleMessage (m : Message) (timestamp now : ℕ) : List Cmd :=
  let m := m.setScheduledAt now
  [.zadd getGlobalKeys.keyQueueScheduled timestamp (.id m.uuid),
    .hset getGlobalKeys.keyScheduledMessages (.id m.uuid) m]

/-- `schedule`: the commands, and whether the message is scheduled at all. -/
def schedule (m : Message) (now : ℕ) : List Cmd × Bool :=
  let (timestamp, m) := getNextScheduledTimestamp cron now m
  if 0 < timestamp then (scheduleMessage m timestamp now, true) else ([], false)

/-- The transaction that `enqueueScheduledMessages` makes for a message it fetched. -/
def enqueueScheduledMessage (m : Message) (withPriority : Bool) (now : ℕ) : Except String (List Cmd) := do
  let (m, cmds) ← EnqueueHandler.enqueueMulti m withPriority now
  let (timestamp, m) := getNextScheduledTimestamp cron now m
  if timestamp ≠ 0 then
    return cmds ++ [.zadd getGlobalKeys.keyQueueScheduled timestamp (.id m.uuid),
      .hset getGlobalKeys.keyScheduledMessages (.id m.uuid) m]
  else
    return cmds ++ [.zrem getGlobalKeys.keyQueueScheduled (.id m.uuid),
      .hdel getGlobalKeys.keyScheduledMessages (.id m.uuid)]

/-- What `enqueueScheduledMessage` does to the scheduled store, given the next timestamp and the updated message. -/
def storeCmds (r : ℕ × Message) : List Cmd :=
  if r.1 ≠ 0 then
    [.zadd getGlobalKeys.keyQueueScheduled r.1 (.id r.2.uuid),
      .hset getGlobalKeys.keyScheduledMessages (.id r.2.uuid) r.2]
  else
    [.zrem getGlobalKeys.keyQueueScheduled (.id r.2.uuid), .hdel getGlobalKeys.keyScheduledMessages (.id r.2.uuid)]

theorem enqueueScheduledMessage_ok {m : Message} {q : TMessageQueue} (hq : m.queue = some q) (withPriority : Bool)
    (now : ℕ) : enqueueScheduledMessage cron m withPriority now =
      .ok (EnqueueHandler.enqueueCmds q m withPriority now ++
        storeCmds (getNextScheduledTimestamp cron now (EnqueueHandler.enqueued m withPriority now))) := by
  unfold enqueueScheduledMessage
  rw [EnqueueHandler.enqueueMulti_ok hq]
  by_cases h : (getNextScheduledTimestamp cron now (EnqueueHandler.enqueued m withPriority now)).1 = 0
  · simp [storeCmds, h, bind, Except.bind, pure, Except.pure]
  · simp [storeCmds, h, bind, Except.bind, pure, Except.pure]

/-- The transaction of `deleteScheduled`. -/
def deleteScheduled (messageId : String) : List Cmd :=
  [.hdel getGlobalKeys.keyScheduledMessages (.id messageId), .zrem getGlobalKeys.keyQueueScheduled (.id messageId)]

end ScheduleHandler

namespace DelayHandler

variable (cron : CronParser)

/-- What `schedule` adds to its transaction for a message of the delay list. -/
def scheduleTask (now : ℕ) (i : Message) : Except String (List Cmd) := do
  let m := i.incrAttempts
  let m ← m.setScheduledDelay m.retryDelay.ms
  return .lrem getGlobalKeys.keyQueueDelay i :: (ScheduleHandler.schedule cron m now).1

end DelayHandler

namespace RequeueWorker

/-- What a tick adds to its transaction for a message of the re-queue list. -/
def requeueTask (withPriority : Bool) (i : Message) : Except String (List Cmd) :=
  match i.queue with
  | none => .error "Got a message without a queue"
  | some q =>
    let m := i.incrAttempts
    if withPriority then
      let (priority, m) := m.getSetPriority
      .ok [.lrem getGlobalKeys.keyQueueRequeue i, .zadd q.keys.keyQueuePriority priority.value (.json m)]
    else .ok [.lrem getGlobalKeys.keyQueueRequeue i, .lpush q.keys.keyQueue m]

end RequeueWorker

namespace RequeueHandler

/-- The transaction of `requeueListMessage`, once it has read `msg` from the list `source`. -/
def requeueListMessage (source : RedisKey) (ns queueName : String) (withPriority : Bool) (priority : Option ℕ)
    (msg : Message) (now : ℕ) : Except String (List Cmd) := do
  let m := (Message.createFromMessage msg true).setQueue ns queueName
  let m ← match withPriority, priority with
    | true, some p => m.setPriority p
    | _, _ => pure m
  let (_, cmds) ← EnqueueHandler.enqueueMulti m withPriority now
  return .lrem source msg :: cmds

end RequeueHandler

namespace ProcessingHandler

variable (processNs queueName : String) (keyQueueProcessing : RedisKey)

def deadLetterMessage : Cmd := .lpoprpush keyQueueProcessing (getKeys processNs queueName none).keyQueueDL

def acknowledge : Cmd :=
  .lpoprpush keyQueueProcessing (getKeys processNs queueName none).keyQueueAcknowledgedMessages

def delayBeforeRequeue : Cmd := .rpoplpush keyQueueProcessing getGlobalKeys.keyQueueDelay

def requeue : Cmd := .rpoplpush keyQueueProcessing getGlobalKeys.keyQueueRequeue

end ProcessingHandler

/-! ## The queue manager -/

namespace QueueManager

/-- `purgePriorityQueue`. -/
def purgePriorityQueue (q : TMessageQueue) : Cmd := .del q.keys.keyQueuePriority

/-- `purgeScheduledMessagesQueue`. -/
def purgeScheduledMessagesQueue : Cmd := .del getGlobalKeys.keyQueueScheduled

/-- The transaction of `deleteProcessingQueue`. -/
def deleteProcessingQueue (processNs queueName : String) (processingQueueName : RedisKey) : List Cmd :=
  [.srem getGlobalKeys.keyIndexProcessingQueues processingQueueName,
    .hdelIndex (getKeys processNs queueName none).keyIndexQueueMessageProcessingQueues processingQueueName,
    .del processingQueueName]

/-- The transaction of `setUpProcessingQueue`, for a consumer with these keys. -/
def setUpProcessingQueue (processNs queueName consumerId : String) : List Cmd :=
  let keyQueueProcessing := (getInstanceKeys processNs queueName consumerId).keyQueueProcessing
  [.hsetIndex (getKeys processNs queueName none).keyIndexQueueMessageProcessingQueues keyQueueProcessing consumerId,
    .sadd getGlobalKeys.keyIndexProcessingQueues keyQueueProcessing]

end QueueManager

end RedisSmq
