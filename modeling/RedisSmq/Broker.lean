import RedisSmq.Effects
import RedisSmq.MessageManager

/-!
# The broker and the producer

`Broker.retry` chooses where a message that was not acknowledged goes (`retry_eq`); `Producer.produceMessage` schedules
or enqueues a message.
-/

namespace RedisSmq

inductive EMessageDeadLetterCause
  | ttlExpired | retryThresholdExceeded | periodicMessage
deriving DecidableEq

inductive EMessageUnacknowledgedCause
  | timeout | caughtError | unacknowledged | recovery | ttlExpired
deriving DecidableEq

namespace Broker

open RedisKeys

variable (processNs queueName : String) (processingQueue : RedisKey)

/-- `retry`: the request that moves the message out of the processing list. -/
def retry (m : Message) (unacknowledgedCause : EMessageUnacknowledgedCause) (now : ℕ) : Cmd :=
  if unacknowledgedCause = .ttlExpired ∨ m.hasExpired now then
    ProcessingHandler.deadLetterMessage processNs queueName processingQueue
  else if m.isPeriodic then
    ProcessingHandler.deadLetterMessage processNs queueName processingQueue
  else if ¬m.hasRetryThresholdExceeded then
    if m.retryDelay.ms ≠ 0 then ProcessingHandler.delayBeforeRequeue processingQueue
    else ProcessingHandler.requeue processingQueue
  else ProcessingHandler.deadLetterMessage processNs queueName processingQueue

/-- Where a message goes that was not acknowledged. -/
inductive Destination
  | deadLetter (cause : EMessageDeadLetterCause)
  | delay
  | requeue
deriving DecidableEq

/-- The destination that the fields of a message and the cause determine. -/
def destination (m : Message) (unacknowledgedCause : EMessageUnacknowledgedCause) (now : ℕ) : Destination :=
  if unacknowledgedCause = .ttlExpired ∨ m.hasExpired now then .deadLetter .ttlExpired
  else if m.isPeriodic then .deadLetter .periodicMessage
  else if m.hasRetryThresholdExceeded then .deadLetter .retryThresholdExceeded
  else if m.retryDelay.ms ≠ 0 then .delay
  else .requeue

/-- A message is delayed for its retry delay, and only when neither its TTL nor CRON and repeat stand against it. -/
theorem destination_delay {m : Message} {cause : EMessageUnacknowledgedCause} {now : ℕ}
    (h : destination m cause now = .delay) : m.isPeriodic = false ∧ m.retryDelay.ms ≠ 0 := by
  unfold destination at h
  split at h
  · cases h
  · split at h
    · cases h
    · rename_i hp
      split at h
      · cases h
      · split at h
        · rename_i hd
          exact ⟨by simpa using hp, hd⟩
        · cases h

/-- The list a destination stands for. -/
def Destination.key : Destination → RedisKey
  | .deadLetter _ => (getKeys processNs queueName none).keyQueueDL
  | .delay => getGlobalKeys.keyQueueDelay
  | .requeue => getGlobalKeys.keyQueueRequeue

/-- The request that moves a message to a destination. -/
def Destination.cmd : Destination → Cmd
  | .deadLetter _ => ProcessingHandler.deadLetterMessage processNs queueName processingQueue
  | .delay => ProcessingHandler.delayBeforeRequeue processingQueue
  | .requeue => ProcessingHandler.requeue processingQueue

/-- `retry` moves the message to its destination. -/
theorem retry_eq (m : Message) (cause : EMessageUnacknowledgedCause) (now : ℕ) :
    retry processNs queueName processingQueue m cause now =
      (destination m cause now).cmd processNs queueName processingQueue := by
  unfold retry destination
  split
  · rfl
  · split
    · rfl
    · cases m.hasRetryThresholdExceeded
      · by_cases hd : m.retryDelay.ms = 0 <;> simp [hd, Destination.cmd]
      · rfl

/-- Settlements are moves out of the processing list. -/
theorem isMove_acknowledge : ∃ destination,
    IsMove processingQueue destination (ProcessingHandler.acknowledge processNs queueName processingQueue) ∧
      destination.type ≠ .keyQueueProcessing :=
  ⟨_, .inr rfl, by simp⟩

theorem isMove_retry {m : Message} {cause : EMessageUnacknowledgedCause} {now : ℕ} : ∃ destination,
    IsMove processingQueue destination (retry processNs queueName processingQueue m cause now) ∧
      destination.type ≠ .keyQueueProcessing := by
  rw [retry_eq]
  cases destination m cause now with
  | deadLetter _ => exact ⟨_, .inr rfl, by simp⟩
  | delay => exact ⟨_, .inl rfl, by simp⟩
  | requeue => exact ⟨_, .inl rfl, by simp⟩

end Broker

namespace Producer

variable (cron : CronParser)

/-- `produceMessage` of a running producer: the request, and what the callback is told. -/
def produceMessage (processNs queueName : String) (withPriority : Bool) (m : Message) (now : ℕ) :
    Except String (List Cmd × Bool) := do
  let m := m.reset.setQueue processNs queueName
  if m.isSchedulable then return ScheduleHandler.schedule cron m now
  else
    let cmds ← EnqueueHandler.enqueue m withPriority now
    return (cmds, true)

end Producer

end RedisSmq
