import Mathlib.Tactic.Simps.Basic
import Mathlib.Tactic.Common

/-!
# Redis keys

`redis-keys.ts`: a key joins the prefix, a namespace, a type and at most two more segments; it is represented by these
parts. `getKeys` and `getInstanceKeys` take as `processNs` what the module variable `namespace` of the process holds.
Only the keys that a modelled function uses are listed.
-/

namespace RedisSmq

/-- `ERedisKey`. -/
inductive ERedisKey
  | keyQueue | keyQueueDL | keyQueueDelay | keyQueueRequeue | keyQueueScheduled | keyQueuePriority
  | keyQueueProcessing | keyQueueAcknowledgedMessages | keyQueueUnacknowledgedMessages | keyIndexQueues
  | keyIndexProcessingQueues | keyIndexQueueMessageProcessingQueues | keyIndexRates | keyIndexHeartbeats
  | keyLockMessageManager | keyLockQueueManager | keyRateProducerInput | keyRateConsumerProcessing
  | keyRateConsumerAcknowledged | keyRateConsumerUnacknowledged | keyLockWorkerStats | keyLockConsumerWorkersRunner
  | keyLockDeletePendingMessage | keyLockDeletePendingMessageWithPriority | keyLockDeleteAcknowledgedMessage
  | keyLockDeleteDeadLetterMessage | keyLockDeleteScheduledMessage | keyHeartbeat | keyScheduledMessages
  | keyPendingMessagesWithPriority
deriving DecidableEq

/-- The key `redis-smq|ns|type|segments`. -/
@[ext] structure RedisKey where
  ns : String
  type : ERedisKey
  segments : List String
deriving DecidableEq

namespace RedisKeys

def globalNamespace : String := "global"

/-- The initial value of the module variable `namespace`. -/
def defaultNamespace : String := "default"

structure GlobalKeys where
  keyIndexQueue : RedisKey
  keyIndexProcessingQueues : RedisKey
  keyIndexHeartbeats : RedisKey
  keyQueueDelay : RedisKey
  keyQueueRequeue : RedisKey
  keyQueueScheduled : RedisKey
  keyScheduledMessages : RedisKey

@[simps] def getGlobalKeys : GlobalKeys where
  keyIndexQueue := ⟨globalNamespace, .keyIndexQueues, []⟩
  keyIndexProcessingQueues := ⟨globalNamespace, .keyIndexProcessingQueues, []⟩
  keyIndexHeartbeats := ⟨globalNamespace, .keyIndexHeartbeats, []⟩
  keyQueueDelay := ⟨globalNamespace, .keyQueueDelay, []⟩
  keyQueueRequeue := ⟨globalNamespace, .keyQueueRequeue, []⟩
  keyQueueScheduled := ⟨globalNamespace, .keyQueueScheduled, []⟩
  keyScheduledMessages := ⟨globalNamespace, .keyScheduledMessages, []⟩

/-- The keys of a queue in a namespace. -/
structure QueueKeys where
  keyQueue : RedisKey
  keyQueueDL : RedisKey
  keyIndexQueueMessageProcessingQueues : RedisKey
  keyQueuePriority : RedisKey
  keyQueueAcknowledgedMessages : RedisKey
  keyPendingMessagesWithPriority : RedisKey

/-- `getKeys(queueName, ns)`. -/
@[simps] def getKeys (processNs queueName : String) (ns : Option String) : QueueKeys where
  keyQueue := ⟨ns.getD processNs, .keyQueue, [queueName]⟩
  keyQueueDL := ⟨ns.getD processNs, .keyQueueDL, [queueName]⟩
  keyIndexQueueMessageProcessingQueues := ⟨ns.getD processNs, .keyIndexQueueMessageProcessingQueues, [queueName]⟩
  keyQueuePriority := ⟨ns.getD processNs, .keyQueuePriority, [queueName]⟩
  keyQueueAcknowledgedMessages := ⟨ns.getD processNs, .keyQueueAcknowledgedMessages, [queueName]⟩
  keyPendingMessagesWithPriority := ⟨ns.getD processNs, .keyPendingMessagesWithPriority, [queueName]⟩

/-- The keys of a producer or consumer. -/
structure InstanceKeys where
  keyQueueProcessing : RedisKey
  keyHeartbeat : RedisKey

@[simps] def getInstanceKeys (processNs queueName instanceId : String) : InstanceKeys where
  keyQueueProcessing := ⟨processNs, .keyQueueProcessing, [queueName, instanceId]⟩
  keyHeartbeat := ⟨processNs, .keyHeartbeat, [queueName, instanceId]⟩

/-- What `toLowerCase` and the filter `[a-z0-9_-]` leave of a character; the last two are the only ones outside of ASCII
whose lower case has a letter of ASCII. -/
def filterRedisChar (c : Char) : List Char :=
  if c.isLower || c.isDigit || c == '_' || c == '-' then [c]
  else if c.isUpper then [c.toLower]
  else if c = '\u212a' then ['k']
  else if c = '\u0130' then ['i']
  else []

/-- The length of a text, in units of UTF-16. -/
def utf16Length : List Char → ℕ
  | [] => 0
  | c :: cs => (if c.val < 0x10000 then 1 else 2) + utf16Length cs

/-- `validateRedisKey`. -/
def validateRedisKey (key : String) : Except String String :=
  if key.isEmpty then .error "Invalid Redis key. Expected be a non empty string."
  else
    let filtered := key.toList.flatMap filterRedisChar
    if filtered.length ≠ utf16Length key.toList then
      .error "Invalid Redis key. Only letters (a-z), numbers (0-9) and (-_) are allowed."
    else .ok (String.ofList filtered)

/-- `setNamespace`: the new value of the module variable. -/
def setNamespace (ns : String) : Except String String := do
  let ns ← validateRedisKey ns
  if ns = globalNamespace then .error ("Namespace [" ++ ns ++ "] is reserved. Use another one.")
  else return ns

structure ExtractedData where
  ns : String
  type : ERedisKey
  queueName : String
  consumerId : Option String
  producerId : Option String

/-- `extractData`; a missing queue name counts as the empty text, as `joinSegments` has it. -/
def extractData (key : RedisKey) : Option ExtractedData :=
  let queueName := key.segments.getD 0 ""
  match key.type with
  | .keyQueue | .keyQueuePriority | .keyQueueAcknowledgedMessages | .keyQueueDL =>
    some ⟨key.ns, key.type, queueName, none, none⟩
  | .keyQueueProcessing | .keyRateConsumerProcessing | .keyRateConsumerAcknowledged
  | .keyRateConsumerUnacknowledged | .keyHeartbeat =>
    some ⟨key.ns, key.type, queueName, key.segments[1]?, none⟩
  | .keyRateProducerInput => some ⟨key.ns, key.type, queueName, none, key.segments[1]?⟩
  | _ => none

/-- The processing key of a consumer decodes to its namespace, queue and identifier. -/
theorem extractData_keyQueueProcessing (ns queueName id : String) :
    extractData (getInstanceKeys ns queueName id).keyQueueProcessing =
      some ⟨ns, .keyQueueProcessing, queueName, some id, none⟩ := rfl

end RedisKeys

end RedisSmq
