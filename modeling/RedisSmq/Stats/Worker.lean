import RedisSmq.Stats.QueueSize

/-!
# A run of the worker

`StatsWorker.run`, from `reset` to `publish`, with requests that succeed: the rates are read from their hash and summed
up, the heartbeats are merged into the consumers, the sizes of the queues are recorded, and consumers of which only one
of the two is known are deleted.

The hashes are lists of keys and items. An item of the rates, `rate|timestamp`, is given by its two numbers, and an item
of the heartbeats by its resources, the field `usage` of what `JSON.parse` returns.
-/

namespace RedisSmq.Stats

open KeyText

variable {ρ : Type}

/-- The item `rate|timestamp`. -/
structure RateItem where
  rate : ℕ
  timestamp : ℕ

/-! ## Rates -/

def handleProducerRate (data : AggregatedStats ρ) (ns queueName producerId : String) (rate : ℕ) : AggregatedStats ρ :=
  let queues := addQueueIfNotExists data.queues ns queueName
  let queues := addProducerIfNotExists queues ns queueName producerId
  { data with
    rates := { data.rates with input := data.rates.input + rate }
    queues := assignProducer queues ns queueName producerId fun producer => { producer with input := rate } }

/-- `consumer.rates = { .. consumer.rates?.. ?? 0 }`. -/
def Consumer.initRates (consumer : Consumer ρ) : Consumer ρ :=
  { consumer with rates := some (consumer.rates.getD ⟨0, 0, 0⟩) }

/-- An assignment to a field of `consumer.rates`. -/
def Consumer.assignRates (change : ConsumerRates → ConsumerRates) (consumer : Consumer ρ) : Consumer ρ :=
  { consumer with rates := consumer.rates.map change }

def handleConsumerRate (data : AggregatedStats ρ) (ns queueName : String) (type : ℕ) (consumerId : String)
    (rate : ℕ) : AggregatedStats ρ :=
  let queues := addQueueIfNotExists data.queues ns queueName
  let queues := addConsumerIfNotExists queues ns queueName consumerId
  let queues := assignConsumer queues ns queueName consumerId Consumer.initRates
  let assignRates := assignConsumer queues ns queueName consumerId ∘ Consumer.assignRates
  if type = ERedisKey.keyRateConsumerProcessing.number then
    { data with
      rates := { data.rates with processing := data.rates.processing + rate }
      queues := assignRates fun rates => { rates with processing := rate } }
  else if type = ERedisKey.keyRateConsumerAcknowledged.number then
    { data with
      rates := { data.rates with acknowledged := data.rates.acknowledged + rate }
      queues := assignRates fun rates => { rates with acknowledged := rate } }
  else if type = ERedisKey.keyRateConsumerUnacknowledged.number then
    { data with
      rates := { data.rates with unacknowledged := data.rates.unacknowledged + rate }
      queues := assignRates fun rates => { rates with unacknowledged := rate } }
  else { data with queues := queues }

def hasExpired (now timestamp : ℕ) : Bool := now - timestamp > 1000

/-- An identifier that is there and not empty. -/
def truthy (id : Option String) : Option String := id.filter (· ≠ "")

def handleExtracted (data : AggregatedStats ρ) (extracted : KeyData) (rate : ℕ) : AggregatedStats ρ :=
  let ns := propertyName extracted.ns
  let queueName := propertyName extracted.queueName
  let data := (truthy extracted.producerId).elim data fun id => handleProducerRate data ns queueName id rate
  (truthy extracted.consumerId).elim data fun id => handleConsumerRate data ns queueName extracted.type id rate

/-- The data, and `expiredKeys`. -/
def handleItem (now : String → ℕ) (s : AggregatedStats ρ × List String) (key : String) (item : RateItem) :
    AggregatedStats ρ × List String :=
  if hasExpired (now key) item.timestamp then (s.1, s.2 ++ [key])
  else ((extractData key).elim s.1 fun extracted => handleExtracted s.1 extracted item.rate, s.2)

/-- `now`: what the clock shows when a key is looked at. The keys that have expired are deleted from the hash. -/
def getRates (now : String → ℕ) (result : List (String × RateItem)) (data : AggregatedStats ρ) :
    AggregatedStats ρ × List String :=
  result.foldl (fun s p => handleItem now s p.1 p.2) (data, [])

/-! ## Heartbeats -/

/-- An item of `TGetHeartbeatReply`, without the key it is found under. -/
structure Heartbeat (ρ : Type) where
  ns : String
  queueName : String
  resources : ρ

def addHeartbeat (result : Objects String (Heartbeat ρ)) (key : String) (resources : ρ) :
    Except String (Objects String (Heartbeat ρ)) :=
  match (extractData key).bind fun extracted => (truthy extracted.consumerId).map fun id => (extracted, id) with
  | none => .error "Invalid extracted consumer data"
  | some (extracted, consumerId) =>
    .ok (result.insert consumerId ⟨propertyName extracted.ns, propertyName extracted.queueName, resources⟩)

/-- `Heartbeat.getHeartbeats`. -/
def getHeartbeats (data : List (String × ρ)) : Except String (Objects String (Heartbeat ρ)) :=
  data.foldlM (fun result p => addHeartbeat result p.1 p.2) ∅

def handleHeartbeat (queues : Queues ρ) (consumerId : String) (heartbeat : Heartbeat ρ) : Queues ρ :=
  let queues := addQueueIfNotExists queues heartbeat.ns heartbeat.queueName
  let queues := addConsumerIfNotExists queues heartbeat.ns heartbeat.queueName consumerId
  assignConsumer queues heartbeat.ns heartbeat.queueName consumerId fun consumer =>
    { consumer with resources := some heartbeat.resources }

def getConsumersHeartbeats (reply : Objects String (Heartbeat ρ)) (queues : Queues ρ) : Queues ρ :=
  reply.entries.foldl (fun queues s => handleHeartbeat queues s.1 s.2) queues

/-! ## The clean-up -/

/-- `handleConsumer`: the consumer is looked for under its own fields. -/
def sanitizeConsumer (queues : Queues ρ) (consumer : Consumer ρ) : Queues ρ :=
  if consumer.rates.isNone ∨ consumer.resources.isNone then
    assignQueue queues consumer.ns consumer.queueName fun queue =>
      { queue with consumers := queue.consumers.erase consumer.id }
  else queues

/-- `handleQueue`: `async.each` takes the names at the start and looks each up in its turn. -/
def sanitizeQueue (ns : String) (queues : Queues ρ) (queueName : String) : Queues ρ :=
  let ids := (queue? queues ns queueName).elim [] fun queue => queue.consumers.keys
  ids.foldl (fun queues id => (consumer? queues ns queueName id).elim queues (sanitizeConsumer queues)) queues

/-- `handleQueues`. -/
def sanitizeQueues (queues : Queues ρ) (ns : String) : Queues ρ :=
  ((queues.lookup ns).getD ∅).keys.foldl (sanitizeQueue ns) queues

def sanitizeData (queues : Queues ρ) : Queues ρ := queues.keys.foldl sanitizeQueues queues

/-! ## The run -/

def reset : AggregatedStats ρ := ⟨0, ⟨0, 0, 0, 0⟩, ∅⟩

/-- What requests reply in a run. -/
structure Replies (ρ : Type) where
  scheduledMessagesCount : ℕ
  rates : List (String × RateItem)
  heartbeats : List (String × ρ)
  messageQueues : List MessageQueue
  store : Store

/-- The data that are published. -/
def run (processNs : String) (now : String → ℕ) (replies : Replies ρ) : Except String (AggregatedStats ρ) := do
  let data := { reset with scheduledMessages := replies.scheduledMessagesCount }
  let data := (getRates now replies.rates data).1
  let heartbeats ← getHeartbeats replies.heartbeats
  let queues := getConsumersHeartbeats heartbeats data.queues
  let queues ← (getQueueSize processNs replies.store replies.messageQueues queues).elim
    (.error "Cannot read properties of undefined (reading 'split')") .ok
  return { data with queues := sanitizeData queues }

end RedisSmq.Stats
