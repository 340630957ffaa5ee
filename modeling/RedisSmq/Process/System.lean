import RedisSmq.Lib.Machine
import RedisSmq.Broker

/-!
# Producers and consumers of one process

All producers and consumers of a process share the module variable `namespace`. What depends on it is computed at
different times:

- the constructor sets it, when the configuration has a namespace, and computes the processing queue of the instance;
- `produceMessage` reads it for every message, and every settlement reads it for the queue that it moves a message to;
- the keys that a consumer takes messages from are computed when it asks for its first message after it was started.

The state holds the variable, the instances, and the database.
-/

namespace RedisSmq.Process

open RedisKeys

structure Config where
  ns : Option String
  priorityQueue : Bool

inductive Kind
  | producer | consumer
deriving DecidableEq

/-- A producer or consumer. `ns`: the namespace it was configured with; `dequeueKeys`: the keys that its `DequeueHandler`
holds, once there is one; `holding`: the message that it processes. -/
structure Instance where
  kind : Kind
  id : String
  ns : String
  queueName : String
  priorityQueue : Bool
  keyQueueProcessing : RedisKey
  dequeueKeys : Option QueueKeys
  holding : Option Message

structure State where
  ns : String
  instances : List Instance
  db : Db

def init : State where
  ns := defaultNamespace
  instances := []
  db := .empty

/-- The call to the broker that settles a message. -/
inductive Settlement
  | acknowledge
  | unacknowledge (cause : EMessageUnacknowledgedCause)

inductive Action
  | construct (kind : Kind) (queueName : String) (config : Config) (id : String)
  | run (index : ℕ)
  | produce (index : ℕ) (m : Message) (now : ℕ)
  | next (index : ℕ)
  | dequeue (index : ℕ)
  | settle (index : ℕ) (settlement : Settlement) (now : ℕ)

/-- The module variable after `if (config.namespace) redisKeys.setNamespace(config.namespace)`. -/
def configure (ns : String) (config : Config) : Except String String :=
  match config.ns with
  | none => .ok ns
  | some n => if n.isEmpty then .ok ns else setNamespace n

/-- The namespace that a configuration stands for; `default` when it has none. -/
def Config.own (config : Config) : String := (configure defaultNamespace config).toOption.getD defaultNamespace

namespace Instance

variable (lt : Text → Text → Bool) (i : Instance) (processNs : String)

/-- The keys of the queue of an instance, in the namespace that the module variable holds. -/
def keys : QueueKeys := getKeys processNs i.queueName none

/-- The request of a settlement. -/
def settlementCmd (m : Message) (now : ℕ) : Settlement → Cmd
  | .acknowledge => ProcessingHandler.acknowledge processNs i.queueName i.keyQueueProcessing
  | .unacknowledge cause => Broker.retry processNs i.queueName i.keyQueueProcessing m cause now

/-- What a `DequeueHandler` with these keys takes. -/
def pop (keys : QueueKeys) (db : Db) : Option (Db × Message) :=
  if i.priorityQueue then
    match db.zpophgetrpush keys.keyQueuePriority keys.keyPendingMessagesWithPriority i.keyQueueProcessing with
    | (db, .message m) => some (db, m)
    | _ => none
  else
    match (db.lists keys.keyQueue).getLast? with
    | none => none
    | some m => some (db.exec lt (.rpoplpush keys.keyQueue i.keyQueueProcessing), m)

end Instance

section Step

variable (cron : CronParser) (lt : Text → Text → Bool)

/-- A constructor that throws leaves no instance, but a valid namespace is set before the queue name is looked at. -/
def construct (s : State) (kind : Kind) (queueName : String) (config : Config) (id : String) : State :=
  match configure s.ns config with
  | .error _ => s
  | .ok ns =>
    match validateRedisKey queueName with
    | .error _ => { s with ns := ns }
    | .ok queueName =>
      { s with
        ns := ns
        instances := s.instances ++ [⟨kind, id, config.own, queueName, config.priorityQueue,
          (getInstanceKeys ns queueName id).keyQueueProcessing, none, none⟩] }

def step (s : State) : Action → Option State
  | .construct kind queueName config id => some (construct s kind queueName config id)
  | .run index => do
    let i ← s.instances[index]?
    return { s with instances := s.instances.set index { i with dequeueKeys := none, holding := none } }
  | .produce index m now => do
    let i ← s.instances[index]?
    match i.kind, Producer.produceMessage cron s.ns i.queueName i.priorityQueue m now with
    | .producer, .ok (cmds, _) => some { s with db := s.db.execAll lt cmds }
    | _, _ => none
  | .next index => do
    let i ← s.instances[index]?
    if i.kind = .consumer then
      some { s with
        instances := s.instances.set index { i with dequeueKeys := some (i.dequeueKeys.getD (i.keys s.ns)) } }
    else none
  | .dequeue index => do
    let i ← s.instances[index]?
    match i.dequeueKeys, i.holding with
    | some keys, none =>
      let (db, m) ← i.pop lt keys s.db
      return { s with db := db, instances := s.instances.set index { i with holding := some m } }
    | _, _ => none
  | .settle index settlement now => do
    let i ← s.instances[index]?
    let m ← i.holding
    return { s with
      db := s.db.exec lt (i.settlementCmd s.ns m now settlement)
      instances := s.instances.set index { i with holding := none } }

/-- The process as a machine. -/
def system : Transition.Machine State Action where
  init := init
  step := step cron lt

end Step

end RedisSmq.Process
