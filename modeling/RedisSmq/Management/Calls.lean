import RedisSmq.Common.KeyText
import RedisSmq.Common.NameGrammar
import RedisSmq.Lib.Callbacks
import RedisSmq.Lib.Js.Arithmetic
import RedisSmq.Queue.Pagination
import RedisSmq.Queue.SequenceId

/-!
# Management calls

The calls that re-queue a message of a list and those that read a page of a list, callback by callback. The lists hold
texts; a text is what `JSON.parse` makes of it, and the message that is made of that has whatever properties it has.

- `MessageInstance`: such a message, with the methods that are called of it;
- `requeueListMessage` and `getPaginatedListMessages`;
- `Moment`: what Redis replies to a request, and what it has stored then;
- `Reports`: what is expected of a call.
-/

namespace RedisSmq.Management

open Js Callbacks KeyText
open NameGrammar (ofText)

/-! ## Messages that were read -/

/-- `Message.defaultOpts`. -/
structure NumberOptions where
  consumeTimeout : JsNumber
  retryThreshold : JsNumber
  retryDelay : JsNumber
  ttl : JsNumber

def NumberOptions.toDefaultOptions (opts : NumberOptions) : DefaultOptions where
  consumeTimeout := .number opts.consumeTimeout
  retryThreshold := .number opts.retryThreshold
  retryDelay := .number opts.retryDelay
  ttl := .number opts.ttl

/-- An object that was created as a message: its own properties, and whether it inherits the methods of messages. -/
structure MessageInstance where
  properties : List (JsString × JsValue)
  inherits : Bool

namespace MessageInstance

/-- The values that `__proto__` can be set to. -/
def isPrototype : JsValue → Bool
  | .null | .array _ | .object _ => true
  | _ => false

/-- `Object.assign` to a new message; setting `__proto__` adds no property. -/
def ofProperties (fresh : MessageObject) (own : List (JsString × JsValue)) : MessageInstance where
  properties := assign fresh.properties (own.filter fun p => p.1 ≠ ascii "__proto__")
  inherits := !own.any fun p => p.1 = ascii "__proto__" && isPrototype p.2

/-- A method of the object can be called: no property of its own has the name. -/
def Has (m : MessageInstance) (name : String) : Prop :=
  m.inherits = true ∧ (m.properties.lookup (ascii name)).isNone = true

instance (m : MessageInstance) (name : String) : Decidable (m.Has name) := inferInstanceAs (Decidable (_ ∧ _))

def method (m : MessageInstance) (name : String) : Except String Unit :=
  if m.Has name then .ok () else .error ("TypeError: " ++ name ++ " is not a function")

def get (m : MessageInstance) (f : MessageField) : JsValue := (m.properties.lookup f.name).getD .undefined

def set (m : MessageInstance) (f : MessageField) (v : JsValue) : MessageInstance :=
  { m with properties := setProperty m.properties f.name v }

/-- The properties that `reset` sets, and their values. -/
def resetValues : List (MessageField × JsValue) :=
  [(.publishedAt, .null), (.scheduledAt, .null), (.attempts, ofNat 0), (.expired, .bool false), (.delayed, .bool false),
    (.scheduledCronFired, .bool false), (.scheduledRepeatCount, ofNat 0), (.queue, .null)]

def reset (m : MessageInstance) : Except String MessageInstance := do
  m.method "reset"
  return resetValues.foldl (fun m p => m.set p.1 p.2) m

def getId (m : MessageInstance) : Except String JsValue := do
  m.method "getId"
  return m.get .uuid

def setQueue (m : MessageInstance) (ns name : String) : Except String MessageInstance := do
  m.method "setQueue"
  return m.set .queue (.object [(ascii "name", .string (ofText name)), (ascii "ns", .string (ofText ns))])

def getQueue (m : MessageInstance) : Except String JsValue := do
  m.method "getQueue"
  return m.get .queue

def setPublishedAt (m : MessageInstance) (timestamp : ℕ) : Except String MessageInstance := do
  m.method "setPublishedAt"
  return m.set .publishedAt (ofNat timestamp)

/-- The priority of a number. -/
def priorityOf (priority : Number) : Option MessagePriority :=
  MessagePriority.values.find? fun p => priority = .ofInt p.value

def setPriority (m : MessageInstance) (priority : Number) : Except String MessageInstance := do
  m.method "setPriority"
  match priorityOf priority with
  | none => .error "Invalid message priority."
  | some p => return m.set .priority (ofNat p.value)

def getPriority (m : MessageInstance) : Except String JsValue := do
  m.method "getPriority"
  return m.get .priority

/-- What `??` looks at. -/
def isNullish : JsValue → Bool
  | .null | .undefined => true
  | _ => false

/-- `getSetPriority(undefined)`: the priority, and the message with this priority set. -/
def getSetPriority (m : MessageInstance) : Except String (JsValue × MessageInstance) := do
  m.method "getSetPriority"
  let priority ← m.getPriority
  if isNullish priority then
    let m ← m.setPriority (.ofInt MessagePriority.normal.value)
    return (ofNat MessagePriority.normal.value, m)
  else return (priority, m)

end MessageInstance

open MessageInstance

/-- `createFromMessage` of a text. -/
def createFromText (opts : NumberOptions) (uuid : JsString) (now : ℕ) (message : JsString) :
    Except String MessageInstance :=
  match parse message with
  | none => .error "SyntaxError: the text is no JSON"
  | some messageJSON =>
    .ok (ofProperties (MessageObject.new opts.toDefaultOptions uuid now) (ownProperties messageJSON))

/-- `createFromMessage(message, true)` of a message. -/
def createFromInstance (opts : NumberOptions) (uuid : JsString) (now : ℕ) (message : MessageInstance) :
    Except String MessageInstance :=
  (ofProperties (MessageObject.new opts.toDefaultOptions uuid now) message.properties).reset

/-! ## Requests -/

/-- The commands of a transaction. -/
inductive Command
  | lrem (key : String) (element : JsString)
  | rpush (key : String) (element : JsString)
  | hset (key : String) (field value : JsString)
  | zadd (key : String) (score member : JsString)
deriving DecidableEq

inductive Request
  | llen (key : String)
  | lrange (key : String) (start stop : Number)
  | execMulti (cmds : List Command)

@[reducible] def Request.Reply : Request → Type
  | .llen _ => ℕ
  | .lrange _ _ _ => List JsString
  | .execMulti _ => Unit

abbrev redis : Interface := ⟨Request, Request.Reply⟩

/-- An element of a page. -/
structure Item where
  sequenceId : Number
  message : MessageInstance

/-- What a callback gets when there is no error. -/
inductive Reply
  | void
  | messages (total : ℕ) (items : List Item)

/-- A call, up to its callback. -/
abbrev Call := Chain redis (Result Reply)

section

variable (opts : NumberOptions) (uuid : ℕ → JsString) (argument : JsValue → JsString)

/-! ## Re-queueing -/

/-- What a call re-queues. -/
structure Requeue where
  queueName : String
  ns : Option String
  index : Number
  messageId : String
  withPriority : Bool
  priority : Option Number

/-- `getListMessageAtSequenceId`, with the clock value at which its callback is called. -/
def getListMessageAtSequenceId (source : String) (sequenceId : Number) (messageId queueName ns : String)
    (cb : ℕ → Result MessageInstance → Call) : Call :=
  let notFound : Result MessageInstance :=
    .error (Reader.messageNotFoundError messageId queueName ns (sequenceId.index.getD 0))
  .request (.lrange source sequenceId sequenceId) fun now reply =>
    match reply with
    | .error e => cb now (.error e)
    | .ok [] => cb now notFound
    | .ok (msg :: _) =>
      match createFromText opts (uuid 0) now msg with
      | .error e => .throw e
      | .ok message =>
        match message.getId with
        | .error e => .throw e
        | .ok id => if SequenceId.isString id (ofText messageId) then cb now (.ok message) else cb now notFound

/-- `enqueueMessageWithPriorityMulti`; `argument` is what a Redis client sends for a value. -/
def enqueueMessageWithPriorityMulti (ns queueName : String) (message : MessageInstance) :
    Except String (List Command) := do
  let messageId ← message.getId
  let (priority, message) ← message.getSetPriority
  let keys := getKeys ns queueName (some ns)
  let text ← MessageObject.toString message.properties
  return [.hset (keys (.inr .keyPendingMessagesWithPriority)) (argument messageId) text,
    .zadd (keys (.inr .keyQueuePriority)) (argument priority) (argument messageId)]

/-- `enqueue` into a transaction; `getQueue` returns the queue that was set right before. -/
def enqueueMulti (ns queueName : String) (message : MessageInstance) (withPriority : Bool) (now : ℕ) :
    Except String (List Command) := do
  let _ ← message.getQueue
  let message ← message.setPublishedAt now
  if withPriority then enqueueMessageWithPriorityMulti argument ns queueName message
  else
    let text ← MessageObject.toString message.properties
    return [.rpush (getKeys ns queueName (some ns) (.inr .keyQueue)) text]

/-- Set the priority that the call was given, if the queue has priorities. -/
def prioritise (r : Requeue) (message : MessageInstance) : Except String MessageInstance :=
  match r.withPriority, r.priority with
  | true, some priority => message.setPriority priority
  | _, _ => .ok message

/-- The transaction of `requeueListMessage`, for the message that it has found in the list. -/
def requeueMulti (r : Requeue) (source ns : String) (now : ℕ) (msg : MessageInstance) :
    Except String (List Command) := do
  let text ← MessageObject.toString msg.properties
  let message ← createFromInstance opts (uuid 1) now msg
  let message ← message.setQueue ns r.queueName
  let message ← prioritise r message
  let cmds ← enqueueMulti argument ns r.queueName message r.withPriority now
  return .lrem source text :: cmds

/-- `processNs`: the namespace of the process. -/
def requeueListMessage (processNs : String) (r : Requeue) (source : String) : Call :=
  let ns := r.ns.getD processNs
  getListMessageAtSequenceId opts uuid source r.index r.messageId r.queueName ns fun now reply =>
    match reply with
    | .error e => .call (.error e)
    | .ok msg =>
      match requeueMulti opts uuid argument r source ns now msg with
      | .error e => .throw e
      | .ok cmds => .request (.execMulti cmds) fun _ reply => .call (reply.map fun _ => .void)

def requeueMessageFromDLQueue (processNs : String) (r : Requeue) : Call :=
  requeueListMessage opts uuid argument processNs r (getKeys processNs r.queueName r.ns (.inr .keyQueueDL))

def requeueMessageFromAcknowledgedQueue (processNs : String) (r : Requeue) : Call :=
  requeueListMessage opts uuid argument processNs r
    (getKeys processNs r.queueName r.ns (.inr .keyQueueAcknowledgedMessages))

/-! ## Pages -/

/-- What a call reads. -/
structure Page where
  queueName : String
  ns : Option String
  skip : Number
  take : Number

def validatePaginationParams (skip take : Number) : Except String Unit :=
  if skip.lt (.ofInt 0) || take.lt (.ofInt 1) then
    .error "Parameter [skip] should be >= 0. Parameter [take] should be >= 1."
  else .ok ()

/-- `map` with `createFromMessage`. -/
def createMessages (now : ℕ) (texts : List JsString) : Except String (List MessageInstance) :=
  (texts.mapIdx fun i text => createFromText opts (uuid i) now text).mapM id

def getListMessages (source : String) (skip take : Number) (cb : Result (List MessageInstance) → Call) : Call :=
  match validatePaginationParams skip take with
  | .error e => .throw e
  | .ok () =>
    .request (.lrange source skip ((skip.add take).add (.ofInt (-1)))) fun now reply =>
      match reply with
      | .error e => cb (.error e)
      | .ok result =>
        match createMessages opts uuid now result with
        | .error e => .throw e
        | .ok items => cb (.ok items)

def getPaginatedListMessages (key : String) (skip take : Number) : Call :=
  .request (.llen key) fun _ reply =>
    match reply with
    | .error e => .call (.error e)
    | .ok total =>
      if total = 0 then .call (.ok (.messages total []))
      else
        getListMessages opts uuid key skip take fun
          | .error e => .call (.error e)
          | .ok messages =>
            .call (.ok (.messages total (messages.mapIdx fun index message => ⟨skip.add (.ofInt index), message⟩)))

def getAcknowledgedMessages (processNs : String) (p : Page) : Call :=
  getPaginatedListMessages opts uuid (getKeys processNs p.queueName p.ns (.inr .keyQueueAcknowledgedMessages)) p.skip
    p.take

def getDeadLetteredMessages (processNs : String) (p : Page) : Call :=
  getPaginatedListMessages opts uuid (getKeys processNs p.queueName p.ns (.inr .keyQueueDL)) p.skip p.take

def getPendingMessages (processNs : String) (p : Page) : Call :=
  getPaginatedListMessages opts uuid (getKeys processNs p.queueName p.ns (.inr .keyQueue)) p.skip p.take

/-! ## Both -/

inductive Operation
  | requeueMessageFromDLQueue (r : Requeue)
  | requeueMessageFromAcknowledgedQueue (r : Requeue)
  | getAcknowledgedMessages (p : Page)
  | getDeadLetteredMessages (p : Page)
  | getPendingMessages (p : Page)

def Operation.call (processNs : String) : Operation → Call
  | .requeueMessageFromDLQueue r => Management.requeueMessageFromDLQueue opts uuid argument processNs r
  | .requeueMessageFromAcknowledgedQueue r =>
    Management.requeueMessageFromAcknowledgedQueue opts uuid argument processNs r
  | .getAcknowledgedMessages p => Management.getAcknowledgedMessages opts uuid processNs p
  | .getDeadLetteredMessages p => Management.getDeadLetteredMessages opts uuid processNs p
  | .getPendingMessages p => Management.getPendingMessages opts uuid processNs p

end

/-! ## Redis -/

/-- `sortedSets`: the scores of the members; `hashes`: the values of the fields. -/
structure Store where
  lists : String → List JsString
  sortedSets : String → JsString → Option JsString
  hashes : String → JsString → Option JsString

def Store.exec (s : Store) : Command → Store
  | .lrem key element => { s with lists := Function.update s.lists key ((s.lists key).erase element) }
  | .rpush key element => { s with lists := Function.update s.lists key (s.lists key ++ [element]) }
  | .hset key field value =>
    { s with hashes := Function.update s.hashes key (Function.update (s.hashes key) field (some value)) }
  | .zadd key score member =>
    { s with sortedSets := Function.update s.sortedSets key (Function.update (s.sortedSets key) member (some score)) }

/-- What becomes of a transaction: Redis does not execute it, it does, or it does and the reply is lost. -/
inductive Execution
  | refused (e : String)
  | executed
  | lost (e : String)

/-- The moment at which Redis gets a request: `unavailable` is the error of `LLEN` or `LRANGE`, if there is one, and
`failed` tells which commands of a transaction fail. -/
structure Moment where
  store : Store
  now : ℕ
  unavailable : Option String
  execution : Execution
  failed : Command → Option String

inductive Client
  | nodeRedis
  | ioredis

/-- `execMulti`, with the errors of the commands: only one of the clients looks at them. -/
def Client.execMulti : Client → List (Option String) → Result Unit
  | .nodeRedis, _ => .ok ()
  | .ioredis, replies =>
    match replies.findSome? id with
    | some e => .error e
    | none => .ok ()

namespace Moment

/-- The reply to a request that does not write. -/
def read {α : Type} (m : Moment) (reply : Result α) : Result α := (m.unavailable.map Except.error).getD reply

def reply (client : Client) (m : Moment) : Replies redis
  | .llen key => m.read (.ok (m.store.lists key).length)
  | .lrange key start stop =>
    m.read <|
      match start.index, stop.index with
      | some start, some stop => .ok (Ranges.lrange (m.store.lists key) start stop)
      | _, _ => .error "ERR value is not an integer or out of range"
  | .execMulti cmds =>
    match m.execution with
    | .refused e | .lost e => .error e
    | .executed => client.execMulti (cmds.map m.failed)

/-- What is stored after a request. -/
def after (m : Moment) : Request → Store
  | .execMulti cmds =>
    match m.execution with
    | .refused _ => m.store
    | .executed | .lost _ => (cmds.filter fun cmd => m.failed cmd = none).foldl Store.exec m.store
  | _ => m.store

end Moment

/-- The run of a call whose requests Redis gets at these moments, from the number `i` on. -/
def run (client : Client) (env : ℕ → Moment) (i : ℕ) (call : Call) : List (ℕ × Request) × Ending (Result Reply) :=
  call.run (fun i => (env i).now) (fun i => (env i).reply client) i

/-- What is expected of a call: its callback is called, and when it is called with an error, no request has changed what is
stored. -/
structure Reports (client : Client) (env : ℕ → Moment) (i : ℕ) (call : Call) : Prop where
  called : ∃ result, (run client env i call).2 = .called result
  unchanged : ∀ e, (run client env i call).2 = .called (.error e) →
    ∀ p ∈ (run client env i call).1, (env p.1).after p.2 = (env p.1).store

end RedisSmq.Management
