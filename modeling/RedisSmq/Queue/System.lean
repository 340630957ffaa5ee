import RedisSmq.Lib.Machine
import RedisSmq.Effects
import RedisSmq.Broker

/-!
# Producers, consumers and workers on one Redis server

The state is the database, what was produced so far, and for every actor what it remembers between two of its Redis
requests. An action is one request, with the clock value of the stretch of code that prepared it; the actors take
their actions in any order.

- a consumer takes a message, then settles it once, by any of the settlements;
- the delay worker and the re-queue worker read up to 100 messages, then make one transaction for all of them;
- the schedule worker reads identifiers, then messages, then makes one transaction for each message;
- requests of the message manager that move or delete a message of a list read it first.

A worker that throws is `dead`.
-/

namespace RedisSmq.Queue

open RedisKeys

/-- What a consumer is configured with: the namespace of its process, its queue, and the mode of its broker. -/
structure ConsumerConfig where
  ns : String
  queueName : String
  priorityQueue : Bool

/-- The processing list of a consumer. -/
def ConsumerConfig.keyQueueProcessing (config : ConsumerConfig) (id : String) : RedisKey :=
  (getInstanceKeys config.ns config.queueName id).keyQueueProcessing

/-- What a consumer does: it waits for a message, or it has taken one; `failed` is the end of its cycle. -/
inductive Phase
  | idle
  | holding (m : Message)
  | failed
deriving DecidableEq

/-- A worker that reads a batch and then makes one transaction. -/
inductive Tick (β : Type)
  | idle
  | fetched (batch : β)
  | dead

/-- The batch of the delay worker, and the clock value at which it prepares its transaction. -/
structure DelayBatch where
  messages : List Message
  now : ℕ

/-- The batch of the re-queue worker. -/
structure RequeueBatch where
  withPriority : Bool
  messages : List Message

/-- The schedule worker; a message is missing where the hash has no payload. -/
inductive ScheduleTick
  | idle
  | ids (withPriority : Bool) (ids : List Text)
  | messages (withPriority : Bool) (now : ℕ) (rest : List (Option Message))
  | dead

/-- The lists of a queue that the message manager works on. -/
inductive QueueList
  | pending | acknowledged | deadLetter
deriving DecidableEq

def QueueList.key (l : QueueList) (q : TMessageQueue) : RedisKey :=
  match l with
  | .pending => q.keys.keyQueue
  | .acknowledged => q.keys.keyQueueAcknowledgedMessages
  | .deadLetter => q.keys.keyQueueDL

/-- A request of the message manager that has read its message. -/
inductive Request
  | requeue (source : QueueList) (q : TMessageQueue) (withPriority : Bool) (priority : Option ℕ) (msg : Message)
  | delete (source : QueueList) (q : TMessageQueue) (msg : Message)

/-- A message as it was produced, and the mode of its producer. -/
structure Produced where
  message : Message
  withPriority : Bool
deriving DecidableEq

structure State where
  db : Db
  produced : List Produced
  consumers : String → Phase
  delayTick : Tick DelayBatch
  requeueTick : Tick RequeueBatch
  scheduleTick : ScheduleTick
  requests : List Request

def init : State where
  db := .empty
  produced := []
  consumers := fun _ => .idle
  delayTick := .idle
  requeueTick := .idle
  scheduleTick := .idle
  requests := []

inductive Action
  | produce (q : TMessageQueue) (withPriority : Bool) (m : Message) (now : ℕ)
  | dequeue (id : String)
  | acknowledge (id : String)
  | unacknowledge (id : String) (cause : EMessageUnacknowledgedCause) (now : ℕ)
  | delayFetch (now : ℕ)
  | delayExec
  | requeueFetch (withPriority : Bool)
  | requeueExec
  | scheduleFetchIds (withPriority : Bool) (now : ℕ)
  | scheduleFetchMessages (now : ℕ)
  | scheduleExec
  | requeueMessageRead (source : QueueList) (q : TMessageQueue) (index : ℕ) (messageId : String) (withPriority : Bool)
      (priority : Option ℕ)
  | deleteMessageRead (source : QueueList) (q : TMessageQueue) (index : ℕ) (messageId : String)
  | requestExec (index : ℕ) (now : ℕ)
  | deletePendingMessageWithPriority (q : TMessageQueue) (messageId : String)
  | deleteScheduled (messageId : String)
  | purge (l : QueueList) (q : TMessageQueue)
  | purgePriorityQueue (q : TMessageQueue)
  | purgeScheduledMessagesQueue

/-- `async.parallel(tasks)`: the commands that all tasks add to one transaction. -/
def parallel (task : Message → Except String (List Cmd)) : List Message → Except String (List Cmd)
  | [] => .ok []
  | m :: ms => do
    let cmds ← task m
    let rest ← parallel task ms
    return cmds ++ rest

/-- The commands of the first task come first. -/
theorem parallel_cons {task : Message → Except String (List Cmd)} {m : Message} {ms : List Message} {cmds : List Cmd}
    (h : parallel task (m :: ms) = .ok cmds) :
    ∃ c cs, task m = .ok c ∧ parallel task ms = .ok cs ∧ cmds = c ++ cs := by
  simp only [parallel] at h
  cases hc : task m with
  | error e => rw [hc] at h; cases h
  | ok c =>
    cases hcs : parallel task ms with
    | error e => rw [hc, hcs] at h; cases h
    | ok cs => rw [hc, hcs] at h; cases h; exact ⟨c, cs, rfl, rfl, rfl⟩

/-- Every command comes from a task. -/
theorem mem_parallel {task : Message → Except String (List Cmd)} : ∀ {ms : List Message} {cmds : List Cmd},
    parallel task ms = .ok cmds → ∀ c ∈ cmds, ∃ m ∈ ms, ∃ cs, task m = .ok cs ∧ c ∈ cs
  | [], _, h, c, hc => by cases h; cases hc
  | m :: ms, cmds, h, c, hc => by
    obtain ⟨cs, css, h1, h2, rfl⟩ := parallel_cons h
    rcases List.mem_append.mp hc with hc | hc
    · exact ⟨m, by simp, cs, h1, hc⟩
    · obtain ⟨m', hm', cs', h3, h4⟩ := mem_parallel h2 c hc
      exact ⟨m', by simp [hm'], cs', h3, h4⟩

/-- The tasks together succeed when each of them does. -/
theorem parallel_ok {task : Message → Except String (List Cmd)} : ∀ {ms : List Message},
    (∀ m ∈ ms, ∃ cs, task m = .ok cs) → ∃ cmds, parallel task ms = .ok cmds
  | [], _ => ⟨[], rfl⟩
  | m :: ms, h => by
    obtain ⟨c, hc⟩ := h m List.mem_cons_self
    obtain ⟨cs, hcs⟩ := parallel_ok fun m' hm' => h m' (List.mem_cons_of_mem _ hm')
    exact ⟨c ++ cs, by rw [parallel, hc, hcs]; rfl⟩

/-- The message at an index of a list, when it has the expected identifier: `getListMessageAtSequenceId`. -/
def getListMessageAtSequenceId (db : Db) (key : RedisKey) (index : ℕ) (messageId : String) : Option Message :=
  ((db.lists key)[index]?).filter (fun m => m.uuid = messageId)

section Step

variable (cron : CronParser) (lt : Text → Text → Bool) (config : String → ConsumerConfig)

/-- A consumer asks its broker for a message; `none` while there is none. -/
def dequeueMessage (s : State) (id : String) : Option State :=
  let k := config id
  let keys := getKeys k.ns k.queueName none
  let keyQueueProcessing := k.keyQueueProcessing id
  if k.priorityQueue then
    let r := s.db.zpophgetrpush keys.keyQueuePriority keys.keyPendingMessagesWithPriority keyQueueProcessing
    match r.2 with
    | .nil => none
    | .error => some { s with db := r.1, consumers := Function.update s.consumers id .failed }
    | .message m => some { s with db := r.1, consumers := Function.update s.consumers id (.holding m) }
  else
    match (s.db.lists keys.keyQueue).getLast? with
    | none => none
    | some m =>
      some { s with
        db := s.db.exec lt (.rpoplpush keys.keyQueue keyQueueProcessing)
        consumers := Function.update s.consumers id (.holding m) }

/-- The request that a consumer settles its message with. -/
def settle (s : State) (id : String) (cmd : Message → Cmd) : Option State :=
  match s.consumers id with
  | .holding m => some { s with db := s.db.exec lt (cmd m), consumers := Function.update s.consumers id .idle }
  | _ => none

def delayExec (s : State) : Option State :=
  match s.delayTick with
  | .fetched b =>
    match parallel (DelayHandler.scheduleTask cron b.now) b.messages with
    | .ok cmds => some { s with db := s.db.execAll lt cmds, delayTick := .idle }
    | .error _ => some { s with delayTick := .dead }
  | _ => none

def requeueExec (s : State) : Option State :=
  match s.requeueTick with
  | .fetched b =>
    match parallel (RequeueWorker.requeueTask b.withPriority) b.messages with
    | .ok cmds => some { s with db := s.db.execAll lt cmds, requeueTick := .idle }
    | .error _ => some { s with requeueTick := .dead }
  | _ => none

/-- A missing payload becomes a new message without a queue, which can not be enqueued. -/
def scheduleExec (s : State) : Option State :=
  match s.scheduleTick with
  | .messages _ _ [] => some { s with scheduleTick := .idle }
  | .messages _ _ (none :: _) => some { s with scheduleTick := .dead }
  | .messages withPriority now (some m :: rest) =>
    match ScheduleHandler.enqueueScheduledMessage cron m withPriority now with
    | .ok cmds => some { s with db := s.db.execAll lt cmds, scheduleTick := .messages withPriority now rest }
    | .error _ => some { s with scheduleTick := .dead }
  | _ => none

/-- The second round trip of a request of the message manager. -/
def Request.cmds (r : Request) (now : ℕ) : Except String (List Cmd) :=
  match r with
  | .requeue source q withPriority priority msg =>
    RequeueHandler.requeueListMessage (source.key q) q.ns q.name withPriority priority msg now
  | .delete source q msg => .ok [.lrem (source.key q) msg]

def requestExec (s : State) (index now : ℕ) : Option State :=
  match s.requests[index]? with
  | none => none
  | some r =>
    match r.cmds now with
    | .ok cmds => some { s with db := s.db.execAll lt cmds, requests := s.requests.eraseIdx index }
    | .error _ => some { s with requests := s.requests.eraseIdx index }

def step (s : State) : Action → Option State
  | .produce q withPriority m now =>
    match Producer.produceMessage cron q.ns q.name withPriority m now with
    | .ok (cmds, _) =>
      some { s with
        db := s.db.execAll lt cmds
        produced := ⟨m.reset.setQueue q.ns q.name, withPriority⟩ :: s.produced }
    | .error _ => none
  | .dequeue id => if s.consumers id = .idle then dequeueMessage lt config s id else none
  | .acknowledge id =>
    settle lt s id fun _ =>
      ProcessingHandler.acknowledge (config id).ns (config id).queueName ((config id).keyQueueProcessing id)
  | .unacknowledge id cause now =>
    settle lt s id fun m =>
      Broker.retry (config id).ns (config id).queueName ((config id).keyQueueProcessing id) m cause now
  | .delayFetch now =>
    match s.delayTick with
    | .idle => some { s with delayTick := .fetched ⟨(s.db.lists getGlobalKeys.keyQueueDelay).take 100, now⟩ }
    | _ => none
  | .delayExec => delayExec cron lt s
  | .requeueFetch withPriority =>
    match s.requeueTick with
    | .idle =>
      some { s with requeueTick := .fetched ⟨withPriority, (s.db.lists getGlobalKeys.keyQueueRequeue).take 100⟩ }
    | _ => none
  | .requeueExec => requeueExec lt s
  | .scheduleFetchIds withPriority now =>
    match s.scheduleTick with
    | .idle =>
      some { s with
        scheduleTick := .ids withPriority ((s.db.zsets getGlobalKeys.keyQueueScheduled).zrangebyscore 0 now) }
    | _ => none
  | .scheduleFetchMessages now =>
    match s.scheduleTick with
    | .ids withPriority ids =>
      some { s with
        scheduleTick := .messages withPriority now (ids.map (s.db.hashes getGlobalKeys.keyScheduledMessages)) }
    | _ => none
  | .scheduleExec => scheduleExec cron lt s
  | .requeueMessageRead source q index messageId withPriority priority =>
    match getListMessageAtSequenceId s.db (source.key q) index messageId with
    | some msg =>
      if source = .pending then none
      else some { s with requests := .requeue source q withPriority priority msg :: s.requests }
    | none => none
  | .deleteMessageRead source q index messageId =>
    match getListMessageAtSequenceId s.db (source.key q) index messageId with
    | some msg => some { s with requests := .delete source q msg :: s.requests }
    | none => none
  | .requestExec index now => requestExec lt s index now
  | .deletePendingMessageWithPriority q messageId =>
    some { s with db := s.db.execAll lt (EnqueueHandler.deletePendingMessageWithPriority q messageId) }
  | .deleteScheduled messageId => some { s with db := s.db.execAll lt (ScheduleHandler.deleteScheduled messageId) }
  | .purge l q => some { s with db := s.db.exec lt (.del (l.key q)) }
  | .purgePriorityQueue q => some { s with db := s.db.exec lt (QueueManager.purgePriorityQueue q) }
  | .purgeScheduledMessagesQueue => some { s with db := s.db.exec lt QueueManager.purgeScheduledMessagesQueue }

/-- The system as a machine. -/
def system : Transition.Machine State Action where
  init := init
  step := step cron lt config

end Step

/-- LIFO consumers of the queue `q`. -/
def lifoConsumer : String → ConsumerConfig := fun _ => ⟨"ns", "q", false⟩

end RedisSmq.Queue
