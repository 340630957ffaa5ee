import RedisSmq.Broker
import RedisSmq.Common.Ticker
import RedisSmq.Lib.Machine

/-!
# The life cycle of producers and consumers

`Base` starts and stops an instance by a waterfall of tasks, and a consumer adds its own tasks to those of `Base`. A task
ends at once, or waits for a reply. `produceMessage` may be called at any time, also between two tasks, as listeners of
the events do; the requests that it hands to the broker are executed by the server, and replied, in any order.

- `SetUp.begin`, `SetUp.reply`, `TearDown.begin`, `TearDown.reply`: the tasks;
- `State.run`, `State.shutdown`, `State.produceMessage`: the methods, and what the ends of the waterfalls do.
-/

namespace RedisSmq.LifeCycle

open Transition

inductive InstanceKind
  | producer | consumer
deriving DecidableEq

/-- What an instance is constructed with. -/
structure Config where
  kind : InstanceKind
  id : String
  ns : String
  queueName : String
  priorityQueue : Bool
  monitorEnabled : Bool

/-- Which fields are set; `dequeueHandler` is that of the message manager of the broker. -/
structure Fields where
  sharedRedisClient : Bool
  broker : Bool
  dequeueHandler : Bool
  messageRate : Bool
  consumerRedisClient : Bool
  heartbeat : Bool
  consumerWorkers : Bool
deriving DecidableEq

/-- What a task does when it begins; `stops` means that it never calls its callback. -/
inductive Begin
  | waits
  | ends (f : Fields)
  | reports (e : String)
  | throws (e : String)
  | stops

/-- `emit(events.ERROR, err)`: `handleError` throws the error, or ignores it. -/
def handleError (p : PowerManager) (e : String) : Option String :=
  if p.isGoingUp || p.isRunning then some e else none

/-! ## The tasks -/

/-- The tasks of `goingUp`. -/
inductive SetUp
  | sharedRedisClient | messageQueue | broker | messageRate
  | consumerRedisClient | heartbeat | consumerWorkers | consumerProcessingQueue
deriving DecidableEq

/-- The tasks of `goingDown`. -/
inductive TearDown
  | consumerWorkers | heartbeat | consumerRedisClient
  | broker | messageRate | sharedRedisClient
deriving DecidableEq

def Base.goingUp : List SetUp := [.sharedRedisClient, .messageQueue, .broker, .messageRate]

def Base.goingDown : List TearDown := [.broker, .messageRate, .sharedRedisClient]

def goingUp : InstanceKind → List SetUp
  | .producer => Base.goingUp
  | .consumer => Base.goingUp ++ [.consumerRedisClient, .heartbeat, .consumerWorkers, .consumerProcessingQueue]

def goingDown : InstanceKind → List TearDown
  | .producer => Base.goingDown
  | .consumer => [.consumerWorkers, .heartbeat, .consumerRedisClient] ++ Base.goingDown

namespace SetUp

/-- With `sharedRedisClient`, or the error that it is missing. -/
def withClient (f : Fields) (b : Begin) : Begin :=
  if f.sharedRedisClient then b else .reports "Expected an instance of RedisClient"

/-- `getSharedRedisClient`. -/
def getSharedRedisClient (p : PowerManager) (f : Fields) (b : Begin) : Begin :=
  if f.sharedRedisClient then b else (handleError p "Expected an instance of RedisClient").elim .stops .throws

def begin (config : Config) (p : PowerManager) (f : Fields) : SetUp → Begin
  | .sharedRedisClient => .waits
  | .messageQueue => withClient f .waits
  | .broker => withClient f (.ends { f with broker := true, dequeueHandler := false })
  | .messageRate => if config.monitorEnabled then withClient f (.ends { f with messageRate := true }) else .ends f
  | .consumerRedisClient => .waits
  | .heartbeat => .waits
  | .consumerWorkers => getSharedRedisClient p f (.ends { f with consumerWorkers := true })
  | .consumerProcessingQueue => getSharedRedisClient p f .waits

/-- What `getNewInstance` passes to the callback: an error, or whether there is a client. -/
def newInstance (f : Fields) : Except String Bool → Except String Fields
  | .error e => .error e
  | .ok false => .error "Expected a non-empty reply"
  | .ok true => .ok f

/-- The reply to a task that waits. -/
def reply (f : Fields) (r : Except String Bool) : SetUp → Except String Fields
  | .sharedRedisClient => newInstance { f with sharedRedisClient := true } r
  | .consumerRedisClient => newInstance { f with consumerRedisClient := true } r
  | .heartbeat => newInstance { f with heartbeat := true } r
  | .messageQueue | .consumerProcessingQueue => r.map fun _ => f
  | .broker | .messageRate | .consumerWorkers => .ok f

end SetUp

namespace TearDown

def begin (f : Fields) : TearDown → Begin
  | .consumerWorkers => if f.consumerWorkers then .waits else .ends f
  | .heartbeat => if f.heartbeat then .waits else .ends f
  | .consumerRedisClient => if f.consumerRedisClient then .waits else .ends f
  | .broker => if f.broker && f.dequeueHandler then .waits else .ends { f with broker := false }
  | .messageRate => .ends { f with messageRate := false }
  | .sharedRedisClient => if f.sharedRedisClient then .waits else .ends f

/-- Errors are ignored. -/
def reply (f : Fields) : TearDown → Fields
  | .consumerWorkers => { f with consumerWorkers := false }
  | .heartbeat => { f with heartbeat := false }
  | .consumerRedisClient => { f with consumerRedisClient := false }
  | .broker => { f with broker := false, dequeueHandler := false }
  | .messageRate => { f with messageRate := false }
  | .sharedRedisClient => { f with sharedRedisClient := false }

end TearDown

/-! ## The state -/

/-- The tasks of a waterfall that are left; the first one may wait for a reply. -/
inductive Work
  | idle
  | up (tasks : List SetUp) (waits : Bool)
  | down (tasks : List TearDown) (waits : Bool)

/-- A call of `produceMessage`. -/
structure Call where
  id : ℕ
  message : Message

/-- What the broker was handed, until it is replied. -/
structure Request where
  call : Call
  cmds : List Cmd
  executed : Bool

/-- A request of a call that was executed. -/
structure Execution where
  call : Call
  before : Db
  after : Db

inductive Event
  | goingUp | up | goingDown | down
  | runCallback (err : Option String)
  | shutdownCallback
  | dequeue
  | thrown (e : String)
deriving DecidableEq

/-- `waiting`: the calls that wait for `UP`; `answers`: what the callbacks of calls were called with. `issued`, `handed`,
`executions` and `events` are logs. -/
structure State where
  powerManager : PowerManager
  fields : Fields
  work : Work
  issued : ℕ
  waiting : List Call
  requests : List Request
  answers : List (ℕ × Except String Bool)
  db : Db
  handed : List ℕ
  executions : List Execution
  events : List Event

namespace State

def new : State where
  powerManager := .new
  fields := ⟨false, false, false, false, false, false, false⟩
  work := .idle
  issued := 0
  waiting := []
  requests := []
  answers := []
  db := .empty
  handed := []
  executions := []
  events := []

def emit (s : State) (e : Event) : State := { s with events := s.events ++ [e] }

variable (cron : CronParser) (config : Config) (now : ℕ)

/-! ## Producing -/

/-- `broker.scheduleMessage` or `broker.enqueueMessage`, with the callback of the call. -/
def handOver (c : Call) (s : State) : Except String State :=
  match Producer.produceMessage cron config.ns config.queueName config.priorityQueue c.message now with
  | .error e => .error e
  | .ok (cmds, true) =>
    .ok { s with handed := s.handed ++ [c.id], requests := s.requests ++ [⟨c, cmds, false⟩] }
  | .ok (_, false) =>
    .ok { s with handed := s.handed ++ [c.id], answers := s.answers ++ [(c.id, .ok false)] }

/-- `getBroker`: what is thrown, or the state after the function, which is not called when the error is ignored. -/
def getBroker (s : State) (cb : State → Except String State) : Except String State :=
  if s.fields.broker then cb s
  else
    match handleError s.powerManager "Expected an instance of Broker" with
    | some e => .error e
    | none => .ok s

def proceed (c : Call) (s : State) : Except String State := s.getBroker (handOver cron config now c)

def produceMessage (m : Message) (s : State) : State :=
  let c : Call := ⟨s.issued, m⟩
  let s := { s with issued := s.issued + 1 }
  if !s.powerManager.isUp then
    if s.powerManager.isGoingUp then { s with waiting := s.waiting ++ [c] }
    else { s with answers := s.answers ++ [(c.id, .error ("Producer ID " ++ config.id ++ " is not running"))] }
  else
    match s.proceed cron config now c with
    | .error e => s.emit (.thrown e)
    | .ok s => s

/-! ## Going up and down -/

/-- The listeners of `UP` that wait are called one after the other, and each is removed before it is called; one that
throws ends this. -/
def proceedAll (s : State) : List Call → State × Option String
  | [] => ({ s with waiting := [] }, none)
  | c :: cs =>
    match { s with waiting := cs }.proceed cron config now c with
    | .error e => ({ s with waiting := cs }, some e)
    | .ok s => s.proceedAll cs

/-- `MESSAGE_NEXT` of a consumer. -/
def messageNext (s : State) : State × Option String :=
  if s.powerManager.isRunning then
    if s.fields.consumerRedisClient then
      match s.getBroker (fun s => .ok ({ s with fields := { s.fields with dequeueHandler := true } }.emit .dequeue)) with
      | .error e => (s, some e)
      | .ok s => (s, none)
    else (s, handleError s.powerManager "Expected an instance of RedisClient")
  else (s, none)

/-- `emit(events.UP)`: the listeners, and what is thrown. -/
def emitUp (s : State) : State × Option String :=
  let s := s.emit .up
  match config.kind with
  | .producer => s.proceedAll cron config now s.waiting
  | .consumer => s.messageNext

/-- The end of the waterfall of `run`, with the error of a task; the source does not look at it. -/
def endUp (_err : Option String) (s : State) : State :=
  match s.powerManager.commit with
  | .error e => { s with work := .idle }.emit (.thrown e)
  | .ok p =>
    match { s with powerManager := p, work := .idle }.emitUp cron config now with
    | (s, some e) => s.emit (.thrown e)
    | (s, none) => s.emit (.runCallback none)

/-- Go on with the tasks that are left. -/
def nextUp (tasks : List SetUp) (s : State) : State :=
  match tasks with
  | [] => s.endUp cron config now none
  | tasks => { s with work := .up tasks false }

def endDown (s : State) : State :=
  match s.powerManager.commit with
  | .error e => { s with work := .idle }.emit (.thrown e)
  | .ok p => ({ s with powerManager := p, work := .idle }.emit .down).emit .shutdownCallback

def nextDown (tasks : List TearDown) (s : State) : State :=
  match tasks with
  | [] => s.endDown
  | tasks => { s with work := .down tasks false }

def run (s : State) : State :=
  match s.powerManager.goingUp with
  | .error e => s.emit (.thrown e)
  | .ok p => { s with powerManager := p, work := .up (LifeCycle.goingUp config.kind) false }.emit .goingUp

def shutdown (s : State) : State :=
  match s.powerManager.goingDown with
  | .error e => s.emit (.thrown e)
  | .ok p => { s with powerManager := p, work := .down (LifeCycle.goingDown config.kind) false }.emit .goingDown

/-- The first task of the waterfall begins. -/
def begin (s : State) : Option State :=
  match s.work with
  | .up (t :: ts) false =>
    match t.begin config s.powerManager s.fields with
    | .waits => some { s with work := .up (t :: ts) true }
    | .ends f => some ({ s with fields := f }.nextUp cron config now ts)
    | .reports e => some (s.endUp cron config now (some e))
    | .throws e => some ({ s with work := .idle }.emit (.thrown e))
    | .stops => some { s with work := .idle }
  | .down (t :: ts) false =>
    match t.begin s.fields with
    | .waits => some { s with work := .down (t :: ts) true }
    | .ends f => some ({ s with fields := f }.nextDown ts)
    | .reports _ | .throws _ | .stops => none
  | _ => none

/-- It has a reply. -/
def reply (r : Except String Bool) (s : State) : Option State :=
  match s.work with
  | .up (t :: ts) true =>
    match t.reply s.fields r with
    | .error e => some (s.endUp cron config now (some e))
    | .ok f => some ({ s with fields := f }.nextUp cron config now ts)
  | .down (t :: ts) true => some ({ s with fields := t.reply s.fields }.nextDown ts)
  | _ => none

/-- The server executes a request. -/
def execute (lt : Text → Text → Bool) (i : ℕ) (s : State) : Option State :=
  match s.requests[i]? with
  | some ⟨c, cmds, false⟩ =>
    let db := s.db.execAll lt cmds
    some { s with
      db := db
      requests := s.requests.set i ⟨c, cmds, true⟩
      executions := s.executions ++ [⟨c, s.db, db⟩] }
  | _ => none

/-- The reply to a request: an error at any time, and success when it was executed. -/
def answer (i : ℕ) (err : Option String) (s : State) : Option State :=
  match s.requests[i]?, err with
  | some r, some e => some { s with requests := s.requests.eraseIdx i, answers := s.answers ++ [(r.call.id, .error e)] }
  | some r, none =>
    if r.executed then
      some { s with requests := s.requests.eraseIdx i, answers := s.answers ++ [(r.call.id, .ok true)] }
    else none
  | none, _ => none

end State

/-- `other`: other processes change the database. -/
inductive Action
  | run
  | shutdown
  | begin (now : ℕ)
  | reply (r : Except String Bool) (now : ℕ)
  | produce (m : Message) (now : ℕ)
  | execute (i : ℕ)
  | answer (i : ℕ) (err : Option String)
  | other (db : Db)

section System

variable (cron : CronParser) (lt : Text → Text → Bool) (config : Config)

def step (s : State) : Action → Option State
  | .run => some (s.run config)
  | .shutdown => some (s.shutdown config)
  | .begin now => s.begin cron config now
  | .reply r now => s.reply cron config now r
  | .produce m now => if config.kind = .producer then some (s.produceMessage cron config now m) else none
  | .execute i => s.execute lt i
  | .answer i err => s.answer i err
  | .other db => some { s with db := db }

/-- The constructor of a producer calls `run`. -/
def system : Machine State Action where
  init := if config.kind = .producer then State.new.run config else State.new
  step := step cron lt config

/-- The error that a task of the start-up reports in a step. -/
def reported (s : State) : Action → Option String
  | .begin _ =>
    match s.work with
    | .up (t :: _) false =>
      match t.begin config s.powerManager s.fields with
      | .reports e => some e
      | _ => none
    | _ => none
  | .reply r _ =>
    match s.work with
    | .up (t :: _) true =>
      match t.reply s.fields r with
      | .error e => some e
      | .ok _ => none
    | _ => none
  | _ => none

end System

end RedisSmq.LifeCycle
