import RedisSmq.Gc.Worker
import RedisSmq.Queue.Steps

/-!
# Consumers that come and go, and a garbage collector

The system of producers, consumers and workers, together with what a consumer does when it is started and stopped, its
heartbeat, the clock, and the GC worker of one consumer.

- a consumer arms its heartbeat ticker, registers its processing queue, and is up; then it waits for messages;
- the ticker fires at least one second after it was armed, and is armed again once the heartbeat is stored;
- a consumer that goes down stops its ticker and removes its heartbeat, and only then closes the connection that it
  waits for messages on; a consumer that crashes does nothing;
- a tick of the GC worker reads the index of processing queues, and inspects them concurrently.
-/

namespace RedisSmq.Gc

open RedisKeys Queue GCWorker

/-- The state of the power manager of a consumer; `registered` is the last part of going up. -/
inductive Power
  | down | goingUp | registered | up | goingDown
deriving DecidableEq

/-- The heartbeat ticker: it waits, or it has fired and waits for the reply of its request. -/
inductive Ticker
  | off
  | armed (since : ℕ)
  | fired (timestamp : ℕ)
deriving DecidableEq

/-- The life of a consumer. `waiting`: it asked for the next message; `ticked`: when its ticker was set up, or fired
last. -/
structure Life where
  power : Power
  ticker : Ticker
  ticked : ℕ
  waiting : Bool
deriving DecidableEq

/-- A consumer is live from the registration of its processing queue until it goes down. -/
def Life.live (l : Life) : Bool := l.power = .registered || l.power = .up

/-- `keys`: the processing queues of the current tick of the GC worker; `tasks`: their inspections. -/
structure State where
  queue : Queue.State
  clock : ℕ
  lives : String → Life
  keys : List RedisKey
  tasks : RedisKey → Task

def init : State where
  queue := Queue.init
  clock := 0
  lives := fun _ => ⟨.down, .off, 0, false⟩
  keys := []
  tasks := fun _ => .done

inductive Action
  | queue (a : Queue.Action)
  | pass (ms : ℕ)
  | setUpHeartbeat (id : String)
  | setUpProcessingQueue (id : String)
  | up (id : String)
  | heartbeatTick (id : String)
  | heartbeatStored (id : String)
  | goDown (id : String)
  | expireHeartbeat (id : String)
  | halt (id : String)
  | crash (id : String)
  | gcTick
  | gcTask (key : RedisKey)

namespace State

def setDb (s : State) (db : Db) : State := { s with queue := { s.queue with db := db } }

def setLife (s : State) (id : String) (l : Life) : State := { s with lives := Function.update s.lives id l }

/-- A consumer that stopped forgets its message. -/
def forget (s : State) (id : String) : State :=
  { s with queue := { s.queue with consumers := Function.update s.queue.consumers id .idle } }

end State

section Step

variable (cron : CronParser) (lt : Text → Text → Bool) (config : String → ConsumerConfig) (w : GCWorker)

/-- The keys of a consumer. -/
def instanceKeys (id : String) : InstanceKeys := getInstanceKeys (config id).ns (config id).queueName id

/-- What a request of the queue system means for the life of a consumer: a dequeue has been waited for, and a settlement
is followed by `MESSAGE_NEXT`. -/
def lifeAfter (lives : String → Life) : Queue.Action → Option (String → Life)
  | .dequeue id =>
    let l := lives id
    if l.waiting ∧ (l.power = .up ∨ l.power = .goingDown) then
      some (Function.update lives id { l with waiting := false })
    else none
  | .acknowledge id | .unacknowledge id _ _ =>
    let l := lives id
    if l.power = .up ∨ l.power = .goingDown then
      some (Function.update lives id { l with waiting := decide (l.power = .up) })
    else none
  | _ => some lives

def step (s : State) : Action → Option State
  | .queue a => do
    let lives ← lifeAfter s.lives a
    let queue ← Queue.step cron lt config s.queue a
    return { s with queue := queue, lives := lives }
  | .pass ms => some { s with clock := s.clock + ms }
  | .setUpHeartbeat id =>
    if (s.lives id).power = .down then some (s.setLife id ⟨.goingUp, .armed s.clock, s.clock, false⟩) else none
  | .setUpProcessingQueue id =>
    if (s.lives id).power = .goingUp then
      some ((s.setDb (s.queue.db.execAll lt
        (QueueManager.setUpProcessingQueue (config id).ns (config id).queueName id))).setLife id
          { s.lives id with power := .registered })
    else none
  | .up id =>
    if (s.lives id).power = .registered then some (s.setLife id { s.lives id with power := .up, waiting := true })
    else none
  | .heartbeatTick id =>
    match (s.lives id).ticker with
    | .armed since =>
      if since + 1000 ≤ s.clock then
        some (s.setLife id { s.lives id with ticker := .fired s.clock, ticked := s.clock })
      else none
    | _ => none
  | .heartbeatStored id =>
    match (s.lives id).ticker with
    | .fired timestamp =>
      some ((s.setDb (s.queue.db.exec lt (Heartbeat.onTick (instanceKeys config id).keyHeartbeat timestamp))).setLife id
        { s.lives id with ticker := .armed s.clock })
    | _ => none
  | .goDown id =>
    if (s.lives id).power = .up then some (s.setLife id { s.lives id with power := .goingDown }) else none
  | .expireHeartbeat id =>
    match (s.lives id).power, (s.lives id).ticker with
    | .goingDown, .armed _ =>
      some ((s.setDb (s.queue.db.exec lt (Heartbeat.expireHeartbeat (instanceKeys config id).keyHeartbeat))).setLife id
        { s.lives id with ticker := .off })
    | _, _ => none
  | .halt id =>
    match (s.lives id).power, (s.lives id).ticker with
    | .goingDown, .off => some ((s.forget id).setLife id ⟨.down, .off, (s.lives id).ticked, false⟩)
    | _, _ => none
  | .crash id => some ((s.forget id).setLife id ⟨.down, .off, (s.lives id).ticked, false⟩)
  | .gcTick =>
    if ∀ key ∈ s.keys, s.tasks key = .done then
      let keys := s.queue.db.sets getGlobalKeys.keyIndexProcessingQueues
      some { s with keys := keys, tasks := fun key => if key ∈ keys then .inspect else .done }
    else none
  | .gcTask key =>
    match (s.tasks key).step lt w key s.clock s.queue.db with
    | some (db, t) => some { s.setDb db with tasks := Function.update s.tasks key t }
    | none => none

/-- The system as a machine. -/
def system : Transition.Machine State Action where
  init := init
  step := step cron lt config w

end Step

end RedisSmq.Gc
