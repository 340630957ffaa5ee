import RedisSmq.Consumer.Delivery
import RedisSmq.Effects
import RedisSmq.Queue.System

/-!
# A consumer and its deliveries

One consumer, from `MESSAGE_NEXT` to the reply of the settlement, and again. It asks its broker for a message, hands it
to its handler, and settles it; every settlement is a request to Redis, and its reply makes the consumer ask for the next
message. Nothing of a delivery is forgotten: its callback can be called and its timer can fire when other messages are
being processed, and after the consumer was stopped and started again.

Other processes change the database as they like, the processing list of the consumer apart; while the consumer is down
or goes up they may empty it.
-/

namespace RedisSmq.Consumer

open RedisKeys

/-- `powerManager`, as far as it matters here: a consumer that goes up has its broker already, and one that goes down
still has it. -/
inductive Power
  | down | goingUp | up | goingDown
deriving DecidableEq

def Power.moment : Power → Moment
  | .down => ⟨false, false⟩
  | .up => ⟨true, true⟩
  | .goingUp | .goingDown => ⟨false, true⟩

/-- A delivery, with the run of the consumer it belongs to, its settlements and the `MESSAGE_NEXT` that followed. -/
structure Entry where
  delivery : Delivery
  run : ℕ
  calls : ℕ
  nexts : ℕ
deriving DecidableEq

/-- A request that settles the message of a delivery. -/
structure Request where
  index : ℕ
  cmd : Cmd
deriving DecidableEq

/-- `dequeues`: how many messages the consumer waits for; `requests`: in the order in which they were made. -/
structure State where
  db : Db
  power : Power
  run : ℕ
  dequeues : ℕ
  entries : List Entry
  requests : List Request

def init : State where
  db := .empty
  power := .down
  run := 0
  dequeues := 0
  entries := []
  requests := []

inductive Action
  | other (db : Db)
  | goUp
  | up
  | goDown
  | halt
  | dequeue (now : ℕ)
  | event (index : ℕ) (e : Event) (now : ℕ)
  | exec

section Step

variable (lt : Text → Text → Bool) (config : Queue.ConsumerConfig) (id : String)

/-- The request of a settlement. -/
def settlementCmd (m : Message) (now : ℕ) : Settlement → Cmd
  | .acknowledge => ProcessingHandler.acknowledge config.ns config.queueName (config.keyQueueProcessing id)
  | .unacknowledge cause => Broker.retry config.ns config.queueName (config.keyQueueProcessing id) m cause now

/-- `dequeueMessage`: the reply, with the message if there is one. -/
def pop (db : Db) : Option (Db × Option Message) :=
  let keys := getKeys config.ns config.queueName none
  if config.priorityQueue then
    match db.zpophgetrpush keys.keyQueuePriority keys.keyPendingMessagesWithPriority (config.keyQueueProcessing id) with
    | (_, .nil) => none
    | (db, .error) => some (db, none)
    | (db, .message m) => some (db, some m)
  else
    match (db.lists keys.keyQueue).getLast? with
    | none => none
    | some m => some (db.exec lt (.rpoplpush keys.keyQueue (config.keyQueueProcessing id)), some m)

/-- `handleReceivedMessage`: an expired message is settled at once. -/
def handleReceivedMessage (s : State) (m : Message) (now : ℕ) : State :=
  if m.hasExpired now then
    let settlements := s.power.moment.settle (.unacknowledge .ttlExpired)
    { s with
      entries := s.entries ++ [⟨Delivery.expired m, s.run, settlements.length, 0⟩]
      requests := s.requests ++ settlements.map (fun c => ⟨s.entries.length, settlementCmd config id m now c⟩) }
  else { s with entries := s.entries ++ [⟨Delivery.start m, s.run, 0, 0⟩] }

def step (s : State) : Action → Option State
  | .other db =>
    if db.lists (config.keyQueueProcessing id) = s.db.lists (config.keyQueueProcessing id) ∨
        ((s.power = .down ∨ s.power = .goingUp) ∧ db.lists (config.keyQueueProcessing id) = []) then
      some { s with db := db }
    else none
  | .goUp => if s.power = .down then some { s with power := .goingUp, run := s.run + 1 } else none
  | .up => if s.power = .goingUp then some { s with power := .up, dequeues := s.dequeues + 1 } else none
  | .goDown => if s.power = .up then some { s with power := .goingDown } else none
  | .halt => if s.power = .goingDown then some { s with power := .down, dequeues := 0, requests := [] } else none
  | .dequeue now =>
    if 0 < s.dequeues then
      match pop lt config id s.db with
      | none => none
      | some (db, none) => some { s with db := db, dequeues := s.dequeues - 1 }
      | some (db, some m) =>
        some (handleReceivedMessage config id { s with db := db, dequeues := s.dequeues - 1 } m now)
    else none
  | .event index e now => do
    let entry ← s.entries[index]?
    let (d, settlements) ← entry.delivery.handle s.power.moment e
    return { s with
      entries := s.entries.set index { entry with delivery := d, calls := entry.calls + settlements.length }
      requests := s.requests ++ settlements.map (fun c => ⟨index, settlementCmd config id d.message now c⟩) }
  | .exec =>
    match s.requests with
    | [] => none
    | r :: requests =>
      some { s with
        db := s.db.exec lt r.cmd
        requests := requests
        entries := s.entries.modify r.index (fun entry => { entry with nexts := entry.nexts + 1 })
        dequeues := s.dequeues + if s.power = .up then 1 else 0 }

/-- The consumer as a machine. -/
def system : Transition.Machine State Action where
  init := init
  step := step lt config id

end Step

end RedisSmq.Consumer
