import RedisSmq.Common.Ticker
import RedisSmq.Lib.Machine
import RedisSmq.Stats.MessageRate

/-!
# Message rates and the worker that reads them

Producers and consumers count messages and, on every tick of theirs, write their rates to the hash of rates; the worker reads
the hash, sums up what has not expired, and deletes the rest. Each has a connection of its own, on which requests are
executed in their order, so that a write can be executed long after its tick, and a deletion after the next write.

The log notes what was counted, and what was computed on every tick.
-/

namespace RedisSmq.Monitor

open Js KeyText Stats Transition

/-- A producer or a consumer. -/
structure Owner where
  isConsumer : Bool
  ns : Namespace
  queueName : QueueName
  id : Uuid

instance : DecidableEq Owner := fun o o' =>
  decidable_of_iff (o.isConsumer = o'.isConsumer ∧ o.ns.text = o'.ns.text ∧ o.queueName.text = o'.queueName.text ∧
    o.id.text = o'.id.text) <| by
    obtain ⟨isConsumer, ⟨ns, _⟩, ⟨queueName, _⟩, ⟨id, _, _⟩⟩ := o
    obtain ⟨isConsumer', ⟨ns', _⟩, ⟨queueName', _⟩, ⟨id', _, _⟩⟩ := o'
    simp

def Owner.key (o : Owner) (kind : RateKind) : String :=
  getInstanceKeys o.ns.text o.queueName.text o.id.text (.inr kind.key)

/-- `MessageRate`: its ticker runs from the constructor to `quit`. -/
structure MessageRate where
  ticker : Ticker Unit
  meter : Meter

/-- What the worker does: it has a reply to look at, or it deletes what has expired. -/
inductive Phase
  | idle
  | replied (result : List (String × JsString))
  | deletes (expiredKeys : List String)

def Phase.isReplied : Phase → Bool
  | .replied _ => true
  | _ => false

/-- `inFlight`: for each connection the data of its `hmset` requests, in their order. -/
structure State where
  messageRates : Owner → Option MessageRate
  inFlight : Owner → List (List (String × JsString))
  rates : Objects String JsString
  worker : Phase

def init : State where
  messageRates := fun _ => none
  inFlight := fun _ => []
  rates := ∅
  worker := .idle

inductive Action
  | setUpMessageRate (o : Owner)
  | increment (o : Owner) (kind : RateKind) (now : ℕ)
  | tick (o : Owner) (now : ℕ)
  | tearDownMessageRate (o : Owner)
  | hmset (o : Owner)
  | halt (o : Owner)
  | hgetall
  | getRates (now : String → ℕ)
  | hdel

/-- The reply with its numbers; a text that is no item has none. -/
def items (result : List (String × JsString)) : Option (List (String × RateItem)) :=
  result.mapM fun p => (RateItem.parse p.2).map fun item => (p.1, item)

/-- `HMSET`. -/
def setAll (rates : Objects String JsString) (data : List (String × JsString)) : Objects String JsString :=
  data.foldl (fun rates p => rates.insert p.1 p.2) rates

/-- `HDEL`. -/
def deleteAll (rates : Objects String JsString) (keys : List String) : Objects String JsString :=
  keys.foldl (fun rates key => rates.erase key) rates

section Step

variable (test : Bool)

/-- `onTick`: the rates are computed, and written with the clock value `now`. -/
def tick (s : State) (o : Owner) (r : MessageRate) (now : ℕ) : Option State :=
  match r.ticker.interval, r.ticker.onTick with
  | .live, (ticker, some _) =>
    let meter := (r.meter.getRateFields test).1
    some { s with
      messageRates := Function.update s.messageRates o (some ⟨ticker, meter⟩)
      inFlight := Function.update s.inFlight o (s.inFlight o ++ [meter.formatRateFields o.key now]) }
  | _, _ => none

/-- A connection is halted when its message rate has been torn down; what is still in flight is lost. -/
def step (s : State) : Action → Option State
  | .setUpMessageRate o =>
    match s.messageRates o, (Ticker.new : Ticker Unit).runTimer with
    | none, .ok ticker =>
      some { s with messageRates := Function.update s.messageRates o (some ⟨ticker, Meter.new o.isConsumer⟩) }
    | _, _ => none
  | .increment o kind now =>
    match s.messageRates o with
    | none => none
    | some r =>
      match r.meter.increment kind now with
      | none => none
      | some meter => some { s with messageRates := Function.update s.messageRates o (some { r with meter := meter }) }
  | .tick o now =>
    match s.messageRates o with
    | none => none
    | some r => tick test s o r now
  | .tearDownMessageRate o =>
    match s.messageRates o with
    | none => none
    | some r =>
      match r.ticker.quit with
      | .ok _ => some { s with messageRates := Function.update s.messageRates o none }
      | .error _ => none
  | .hmset o =>
    match s.inFlight o with
    | [] => none
    | data :: rest => some { s with inFlight := Function.update s.inFlight o rest, rates := setAll s.rates data }
  | .halt o =>
    if (s.messageRates o).isNone then some { s with inFlight := Function.update s.inFlight o [] } else none
  | .hgetall =>
    match s.worker with
    | .idle => some { s with worker := .replied (s.rates.entries.map fun e => (e.1, e.2)) }
    | _ => none
  | .getRates now =>
    match s.worker with
    | .replied result =>
      (items result).map fun items =>
        let expiredKeys := (getRates now items (reset : AggregatedStats Unit)).2
        { s with worker := if expiredKeys = [] then .idle else .deletes expiredKeys }
    | _ => none
  | .hdel =>
    match s.worker with
    | .deletes expiredKeys => some { s with rates := deleteAll s.rates expiredKeys, worker := .idle }
    | _ => none

/-- The system as a machine. -/
def system : Machine State Action where
  init := init
  step := step test

end Step

/-! ## The log -/

/-- What is noted; `idle`: whether `IDLE` was emitted. -/
inductive Note
  | setUp (o : Owner)
  | counted (o : Owner) (kind : RateKind)
  | ticked (o : Owner) (now : ℕ) (rates : RateKind → ℕ) (idle : Bool)

/-- The note of an action. -/
def notes (test : Bool) (s : State) : Action → List Note
  | .setUpMessageRate o => [.setUp o]
  | .increment o kind _ => [.counted o kind]
  | .tick o now =>
    match s.messageRates o with
    | none => []
    | some r => [.ticked o now (r.meter.getRateFields test).1.rates (r.meter.getRateFields test).2]
  | _ => []

namespace Note

def owner : Note → Owner
  | .setUp o | .counted o _ | .ticked o _ _ _ => o

def isSetUp : Note → Bool
  | .setUp _ => true
  | _ => false

def counts (kind : RateKind) : Note → Bool
  | .counted _ k => k = kind
  | _ => false

/-- The rates of a tick. -/
def rates : Note → Option (RateKind → ℕ)
  | .ticked _ _ rates _ => some rates
  | _ => none

end Note

/-- What was noted of an owner since it was set up, the newest first. -/
def recent (o : Owner) (log : List Note) : List Note :=
  log.foldl (fun l e => if e.owner = o then (if e.isSetUp then [] else e :: l) else l) []

/-- The messages of a kind that were counted. -/
def counted (kind : RateKind) (l : List Note) : ℕ := l.countP (·.counts kind)

/-- The rates that were computed, the newest first. -/
def published (l : List Note) : List (RateKind → ℕ) := l.filterMap Note.rates

/-- What is newer than the last tick. -/
def sinceTick (l : List Note) : List Note := l.takeWhile fun e => e.rates.isNone

theorem recent_append_singleton (o : Owner) (log : List Note) (e : Note) : recent o (log ++ [e]) =
    if e.owner = o then (if e.isSetUp then [] else e :: recent o log) else recent o log := by
  rw [recent, List.foldl_append]
  rfl

end RedisSmq.Monitor
