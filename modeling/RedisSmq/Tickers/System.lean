import RedisSmq.Common.Ticker
import RedisSmq.Lib.Machine
import RedisSmq.Lib.Timers

/-!
# A ticker and its event loop

A `Ticker` with the timers it has set: it keeps the identifiers of the timers, and the event loop knows which of them are
live. Its methods are called at any time, also by the functions that it calls, and by listeners of `DOWN`: those are the
last things that its methods do, so what they call comes after.

- `step`: a call of a method, or the firing of a timer;
- `State.toTicker`: the ticker by the state of its handles; the methods agree (`Phase.toTicker_nextTick`, `Phase.toTicker_quit`).
-/

namespace RedisSmq.Tickers

open Timers Transition

variable {F : Type}

/-- What can be observed of a ticker: a function is given to `nextTickFn`, one is called, `DOWN` is emitted. -/
inductive Event (F : Type)
  | given (fn : F)
  | ticked (fn : TickFn F)
  | down

def Event.isTick : Event F → Bool
  | .ticked _ => true
  | _ => false

def Event.isDown : Event F → Bool
  | .down => true
  | _ => false

structure State (F : Type) where
  powerManager : PowerManager
  onNextTickFn : Option F
  timeout : Option ℕ
  interval : Option ℕ
  loop : EventLoop
  log : List (Event F)

/-- What a call leaves, and the message of what it throws. -/
abbrev Result (F : Type) := State F × Option String

namespace State

/-- The constructor. -/
def new (F : Type) : State F where
  powerManager := ⟨.down, some .up⟩
  onNextTickFn := none
  timeout := none
  interval := none
  loop := .empty
  log := []

def emit (s : State F) (e : Event F) : State F := { s with log := s.log ++ [e] }

/-- The event loop after `if (this.timeout) clearTimeout(this.timeout)` and the same for the interval. -/
def cleared (s : State F) : EventLoop :=
  let loop := s.timeout.elim s.loop s.loop.clear
  s.interval.elim loop loop.clear

def shutdown (s : State F) : Result F :=
  let s := { s with loop := s.cleared }
  match s.powerManager.commit with
  | .error e => (s, some e)
  | .ok p => ({ s with powerManager := p }.emit .down, none)

def onTick (s : State F) : State F :=
  if s.powerManager.isRunning then
    let tickFn := s.onNextTickFn.elim .onTickFn .onNextTickFn
    { s with onNextTickFn := none }.emit (.ticked tickFn)
  else s

def quit (s : State F) : Result F :=
  if s.powerManager.isGoingUp then
    match s.powerManager.rollback with
    | .error e => (s, some e)
    | .ok p => ({ s with powerManager := p }.emit .down, none)
  else
    match s.powerManager.goingDown with
    | .error e => (s, some e)
    | .ok p => { s with powerManager := p }.shutdown

/-- What `nextTick` and `runTimer` have in common; `handle` keeps the identifier of the timer. -/
def startTimer (s : State F) (kind : Kind) (handle : State F → ℕ → State F) : Result F :=
  if s.timeout.isSome || s.interval.isSome then (s, some "A timer is already running")
  else if s.powerManager.isGoingUp || s.powerManager.isRunning then
    match if s.powerManager.isGoingUp then s.powerManager.commit else .ok s.powerManager with
    | .error e => (s, some e)
    | .ok p => (handle { s with powerManager := p, loop := s.loop.set kind } s.loop.next, none)
  else (s, none)

def nextTick (s : State F) : Result F := s.startTimer .timeout fun s id => { s with timeout := some id }

def nextTickFn (s : State F) (fn : F) : Result F := ({ s with onNextTickFn := some fn }.emit (.given fn)).nextTick

def runTimer (s : State F) : Result F := s.startTimer .interval fun s id => { s with interval := some id }

/-- The callback of a timer; that of a timeout forgets the identifier first. -/
def onTimer (s : State F) : Kind → State F
  | .timeout => { s with timeout := none }.onTick
  | .interval => s.onTick

end State

inductive Action (F : Type)
  | nextTick
  | nextTickFn (fn : F)
  | runTimer
  | quit
  | fires (id : ℕ)

def step (s : State F) : Action F → Option (State F)
  | .nextTick => some s.nextTick.1
  | .nextTickFn fn => some (s.nextTickFn fn).1
  | .runTimer => some s.runTimer.1
  | .quit => some s.quit.1
  | .fires id => (s.loop.fire id).map fun (loop, kind) => { s with loop := loop }.onTimer kind

def system (F : Type) : Machine (State F) (Action F) where
  init := .new F
  step := step

/-! ## The ticker -/

/-- A handle by what the event loop knows of its timer. -/
def timer (l : EventLoop) : Option ℕ → Timer
  | none => .null
  | some id => if (l.kind? id).isSome then .live else .cleared

def State.toTicker (s : State F) : Ticker F where
  powerManager := s.powerManager
  onNextTickFn := s.onNextTickFn
  timeout := timer s.loop s.timeout
  interval := timer s.loop s.interval

/-- The ticker that a call leaves, unless it throws. -/
def Result.toTicker : Result F → Except String (Ticker F)
  | (s, none) => .ok s.toTicker
  | (_, some e) => .error e

example : (State.new F).toTicker = Ticker.new := rfl

end RedisSmq.Tickers
