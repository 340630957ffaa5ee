import Mathlib.Data.Nat.Notation

/-!
# Power managers and tickers

`PowerManager` is the state of a component that goes up and down; a transition is begun and then committed or rolled
back. A `Ticker` calls a function each time its timer fires; timers live in the event loop, and a ticker only keeps a
handle (`Timer`). Whatever throws is an exception.
-/

namespace RedisSmq

inductive TStates
  | up | down
deriving DecidableEq

structure PowerManager where
  state : TStates
  pendingState : Option TStates
deriving DecidableEq

namespace PowerManager

def new : PowerManager := ⟨.down, none⟩

def switchState (p : PowerManager) (s : TStates) : Except String PowerManager :=
  if p.pendingState ≠ none then
    .error "Can not switch state while another state transition is in progress."
  else if s = p.state then .error "Can not switch to the same current state."
  else .ok { p with pendingState := some s }

def isUp (p : PowerManager) : Bool := p.state = .up

def isDown (p : PowerManager) : Bool := p.state = .down

def isGoingUp (p : PowerManager) : Bool := p.pendingState = some .up

def isGoingDown (p : PowerManager) : Bool := p.pendingState = some .down

/-- The source negates `pendingState`, and `UP` is the number `0`. -/
def isRunning (p : PowerManager) : Bool := p.isUp && p.pendingState ≠ some .down

def goingUp (p : PowerManager) : Except String PowerManager := p.switchState .up

def goingDown (p : PowerManager) : Except String PowerManager := p.switchState .down

def commit (p : PowerManager) : Except String PowerManager :=
  match p.pendingState with
  | none => .error "Expected a pending state"
  | some s => .ok ⟨s, none⟩

def rollback (p : PowerManager) : Except String PowerManager :=
  match p.pendingState with
  | none => .error "Expected a pending state"
  | some _ => .ok { p with pendingState := none }

end PowerManager

/-- The handle of a timer: a timer that was cleared does not fire, but its handle is kept. -/
inductive Timer
  | null | live | cleared
deriving DecidableEq

/-- `clearTimeout` and `clearInterval`. -/
def Timer.clear : Timer → Timer
  | .live => .cleared
  | t => t

/-- The function that a ticker calls. -/
inductive TickFn (F : Type)
  | onTickFn
  | onNextTickFn (fn : F)

structure Ticker (F : Type) where
  powerManager : PowerManager
  onNextTickFn : Option F
  timeout : Timer
  interval : Timer

namespace Ticker

variable {F : Type}

/-- The constructor. -/
def new : Ticker F where
  powerManager := ⟨.down, some .up⟩
  onNextTickFn := none
  timeout := .null
  interval := .null

/-- `shutdown`, which emits `DOWN`. -/
def shutdown (t : Ticker F) : Except String (Ticker F) := do
  let p ← t.powerManager.commit
  return { t with powerManager := p, timeout := t.timeout.clear, interval := t.interval.clear }

/-- `onTick`: the function that is called. -/
def onTick (t : Ticker F) : Ticker F × Option (TickFn F) :=
  if t.powerManager.isRunning then
    ({ t with onNextTickFn := none }, some (t.onNextTickFn.elim .onTickFn .onNextTickFn))
  else (t, none)

/-- `quit`, which emits `DOWN` when it does not throw. -/
def quit (t : Ticker F) : Except String (Ticker F) := do
  if t.powerManager.isGoingUp then
    let p ← t.powerManager.rollback
    return { t with powerManager := p }
  else
    let p ← t.powerManager.goingDown
    { t with powerManager := p }.shutdown

/-- What `nextTick` and `runTimer` do before they set their timer; `none` when they set none. -/
def startTimer (t : Ticker F) : Except String (Option (Ticker F)) := do
  if t.timeout ≠ .null ∨ t.interval ≠ .null then .error "A timer is already running"
  else if t.powerManager.isGoingUp then
    let p ← t.powerManager.commit
    return some { t with powerManager := p }
  else if t.powerManager.isRunning then return some t
  else return none

def nextTick (t : Ticker F) : Except String (Ticker F) := do
  match ← t.startTimer with
  | some t => return { t with timeout := .live }
  | none => return t

def nextTickFn (t : Ticker F) (fn : F) : Except String (Ticker F) := { t with onNextTickFn := some fn }.nextTick

def runTimer (t : Ticker F) : Except String (Ticker F) := do
  match ← t.startTimer with
  | some t => return { t with interval := .live }
  | none => return t

/-- The timeout fires. -/
def timeoutFires (t : Ticker F) : Ticker F × Option (TickFn F) := { t with timeout := .null }.onTick

end Ticker

end RedisSmq
