import Mathlib.Logic.Function.Basic
import RedisSmq.Common.LockManager
import RedisSmq.Common.WorkerRunner
import RedisSmq.Lib.Machine

/-!
# Consumer workers

Every consumer has a `ConsumerWorkers`: a ticker asks redlock for one lock that all consumers share, and the consumer that
gets it starts the worker processes. The state holds what each of them keeps between two events, and the lock.

- an event is something that the event loop does: the timer fires, a reply arrives, the directory was read, a worker
  exits, `quit` is called. An exception ends the process (`crashed`);
- Redis answers a request of redlock when it likes, and replies arrive when they like. A free lock is granted; the lock
  that is held, and no other, is extended. Redlock refuses with a `LockError`, or fails with another error;
- the lock expires whenever its time to live passes without an extension.
-/

namespace RedisSmq.Workers

/-- A request to redlock and, once it has been answered, the reply on its way. -/
structure Request (α β : Type) where
  request : α
  reply : Option β
deriving DecidableEq

/-- How far `quit` has come: its steps in their order, and the call of its callback. -/
inductive Teardown
  | notCalled | shutdownWorkers | releaseLock | done
deriving DecidableEq

/-- `acquiring` and `unlocking`: the requests to redlock; `reading`: `run` reads the directory. -/
structure ConsumerWorkers where
  ticker : Ticker Empty
  lockerManager : LockManager
  workerRunner : WorkerRunner
  acquiring : Option (Request LockRequest RedlockReply)
  reading : Bool
  unlocking : Option (Request LockValue UnlockReply)
  teardown : Teardown
  crashed : Bool

inductive Event
  | timeout
  | reply
  | listing (files : Option (List String))
  | exit
  | unlocked
  | quit

namespace ConsumerWorkers

/-- The constructor, which starts the ticker. -/
def new : ConsumerWorkers where
  ticker := { (Ticker.new : Ticker Empty) with powerManager := ⟨.up, none⟩, timeout := .live }
  lockerManager := .new false
  workerRunner := .new
  acquiring := none
  reading := false
  unlocking := none
  teardown := .notCalled
  crashed := false

example : (Ticker.new : Ticker Empty).nextTick = .ok new.ticker := rfl

def nextTick (w : ConsumerWorkers) : Except String ConsumerWorkers := do
  let t ← w.ticker.nextTick
  return { w with ticker := t }

/-- `onTick`, when the timer fires. -/
def onTimeout (w : ConsumerWorkers) : ConsumerWorkers :=
  match w.ticker.timeoutFires with
  | (t, some .onTickFn) => { w with ticker := t, acquiring := some ⟨w.lockerManager.acquireLock, none⟩ }
  | (t, _) => { w with ticker := t }

/-- The callback of `acquireLock`; an error is only emitted. -/
def onAcquired (w : ConsumerWorkers) : LockAnswer → Except String ConsumerWorkers
  | .error => .ok w
  | .locked false => w.nextTick
  | .locked true =>
    if w.workerRunner.isRunning then w.nextTick
    else do
      let r ← w.workerRunner.run
      return { w with workerRunner := r, reading := true }

/-- The reply to `lock` or `extend`. -/
def onReply (w : ConsumerWorkers) (reply : RedlockReply) : Except String ConsumerWorkers :=
  match w.lockerManager.handleRedlockReply reply with
  | (l, some answer) => { w with lockerManager := l, acquiring := none }.onAcquired answer
  | (l, none) => .ok { w with lockerManager := l, acquiring := none }

/-- The reply to `readdir`; an error is only emitted. -/
def onListing (w : ConsumerWorkers) : Option (List String) → Except String ConsumerWorkers
  | none => .ok { w with reading := false }
  | some files => do
    let r ← w.workerRunner.onListing files
    { w with workerRunner := r, reading := false }.nextTick

/-- The last step of `quit`. -/
def releaseLock (w : ConsumerWorkers) : ConsumerWorkers :=
  match w.lockerManager.quit with
  | (l, some lock) => { w with lockerManager := l, unlocking := some ⟨lock, none⟩, teardown := .releaseLock }
  | (l, none) => { w with lockerManager := l, teardown := .done }

/-- What follows a step of the shutdown of the workers. -/
def onShutdown (w : ConsumerWorkers) (r : WorkerRunner × Bool) : ConsumerWorkers :=
  if r.2 then { w with workerRunner := r.1 }.releaseLock
  else { w with workerRunner := r.1, teardown := .shutdownWorkers }

/-- `quit`: the ticker, then the workers, then the lock. -/
def quit (w : ConsumerWorkers) : Except String ConsumerWorkers := do
  let t ← w.ticker.quit
  let r ← w.workerRunner.shutdown
  return { w with ticker := t }.onShutdown r

/-- A worker that was killed exits. -/
def onExit (w : ConsumerWorkers) : Except String ConsumerWorkers := do
  let r ← w.workerRunner.onExit
  return w.onShutdown r

/-- The reply to `unlock`; the callback of `quit` is called. -/
def onUnlocked (w : ConsumerWorkers) (reply : UnlockReply) : ConsumerWorkers :=
  { w with lockerManager := (w.lockerManager.handleUnlockReply reply).1, unlocking := none, teardown := .done }

/-- What an event does; `none` when it can not happen. The consumer calls `quit` once. -/
def handle (w : ConsumerWorkers) : Event → Option (Except String ConsumerWorkers)
  | .timeout => if w.ticker.timeout = .live then some (.ok w.onTimeout) else none
  | .reply =>
    match w.acquiring with
    | some ⟨_, some reply⟩ => some (w.onReply reply)
    | _ => none
  | .listing files => if w.reading then some (w.onListing files) else none
  | .exit => if w.workerRunner.killed.isSome then some w.onExit else none
  | .unlocked =>
    match w.unlocking with
    | some ⟨_, some reply⟩ => some (.ok (w.onUnlocked reply))
    | _ => none
  | .quit => if w.teardown = .notCalled then some w.quit else none

/-- The worker processes that are alive. -/
def alive (w : ConsumerWorkers) : List String := w.workerRunner.alive

end ConsumerWorkers

/-- `owner`: the value of the lock, while it is held; `serial`: the number of the next value that is drawn. -/
structure State where
  instances : String → ConsumerWorkers
  owner : Option LockValue
  serial : ℕ

def init : State where
  instances := fun _ => .new
  owner := none
  serial := 0

inductive Action
  | event (id : String) (e : Event)
  | redis (id : String)
  | redisFails (id : String)
  | redisUnlock (id : String)
  | expire

def State.set (s : State) (id : String) (w : ConsumerWorkers) : State :=
  { s with instances := Function.update s.instances id w }

@[simp] theorem State.set_self (s : State) (id : String) (w : ConsumerWorkers) : (s.set id w).instances id = w :=
  Function.update_self ..

theorem State.set_of_ne (s : State) {id id' : String} (w : ConsumerWorkers) (h : id' ≠ id) :
    (s.set id w).instances id' = s.instances id' := Function.update_of_ne h ..

/-- The reply to the request of an instance. -/
def State.setReply (s : State) (id : String) (request : LockRequest) (reply : RedlockReply) : State :=
  s.set id { s.instances id with acquiring := some ⟨request, some reply⟩ }

/-- Redis answers the request of an instance that takes the lock. -/
def State.redis (s : State) (id : String) : Option State :=
  match (s.instances id).acquiring with
  | some ⟨.lock, none⟩ =>
    if s.owner = none then
      let lock : LockValue := ⟨id, s.serial⟩
      some ({ s with owner := some lock, serial := s.serial + 1 }.setReply id .lock (.lock lock))
    else some (s.setReply id .lock .lockError)
  | some ⟨.extend lock, none⟩ =>
    some (s.setReply id (.extend lock) (if s.owner = some lock then .lock lock else .lockError))
  | _ => none

/-- Redis answers the request of an instance that releases the lock. -/
def State.redisUnlock (s : State) (id : String) : Option State :=
  match (s.instances id).unlocking with
  | some ⟨lock, none⟩ =>
    if s.owner = some lock then
      some ({ s with owner := none }.set id { s.instances id with unlocking := some ⟨lock, some .unlocked⟩ })
    else some (s.set id { s.instances id with unlocking := some ⟨lock, some .lockError⟩ })
  | _ => none

def step (s : State) : Action → Option State
  | .event id e =>
    let w := s.instances id
    if w.crashed then none
    else
      match w.handle e with
      | none => none
      | some (.ok w') => some (s.set id w')
      | some (.error _) => some (s.set id { w with crashed := true })
  | .redis id => s.redis id
  | .redisFails id =>
    match (s.instances id).acquiring with
    | some ⟨request, none⟩ => some (s.setReply id request .otherError)
    | _ => none
  | .redisUnlock id => s.redisUnlock id
  | .expire => some { s with owner := none }

/-- An event of an instance changes this instance alone. -/
theorem step_event {s s' : State} {id : String} {e : Event} (hs : step s (.event id e) = some s') :
    ∃ w, s' = s.set id w := by
  simp only [step] at hs
  split at hs
  · cases hs
  · split at hs <;> cases hs <;> exact ⟨_, rfl⟩

/-- The system as a machine. -/
def system : Transition.Machine State Action where
  init := init
  step := step

end RedisSmq.Workers
