import RedisSmq.Common.LockManager
import RedisSmq.Lib.Machine

/-!
# A lock manager and its lock

One `LockManager`, its calls in flight, its retry timers and the resource that it locks. Calls are made at any time, also
before earlier ones have been answered; Redis answers the requests in their order and the replies arrive in their order;
the lock expires or is taken by others whenever it can be.

A free resource is granted, a lock that is held is extended, and everything else is refused with a `LockError`; a request
can also fail with another error. A retry timer that is set while another one is live takes its handle away: nothing
clears that one any more (`stray`).
-/

namespace RedisSmq.Locks

open Transition

/-- A call whose request waits for Redis. `late`: an `acquireLock` that was made after one had answered `false`; `quits`: the
`releaseLock` that `quit` calls. -/
inductive Sent
  | acquire (request : LockRequest) (late : Bool)
  | release (lock : LockValue) (quits : Bool)
deriving DecidableEq

/-- A call whose reply is on its way; `free`: the resource was free when Redis answered. -/
inductive Replied
  | acquire (request : LockRequest) (late : Bool) (reply : RedlockReply) (free : Bool)
  | release (lock : LockValue) (quits : Bool) (reply : UnlockReply)
deriving DecidableEq

/-- The call that a reply is for. -/
def Replied.call : Replied → Sent
  | .acquire request late _ _ => .acquire request late
  | .release lock quits _ => .release lock quits

/-- `redlock`: the field of this name is not null; `owner`: who holds the resource. The last five fields say what the callers
know: the answer of the last completed `acquireLock`, whether the lock was released since, whether some `acquireLock` has
answered `false`, whether a later one was refused a free resource, and whether the callback of `quit` was called. -/
structure State where
  manager : LockManager
  redlock : Bool
  stray : ℕ
  sent : List Sent
  replied : List Replied
  owner : Option LockValue
  serial : ℕ
  last : Option LockAnswer
  released : Bool
  answeredFalse : Bool
  refused : Bool
  quitDone : Bool

/-- The constructor. -/
def init (retryOnFail : Bool) : State where
  manager := .new retryOnFail
  redlock := true
  stray := 0
  sent := []
  replied := []
  owner := none
  serial := 0
  last := none
  released := false
  answeredFalse := false
  refused := false
  quitDone := false

inductive Action
  | acquireLock | releaseLock | quit
  | timer | strayTimer
  | redis | redisFails | reply
  | expire | take (other : String)
deriving DecidableEq

namespace State

variable (s : State)

/-- `isLocked`. -/
def isLocked : Bool := s.manager.acquiredLock.isSome

/-- The calls in flight, in their order. -/
def calls : List Sent := s.replied.map Replied.call ++ s.sent

/-- `acquireLock`: the request it makes, or the error it answers. -/
def acquireLock : Except String LockRequest :=
  match s.manager.acquiredLock with
  | some lock => .ok (.extend lock)
  | none =>
    if s.redlock then .ok .lock
    else .error "Instance is no longer usable after calling quit(). Create a new instance."

/-- The callback of an `acquireLock` is called. -/
def answer (a : LockAnswer) : State :=
  { s with last := some a, released := false, answeredFalse := s.answeredFalse || decide (a = .locked false) }

def callAcquireLock : State :=
  match s.acquireLock with
  | .ok request => { s with sent := s.sent ++ [.acquire request s.answeredFalse] }
  | .error _ => s.answer .error

def callReleaseLock (quits : Bool) : State :=
  match s.manager.releaseLock with
  | (l, some lock) => { s with manager := l, sent := s.sent ++ [.release lock quits] }
  | (l, none) => { s with manager := l, released := true, quitDone := s.quitDone || quits }

def callQuit : State := if s.redlock then s.callReleaseLock true else { s with quitDone := true }

/-- The reply to `lock` or `extend` arrives. -/
def onReply (late free : Bool) (reply : RedlockReply) : State :=
  match s.manager.handleRedlockReply reply with
  | (l, some a) => { s with manager := l, refused := s.refused || (late && free && decide (a ≠ LockAnswer.locked true)) }.answer a
  | (l, none) => { s with manager := l, stray := if s.manager.timer = .live then s.stray + 1 else s.stray }

/-- The reply to `unlock` arrives. -/
def onUnlockReply (quits : Bool) (reply : UnlockReply) : State :=
  let (l, err) := s.manager.handleUnlockReply reply
  { s with manager := l, released := s.released || !err, quitDone := s.quitDone || quits }

end State

/-- What Redis does with a request: the new owner, and the reply. -/
def serve (owner : Option LockValue) (own : LockValue) : LockRequest → Option LockValue × RedlockReply
  | .lock => if owner.isNone then (some own, .lock own) else (owner, .lockError)
  | .extend lock => if owner = some lock then (owner, .lock lock) else (owner, .lockError)

def unlock (owner : Option LockValue) (lock : LockValue) : Option LockValue × UnlockReply :=
  if owner = some lock then (none, .unlocked) else (owner, .lockError)

/-- Redis answers the first request that waits. -/
def redis (s : State) : Option State :=
  match s.sent with
  | [] => none
  | .acquire request late :: rest =>
    let (owner, reply) := serve s.owner ⟨"manager", s.serial⟩ request
    some { s with
      owner := owner
      serial := s.serial + 1
      sent := rest
      replied := s.replied ++ [.acquire request late reply s.owner.isNone] }
  | .release lock quits :: rest =>
    let (owner, reply) := unlock s.owner lock
    some { s with owner := owner, sent := rest, replied := s.replied ++ [.release lock quits reply] }

/-- The first request that waits fails. -/
def redisFails (s : State) : Option State :=
  match s.sent with
  | [] => none
  | .acquire request late :: rest =>
    some { s with sent := rest, replied := s.replied ++ [.acquire request late .otherError s.owner.isNone] }
  | .release lock quits :: rest =>
    some { s with sent := rest, replied := s.replied ++ [.release lock quits .otherError] }

/-- The first reply arrives. -/
def reply (s : State) : Option State :=
  match s.replied with
  | [] => none
  | .acquire _ late reply free :: rest => some ({ s with replied := rest }.onReply late free reply)
  | .release _ quits reply :: rest => some ({ s with replied := rest }.onUnlockReply quits reply)

def step (s : State) : Action → Option State
  | .acquireLock => some s.callAcquireLock
  | .releaseLock => some (s.callReleaseLock false)
  | .quit => some s.callQuit
  | .timer =>
    -- the handle of a timer that fired stays where it is
    if s.manager.timer = .live then some { s with manager := { s.manager with timer := .cleared } }.callAcquireLock
    else none
  | .strayTimer => if s.stray = 0 then none else some { s with stray := s.stray - 1 }.callAcquireLock
  | .redis => redis s
  | .redisFails => redisFails s
  | .reply => reply s
  | .expire => some { s with owner := none }
  | .take other =>
    if s.owner.isNone then some { s with owner := some ⟨other, s.serial⟩, serial := s.serial + 1 } else none

/-- The machine of one lock manager. -/
def system (retryOnFail : Bool) : Machine State Action where
  init := init retryOnFail
  step := step

variable {s : State}

/-! ## The calls in flight -/

theorem calls_send (s : State) (c : Sent) : State.calls { s with sent := s.sent ++ [c] } = s.calls ++ [c] :=
  (List.append_assoc _ _ _).symm

/-- An answered request stays at its place among the calls. -/
theorem calls_answered {c : Sent} {rest : List Sent} {r : Replied} (hsent : s.sent = c :: rest) (hcall : r.call = c)
    (owner : Option LockValue) (serial : ℕ) :
    State.calls { s with owner := owner, serial := serial, sent := rest, replied := s.replied ++ [r] } = s.calls := by
  simp [State.calls, hsent, hcall]

/-- The first reply is for the first call. -/
theorem calls_replied {r : Replied} {rest : List Replied} (hreplied : s.replied = r :: rest) :
    s.calls = r.call :: State.calls { s with replied := rest } := by
  simp [State.calls, hreplied]

/-! ## Releases -/

theorem clear_ne_live (t : Timer) : t.clear ≠ .live := by
  cases t <;> simp [Timer.clear]

/-- Without a lock the callback is called at once. -/
theorem callReleaseLock_none (hlock : s.manager.acquiredLock = none) (quits : Bool) : s.callReleaseLock quits =
    { s with
      manager := { s.manager with timer := s.manager.timer.clear }
      released := true
      quitDone := s.quitDone || quits } := by
  simp [State.callReleaseLock, LockManager.releaseLock, hlock]

theorem callReleaseLock_some {lock : LockValue} (hlock : s.manager.acquiredLock = some lock) (quits : Bool) :
    s.callReleaseLock quits =
      { s with
        manager := { s.manager with timer := s.manager.timer.clear }
        sent := s.sent ++ [.release lock quits] } := by
  simp [State.callReleaseLock, LockManager.releaseLock, hlock]

/-- The lock is released, or it was not held any more. -/
theorem onUnlockReply_released {reply : UnlockReply} (h : reply ≠ .otherError) (quits : Bool) :
    s.onUnlockReply quits reply =
      { s with
        manager := { s.manager with acquiredLock := none }
        released := true
        quitDone := s.quitDone || quits } := by
  cases reply with
  | unlocked | lockError => simp [State.onUnlockReply, LockManager.handleUnlockReply]
  | otherError => exact absurd rfl h

theorem unlock_ne_otherError (owner : Option LockValue) (lock : LockValue) : (unlock owner lock).2 ≠ .otherError := by
  unfold unlock
  split <;> exact fun h => by cases h

end RedisSmq.Locks
