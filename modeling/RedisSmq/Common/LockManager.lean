import RedisSmq.Common.Ticker

/-!
# Lock managers

`LockManager` keeps a lock of redlock, a value that redlock draws when it takes the lock. The functions here are what a
lock manager does when it is called and when redlock replies; the lock itself, a key that expires, is not its business.
-/

namespace RedisSmq

/-- The value of a lock: the one that drew it, and a number that makes it unique. -/
structure LockValue where
  holder : String
  serial : ℕ
deriving DecidableEq

/-- The requests to redlock that take the lock. -/
inductive LockRequest
  | lock
  | extend (lock : LockValue)
deriving DecidableEq

/-- What the callback of `lock` and `extend` is called with; `lock` with the lock that is held now. -/
inductive RedlockReply
  | lock (lock : LockValue)
  | empty
  | lockError
  | otherError
deriving DecidableEq

/-- What the callback of `unlock` is called with. -/
inductive UnlockReply
  | unlocked
  | lockError
  | otherError
deriving DecidableEq

/-- What the callback of `acquireLock` is called with. -/
inductive LockAnswer
  | locked (locked : Bool)
  | error
deriving DecidableEq

structure LockManager where
  acquiredLock : Option LockValue
  timer : Timer
  retryOnFail : Bool

namespace LockManager

def new (retryOnFail : Bool) : LockManager where
  acquiredLock := none
  timer := .null
  retryOnFail := retryOnFail

/-- `acquireLock`: the request it makes. -/
def acquireLock (l : LockManager) : LockRequest := l.acquiredLock.elim .lock .extend

/-- `acquireLockRetryOnFail` for a `LockError`; without an answer there is a timer that calls `acquireLock` again. -/
def acquireLockRetryOnFail (l : LockManager) : LockManager × Option LockAnswer :=
  if l.retryOnFail then ({ l with acquiredLock := none, timer := .live }, none) else (l, some (.locked false))

/-- `handleRedlockReply`. -/
def handleRedlockReply (l : LockManager) : RedlockReply → LockManager × Option LockAnswer
  | .lock lock => ({ l with acquiredLock := some lock }, some (.locked true))
  | .empty => (l, some .error)
  | .lockError => l.acquireLockRetryOnFail
  | .otherError => (l, some .error)

/-- `releaseLock`: the lock to unlock; without one the callback is called at once. -/
def releaseLock (l : LockManager) : LockManager × Option LockValue :=
  ({ l with timer := l.timer.clear }, l.acquiredLock)

/-- The callback of `unlock`, and whether it is called with an error. -/
def handleUnlockReply (l : LockManager) : UnlockReply → LockManager × Bool
  | .unlocked | .lockError => ({ l with acquiredLock := none }, false)
  | .otherError => (l, true)

/-- `quit`. -/
def quit (l : LockManager) : LockManager × Option LockValue := l.releaseLock

end LockManager

end RedisSmq
