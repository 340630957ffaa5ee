import RedisSmq.Common.Ticker

/-!
# Worker runners

`WorkerRunner` forks a process for every worker file of a directory, and shuts the processes down one after the other. A
process is alive until it exits, which it does when it was sent `SIGHUP`.
-/

namespace RedisSmq

/-- `workers`: the files of the processes that were started; `killed`: the process that was sent `SIGHUP` and did not exit
yet. -/
structure WorkerRunner where
  powerManager : PowerManager
  workers : List String
  killed : Option String

namespace WorkerRunner

/-- `filename.match(/\.worker\.js$/)`. -/
def isWorkerFile (filename : String) : Bool := ".worker.js".toList.isSuffixOf filename.toList

def new : WorkerRunner where
  powerManager := .new
  workers := []
  killed := none

/-- The processes that are alive. -/
def alive (r : WorkerRunner) : List String := r.workers ++ r.killed.toList

def isRunning (r : WorkerRunner) : Bool := r.powerManager.isRunning

/-- `run` until it reads the directory. -/
def run (r : WorkerRunner) : Except String WorkerRunner := do
  let p ← r.powerManager.goingUp
  return { r with powerManager := p }

/-- `run` once it has read the directory: the worker files are started. -/
def onListing (r : WorkerRunner) (files : List String) : Except String WorkerRunner := do
  let p ← r.powerManager.commit
  return { r with powerManager := p, workers := r.workers ++ files.filter isWorkerFile }

/-- `shutdownFn`: the last worker is killed, or, when there is none, the runner is down and the callback is called. -/
def shutdownFn (r : WorkerRunner) : Except String (WorkerRunner × Bool) :=
  match r.workers.getLast? with
  | some worker => .ok ({ r with workers := r.workers.dropLast, killed := some worker }, false)
  | none => do
    let p ← r.powerManager.commit
    return ({ r with powerManager := p }, true)

/-- `shutdown`, and whether it calls its callback at once. -/
def shutdown (r : WorkerRunner) : Except String (WorkerRunner × Bool) := do
  if r.isRunning then
    let p ← r.powerManager.goingDown
    { r with powerManager := p }.shutdownFn
  else return (r, true)

/-- The killed process exits. -/
def onExit (r : WorkerRunner) : Except String (WorkerRunner × Bool) := { r with killed := none }.shutdownFn

end WorkerRunner

end RedisSmq
