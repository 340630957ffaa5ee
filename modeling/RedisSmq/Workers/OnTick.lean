import RedisSmq.Gc.Worker
import RedisSmq.Lib.Callbacks

/-!
# What the workers of a consumer do at each tick

The `onTick` of the five workers, callback by callback. Each ends in `this.ticker.nextTick()`, which is the callback of
these flows, or throws.

Every branch does one of the two (`settles_gc`, `settles_drain`, `settles_schedule`, `settles_heartbeatMonitor`).

Texts are given by what the source makes of them: a key of a processing queue by its parts, a message and a heartbeat by
what `JSON.parse` returns or throws. A text that is not a key is `none`.
-/

namespace RedisSmq.OnTick

open Callbacks RedisKeys

/-- The text of a heartbeat: what is thrown, or the timestamp, if it is a number. -/
abbrev HeartbeatText := Except String (Option ℕ)

inductive Request
  | smembers (key : RedisKey)
  | hget (key field : RedisKey)
  | hgetall (key : RedisKey)
  | hdel (key : RedisKey) (fields : List String)
  | lrange (key : RedisKey) (start stop : ℕ)
  | zrangebyscore (key : RedisKey) (min max : ℕ)
  | hmget (key : RedisKey) (fields : List Text)
  | move (cmd : Cmd)
  | execMulti (cmds : List Cmd)

@[reducible] def Request.Reply : Request → Type
  | .smembers _ => Option (List (Option RedisKey))
  | .hget _ _ => Option HeartbeatText
  | .hgetall _ => Option (List (String × HeartbeatText))
  | .hdel _ _ => Option ℕ
  | .lrange _ _ _ => Option (List (Except String Message))
  | .zrangebyscore _ _ _ => Option (List Text)
  | .hmget _ _ => Option (List (Except String (Option Message)))
  | .move _ => Unit
  | .execMulti _ => Unit

abbrev redis : Interface := ⟨Request, Request.Reply⟩

/-- `if (err) throw err; this.ticker.nextTick();` -/
def nextTick {α : Type} : Result α → Flow redis Unit
  | .error e => .throw e
  | .ok _ => .call ()

/-! ## Heartbeats -/

namespace Heartbeat

/-- `validateOnlineTimestamp`; what is not a number is not valid. -/
def isOnline (now : ℕ) (timestamp : Option ℕ) : Bool := timestamp.any (RedisSmq.Heartbeat.validateOnlineTimestamp · now)

def isAlive (processNs queueName id : String) (cb : Result Bool → Task redis) : Task redis :=
  .request (.hget getGlobalKeys.keyIndexHeartbeats (getInstanceKeys processNs queueName id).keyHeartbeat)
    fun now reply =>
      match reply with
      | .error e => cb (.error e)
      | .ok none => cb (.ok false)
      | .ok (some (.error e)) => .throw e
      | .ok (some (.ok timestamp)) => cb (.ok (isOnline now timestamp))

/-- The valid and the expired ones. -/
def getHeartbeatsByStatus (cb : Result (List String × List String) → Flow redis Unit) : Flow redis Unit :=
  .request (.hgetall getGlobalKeys.keyIndexHeartbeats) fun now reply =>
    match reply with
    | .error e => cb (.error e)
    | .ok none => cb (.ok ([], []))
    | .ok (some data) =>
      match data.mapM fun (key, text) => text.map fun timestamp => (key, isOnline now timestamp) with
      | .error e => .throw e
      | .ok statuses =>
        let (valid, expired) := statuses.partition Prod.snd
        cb (.ok (valid.map Prod.fst, expired.map Prod.fst))

def handleExpiredHeartbeats (heartbeats : List String) (cb : Result (Option ℕ) → Flow redis Unit) : Flow redis Unit :=
  match heartbeats with
  | [] => cb (.ok none)
  | heartbeats => .request (.hdel getGlobalKeys.keyIndexHeartbeats heartbeats) fun _ reply => cb reply

end Heartbeat

namespace HeartbeatMonitorWorker

def getExpiredHeartbeats (cb : Result (List String) → Flow redis Unit) : Flow redis Unit :=
  Heartbeat.getHeartbeatsByStatus fun
    | .error e => cb (.error e)
    | .ok (_, expired) => cb (.ok expired)

def onTick : Flow redis Unit :=
  getExpiredHeartbeats fun
    | .error e => nextTick (α := Unit) (.error e)
    | .ok expired => Heartbeat.handleExpiredHeartbeats expired nextTick

end HeartbeatMonitorWorker

/-! ## The garbage collector -/

namespace GCWorker

variable (w : RedisSmq.GCWorker)

def destroyProcessingQueue (queueName : String) (processingQueue : RedisKey) (cb : Result Unit → Task redis) :
    Task redis :=
  .request (.execMulti (w.destroyProcessingQueue queueName processingQueue)) fun _ reply =>
    match reply with
    | .error e => cb (.error e)
    | .ok _ => cb (.ok ())

/-- `broker.retry` with the cause `RECOVERY`. -/
def retry (queueName : String) (processingQueue : RedisKey) (msg : Message) (now : ℕ) (cb : Result Unit → Task redis) :
    Task redis :=
  .request (.move (w.retryCmd queueName processingQueue msg now)) fun _ reply => cb reply

def handleOfflineConsumer (queueName : String) (processingQueue : RedisKey) (cb : Result Unit → Task redis) :
    Task redis :=
  .request (.lrange processingQueue 0 0) fun now reply =>
    match reply with
    | .error e => cb (.error e)
    | .ok (some (.error e :: _)) => .throw e
    | .ok (some (.ok msg :: _)) =>
      retry w queueName processingQueue msg now fun
        | .error e => cb (.error e)
        | .ok _ => destroyProcessingQueue w queueName processingQueue cb
    | .ok _ => destroyProcessingQueue w queueName processingQueue cb

/-- What `handleProcessingQueues` does for a member of the index. -/
def handleProcessingQueue (member : Option RedisKey) : Task redis :=
  match member with
  | none => .call (.error "Expected a consumer ID")
  | some processingQueue =>
    match extractData processingQueue with
    | some ⟨_, _, queueName, some consumerId, _⟩ =>
      if consumerId.isEmpty then .call (.error "Expected a consumer ID")
      else if w.consumerId ≠ consumerId then
        Heartbeat.isAlive w.ns queueName consumerId fun
          | .error e => .call (.error e)
          | .ok true => .call (.ok ())
          | .ok false => handleOfflineConsumer w queueName processingQueue .call
      else .call (.ok ())
    | _ => .call (.error "Expected a consumer ID")

def onTick : Flow redis Unit :=
  .request (.smembers getGlobalKeys.keyIndexProcessingQueues) fun _ reply =>
    match reply with
    | .error e => .throw e
    | .ok (some (key :: keys)) => .each ((key :: keys).map (handleProcessingQueue w)) nextTick
    | .ok _ => nextTick (.ok ())

end GCWorker

/-! ## Lists that are emptied in one transaction -/

/-- `async.parallel` of the tasks of the messages: each adds to the transaction, and none waits. -/
def parallel (task : Message → Except String (List Cmd)) (messages : List (Except String Message)) :
    Except String (List Cmd) :=
  (messages.mapM fun (text : Except String Message) => text.bind task).map List.flatten

/-- Read the first messages of a list, and make one transaction of their tasks, unless there are none. -/
def drain (key : RedisKey) (task : ℕ → Message → Except String (List Cmd)) (cb : Result Unit → Flow redis Unit) :
    Flow redis Unit :=
  .request (.lrange key 0 99) fun now reply =>
    match reply with
    | .error e => cb (.error e)
    | .ok reply =>
      match reply.getD [] with
      | [] => cb (.ok ())
      | messages =>
        match parallel (task now) messages with
        | .error e => .throw e
        | .ok cmds => .request (.execMulti cmds) fun _ reply => cb reply

def RequeueWorker.onTick (withPriority : Bool) : Flow redis Unit :=
  drain getGlobalKeys.keyQueueRequeue (fun _ => RequeueWorker.requeueTask withPriority) nextTick

/-- `DelayHandler.schedule`. -/
def DelayHandler.schedule (cron : CronParser) (cb : Result Unit → Flow redis Unit) : Flow redis Unit :=
  drain getGlobalKeys.keyQueueDelay (DelayHandler.scheduleTask cron) cb

def DelayWorker.onTick (cron : CronParser) : Flow redis Unit := DelayHandler.schedule cron nextTick

/-! ## The scheduler -/

namespace ScheduleHandler

variable (cron : CronParser) (withPriority : Bool)

def fetchIds (now : ℕ) (cb : Result (Option (List Text)) → Flow redis Unit) : Flow redis Unit :=
  .request (.zrangebyscore getGlobalKeys.keyQueueScheduled 0 now) fun _ reply => cb reply

/-- The messages are handed on with the clock value at which they are there. -/
def fetchMessages (ids : Option (List Text)) (cb : Result (ℕ × List (Option Message)) → Flow redis Unit) :
    Flow redis Unit :=
  match ids with
  | none => .throw "Cannot read property 'length' of null"
  | some [] => cb (.ok (0, []))
  | some ids =>
    .request (.hmget getGlobalKeys.keyScheduledMessages ids) fun now reply =>
      match reply with
      | .error e => cb (.error e)
      | .ok reply =>
        match (reply.getD []).mapM id with
        | .error e => .throw e
        | .ok messages => cb (.ok (now, messages))

/-- What `enqueue` does for a message; a missing payload has become a message without a queue. -/
def enqueueTask (now : ℕ) (message : Option Message) : Task redis :=
  match message with
  | none => .throw "Can not enqueue a message without a queue name"
  | some message =>
    match ScheduleHandler.enqueueScheduledMessage cron message withPriority now with
    | .error e => .throw e
    | .ok cmds => .request (.execMulti cmds) fun _ reply => .call reply

def enqueue (now : ℕ) (messages : List (Option Message)) (cb : Result Unit → Flow redis Unit) : Flow redis Unit :=
  match messages with
  | [] => cb (.ok ())
  | messages => .each (messages.map (enqueueTask cron withPriority now)) cb

def enqueueScheduledMessages (now : ℕ) (cb : Result Unit → Flow redis Unit) : Flow redis Unit :=
  fetchIds now fun
    | .error e => cb (.error e)
    | .ok ids =>
      fetchMessages ids fun
        | .error e => cb (.error e)
        | .ok (now, messages) => enqueue cron withPriority now messages cb

end ScheduleHandler

def ScheduleWorker.onTick (cron : CronParser) (withPriority : Bool) (now : ℕ) : Flow redis Unit :=
  ScheduleHandler.enqueueScheduledMessages cron withPriority now nextTick

/-! ## Every branch sets the timer or throws -/

section Settles

variable {α : Type}

theorem settles_nextTick (r : Result α) : (nextTick r).Settles := by
  cases r <;> exact trivial

theorem settles_isAlive {ns queueName id : String} {cb : Result Bool → Task redis} (h : ∀ r, (cb r).Settles) :
    (Heartbeat.isAlive ns queueName id cb).Settles := by
  intro now reply
  match reply with
  | .error e => exact h _
  | .ok none => exact h _
  | .ok (some (.error e)) => exact trivial
  | .ok (some (.ok timestamp)) => exact h _

theorem settles_handleExpiredHeartbeats (heartbeats : List String) {cb : Result (Option ℕ) → Flow redis Unit}
    (h : ∀ r, (cb r).Settles) : (Heartbeat.handleExpiredHeartbeats heartbeats cb).Settles := by
  cases heartbeats with
  | nil => exact h _
  | cons key keys => exact fun _ reply => h reply

theorem settles_getHeartbeatsByStatus {cb : Result (List String × List String) → Flow redis Unit}
    (h : ∀ r, (cb r).Settles) : (Heartbeat.getHeartbeatsByStatus cb).Settles := by
  intro now reply
  match reply with
  | .error e => exact h _
  | .ok none => exact h _
  | .ok (some data) =>
    dsimp only
    split
    · exact trivial
    · exact h _

theorem settles_getExpiredHeartbeats {cb : Result (List String) → Flow redis Unit} (h : ∀ r, (cb r).Settles) :
    (HeartbeatMonitorWorker.getExpiredHeartbeats cb).Settles := by
  refine settles_getHeartbeatsByStatus fun r => ?_
  cases r <;> exact h _

theorem settles_heartbeatMonitor : HeartbeatMonitorWorker.onTick.Settles := by
  refine settles_getExpiredHeartbeats fun r => ?_
  cases r with
  | error e => exact trivial
  | ok expired => exact settles_handleExpiredHeartbeats expired settles_nextTick

variable {w : RedisSmq.GCWorker} {queueName : String} {processingQueue : RedisKey} {cb : Result Unit → Task redis}

theorem settles_destroyProcessingQueue (h : ∀ r, (cb r).Settles) :
    (GCWorker.destroyProcessingQueue w queueName processingQueue cb).Settles := by
  intro now reply
  cases reply <;> exact h _

theorem settles_handleOfflineConsumer (h : ∀ r, (cb r).Settles) :
    (GCWorker.handleOfflineConsumer w queueName processingQueue cb).Settles := by
  intro now reply
  match reply with
  | .error e => exact h _
  | .ok none => exact settles_destroyProcessingQueue h
  | .ok (some []) => exact settles_destroyProcessingQueue h
  | .ok (some (.error e :: _)) => exact trivial
  | .ok (some (.ok msg :: _)) =>
    intro _ retried
    cases retried with
    | error e => exact h _
    | ok _ => exact settles_destroyProcessingQueue h

theorem settles_handleProcessingQueue (w : RedisSmq.GCWorker) (member : Option RedisKey) :
    (GCWorker.handleProcessingQueue w member).Settles := by
  unfold GCWorker.handleProcessingQueue
  cases member with
  | none => exact trivial
  | some processingQueue =>
    dsimp only
    split
    · split
      · exact trivial
      · split
        · refine settles_isAlive fun r => ?_
          match r with
          | .error e => exact trivial
          | .ok true => exact trivial
          | .ok false => exact settles_handleOfflineConsumer fun _ => trivial
        · exact trivial
    · exact trivial

theorem settles_gc (w : RedisSmq.GCWorker) : (GCWorker.onTick w).Settles := by
  intro now reply
  match reply with
  | .error e => exact trivial
  | .ok none => exact trivial
  | .ok (some []) => exact trivial
  | .ok (some (key :: keys)) =>
    refine ⟨fun t ht => ?_, settles_nextTick⟩
    obtain ⟨member, -, rfl⟩ := List.mem_map.mp ht
    exact settles_handleProcessingQueue w member

theorem settles_drain {key : RedisKey} {task : ℕ → Message → Except String (List Cmd)}
    {cb : Result Unit → Flow redis Unit} (h : ∀ r, (cb r).Settles) : (drain key task cb).Settles := by
  intro now reply
  cases reply with
  | error e => exact h _
  | ok reply =>
    dsimp only
    split
    · exact h _
    · split
      · exact trivial
      · exact fun _ reply => h reply

variable {cron : CronParser} {withPriority : Bool}

theorem settles_enqueueTask (cron : CronParser) (withPriority : Bool) (now : ℕ) (message : Option Message) :
    (ScheduleHandler.enqueueTask cron withPriority now message).Settles := by
  unfold ScheduleHandler.enqueueTask
  split
  · exact trivial
  · split
    · exact trivial
    · exact fun _ _ => trivial

theorem settles_enqueue {now : ℕ} {messages : List (Option Message)} {cb : Result Unit → Flow redis Unit}
    (h : ∀ r, (cb r).Settles) : (ScheduleHandler.enqueue cron withPriority now messages cb).Settles := by
  unfold ScheduleHandler.enqueue
  split
  · exact h _
  · refine ⟨fun t ht => ?_, h⟩
    obtain ⟨message, -, rfl⟩ := List.mem_map.mp ht
    exact settles_enqueueTask cron withPriority now message

theorem settles_fetchMessages {ids : Option (List Text)} {cb : Result (ℕ × List (Option Message)) → Flow redis Unit}
    (h : ∀ r, (cb r).Settles) : (ScheduleHandler.fetchMessages ids cb).Settles := by
  unfold ScheduleHandler.fetchMessages
  split
  · exact trivial
  · exact h _
  · intro now reply
    cases reply with
    | error e => exact h _
    | ok reply =>
      dsimp only
      split
      · exact trivial
      · exact h _

theorem settles_schedule (cron : CronParser) (withPriority : Bool) (now : ℕ) :
    (ScheduleWorker.onTick cron withPriority now).Settles := by
  intro _ ids
  cases ids with
  | error e => exact trivial
  | ok ids =>
    refine settles_fetchMessages fun r => ?_
    cases r with
    | error e => exact trivial
    | ok r => exact settles_enqueue settles_nextTick

end Settles

end RedisSmq.OnTick
