import Mathlib.Data.Int.Basic
import Mathlib.Tactic.Common

/-!
# Messages

The data model of `message.ts`. Times and durations are integral milliseconds; the body is kept as its JSON text, and a
stored message is represented by the fields of its JSON text. The setters reject durations below one second, so a
`Period` is at least `1000` and a `Timeout` is `0` (unset) or at least `1000`.
-/

namespace RedisSmq

/-- A duration that its setter accepted. -/
structure Period where
  ms : ℕ
  min : 1000 ≤ ms
deriving DecidableEq

/-- A duration that defaults to `0`, which means unset. -/
structure Timeout where
  ms : ℕ
  ok : ms = 0 ∨ 1000 ≤ ms
deriving DecidableEq

/-- The unset duration. -/
def Timeout.none : Timeout := ⟨0, .inl rfl⟩

def Period.tenSeconds : Period := ⟨10000, by decide⟩

def Period.toTimeout (p : Period) : Timeout := ⟨p.ms, .inr p.min⟩

/-- The check that the duration setters share. -/
def Period.check (ms : ℕ) (error : String) : Except String Period :=
  if h : ms < 1000 then .error error else .ok ⟨ms, Nat.le_of_not_lt h⟩

/-- A duration is accepted as it is, and exactly from one second on. -/
theorem Period.check_ok {ms : ℕ} {error : String} {p : Period} :
    Period.check ms error = .ok p ↔ 1000 ≤ ms ∧ p.ms = ms := by
  obtain ⟨n, hn⟩ := p
  unfold Period.check
  split
  · simp only [reduceCtorEq, false_iff]; omega
  · simp only [Except.ok.injEq, Period.mk.injEq]; omega

/-- `Message.MessagePriority`; the smaller the value, the earlier the delivery. -/
inductive MessagePriority
  | highest | veryHigh | high | aboveNormal | normal | low | veryLow | lowest
deriving DecidableEq

def MessagePriority.value : MessagePriority → ℕ
  | .lowest => 7
  | .veryLow => 6
  | .low => 5
  | .normal => 4
  | .aboveNormal => 3
  | .high => 2
  | .veryHigh => 1
  | .highest => 0

def MessagePriority.values : List MessagePriority :=
  [.lowest, .veryLow, .low, .normal, .aboveNormal, .high, .veryHigh, .highest]

/-- The priority with a given value, when there is one. -/
def MessagePriority.ofValue (n : ℕ) : Option MessagePriority := MessagePriority.values.find? (fun p => p.value = n)

/-- Every priority is found under its own value. -/
theorem MessagePriority.ofValue_value (p : MessagePriority) : MessagePriority.ofValue p.value = some p := by
  cases p <;> rfl

/-- A queue as messages and the index of queues name it. -/
structure TMessageQueue where
  name : String
  ns : String
deriving DecidableEq

/-- A CRON expression: a non-empty text that `parseExpression` accepts. -/
structure CronExpression where
  text : String
  nonempty : text ≠ ""
deriving DecidableEq

structure TMessageDefaultOptions where
  consumeTimeout : Timeout
  retryThreshold : ℤ
  retryDelay : Timeout
  ttl : Timeout

structure Message where
  ttl : Timeout
  retryThreshold : ℤ
  retryDelay : Timeout
  consumeTimeout : Timeout
  body : String
  priority : Option MessagePriority
  scheduledCron : Option CronExpression
  scheduledDelay : Option Period
  scheduledPeriod : Option Period
  scheduledRepeat : ℤ
  -- System parameters
  uuid : String
  createdAt : ℕ
  queue : Option TMessageQueue
  publishedAt : Option ℕ
  scheduledAt : Option ℕ
  scheduledCronFired : Bool
  attempts : ℕ
  scheduledRepeatCount : ℕ
  delayed : Bool
  expired : Bool
deriving DecidableEq

namespace Message

/-- `Message.defaultOpts`. -/
def defaultOpts : TMessageDefaultOptions where
  consumeTimeout := .none
  retryThreshold := 3
  retryDelay := ⟨60000, .inr (by decide)⟩
  ttl := .none

/-- `new Message()`, with the identifier and the clock value it takes. -/
def new (opts : TMessageDefaultOptions) (uuid : String) (now : ℕ) : Message where
  ttl := opts.ttl
  retryThreshold := opts.retryThreshold
  retryDelay := opts.retryDelay
  consumeTimeout := opts.consumeTimeout
  body := "null"
  priority := none
  scheduledCron := none
  scheduledDelay := none
  scheduledPeriod := none
  scheduledRepeat := 0
  uuid := uuid
  createdAt := now
  queue := none
  publishedAt := none
  scheduledAt := none
  scheduledCronFired := false
  attempts := 0
  scheduledRepeatCount := 0
  delayed := false
  expired := false

/-- `reset` clears the system parameters, the identifier and the creation time apart. -/
def reset (m : Message) : Message :=
  { m with
    publishedAt := none
    scheduledAt := none
    attempts := 0
    expired := false
    delayed := false
    scheduledCronFired := false
    scheduledRepeatCount := 0
    queue := none }

def setScheduledAt (m : Message) (timestamp : ℕ) : Message := { m with scheduledAt := some timestamp }

def setScheduledPeriod (m : Message) (period : ℕ) : Except String Message := do
  let p ← Period.check period "Scheduling period should not be less than 1 second"
  return { m with scheduledPeriod := some p }

def setScheduledDelay (m : Message) (delay : ℕ) : Except String Message := do
  let p ← Period.check delay "Scheduling delay should not be less than 1 second"
  return { m with scheduledDelay := some p, delayed := false }

def setScheduledCron (m : Message) (cron : CronExpression) : Message := { m with scheduledCron := some cron }

def setScheduledRepeat (m : Message) (n : ℤ) : Message := { m with scheduledRepeat := n }

def setTTL (m : Message) (ttl : ℕ) : Except String Message := do
  let p ← Period.check ttl "TTL should not be less than 1 second"
  return { m with ttl := p.toTimeout }

def setConsumeTimeout (m : Message) (timeout : ℕ) : Except String Message := do
  let p ← Period.check timeout "Timeout should not be less than 1 second"
  return { m with consumeTimeout := p.toTimeout }

def setRetryThreshold (m : Message) (threshold : ℤ) : Message := { m with retryThreshold := threshold }

def setRetryDelay (m : Message) (delay : ℕ) : Except String Message := do
  let p ← Period.check delay "Delay should not be less than 1 second"
  return { m with retryDelay := p.toTimeout }

def incrAttempts (m : Message) : Message := { m with attempts := m.attempts + 1 }

def setBody (m : Message) (body : String) : Message := { m with body := body }

def setMessageScheduledCronFired (m : Message) (fired : Bool) : Message := { m with scheduledCronFired := fired }

def incrMessageScheduledRepeatCount (m : Message) : Message :=
  { m with scheduledRepeatCount := m.scheduledRepeatCount + 1 }

def resetMessageScheduledRepeatCount (m : Message) : Message := { m with scheduledRepeatCount := 0 }

def setMessageDelayed (m : Message) (delayed : Bool) : Message := { m with delayed := delayed }

def setPriority (m : Message) (priority : ℕ) : Except String Message :=
  match MessagePriority.ofValue priority with
  | none => .error "Invalid message priority."
  | some p => .ok { m with priority := some p }

def setQueue (m : Message) (ns name : String) : Message := { m with queue := some ⟨name, ns⟩ }

def setPublishedAt (m : Message) (timestamp : ℕ) : Message := { m with publishedAt := some timestamp }

/-- `hasExpired` at the clock value `now`. The result is also cached in `expired`, which is stored nowhere. -/
def hasExpired (m : Message) (now : ℕ) : Bool :=
  m.expired || (m.ttl.ms != 0 && decide (m.createdAt + m.ttl.ms ≤ now))

def hasRetryThresholdExceeded (m : Message) : Bool :=
  m.retryThreshold != 0 && decide (m.retryThreshold ≤ (m.attempts : ℤ) + 1)

/-- `getSetPriority(undefined)`: the priority, and the message with this priority set. -/
def getSetPriority (m : Message) : MessagePriority × Message :=
  let p := m.priority.getD .normal
  (p, { m with priority := some p })

def isSchedulable (m : Message) : Bool :=
  m.scheduledCron.isSome || m.scheduledDelay.isSome || decide (0 < m.scheduledRepeat)

def isPeriodic (m : Message) : Bool := m.scheduledCron.isSome || decide (0 < m.scheduledRepeat)

/-- `createFromMessage` of a stored text or of a message; `withReset` clears the system parameters. -/
def createFromMessage (m : Message) (withReset : Bool) : Message := if withReset then m.reset else m

/-- `setScheduledDelay` accepts the retry delay of every message that is delayed before a retry. -/
theorem setScheduledDelay_retryDelay {m : Message} (h : m.retryDelay.ms ≠ 0) :
    ∃ p : Period, p.ms = m.retryDelay.ms ∧
      m.setScheduledDelay m.retryDelay.ms = .ok { m with scheduledDelay := some p, delayed := false } := by
  have hmin : 1000 ≤ m.retryDelay.ms := m.retryDelay.ok.resolve_left h
  refine ⟨⟨m.retryDelay.ms, hmin⟩, rfl, ?_⟩
  unfold setScheduledDelay
  rw [(Period.check_ok (p := ⟨m.retryDelay.ms, hmin⟩)).mpr ⟨hmin, rfl⟩]
  rfl

end Message

end RedisSmq
