import RedisSmq.Broker

/-!
# One delivery

`handleConsume`: the handler of a consumer runs once for a message, and the message is settled by its callback, by an
exception, or by the consume timeout. A `Delivery` holds the local variables of one call. The callback can be called at
any time and any number of times; the timer fires between calls only.

- `Delivery.handle`: what an event does;
- `Delivery.settlements_length`: settlements are the callbacks before the timeout, the exception and the timeout;
- `settlements_le_one_iff`: a delivery is settled at most once exactly when the handler calls back at most once, and,
  when it throws, neither calls back nor lets the timer run out.
-/

namespace RedisSmq.Consumer

/-- What can happen during a delivery; a callback has an error or not. -/
inductive Event
  | callback (err : Bool)
  | throws
  | returns
  | timeout
deriving DecidableEq

/-- The call to the broker that settles a message. -/
inductive Settlement
  | acknowledge
  | unacknowledge (cause : EMessageUnacknowledgedCause)
deriving DecidableEq

/-- `timer`: the timer is armed; `inCall`: `consume` has not returned. -/
structure Delivery where
  message : Message
  isTimeout : Bool
  timer : Bool
  inCall : Bool
deriving DecidableEq

/-- What the consumer of a delivery is like when something happens: `powerManager.isRunning()`, and whether there is a
broker. -/
structure Moment where
  running : Bool
  broker : Bool
deriving DecidableEq

/-- `getBroker`: without a broker there is no settlement. -/
def Moment.settle (now : Moment) (settlement : Settlement) : List Settlement :=
  if now.broker then [settlement] else []

namespace Delivery

/-- The call of `consume`. -/
def start (m : Message) : Delivery where
  message := m
  isTimeout := false
  timer := decide (m.consumeTimeout.ms ≠ 0)
  inCall := true

/-- The delivery of an expired message: the handler is not called, and no event settles it. -/
def expired (m : Message) : Delivery where
  message := m
  isTimeout := true
  timer := false
  inCall := false

/-- What an event does, and the settlements it causes; `none` when it can not happen. -/
def handle (d : Delivery) (now : Moment) : Event → Option (Delivery × List Settlement)
  | .callback err =>
    if now.running && !d.isTimeout then
      some ({ d with timer := false },
        now.settle (if err then .unacknowledge .unacknowledged else .acknowledge))
    else some (d, [])
  | .throws =>
    if d.inCall then some ({ d with inCall := false }, now.settle (.unacknowledge .caughtError)) else none
  | .returns => if d.inCall then some ({ d with inCall := false }, []) else none
  | .timeout =>
    if d.timer && !d.inCall then
      some ({ d with isTimeout := true, timer := false }, now.settle (.unacknowledge .timeout))
    else none

/-- The event settles the delivery. -/
def settles (d : Delivery) (now : Moment) : Event → Bool
  | .callback _ => now.running && !d.isTimeout && now.broker
  | .throws | .timeout => now.broker
  | .returns => false

/-- The settlements that a sequence of events causes. -/
def settlements (d : Delivery) : List (Event × Moment) → Option (List Settlement)
  | [] => some []
  | (e, now) :: es => do
    let (d', l) ← d.handle now e
    let l' ← d'.settlements es
    return l ++ l'

end Delivery

/-! ## How often a delivery is settled -/

/-- The callbacks that a running consumer with a broker gets before the timeout. -/
def callbacks : List (Event × Moment) → ℕ
  | [] => 0
  | (.callback _, now) :: es => (if now.running && now.broker then 1 else 0) + callbacks es
  | (.timeout, _) :: _ => 0
  | (_, _) :: es => callbacks es

/-- The exceptions, and the timeouts, that a consumer with a broker gets. -/
def count (e : Event) (es : List (Event × Moment)) : ℕ := es.countP (fun x => decide (x.1 = e) && x.2.broker)

variable {d d' : Delivery} {e : Event} {now : Moment} {es : List (Event × Moment)} {l : List Settlement}

/-- A sequence of events is a first event and a sequence from there on. -/
theorem Delivery.settlements_cons (h : d.settlements ((e, now) :: es) = some l) :
    ∃ d' l₁ l₂, d.handle now e = some (d', l₁) ∧ d'.settlements es = some l₂ ∧ l = l₁ ++ l₂ := by
  simp only [settlements, bind, Option.bind_eq_some_iff] at h
  obtain ⟨⟨d', l₁⟩, h1, l₂, h2, h3⟩ := h
  cases h3
  exact ⟨d', l₁, l₂, h1, h2, rfl⟩

theorem Moment.settle_length (s : Settlement) : (now.settle s).length = if now.broker then 1 else 0 := by
  unfold settle
  split <;> rfl

theorem count_cons (e' : Event) : count e' ((e, now) :: es) =
    (if e = e' ∧ now.broker = true then 1 else 0) + count e' es := by
  simp only [count, List.countP_cons, Bool.and_eq_true, decide_eq_true_eq]
  omega

/-- An event causes one settlement or none, and does not change the message. -/
theorem Delivery.handle_eq (h : d.handle now e = some (d', l)) :
    l.length = (if d.settles now e then 1 else 0) ∧ d'.message = d.message := by
  cases e with
  | callback err =>
    simp only [handle] at h
    split at h <;> rename_i hc <;> cases h
    · simp [settles, Moment.settle_length, hc]
    · simp [settles, hc]
  | throws | timeout =>
    simp only [handle] at h
    split at h <;> cases h
    exact ⟨Moment.settle_length _, rfl⟩
  | returns =>
    simp only [handle] at h
    split at h <;> cases h
    simp [settles]

/-- Each settlement is a callback before the timeout, an exception or a timeout. -/
theorem Delivery.settlements_length (h : d.settlements es = some l) :
    l.length = (if d.isTimeout then 0 else callbacks es) + count .throws es + count .timeout es := by
  induction es generalizing d l with
  | nil =>
    cases h
    simp [callbacks, count]
  | cons x es ih =>
    obtain ⟨e, now⟩ := x
    obtain ⟨d', l₁, l₂, h1, h2, rfl⟩ := settlements_cons h
    have hrest := ih h2
    rw [List.length_append, count_cons, count_cons, hrest]
    cases e with
    | callback err =>
      simp only [handle] at h1
      split at h1 <;> rename_i hc <;> cases h1
      · simp only [Bool.and_eq_true, Bool.not_eq_true'] at hc
        simp only [Moment.settle_length, callbacks, hc.1, hc.2, Bool.true_and]
        simp
        omega
      · cases ht : d.isTimeout
        · have hr : now.running = false := by simpa [ht] using hc
          simp [callbacks, hr]
        · simp
    | throws =>
      simp only [handle] at h1
      split at h1 <;> cases h1
      simp only [Moment.settle_length, callbacks]
      simp
      omega
    | returns =>
      simp only [handle] at h1
      split at h1 <;> cases h1
      simp [callbacks]
    | timeout =>
      simp only [handle] at h1
      split at h1 <;> cases h1
      simp only [Moment.settle_length, callbacks]
      simp
      omega

/-- The handler throws at most once, and not after it returned. -/
theorem Delivery.count_throws_le (h : d.settlements es = some l) : count .throws es ≤ if d.inCall then 1 else 0 := by
  induction es generalizing d l with
  | nil => simp [count]
  | cons x es ih =>
    obtain ⟨e, now⟩ := x
    obtain ⟨d', l₁, l₂, h1, h2, rfl⟩ := settlements_cons h
    have hrest := ih h2
    rw [count_cons]
    cases e with
    | callback err =>
      simp only [handle] at h1
      split at h1 <;> cases h1 <;> simpa using hrest
    | throws =>
      simp only [handle] at h1
      split at h1 <;> cases h1
      rename_i hc
      simp only [Bool.false_eq_true, if_false] at hrest
      simp only [hc, if_true]
      split <;> omega
    | returns =>
      simp only [handle] at h1
      split at h1 <;> cases h1
      rename_i hc
      simp only [Bool.false_eq_true, if_false] at hrest
      simp only [hc, if_true]
      simp
      omega
    | timeout =>
      simp only [handle] at h1
      split at h1 <;> cases h1
      simpa using hrest

/-- The timer fires at most once, and not after a callback that cleared it. -/
theorem Delivery.count_timeout_le (h : d.settlements es = some l) :
    count .timeout es ≤ (if d.timer then 1 else 0) ∧
      (d.isTimeout = false → callbacks es ≠ 0 → count .timeout es = 0) := by
  induction es generalizing d l with
  | nil => simp [count, callbacks]
  | cons x es ih =>
    obtain ⟨e, now⟩ := x
    obtain ⟨d', l₁, l₂, h1, h2, rfl⟩ := settlements_cons h
    obtain ⟨hrest, hcleared⟩ := ih h2
    rw [count_cons]
    cases e with
    | callback err =>
      simp only [handle] at h1
      split at h1 <;> rename_i hc <;> cases h1
      · simp only [Bool.false_eq_true, if_false] at hrest
        simp only [reduceCtorEq, false_and, if_false]
        exact ⟨by omega, fun _ _ => by omega⟩
      · simp only [reduceCtorEq, false_and, if_false, Nat.zero_add]
        refine ⟨hrest, fun ht hne => hcleared ht ?_⟩
        have hr : now.running = false := by simpa [ht] using hc
        simpa [callbacks, hr] using hne
    | throws | returns =>
      simp only [handle] at h1
      split at h1 <;> cases h1
      simp only [reduceCtorEq, false_and, if_false, Nat.zero_add]
      exact ⟨hrest, hcleared⟩
    | timeout =>
      simp only [handle] at h1
      split at h1 <;> rename_i hc <;> cases h1
      simp only [Bool.and_eq_true] at hc
      simp only [Bool.false_eq_true, if_false] at hrest
      refine ⟨?_, fun _ hne => absurd rfl hne⟩
      rw [hc.1, if_pos rfl]
      split <;> omega

/-- **A delivery is settled at most once exactly when** the handler calls back at most once, and, when it throws, neither
calls back nor lets the timer run out. -/
theorem settlements_le_one_iff {m : Message} (h : (Delivery.start m).settlements es = some l) :
    l.length ≤ 1 ↔ callbacks es ≤ 1 ∧ (count .throws es ≠ 0 → callbacks es = 0 ∧ count .timeout es = 0) := by
  have hlength := Delivery.settlements_length h
  have hthrows := Delivery.count_throws_le h
  obtain ⟨htimeout, hcleared⟩ := Delivery.count_timeout_le h
  have hone : count .timeout es ≤ 1 := Nat.le_trans htimeout (by split <;> omega)
  have hnot := hcleared rfl
  simp only [Delivery.start, Bool.false_eq_true, if_false, if_true] at hlength hthrows
  omega

end RedisSmq.Consumer
