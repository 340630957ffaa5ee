import RedisSmq.Message

/-!
# The next timestamp of a scheduled message

`ScheduleHandler.getNextScheduledTimestamp`: the timestamp a message is to be enqueued at, `0` for none, and the message
with its counters updated. One call reads one clock value.

- without a pending delay the timestamp is the CRON instant, an earlier repeat, or a repeat alone (`next_cases`);
- no call returns a timestamp before its clock value (`le_next`).
-/

namespace RedisSmq

/-- What the code uses of cron-parser: the first instant of an expression after a clock value. -/
structure CronParser where
  next : CronExpression → ℕ → ℕ
  next_gt : ∀ e now, now < next e now

/-- An example: the parser whose instants are the full minutes. -/
def minuteParser : CronParser where
  next := fun _ now => (now / 60000 + 1) * 60000
  next_gt := fun _ now => by omega

namespace ScheduleHandler

/-- `cronTimestamp`, `0` without CRON. -/
def cronTimestamp (cron : CronParser) (now : ℕ) (m : Message) : ℕ :=
  match m.scheduledCron with
  | some e => cron.next e now
  | none => 0

/-- `repeatTimestamp`, `0` when there is no repeat left. -/
def repeatTimestamp (now : ℕ) (m : Message) : ℕ :=
  if m.scheduledRepeat ≠ 0 ∧ (m.scheduledRepeatCount : ℤ) + 1 ≤ m.scheduledRepeat then
    match m.scheduledPeriod with
    | some p => now + p.ms
    | none => now
  else 0

def getNextScheduledTimestamp (cron : CronParser) (now : ℕ) (m : Message) : ℕ × Message :=
  if m.isSchedulable then
    match m.scheduledDelay, m.delayed with
    | some delay, false => (now + delay.ms, m.setMessageDelayed true)
    | _, _ =>
      let c := cronTimestamp cron now m
      let r := repeatTimestamp now m
      if r ≠ 0 ∧ c ≠ 0 ∧ r < c ∧ m.scheduledCronFired then (r, m.incrMessageScheduledRepeatCount)
      else if c ≠ 0 then (c, m.resetMessageScheduledRepeatCount.setMessageScheduledCronFired true)
      else if r ≠ 0 then (r, m.incrMessageScheduledRepeatCount)
      else (0, m)
  else (0, m)

/-- The message waits for its delay first. -/
def PendingDelay (m : Message) : Prop := m.scheduledDelay.isSome ∧ m.delayed = false

variable {cron : CronParser} {now : ℕ} {m : Message}

theorem cronTimestamp_some {e : CronExpression} (h : m.scheduledCron = some e) :
    cronTimestamp cron now m = cron.next e now := by simp [cronTimestamp, h]

theorem cronTimestamp_none (h : m.scheduledCron = none) : cronTimestamp cron now m = 0 := by simp [cronTimestamp, h]

/-- A repeat timestamp means that a repeat is left, and lies at or after the clock value. -/
theorem repeatTimestamp_ne_zero (h : repeatTimestamp now m ≠ 0) :
    (m.scheduledRepeatCount : ℤ) + 1 ≤ m.scheduledRepeat ∧ now ≤ repeatTimestamp now m := by
  unfold repeatTimestamp at h ⊢
  split
  · rename_i hr
    refine ⟨hr.2, ?_⟩
    split <;> omega
  · rename_i hr
    rw [if_neg hr] at h
    exact absurd rfl h

/-- With a pending delay the first timestamp is the delay. -/
theorem next_pending {d : Period} (hd : m.scheduledDelay = some d) (hp : m.delayed = false) :
    getNextScheduledTimestamp cron now m = (now + d.ms, m.setMessageDelayed true) := by
  have hs : m.isSchedulable = true := by simp [Message.isSchedulable, hd]
  simp [getNextScheduledTimestamp, hs, hd, hp]

/-- Without a pending delay: a repeat before the CRON instant, the CRON instant, a repeat alone, or nothing. -/
theorem next_cases (cron : CronParser) (now : ℕ) (hp : ¬PendingDelay m) (r : ℕ × Message)
    (hr : getNextScheduledTimestamp cron now m = r) :
    (r = (repeatTimestamp now m, m.incrMessageScheduledRepeatCount) ∧ repeatTimestamp now m ≠ 0 ∧
      m.scheduledCronFired = true ∧ repeatTimestamp now m < cronTimestamp cron now m) ∨
    (r = (cronTimestamp cron now m, m.resetMessageScheduledRepeatCount.setMessageScheduledCronFired true) ∧
      cronTimestamp cron now m ≠ 0) ∨
    (r = (repeatTimestamp now m, m.incrMessageScheduledRepeatCount) ∧ repeatTimestamp now m ≠ 0 ∧
      cronTimestamp cron now m = 0) ∨
    (r = (0, m) ∧ (m.isSchedulable = true → cronTimestamp cron now m = 0 ∧ repeatTimestamp now m = 0)) := by
  subst hr
  unfold getNextScheduledTimestamp
  split
  · split
    · rename_i d hd hf
      exact absurd ⟨by simp [hd], hf⟩ hp
    · dsimp only
      split
      · rename_i h; exact Or.inl ⟨rfl, h.1, h.2.2.2, h.2.2.1⟩
      · split
        · rename_i h; exact Or.inr (Or.inl ⟨rfl, h⟩)
        · rename_i hc
          simp only [ne_eq, not_not] at hc
          split
          · rename_i h; exact Or.inr (Or.inr (Or.inl ⟨rfl, h, hc⟩))
          · rename_i h
            simp only [ne_eq, not_not] at h
            exact Or.inr (Or.inr (Or.inr ⟨rfl, fun _ => ⟨hc, h⟩⟩))
  · rename_i h; exact Or.inr (Or.inr (Or.inr ⟨rfl, fun h' => absurd h' h⟩))

/-- The identity, the content and the schedule of a message stay; only the counters of the scheduler change. -/
theorem next_message (cron : CronParser) (now : ℕ) (m : Message) :
    ∃ delayed fired count, (getNextScheduledTimestamp cron now m).2 =
      { m with delayed := delayed, scheduledCronFired := fired, scheduledRepeatCount := count } := by
  by_cases hp : PendingDelay m
  · obtain ⟨d, hd⟩ := Option.isSome_iff_exists.mp hp.1
    rw [next_pending hd hp.2]
    exact ⟨_, _, _, rfl⟩
  · rcases next_cases cron now hp _ rfl with h | h | h | h <;> rw [h.1] <;> exact ⟨_, _, _, rfl⟩

/-- A timestamp lies at or after the clock value of its call. -/
theorem le_next (h : (getNextScheduledTimestamp cron now m).1 ≠ 0) :
    now ≤ (getNextScheduledTimestamp cron now m).1 := by
  by_cases hp : PendingDelay m
  · obtain ⟨d, hd⟩ := Option.isSome_iff_exists.mp hp.1
    rw [next_pending hd hp.2]
    exact Nat.le_add_right _ _
  · rcases next_cases cron now hp _ rfl with h' | h' | h' | h'
    · rw [h'.1]; exact (repeatTimestamp_ne_zero h'.2.1).2
    · rw [h'.1]
      have hc := h'.2
      unfold cronTimestamp at hc ⊢
      split
      · exact Nat.le_of_lt (cron.next_gt _ _)
      · rename_i hn; rw [hn] at hc; exact absurd rfl hc
    · rw [h'.1]; exact (repeatTimestamp_ne_zero h'.2.1).2
    · rw [h'.1] at h; exact absurd rfl h

end ScheduleHandler

end RedisSmq
