import RedisSmq.Scheduler.Timestamp

/-!
# CRON combined with a repeat

Successive calls of `getNextScheduledTimestamp` for a message with CRON, repeat `N` and no pending delay, as the
scheduler makes them. `CronInv` is what every call keeps; `CronInv.step` is one call, `cron_repeat` the runs:

- the first timestamp is a CRON instant, and no timestamp lies after the CRON instant that follows its call;
- the repeat count never exceeds `N`, and at most `N` repeats lie between two CRON instants.
-/

namespace RedisSmq.ScheduleHandler

/-- Successive calls: the clock value and the timestamp of every call, and the message after the last one. -/
def calls (cron : CronParser) : Message → List ℕ → List (ℕ × ℕ) × Message
  | m, [] => ([], m)
  | m, now :: nows =>
    let r := getNextScheduledTimestamp cron now m
    let rest := calls cron r.2 nows
    ((now, r.1) :: rest.1, rest.2)

/-- The timestamp of the call is the CRON instant that follows the call. -/
def IsCron (cron : CronParser) (e : CronExpression) (x : ℕ × ℕ) : Prop := x.2 = cron.next e x.1

/-- A message with CRON `e` and repeat `N` whose delay, if any, is over. -/
structure CronInv (e : CronExpression) (N : ℕ) (m : Message) : Prop where
  cron : m.scheduledCron = some e
  rep : m.scheduledRepeat = N
  delay : ¬PendingDelay m
  count : m.scheduledRepeatCount ≤ N

variable {cron : CronParser} {e : CronExpression} {N : ℕ} {m : Message}

/-- One call gives the CRON instant and restarts the count, or, once CRON has fired, an earlier repeat. -/
theorem CronInv.step (cron : CronParser) (h : CronInv e N m) (now : ℕ) {r : ℕ × Message}
    (hr : getNextScheduledTimestamp cron now m = r) :
    CronInv e N r.2 ∧
      ((r.1 = cron.next e now ∧ r.2.scheduledCronFired = true ∧ r.2.scheduledRepeatCount = 0) ∨
        (r.1 < cron.next e now ∧ m.scheduledCronFired = true ∧ r.2.scheduledCronFired = true ∧
          r.2.scheduledRepeatCount = m.scheduledRepeatCount + 1)) := by
  have hct : cronTimestamp cron now m = cron.next e now := cronTimestamp_some h.cron
  have hpos := cron.next_gt e now
  rcases next_cases cron now h.delay r hr with ⟨rfl, hne, hfired, hlt⟩ | ⟨rfl, _⟩ | ⟨_, _, h0⟩ | ⟨_, h0⟩
  · have hleft := (repeatTimestamp_ne_zero hne).1
    have hrep := h.rep
    refine ⟨⟨h.cron, h.rep, h.delay, ?_⟩, Or.inr ⟨by rw [← hct]; exact hlt, hfired, hfired, rfl⟩⟩
    show m.scheduledRepeatCount + 1 ≤ N
    omega
  · exact ⟨⟨h.cron, h.rep, h.delay, Nat.zero_le _⟩, Or.inl ⟨hct, rfl, rfl⟩⟩
  · omega
  · have := (h0 (by simp [Message.isSchedulable, h.cron])).1
    omega

/-- The invariant holds after every run, with the bounds on every timestamp. -/
theorem CronInv.run (cron : CronParser) : ∀ (nows : List ℕ) {m : Message}, CronInv e N m →
    CronInv e N (calls cron m nows).2 ∧ ∀ x ∈ (calls cron m nows).1, x.2 ≤ cron.next e x.1
  | [], _, h => ⟨h, by simp [calls]⟩
  | now :: nows, m, h => by
    obtain ⟨hinv, hcase⟩ := h.step cron now rfl
    obtain ⟨hlast, hall⟩ := CronInv.run cron nows hinv
    refine ⟨hlast, fun x hx => ?_⟩
    rcases List.mem_cons.mp hx with rfl | hx
    · rcases hcase with ⟨heq, _⟩ | ⟨hlt, _⟩
      · exact Nat.le_of_eq heq
      · exact Nat.le_of_lt hlt
    · exact hall x hx

/-- A run of repeats is no longer than the repeats that are left. -/
theorem CronInv.repeats : ∀ (nows : List ℕ) {m : Message} (mid post : List (ℕ × ℕ)), CronInv e N m →
    (calls cron m nows).1 = mid ++ post → (∀ z ∈ mid, ¬IsCron cron e z) → mid.length + m.scheduledRepeatCount ≤ N
  | _, m, [], _, h, _, _ => by simpa using h.count
  | [], _, _ :: _, _, _, heq, _ => by simp [calls] at heq
  | now :: nows, m, z :: mid, post, h, heq, hmid => by
    simp only [calls, List.cons_append, List.cons.injEq] at heq
    obtain ⟨rfl, heq⟩ := heq
    obtain ⟨hinv, hcase⟩ := h.step cron now rfl
    rcases hcase with ⟨hcron, _⟩ | ⟨_, _, _, hcount⟩
    · exact absurd hcron (hmid _ List.mem_cons_self)
    · have := CronInv.repeats nows mid post hinv heq (fun w hw => hmid w (List.mem_cons_of_mem _ hw))
      simp only [List.length_cons]
      omega

/-- After a CRON instant the count starts again, wherever in the run the instant stands. -/
theorem CronInv.after_cron : ∀ (nows : List ℕ) {m : Message} (pre : List (ℕ × ℕ)) {x : ℕ × ℕ} {rest : List (ℕ × ℕ)},
    CronInv e N m → (calls cron m nows).1 = pre ++ x :: rest → IsCron cron e x →
    ∃ m' nows', CronInv e N m' ∧ m'.scheduledRepeatCount = 0 ∧ (calls cron m' nows').1 = rest
  | [], _, pre, _, _, _, heq, _ => by simp [calls] at heq
  | now :: nows, m, [], x, rest, h, heq, hx => by
    simp only [calls, List.nil_append, List.cons.injEq] at heq
    obtain ⟨rfl, heq⟩ := heq
    obtain ⟨hinv, hcase⟩ := h.step cron now rfl
    rcases hcase with ⟨_, _, hcount⟩ | ⟨hlt, _⟩
    · exact ⟨_, nows, hinv, hcount, heq⟩
    · exact absurd hx (Nat.ne_of_lt hlt)
  | now :: nows, m, y :: pre, x, rest, h, heq, hx => by
    simp only [calls, List.cons_append, List.cons.injEq] at heq
    exact CronInv.after_cron nows pre (h.step cron now rfl).1 heq.2 hx

/-- **CRON and repeat combine**, for a message as `produceMessage` leaves it and any clock values of the calls. -/
theorem cron_repeat (hc : m.scheduledCron = some e) (hrep : m.scheduledRepeat = N) (hd : ¬PendingDelay m)
    (hfired : m.scheduledCronFired = false) (hcount : m.scheduledRepeatCount = 0) (nows : List ℕ) :
    (∀ now rest, nows = now :: rest → (calls cron m nows).1.head? = some (now, cron.next e now)) ∧
    (∀ x ∈ (calls cron m nows).1, x.2 ≤ cron.next e x.1) ∧
    (calls cron m nows).2.scheduledRepeatCount ≤ N ∧
    (∀ pre x mid y post, (calls cron m nows).1 = pre ++ x :: (mid ++ y :: post) → IsCron cron e x →
      IsCron cron e y → (∀ z ∈ mid, ¬IsCron cron e z) → mid.length ≤ N) := by
  have hinv : CronInv e N m := ⟨hc, hrep, hd, by omega⟩
  obtain ⟨hlast, hall⟩ := CronInv.run cron nows hinv
  refine ⟨?_, hall, hlast.count, ?_⟩
  · rintro now rest rfl
    rcases (hinv.step cron now rfl).2 with ⟨heq, _⟩ | ⟨_, hf, _⟩
    · simp [calls, heq]
    · rw [hfired] at hf; cases hf
  · intro pre x mid y post heq hx _ hmid
    obtain ⟨m', nows', hinv', h0, hrest⟩ := CronInv.after_cron nows pre hinv heq hx
    have := CronInv.repeats nows' mid (y :: post) hinv' hrest hmid
    omega

/-- An hourly CRON with two repeats, one minute apart, over four calls. -/
theorem cron_repeat_hourly :
    let cron : CronParser := ⟨fun _ now => (now / 3600000 + 1) * 3600000, fun _ now => by omega⟩
    let m : Message := { Message.new Message.defaultOpts "m" 0 with
      scheduledCron := some ⟨"0 0 * * * *", by decide⟩
      scheduledRepeat := 2
      scheduledPeriod := some ⟨60000, by decide⟩ }
    (calls cron m [0, 3600000, 3660000, 3720000]).1.head? = some (0, 3600000) ∧
      (calls cron m [0, 3600000, 3660000, 3720000]).2.scheduledRepeatCount ≤ 2 := by
  intro cron m
  have h := @cron_repeat cron _ 2 m rfl rfl (by simp [PendingDelay, m, Message.new]) rfl rfl
    [0, 3600000, 3660000, 3720000]
  exact ⟨h.1 _ _ rfl, h.2.2.1⟩

end RedisSmq.ScheduleHandler
