import RedisSmq.Broker

/-!
# The repeat count of a scheduled message

A message with `setScheduledRepeat(N)` and no CRON is produced and then processed by the scheduler at clock values at
which it is due. `Left k db` says that the scheduled store holds the message for `k` more times; one tick takes one off
(`Left.step`), a run of the scheduler ends after exactly `k` ticks (`Left.run`, `Left.exists_run`).

Producing leaves `N` times, but `N + 1` with a scheduled delay, which is not counted: `repeat_exact_iff`.
-/

namespace RedisSmq.ScheduleHandler

open RedisKeys

section Definitions

variable (cron : CronParser) (lt : Text → Text → Bool) (withPriority : Bool)

/-- The entry of a message in the scheduled store: its score and its payload. -/
def entry (db : Db) (id : String) : Option (ℕ × Message) := do
  let score ← (db.zsets getGlobalKeys.keyQueueScheduled).score (.id id)
  let m ← db.hashes getGlobalKeys.keyScheduledMessages (.id id)
  return (score, m)

/-- The message is in neither part of the scheduled store. -/
def Removed (db : Db) (id : String) : Prop :=
  .id id ∉ (db.zsets getGlobalKeys.keyQueueScheduled).members ∧
    db.hashes getGlobalKeys.keyScheduledMessages (.id id) = none

/-- The scheduler processes the message at the clock value `now`, at which it is due. -/
def processDue (id : String) (db : Db) (now : ℕ) : Option Db := do
  let (score, m) ← entry db id
  if score ≤ now then
    match enqueueScheduledMessage cron m withPriority now with
    | .ok cmds => some (db.execAll lt cmds)
    | .error _ => none
  else none

/-- The copies of a message in the pending list of a queue. -/
def copies (db : Db) (q : TMessageQueue) (id : String) : ℕ := ((db.lists q.keys.keyQueue).map (·.uuid)).count id

/-- The database after the message was produced at the clock value `now`. -/
def afterProduce (q : TMessageQueue) (m : Message) (now : ℕ) (db : Db) : Db :=
  match Producer.produceMessage cron q.ns q.name withPriority m now with
  | .ok (cmds, _) => db.execAll lt cmds
  | .error _ => db

/-- However the scheduler processes the message after it was produced, it enqueues it `N` times and removes it: there
are at most `N` ticks, the message becomes due again before the `N`th one, and is gone after it. -/
def EnqueuedExactly (q : TMessageQueue) (m : Message) (now : ℕ) (db : Db) (N : ℕ) : Prop :=
  ∀ (nows : List ℕ) (db' : Db),
    nows.foldlM (processDue cron lt withPriority m.uuid) (afterProduce cron lt withPriority q m now db) = some db' →
    nows.length ≤ N ∧
      (nows.length < N → ∃ t, ∀ now' ≥ t, (processDue cron lt withPriority m.uuid db' now').isSome) ∧
      (nows.length = N → Removed db' m.uuid) ∧
      (withPriority = false → copies db' q m.uuid = copies db q m.uuid + nows.length)

end Definitions

variable {cron : CronParser} {lt : Text → Text → Bool} {withPriority : Bool} {db db' : Db} {q : TMessageQueue}
variable {m : Message} {id : String} {N k now : ℕ}

/-! ## One tick -/

/-- A removed message is not processed. -/
theorem Removed.processDue (h : Removed db id) : processDue cron lt withPriority id db now = none := by
  simp [ScheduleHandler.processDue, entry, SortedSet.score_eq_none.mpr h.1]

/-- Enqueueing in LIFO mode adds one copy. -/
theorem copies_enqueueCmds : copies (db.execAll lt (EnqueueHandler.enqueueCmds q m false now)) q m.uuid =
    copies db q m.uuid + 1 := by
  simp [EnqueueHandler.enqueueCmds, Db.exec, copies, EnqueueHandler.enqueued, Message.setPublishedAt]

/-- With a timestamp, the message is stored under it. -/
theorem entry_storeCmds {r : ℕ × Message} (h : r.1 ≠ 0) : entry (db.execAll lt (storeCmds r)) r.2.uuid = some r := by
  simp [storeCmds, h, Db.exec, entry, SortedSet.score_zadd_self]

/-- Without a timestamp, the message is removed. -/
theorem removed_storeCmds {r : ℕ × Message} (h : r.1 = 0) : Removed (db.execAll lt (storeCmds r)) r.2.uuid := by
  simp [storeCmds, h, Db.exec, Removed, SortedSet.mem_zrem]

theorem copies_storeCmds {r : ℕ × Message} : copies (db.execAll lt (storeCmds r)) q id = copies db q id := by
  unfold storeCmds
  split <;> simp [Db.exec, copies]

/-- A message of the queue `q` with repeat `N`, without CRON, and without a delay that is still to come. -/
structure Repeats (q : TMessageQueue) (id : String) (N : ℕ) (m : Message) : Prop where
  uuid : m.uuid = id
  queue : m.queue = some q
  cron : m.scheduledCron = none
  rep : m.scheduledRepeat = N
  delay : ¬PendingDelay m

/-- The scheduled store holds the message, to be enqueued `k` more times. -/
structure Left (q : TMessageQueue) (id : String) (N k : ℕ) (db : Db) (score : ℕ) (m : Message) : Prop where
  entry : entry db id = some (score, m)
  score : 0 < score
  msg : Repeats q id N m
  count : m.scheduledRepeatCount + k = N + 1

/-- Without CRON and delay, a timestamp is a repeat, and it is given exactly while a repeat is left. -/
theorem Repeats.next (h : Repeats q id N m) (hnow : 0 < now) {r : ℕ × Message}
    (hr : getNextScheduledTimestamp cron now m = r) : Repeats q id N r.2 ∧ (m.scheduledRepeatCount + 1 ≤ N → now ≤ r.1 ∧
        r.2.scheduledRepeatCount = m.scheduledRepeatCount + 1) ∧
      (N < m.scheduledRepeatCount + 1 → r.1 = 0) := by
  have hrep := h.rep
  have hc : cronTimestamp cron now m = 0 := cronTimestamp_none h.cron
  rcases next_cases cron now h.delay r hr with ⟨_, _, _, hlt⟩ | ⟨_, hne⟩ | ⟨rfl, hne, _⟩ | ⟨rfl, h0⟩
  · omega
  · exact absurd hc hne
  · obtain ⟨hle, hge⟩ := repeatTimestamp_ne_zero hne
    refine ⟨⟨h.uuid, h.queue, h.cron, h.rep, h.delay⟩, fun _ => ⟨hge, rfl⟩, fun hlt => by omega⟩
  · refine ⟨h, fun hle => ?_, fun _ => rfl⟩
    have hs : m.isSchedulable = true := by
      have : 0 < m.scheduledRepeat := by omega
      simp [Message.isSchedulable, this]
    have hr0 := (h0 hs).2
    have hcond : m.scheduledRepeat ≠ 0 ∧ (m.scheduledRepeatCount : ℤ) + 1 ≤ m.scheduledRepeat := by omega
    unfold repeatTimestamp at hr0
    rw [if_pos hcond] at hr0
    split at hr0 <;> omega

theorem Repeats.enqueued (h : Repeats q id N m) (withPriority : Bool) (now : ℕ) :
    Repeats q id N (EnqueueHandler.enqueued m withPriority now) ∧
      (EnqueueHandler.enqueued m withPriority now).scheduledRepeatCount = m.scheduledRepeatCount := by
  cases withPriority <;> exact ⟨⟨h.uuid, h.queue, h.cron, h.rep, h.delay⟩, rfl⟩

/-- One tick takes one off; the last one removes the message. -/
theorem Left.step (cron : CronParser) (lt : Text → Text → Bool) (withPriority : Bool) {score : ℕ}
    (h : Left q id N (k + 1) db score m) (hnow : score ≤ now) :
    ∃ db', processDue cron lt withPriority id db now = some db' ∧
      (withPriority = false → copies db' q id = copies db q id + 1) ∧
      (k = 0 → Removed db' id) ∧ (0 < k → ∃ score' m', Left q id N k db' score' m') := by
  obtain ⟨hrep, hcnt⟩ := h.msg.enqueued withPriority now
  have hscore := h.score
  have hcount := h.count
  have huuid := h.msg.uuid
  cases hr : getNextScheduledTimestamp cron now (EnqueueHandler.enqueued m withPriority now) with
  | mk t m' =>
    obtain ⟨hrep', hmore, hlast⟩ := hrep.next (by omega) hr
    have hid : m'.uuid = id := hrep'.uuid
    refine ⟨db.execAll lt (EnqueueHandler.enqueueCmds q m withPriority now ++ storeCmds (t, m')), ?_, ?_, ?_, ?_⟩
    · rw [processDue, h.entry]
      simp [hnow, enqueueScheduledMessage_ok _ h.msg.queue, hr]
    · intro hp
      subst hp
      rw [Db.execAll_append, copies_storeCmds, ← huuid, copies_enqueueCmds]
    · intro hk
      have ht : t = 0 := hlast (by omega)
      rw [Db.execAll_append, ← hid]
      exact removed_storeCmds ht
    · intro hk
      obtain ⟨hge, hcnt'⟩ := hmore (by omega)
      have ht : t ≠ 0 := by simp only at hge; omega
      refine ⟨t, m', ⟨?_, by omega, hrep', by simp only at hcnt'; omega⟩⟩
      rw [Db.execAll_append, ← hid]
      exact entry_storeCmds ht

/-! ## Runs of the scheduler -/

/-- A run of ticks is no longer than what is left; the message is due again while it is shorter, and gone after it. -/
theorem Left.run : ∀ (nows : List ℕ) {k : ℕ} {db db' : Db} {score : ℕ} {m : Message}, Left q id N (k + 1) db score m →
    nows.foldlM (processDue cron lt withPriority id) db = some db' →
    nows.length ≤ k + 1 ∧ (nows.length < k + 1 → ∃ score' m', Left q id N (k + 1 - nows.length) db' score' m') ∧
      (nows.length = k + 1 → Removed db' id) ∧
      (withPriority = false → copies db' q id = copies db q id + nows.length)
  | [], k, db, db', score, m, h, hr => by
    cases hr
    exact ⟨by simp, fun _ => ⟨score, m, h⟩, by simp, fun _ => rfl⟩
  | now :: nows, k, db, db', score, m, h, hr => by
    rw [List.foldlM_cons] at hr
    obtain ⟨db₁, h1, hr⟩ := Option.bind_eq_some_iff.mp hr
    -- a tick that happened was due
    have hdue : score ≤ now := by
      by_contra hn
      simp [processDue, h.entry, hn] at h1
    obtain ⟨db₂, h2, hcopies, hlast, hmore⟩ := h.step cron lt withPriority hdue
    rw [h1] at h2
    cases h2
    cases k with
    | zero =>
      have hrem := hlast rfl
      cases nows with
      | nil => cases hr; exact ⟨by simp, by simp, fun _ => hrem, hcopies⟩
      | cons now' nows =>
        rw [List.foldlM_cons, hrem.processDue] at hr
        cases hr
    | succ k =>
      obtain ⟨score', m', h'⟩ := hmore (Nat.succ_pos k)
      obtain ⟨hle, hlt, heq, hcop⟩ := Left.run nows h' hr
      simp only [List.length_cons]
      refine ⟨by omega, fun hl => ?_, fun hl => heq (by omega), fun hp => ?_⟩
      · have := hlt (by omega)
        rwa [show k + 1 + 1 - (nows.length + 1) = k + 1 - nows.length by omega]
      · rw [hcop hp, hcopies hp]; omega

/-- What is left can be processed to its end. -/
theorem Left.exists_run (cron : CronParser) (lt : Text → Text → Bool) (withPriority : Bool) :
    ∀ (k : ℕ) {db : Db} {score : ℕ} {m : Message}, Left q id N (k + 1) db score m →
    ∃ (nows : List ℕ) (db' : Db), nows.length = k + 1 ∧
      nows.foldlM (processDue cron lt withPriority id) db = some db'
  | 0, db, score, m, h => by
    obtain ⟨db', h1, _⟩ := h.step cron lt withPriority (Nat.le_refl score)
    exact ⟨[score], db', rfl, by simp [h1]⟩
  | k + 1, db, score, m, h => by
    obtain ⟨db₁, h1, _, _, hmore⟩ := h.step cron lt withPriority (Nat.le_refl score)
    obtain ⟨score', m', h'⟩ := hmore (Nat.succ_pos k)
    obtain ⟨nows, db', hlen, hr⟩ := Left.exists_run cron lt withPriority k h'
    exact ⟨score :: nows, db', by simp [hlen], by rw [List.foldlM_cons, h1]; exact hr⟩

/-! ## Producing -/

/-- The state a message is produced in. -/
abbrev fresh (q : TMessageQueue) (m : Message) : Message := m.reset.setQueue q.ns q.name

theorem afterProduce_eq (hs : m.isSchedulable = true) : afterProduce cron lt withPriority q m now db =
    db.execAll lt (schedule cron (fresh q m) now).1 := by
  have : (fresh q m).isSchedulable = true := hs
  simp [afterProduce, Producer.produceMessage, this, pure, Except.pure]

/-- Scheduling stores the message under its timestamp. -/
theorem execAll_schedule (lt : Text → Text → Bool) (db : Db) (q : TMessageQueue) (id : String) {r : ℕ × Message}
    (hr : getNextScheduledTimestamp cron now m = r) (hpos : 0 < r.1) :
    entry (db.execAll lt (schedule cron m now).1) r.2.uuid = some (r.1, r.2.setScheduledAt now) ∧
      copies (db.execAll lt (schedule cron m now).1) q id = copies db q id := by
  subst hr
  simp [schedule, hpos, scheduleMessage, Db.exec, entry, SortedSet.score_zadd_self, copies, Message.setScheduledAt]

/-- Producing leaves `N` times without a delay, and `N + 1` times with one. -/
theorem left_afterProduce (cron : CronParser) (lt : Text → Text → Bool) (withPriority : Bool) (q : TMessageQueue)
    (db : Db) (hcron : m.scheduledCron = none) (hN : 0 < N) (hrep : m.scheduledRepeat = N)
    (hstored : m.scheduledDelay = none → 0 < now ∨ m.scheduledPeriod ≠ none) :
    ∃ score m', Left q m.uuid N (if m.scheduledDelay = none then N else N + 1)
        (afterProduce cron lt withPriority q m now db) score m' ∧
      copies (afterProduce cron lt withPriority q m now db) q m.uuid = copies db q m.uuid := by
  have hs : m.isSchedulable = true := by
    have : 0 < m.scheduledRepeat := by omega
    simp [Message.isSchedulable, this]
  rw [afterProduce_eq hs]
  cases hd : m.scheduledDelay with
  | some d =>
    have hnext : getNextScheduledTimestamp cron now (fresh q m) = (now + d.ms, (fresh q m).setMessageDelayed true) :=
      next_pending hd rfl
    have hpos : 0 < now + d.ms := by have := d.min; omega
    obtain ⟨he, hc⟩ := execAll_schedule lt db q m.uuid hnext hpos
    refine ⟨_, _, ⟨he, hpos, ⟨rfl, rfl, hcron, hrep, fun h => by cases h.2⟩, ?_⟩, hc⟩
    simp [Message.setScheduledAt, Message.setMessageDelayed, Message.setQueue, Message.reset]
  | none =>
    have hpend : ¬PendingDelay (fresh q m) := fun h => by
      have : (fresh q m).scheduledDelay = none := hd
      rw [PendingDelay, this] at h
      simp at h
    have hrt : repeatTimestamp now (fresh q m) ≠ 0 := by
      have hcond : (fresh q m).scheduledRepeat ≠ 0 ∧
          ((fresh q m).scheduledRepeatCount : ℤ) + 1 ≤ (fresh q m).scheduledRepeat := by
        simp only [fresh, Message.setQueue, Message.reset, hrep]; omega
      unfold repeatTimestamp
      rw [if_pos hcond]
      split
      · rename_i p _; have := p.min; omega
      · rename_i hp
        have := hstored hd
        rcases this with h | h
        · omega
        · exact absurd hp h
    have hct : cronTimestamp cron now (fresh q m) = 0 := cronTimestamp_none hcron
    have hnext : getNextScheduledTimestamp cron now (fresh q m) =
        (repeatTimestamp now (fresh q m), (fresh q m).incrMessageScheduledRepeatCount) := by
      rcases next_cases cron now hpend _ rfl with ⟨h, _⟩ | ⟨_, h⟩ | ⟨h, _⟩ | ⟨_, h⟩
      · exact h
      · exact absurd hct h
      · exact h
      · exact absurd (h hs).2 hrt
    obtain ⟨he, hc⟩ := execAll_schedule lt db q m.uuid hnext (by simp; omega)
    refine ⟨_, _, ⟨he, by simp; omega, ⟨rfl, rfl, hcron, hrep, hpend⟩, ?_⟩, hc⟩
    simp [Message.setScheduledAt, Message.incrMessageScheduledRepeatCount, Message.setQueue, Message.reset]
    omega

/-- At the clock value `0`, a repeat without delay and period is not stored. -/
theorem afterProduce_unstored (hcron : m.scheduledCron = none) (hN : 0 < N) (hrep : m.scheduledRepeat = N)
    (hd : m.scheduledDelay = none) (hp : m.scheduledPeriod = none) :
    afterProduce cron lt withPriority q m 0 db = db := by
  have hs : m.isSchedulable = true := by
    have : 0 < m.scheduledRepeat := by omega
    simp [Message.isSchedulable, this]
  have hpend : ¬PendingDelay (fresh q m) := fun h => by
    have : (fresh q m).scheduledDelay = none := hd
    rw [PendingDelay, this] at h
    simp at h
  have hr0 : repeatTimestamp 0 (fresh q m) = 0 := by
    have : (fresh q m).scheduledPeriod = none := hp
    simp [repeatTimestamp, this]
  have hct : cronTimestamp cron 0 (fresh q m) = 0 := cronTimestamp_none hcron
  have hnext : (getNextScheduledTimestamp cron 0 (fresh q m)).1 = 0 := by
    rcases next_cases cron 0 hpend _ rfl with ⟨h, _⟩ | ⟨h, _⟩ | ⟨h, _⟩ | ⟨h, _⟩ <;> rw [h]
    · exact hr0
    · exact hct
    · exact hr0
  rw [afterProduce_eq hs]
  simp [schedule, hnext]

/-- **The repeat count is exact** just for the messages without a scheduled delay (that are stored at all: a repeat
without a period is not scheduled at the clock value `0`). -/
theorem repeat_exact_iff (hcron : m.scheduledCron = none) (hN : 0 < N) (hrep : m.scheduledRepeat = N)
    (hfresh : Removed db m.uuid) :
    EnqueuedExactly cron lt withPriority q m now db N ↔
      m.scheduledDelay = none ∧ (0 < now ∨ m.scheduledPeriod ≠ none) := by
  constructor
  · intro h
    by_cases hd : m.scheduledDelay = none
    · refine ⟨hd, ?_⟩
      by_contra hc
      push Not at hc
      obtain ⟨hnow, hp⟩ := hc
      obtain rfl : now = 0 := Nat.le_zero.mp hnow
      -- nothing is stored, so the message never becomes due
      obtain ⟨t, ht⟩ := (h [] _ rfl).2.1 hN
      have := ht t (Nat.le_refl t)
      rw [afterProduce_unstored hcron hN hrep hd hp, hfresh.processDue] at this
      cases this
    · -- with a delay the message can be processed `N + 1` times
      obtain ⟨score, m', hleft, _⟩ := left_afterProduce cron lt withPriority q db hcron hN hrep (fun h0 => absurd h0 hd)
      rw [if_neg hd] at hleft
      obtain ⟨nows, db', hlen, hr⟩ := Left.exists_run cron lt withPriority N hleft
      have := (h nows db' hr).1
      omega
  · rintro ⟨hd, hpos⟩ nows db' hr
    obtain ⟨score, m', hleft, hcop⟩ := left_afterProduce cron lt withPriority q db hcron hN hrep (fun _ => hpos)
    rw [if_pos hd] at hleft
    cases N with
    | zero => omega
    | succ n =>
      obtain ⟨hle, hlt, heq, hc⟩ := hleft.run nows hr
      refine ⟨hle, fun hl => ?_, heq, fun hp => by rw [hc hp, hcop]⟩
      obtain ⟨score', m'', hleft'⟩ := hlt hl
      obtain ⟨j, hj⟩ := Nat.exists_eq_succ_of_ne_zero (n := n + 1 - nows.length) (by omega)
      rw [hj] at hleft'
      refine ⟨score', fun now' hnow' => ?_⟩
      obtain ⟨db'', h1, _⟩ := hleft'.step cron lt withPriority hnow'
      rw [h1]
      rfl

/-! ## An example -/

/-- A message that is to be delivered three times, every three seconds. -/
def threeTimes : Message :=
  { Message.new Message.defaultOpts "m" 0 with scheduledRepeat := 3, scheduledPeriod := some ⟨3000, by decide⟩ }

/-- The same message after an initial delay of ten seconds. -/
def threeTimesDelayed : Message := { threeTimes with scheduledDelay := some .tenSeconds }

/-- Without a delay, the three deliveries are exact. -/
theorem repeat_exact_threeTimes :
    EnqueuedExactly minuteParser (fun _ _ => false) false ⟨"q", "ns"⟩ threeTimes 1 .empty 3 :=
  (repeat_exact_iff (N := 3) rfl (by decide) rfl ⟨by decide, rfl⟩).mpr ⟨rfl, .inl (by decide)⟩

/-- With the delay, a fourth delivery follows the three. -/
theorem not_repeat_exact_threeTimesDelayed :
    ¬EnqueuedExactly minuteParser (fun _ _ => false) false ⟨"q", "ns"⟩ threeTimesDelayed 1 .empty 3 := by
  intro h
  have hrun : ([10001, 13001, 16001, 19001].foldlM
      (processDue minuteParser (fun _ _ => false) false threeTimesDelayed.uuid)
      (afterProduce minuteParser (fun _ _ => false) false ⟨"q", "ns"⟩ threeTimesDelayed 1 .empty)).isSome := by
    decide
  obtain ⟨db', hr⟩ := Option.isSome_iff_exists.mp hrun
  exact absurd (h _ db' hr).1 (by decide)

end RedisSmq.ScheduleHandler
