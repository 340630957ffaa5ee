import RedisSmq.Queue.RetryDelay

/-!
# Timestamps are kept

Every scheduled message has a timestamp: of its delay, of CRON, of a repetition or of a retry. The schedule worker reads
the identifiers that are due, then their payloads, then enqueues one message after the other, and in between others store,
delete and purge scheduled messages. In every run in which an identifier stands for one message, periodic or not, no
message is enqueued before the timestamp that it was last stored under (`notEarly_reachable`).

The invariant is `Dated`: the score of a message is its last timestamp, and once the worker has read its identifier, this
timestamp has passed and is not replaced before the message is enqueued.
-/

namespace RedisSmq.Queue

open RedisKeys Db Transition

/-- What happens to a scheduled message: it is stored under a timestamp, or enqueued by the schedule worker. -/
inductive Due
  | stored (timestamp : ℕ)
  | enqueued (t : ℕ)
deriving DecidableEq

/-- The timestamp that a message is stored under. -/
def storedAt (db : Db) (id : String) : Option ℕ := (db.zsets getGlobalKeys.keyQueueScheduled).score (.id id)

/-- A new timestamp after a step. -/
def newTimestamp (before after : Option ℕ) : List Due := if after = before then [] else (after.map Due.stored).toList

/-- The schedule worker is about to enqueue the message. -/
def aboutToEnqueue (id : String) (s : State) : Action → Bool
  | .scheduleExec =>
    match s.scheduleTick with
    | .messages _ _ (some m :: _) => decide (m.uuid = id) && m.queue.isSome
    | _ => false
  | _ => false

/-- What an action at the clock value `t` does to a scheduled message; it is enqueued before it is stored again. -/
def dues (cron : CronParser) (lt : Text → Text → Bool) (config : String → ConsumerConfig) (id : String) (s : State × ℕ)
    (a : ℕ × Action) : List Due :=
  (if aboutToEnqueue id s.1 a.2 then [.enqueued a.1] else []) ++
    ((step cron lt config s.1 a.2).map fun s' => newTimestamp (storedAt s.1.db id) (storedAt s'.db id)).getD []

/-- The last timestamp of a log. -/
def latest : Option ℕ → List Due → Option ℕ
  | last, [] => last
  | _, .stored n :: log => latest (some n) log
  | last, .enqueued _ :: log => latest last log

/-- Every time the message is enqueued, its last timestamp has passed. -/
def NotEarly : Option ℕ → List Due → Prop
  | _, [] => True
  | _, .stored n :: log => NotEarly (some n) log
  | last, .enqueued t :: log => (∃ n, last = some n ∧ n ≤ t) ∧ NotEarly last log

/-- What is known of a scheduled message: its score is its last timestamp, and this timestamp has passed once the schedule
worker has read its identifier. -/
structure Dated (id : String) (s : State × ℕ) (log : List Due) : Prop where
  score : ∀ n, storedAt s.1.db id = some n → latest none log = some n
  read : s.1.scheduleTick.reads id ≠ 0 → ∃ n, latest none log = some n ∧ n ≤ s.2
  once : s.1.scheduleTick.reads id ≤ 1
  known : s.1.scheduleTick.reads id ≠ 0 → ∃ r ∈ s.1.produced, r.message.uuid = id
  notEarly : NotEarly none log

section

variable {cron : CronParser} {lt : Text → Text → Bool} {config : String → ConsumerConfig}
variable {s s' : State} {a : Action} {id : String} {m : Message} {t n : ℕ} {last before after : Option ℕ}
variable {log log' : List Due}

/-! ## Logs -/

theorem latest_append : latest last (log ++ log') = latest (latest last log) log' := by
  induction log generalizing last with
  | nil => rfl
  | cons e log ih => cases e <;> exact ih

theorem notEarly_append : NotEarly last (log ++ log') ↔ NotEarly last log ∧ NotEarly (latest last log) log' := by
  induction log generalizing last with
  | nil => exact ⟨fun h => ⟨trivial, h⟩, fun h => h.2⟩
  | cons e log ih =>
    cases e with
    | stored n => exact ih
    | enqueued t => exact (and_congr_right' ih).trans and_assoc.symm

/-- A new timestamp is the last one. -/
theorem latest_newTimestamp : latest last (newTimestamp before after) = if after = before then last else after.or last := by
  unfold newTimestamp
  split
  · rfl
  · cases after <;> rfl

theorem notEarly_newTimestamp : NotEarly last (newTimestamp before after) := by
  unfold newTimestamp
  split
  · trivial
  · cases after <;> trivial

/-- What a step adds to the log. -/
theorem dues_eq {s : State × ℕ} {a : ℕ × Action} (hs : step cron lt config s.1 a.2 = some s') :
    dues cron lt config id s a = (if aboutToEnqueue id s.1 a.2 then [.enqueued a.1] else []) ++
      newTimestamp (storedAt s.1.db id) (storedAt s'.db id) := by
  rw [dues, hs]
  rfl

/-- Enqueueing leaves the last timestamp as it is. -/
theorem latest_dues {s : State × ℕ} {a : ℕ × Action} (hs : step cron lt config s.1 a.2 = some s') :
    latest last (dues cron lt config id s a) =
      if storedAt s'.db id = storedAt s.1.db id then last else (storedAt s'.db id).or last := by
  rw [dues_eq hs, latest_append, latest_newTimestamp]
  cases aboutToEnqueue id s.1 a.2 <;> rfl

/-! ## The steps -/

/-- The worker has read what it is about to enqueue. -/
theorem reads_of_aboutToEnqueue (h : aboutToEnqueue id s a = true) : s.scheduleTick.reads id ≠ 0 := by
  unfold aboutToEnqueue at h
  split at h
  · split at h
    · rename_i htick
      simp only [Bool.and_eq_true, decide_eq_true_eq] at h
      rw [htick, reads_cons, if_pos h.1]
      omega
    · cases h
  · cases h

/-- The delay worker has no message whose identifier the schedule worker has read. -/
theorem not_read_of_delayed (h : Reach (system cron lt config) (fun s a => identifies id s a = true) s)
    {b : DelayBatch} (hb : s.delayTick = .fetched b) (hm : m ∈ b.messages) (huuid : m.uuid = id) :
    s.scheduleTick.reads id = 0 := by
  have hbase : Base config s := base_reachable h
  have hmem : m ∈ s.db.lists getGlobalKeys.keyQueueDelay := (hbase.batches.delay b hb).subset hm
  obtain ⟨⟨r, hr, hcontent⟩, _⟩ := hbase.original m (.inl ⟨.list _, hmem⟩)
  have hrid : r.message.uuid = id := (congrArg Content.uuid hcontent : r.message.uuid = m.uuid).trans huuid
  have haperiodic : m.isPeriodic = false := (delayable_reachable h (.list _) m hmem rfl).1
  have htracked : Tracked id s := by
    refine tracked_reachable h fun r' hr' huuid' => ?_
    rw [← produced_unique h r hr hrid r' hr' huuid', isPeriodic_eq hcontent]
    exact haperiodic
  by_contra hne
  cases htracked.read hne _ (copies_of_holds hbase.store.filed (.list _) hmem huuid)

/-- Until it is enqueued, what the schedule worker has read keeps its score, or loses it. -/
theorem storedAt_of_read (h : Reach (system cron lt config) (fun s a => identifies id s a = true) s)
    (hid : identifies id s a = true) (hs : step cron lt config s a = some s') (ha : a ≠ .scheduleExec)
    (hread : s.scheduleTick.reads id ≠ 0) (hknown : ∃ r ∈ s.produced, r.message.uuid = id)
    (hn : storedAt s'.db id = some n) : storedAt s.db id = some n := by
  rcases step_score hs hn with hn | ⟨m, hsched, huuid⟩
  · exact hn
  · have huuid := Text.id.inj huuid
    cases hsched with
    | @produce q withPriority m now _ =>
      have hm : m.uuid = id := (huuid.trans (sameMessage_next cron now (sent q m)).uuid).symm
      obtain ⟨r, hr, hrid⟩ := hknown
      simp only [identifies, hm, ne_eq, not_true_eq_false, decide_false, Bool.false_or, List.all_eq_true,
        decide_eq_true_eq] at hid
      exact absurd hrid (hid r hr)
    | @delayed b i p hb hi _ =>
      have hi' : i.uuid = id := huuid.symm
      exact absurd (not_read_of_delayed h hb hi hi') hread
    | rescheduled => exact absurd rfl ha

/-- What the worker still has to do keeps its timestamp. -/
theorem Dated.latest_kept {s : State × ℕ} {a : ℕ × Action} (hd : Dated id s log)
    (hs : step cron lt config s.1 a.2 = some s') (hread : s.1.scheduleTick.reads id ≠ 0)
    (hkept : ∀ n, storedAt s'.db id = some n → storedAt s.1.db id = some n) (hle : s.2 ≤ a.1) :
    ∃ n, latest none (log ++ dues cron lt config id s a) = some n ∧ n ≤ a.1 := by
  obtain ⟨n, hn, hle'⟩ := hd.read hread
  refine ⟨n, ?_, hle'.trans hle⟩
  rw [latest_append, latest_dues hs, hn]
  split
  · rfl
  · rename_i hne
    cases hafter : storedAt s'.db id with
    | none => rfl
    | some n' => exact absurd (hafter.trans (hkept n' hafter).symm) hne

/-- The last timestamp has passed when the worker has read the identifier. -/
theorem Dated.read_step {s s' : State × ℕ} {a : ℕ × Action} (hd : Dated id s log)
    (h : Reach (system cron lt config) (fun s a => identifies id s a = true) s.1) (ha : timelyFor id s a)
    (hs : Queue.step cron lt config s.1 a.2 = some s'.1) (hle : s.2 ≤ a.1) (hread : s'.1.scheduleTick.reads id ≠ 0) :
    s'.1.scheduleTick.reads id ≤ 1 ∧ (∃ r ∈ s.1.produced, r.message.uuid = id) ∧
      ∃ n, latest none (log ++ dues cron lt config id s a) = some n ∧ n ≤ a.1 := by
  obtain ⟨t, a⟩ := a
  have hbase : Base config s.1 := base_reachable h
  have hstep := step_db hs
  have htick := step_tick hs
  have hbefore : a ≠ .scheduleExec → s.1.scheduleTick.reads id ≠ 0 →
      ∃ n, latest none (log ++ dues cron lt config id s (t, a)) = some n ∧ n ≤ t := fun ha' hread =>
    hd.latest_kept hs hread (fun _ => storedAt_of_read h ha.2 hs ha' hread (hd.known hread)) hle
  generalize s'.1.scheduleTick = tick at htick hread ⊢
  cases htick with
  | other ha' => exact ⟨hd.once, hd.known hread, hbefore ha' hread⟩
  | @fetchIds withPriority now _ =>
    have hsub := (s.1.db.zsets getGlobalKeys.keyQueueScheduled).zrangebyscore_sublist 0 now
    have hnodup := (SortedSet.nodup_members (s.1.db.zsets getGlobalKeys.keyQueueScheduled)).sublist hsub
    have hmem := List.count_pos_iff.mp (Nat.pos_of_ne_zero hread)
    obtain ⟨n, hn, _, hnow⟩ := SortedSet.mem_zrangebyscore.mp hmem
    obtain ⟨m, hm⟩ := hbase.store.linked _ (hsub.subset hmem)
    obtain ⟨⟨r, hr, hcontent⟩, _⟩ := hbase.original m (.inl ⟨.field _ _, hm⟩)
    have huuid : m.uuid = id := (Text.id.inj (hbase.store.filed (.field _ _) m hm)).symm
    have hsame : s'.1.db = s.1.db := by
      generalize s'.1.db = db at hstep
      cases hstep
      rfl
    refine ⟨List.nodup_iff_count_le_one.mp hnodup _,
      ⟨r, hr, (congrArg Content.uuid hcontent : r.message.uuid = m.uuid).trans huuid⟩, n, ?_, hnow.trans ?_⟩
    · rw [latest_append, latest_dues hs, hsame, if_pos rfl]
      exact hd.score n hn
    · exact of_decide_eq_true ha.1
  | @fetchMessages withPriority ids now hold =>
    have hreads : s.1.scheduleTick.reads id = ids.count (.id id) := by rw [hold]; rfl
    have hpayloads := @reads_payloads id s.1.db hbase.store.filed ids
    have hread' : s.1.scheduleTick.reads id ≠ 0 := by
      intro h0
      rw [← hreads, h0] at hpayloads
      exact hread (Nat.le_zero.mp hpayloads)
    exact ⟨hpayloads.trans (hreads ▸ hd.once), hd.known hread', hbefore (by simp) hread'⟩
  | @enqueued withPriority now m rest hold =>
    have hreads := hold ▸ @reads_cons id m withPriority now rest
    have honce := hd.once
    -- the identifier was read once, so the worker enqueues another message
    have huuid : m.uuid ≠ id := by
      intro huuid
      rw [if_pos huuid] at hreads
      omega
    have hread' : s.1.scheduleTick.reads id ≠ 0 := by omega
    have hsame : SameFor s'.1.db s.1.db id := by
      generalize s'.1.db = db at hstep
      cases hstep with
      | reads => exact .refl _ _
      | scheduleExec hold' _ =>
        rw [hold] at hold'
        cases hold'
        exact sameFor_scheduleExec huuid
    exact ⟨by omega, hd.known hread',
      hd.latest_kept hs hread' (fun n hn => (hsame.scores _).symm.trans hn) hle⟩
  | finished | missing | noQueue => exact absurd rfl hread

/-- Each step keeps what is known of a scheduled message. -/
theorem Dated.step {s s' : State × ℕ} {a : ℕ × Action} (hd : Dated id s log)
    (h : Reach (system cron lt config) (fun s a => identifies id s a = true) s.1) (ha : timelyFor id s a)
    (hs : Queue.step cron lt config s.1 a.2 = some s'.1) (hle : s.2 ≤ a.1) (hclock : s'.2 = a.1) :
    Dated id s' (log ++ dues cron lt config id s a) where
  score n hn := by
    rw [latest_append, latest_dues hs]
    split
    · rename_i hsame
      exact hd.score n (hsame.symm.trans hn)
    · rw [hn]
      rfl
  read hread := by
    rw [hclock]
    exact (hd.read_step h ha hs hle hread).2.2
  once := by
    by_cases hread : s'.1.scheduleTick.reads id = 0
    · omega
    · exact (hd.read_step h ha hs hle hread).1
  known hread := by
    obtain ⟨r, hr, huuid⟩ := (hd.read_step h ha hs hle hread).2.1
    exact ⟨r, produced_subset hs hr, huuid⟩
  notEarly := by
    rw [dues_eq hs, notEarly_append, notEarly_append]
    refine ⟨hd.notEarly, ?_, notEarly_newTimestamp⟩
    split
    · rename_i habout
      obtain ⟨n, hn, hle'⟩ := hd.read (reads_of_aboutToEnqueue habout)
      exact ⟨⟨n, hn, hle'.trans hle⟩, trivial⟩
    · trivial

theorem dated_reachable {s : (State × ℕ) × List Due}
    (h : Reach ((system cron lt config).timed.logged (dues cron lt config id)) (fun s a => timelyFor id s.1 a) s) :
    Dated id s.1 s.2 := by
  induction h with
  | init =>
    exact ⟨fun _ h => (by cases h), fun h => absurd rfl h, Nat.zero_le _, fun h => absurd rfl h, trivial⟩
  | @step s s' a h hp hs ih =>
    obtain ⟨htimed, hlog⟩ := Machine.logged_step hs
    obtain ⟨hstep, hle, hclock⟩ := Machine.timed_step htimed
    rw [hlog]
    exact ih.step (reach_timed ((reach_logged h).mono fun _ _ h => h.2)) hp hstep hle hclock

/-- **No message is enqueued early**: every time the schedule worker enqueues a message, periodic or not, in either mode
and whatever else happens in between, the timestamp that the message was last stored under has passed. -/
theorem notEarly_reachable {s : (State × ℕ) × List Due}
    (h : Reach ((system cron lt config).timed.logged (dues cron lt config id)) (fun s a => timelyFor id s.1 a) s) :
    NotEarly none s.2 :=
  (dated_reachable h).notEarly

end

/-- A message that is repeated once, ten seconds after it is delivered for the first time. -/
def repeated : Message :=
  { Message.new Message.defaultOpts "m" 0 with
    scheduledDelay := some .tenSeconds, scheduledPeriod := some .tenSeconds, scheduledRepeat := 1 }

/-- The message is enqueued when its delay has passed, and again after its period. -/
def repeatedRun : Option ((State × ℕ) × List Due) :=
  run ((system minuteParser (fun _ _ => false) lifoConsumer).timed.logged
      (dues minuteParser (fun _ _ => false) lifoConsumer "m"))
    (fun s a => (onTime a.1 a.2 && identifies "m" s.1.1 a.2) = true) ((init, 0), [])
    [(1, .produce ⟨"q", "ns"⟩ false repeated 1), (10001, .scheduleFetchIds false 10001),
      (10002, .scheduleFetchMessages 10002), (10003, .scheduleExec), (10003, .scheduleExec),
      (20002, .scheduleFetchIds false 20002), (20003, .scheduleFetchMessages 20003), (20004, .scheduleExec)]

theorem notEarly_repeatedRun : ∃ s, repeatedRun = some s ∧
    s.2 = [.stored 10001, .enqueued 10003, .stored 20002, .enqueued 20004] ∧ NotEarly none s.2 := by
  have hrun : repeatedRun.map Prod.snd = some [.stored 10001, .enqueued 10003, .stored 20002, .enqueued 20004] := by
    decide
  obtain ⟨s, hs, hlog⟩ := Option.map_eq_some_iff.mp hrun
  refine ⟨s, hs, hlog, ?_⟩
  exact @notEarly_reachable minuteParser (fun _ _ => false) lifoConsumer "m" s
    ((reach_of_run _ hs).mono fun _ _ h => Bool.and_eq_true_iff.mp h)

end RedisSmq.Queue
