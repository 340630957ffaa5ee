import RedisSmq.Queue.Modes
import RedisSmq.Queue.OneCopy
import RedisSmq.Queue.RetryDelay
import RedisSmq.Scheduler.Tick

/-!
# Nothing is stuck

The delay worker and the re-queue worker never throw, in any run (`workersAlive_reachable`). In a LIFO run the schedule
worker does not throw either, and the three of them can bring back everything that waits: from every reached state, steps
of the workers alone lead to a state in which each message that waited in the delay list, in the re-queue list or in the
scheduled store lies in a pending list, unless it is periodic (`unstuck_reachable`).

The workers finish what they have begun (`exists_idle`); then each tick of the delay worker and of the re-queue worker
takes the first hundred messages off its list, until it is empty (`exists_drained`); then one tick of the schedule worker
enqueues the rest.
-/

namespace RedisSmq.Queue

open RedisKeys Db Transition

/-- The steps of the workers. -/
def ofWorkers : Action → Bool
  | .delayFetch _ | .delayExec | .requeueFetch _ | .requeueExec | .scheduleFetchIds .. | .scheduleFetchMessages _
  | .scheduleExec => true
  | _ => false

/-- Steps of the workers in LIFO mode. -/
def byWorkers (config : String → ConsumerConfig) (s : State) (a : Action) : Prop :=
  lifo config s a = true ∧ ofWorkers a = true

/-- The places where messages wait for a worker. -/
def Place.waiting : List Place :=
  [.list getGlobalKeys.keyQueueDelay, .list getGlobalKeys.keyQueueRequeue, .scheduled]

/-- The workers that cannot fail have not. -/
def WorkersAlive (s : State) : Prop := s.delayTick ≠ .dead ∧ s.requeueTick ≠ .dead

section

variable {cron : CronParser} {lt : Text → Text → Bool} {config : String → ConsumerConfig}
variable {s s' t : State} {a : Action} {m : Message} {db : Db} {k : RedisKey} {now : ℕ}
variable {P : State → Action → Prop}

/-! ## Workers that do not throw -/

/-- The delay worker can prepare its transaction for messages with a retry delay. -/
theorem parallel_scheduleTask_ok (cron : CronParser) (now : ℕ) {ms : List Message}
    (h : ∀ i ∈ ms, i.retryDelay.ms ≠ 0) : ∃ cmds, parallel (DelayHandler.scheduleTask cron now) ms = .ok cmds := by
  refine parallel_ok fun i hi => ?_
  obtain ⟨p, _, hset⟩ := Message.setScheduledDelay_retryDelay (m := i.incrAttempts) (h i hi)
  exact ⟨_, by dsimp only [DelayHandler.scheduleTask]; rw [hset]; rfl⟩

/-- Every message of the delay list has a retry delay, in every run. -/
theorem retryDelay_of_mem (h : Reach (system cron lt config) P s) (hm : m ∈ s.db.lists getGlobalKeys.keyQueueDelay) :
    m.retryDelay.ms ≠ 0 :=
  (delayable_reachable h (.list _) m hm rfl).2

/-- Every message of a list names its queue, in every run. -/
theorem queue_of_mem (h : Reach (system cron lt config) P s) (hm : m ∈ s.db.lists k) : ∃ q, m.queue = some q :=
  Option.isSome_iff_exists.mp (stock_reachable h m (.inl ⟨.list k, hm⟩)).queue

/-- **The delay worker and the re-queue worker never throw**, whatever the modes, the interleaving and the requests of the
message manager are. -/
theorem workersAlive_reachable (h : Reach (system cron lt config) P s) : WorkersAlive s := by
  induction h with
  | init => exact ⟨by simp [init, system], by simp [init, system]⟩
  | @step s s' a h hp hs ih =>
    have hb : Batches s := batches_reachable h
    constructor
    · rcases step_delayTick hs with ⟨heq, _⟩ | ⟨_, _, _, heq⟩ | ⟨rfl, _⟩
      · exact heq ▸ ih.1
      · simp [heq]
      · change step cron lt config s .delayExec = some s' at hs
        simp only [step, delayExec] at hs
        split at hs
        · rename_i b hf
          obtain ⟨cmds, hcmds⟩ := parallel_scheduleTask_ok cron b.now fun i hi =>
            retryDelay_of_mem h ((hb.delay b hf).subset hi)
          rw [hcmds] at hs
          cases hs
          simp
        · cases hs
    · rcases step_requeueTick hs with ⟨heq, _⟩ | ⟨_, _, _, heq⟩ | ⟨rfl, _⟩
      · exact heq ▸ ih.2
      · simp [heq]
      · change step cron lt config s .requeueExec = some s' at hs
        simp only [step, requeueExec] at hs
        split at hs
        · rename_i b hf
          obtain ⟨cmds, hcmds⟩ := parallel_requeueTask_ok b.withPriority fun i hi =>
            queue_of_mem h ((hb.requeue b hf).subset hi)
          rw [hcmds] at hs
          cases hs
          simp
        · cases hs

/-- A message is re-queued by a worker in the other mode, next to a purge and a tick of the delay worker. -/
theorem workersAlive_requests : ∃ s, run (system minuteParser (fun _ _ => false) lifoConsumer) (fun _ _ => True) init
    [.produce ⟨"q", "ns"⟩ false retried 1, .dequeue "c", .unacknowledge "c" .timeout 2, .requeueFetch true,
      .requeueExec, .delayFetch 3, .purge .pending ⟨"q", "ns"⟩, .delayExec] = some s ∧ WorkersAlive s :=
  exists_run (by decide) fun _ h => workersAlive_reachable h

/-! ## One tick -/

/-- A step of a worker makes a path longer. -/
theorem path_step (h : Path (system cron lt config) (byWorkers config) s t) (hl : lifo config t a = true)
    (ho : ofWorkers a = true) (hs : step cron lt config t a = some s') :
    Path (system cron lt config) (byWorkers config) s s' :=
  h.step ⟨hl, ho⟩ hs

/-- A transaction that removes each message of a batch from its list, and names the list nowhere else, removes the batch
when it is what the list starts with. -/
theorem lists_parallel {task : Message → Except String (List Cmd)}
    (htask : ∀ i cs, task i = .ok cs → ∃ rest, cs = .lrem k i :: rest ∧ ∀ c ∈ rest, k ∉ c.keys) :
    ∀ {ms rest : List Message} {cmds : List Cmd} {db : Db}, parallel task ms = .ok cmds → db.lists k = ms ++ rest →
      (db.execAll lt cmds).lists k = rest
  | [], _, _, _, h, hl => by cases h; exact hl
  | i :: ms, rest, _, db, h, hl => by
    obtain ⟨c, cs, h1, h2, rfl⟩ := parallel_cons h
    obtain ⟨others, rfl, hothers⟩ := htask i c h1
    rw [execAll_append, execAll_cons]
    refine lists_parallel htask h2 ?_
    rw [(execAll_frame others hothers).lists]
    show (Function.update db.lists k ((db.lists k).erase i)) k = _
    rw [Function.update_self, hl, List.cons_append, List.erase_cons_head]

theorem scheduleTask_keys {i : Message} {cs : List Cmd} (h : DelayHandler.scheduleTask cron now i = .ok cs) :
    ∃ rest, cs = .lrem getGlobalKeys.keyQueueDelay i :: rest ∧ ∀ c ∈ rest, getGlobalKeys.keyQueueDelay ∉ c.keys := by
  obtain ⟨p, _, rfl⟩ := scheduleTask_ok h
  refine ⟨_, rfl, fun c hc => ?_⟩
  unfold ScheduleHandler.storeCmds at hc
  split at hc <;> rcases List.mem_pair.mp hc with rfl | rfl <;> simp [Cmd.keys, RedisKey.ext_iff]

theorem requeueTask_keys {i : Message} {cs : List Cmd} (h : RequeueWorker.requeueTask false i = .ok cs) :
    ∃ rest, cs = .lrem getGlobalKeys.keyQueueRequeue i :: rest ∧
      ∀ c ∈ rest, getGlobalKeys.keyQueueRequeue ∉ c.keys := by
  obtain ⟨q, _, rfl⟩ := requeueTask_ok h
  refine ⟨_, rfl, fun c hc => ?_⟩
  rcases List.mem_singleton.mp hc with rfl
  simp [Cmd.keys, RedisKey.ext_iff]

/-- A tick of the delay worker takes the first hundred messages off the delay list. -/
theorem delayTick_path (h : Reach (system cron lt config) P s) (hidle : s.delayTick = .idle) :
    ∃ db, Path (system cron lt config) (byWorkers config) s { s with db := db } ∧
      db.lists getGlobalKeys.keyQueueDelay = (s.db.lists getGlobalKeys.keyQueueDelay).drop 100 ∧
      db.lists getGlobalKeys.keyQueueRequeue = s.db.lists getGlobalKeys.keyQueueRequeue := by
  obtain ⟨cmds, hcmds⟩ := @parallel_scheduleTask_ok cron 0 ((s.db.lists getGlobalKeys.keyQueueDelay).take 100)
    fun i hi => retryDelay_of_mem h (List.mem_of_mem_take hi)
  have hfetch : step cron lt config s (.delayFetch 0) = some { s with
      delayTick := .fetched ⟨(s.db.lists getGlobalKeys.keyQueueDelay).take 100, 0⟩ } := by
    simp only [step, hidle]
  have hexec : step cron lt config { s with
      delayTick := .fetched ⟨(s.db.lists getGlobalKeys.keyQueueDelay).take 100, 0⟩ } .delayExec =
      some { s with db := s.db.execAll lt cmds, delayTick := .idle } := by
    simp only [step, delayExec, hcmds]
  have hsame : { s with db := s.db.execAll lt cmds, delayTick := .idle } = { s with db := s.db.execAll lt cmds } := by
    rw [← hidle]
  refine ⟨s.db.execAll lt cmds, hsame ▸ path_step (path_step .refl rfl rfl hfetch) rfl rfl hexec,
    lists_parallel (fun _ _ => scheduleTask_keys) hcmds (List.take_append_drop 100 _).symm, ?_⟩
  exact (delay_frame hcmds (by simp [RedisKey.ext_iff]) (by simp [RedisKey.ext_iff]) (by simp [RedisKey.ext_iff])).lists

/-- A tick of the re-queue worker takes the first hundred messages off the re-queue list. -/
theorem requeueTick_path (h : Reach (system cron lt config) P s) (hidle : s.requeueTick = .idle) :
    ∃ db, Path (system cron lt config) (byWorkers config) s { s with db := db } ∧
      db.lists getGlobalKeys.keyQueueRequeue = (s.db.lists getGlobalKeys.keyQueueRequeue).drop 100 ∧
      db.lists getGlobalKeys.keyQueueDelay = s.db.lists getGlobalKeys.keyQueueDelay := by
  obtain ⟨cmds, hcmds⟩ := @parallel_requeueTask_ok false ((s.db.lists getGlobalKeys.keyQueueRequeue).take 100)
    fun i hi => queue_of_mem h (List.mem_of_mem_take hi)
  have hfetch : step cron lt config s (.requeueFetch false) = some { s with
      requeueTick := .fetched ⟨false, (s.db.lists getGlobalKeys.keyQueueRequeue).take 100⟩ } := by
    simp only [step, hidle]
  have hexec : step cron lt config { s with
      requeueTick := .fetched ⟨false, (s.db.lists getGlobalKeys.keyQueueRequeue).take 100⟩ } .requeueExec =
      some { s with db := s.db.execAll lt cmds, requeueTick := .idle } := by
    simp only [step, requeueExec, hcmds]
  have hsame : { s with db := s.db.execAll lt cmds, requeueTick := .idle } = { s with db := s.db.execAll lt cmds } := by
    rw [← hidle]
  refine ⟨s.db.execAll lt cmds, hsame ▸ path_step (path_step .refl rfl rfl hfetch) rfl rfl hexec,
    lists_parallel (fun _ _ => requeueTask_keys) hcmds (List.take_append_drop 100 _).symm, ?_⟩
  exact (requeue_frame hcmds (by simp [RedisKey.ext_iff]) fun i _ q _ => by simp [RedisKey.ext_iff]).lists

/-! ## Empty lists -/

/-- Ticks that take the first messages off a list empty it. -/
theorem exists_empty {k' : RedisKey} (idle : State → Prop) (hidle : ∀ s db, idle s → idle { s with db := db })
    (htick : ∀ s, Reach (system cron lt config) (fun s a => lifo config s a = true) s → idle s →
      ∃ db, Path (system cron lt config) (byWorkers config) s { s with db := db } ∧
        db.lists k = (s.db.lists k).drop 100 ∧ db.lists k' = s.db.lists k') :
    ∀ (n : ℕ) {s : State}, Reach (system cron lt config) (fun s a => lifo config s a = true) s → idle s →
      (s.db.lists k).length ≤ n →
      ∃ db, Path (system cron lt config) (byWorkers config) s { s with db := db } ∧
        db.lists k = [] ∧ db.lists k' = s.db.lists k'
  | 0, s, _, _, hn => ⟨s.db, .refl, List.length_eq_zero_iff.mp (Nat.le_zero.mp hn), rfl⟩
  | n + 1, s, h, hs, hn => by
    obtain ⟨db, hpath, hk, hk'⟩ := htick s h hs
    have hreach := h.path (fun _ _ h => h.1) hpath
    have hlength : (db.lists k).length ≤ n := by
      rw [hk, List.length_drop]
      omega
    obtain ⟨db', hpath', h1, h2⟩ := exists_empty idle hidle htick n hreach (hidle s db hs) hlength
    exact ⟨db', hpath.trans hpath', h1, h2.trans hk'⟩

/-- The delay worker and the re-queue worker can empty their lists. -/
theorem exists_drained (h : Reach (system cron lt config) (fun s a => lifo config s a = true) s)
    (hd : s.delayTick = .idle) (hr : s.requeueTick = .idle) :
    ∃ db, Path (system cron lt config) (byWorkers config) s { s with db := db } ∧
      db.lists getGlobalKeys.keyQueueDelay = [] ∧ db.lists getGlobalKeys.keyQueueRequeue = [] := by
  obtain ⟨db, hpath, hdelay, _⟩ := exists_empty (fun s => s.delayTick = .idle) (fun _ _ h => h)
    (fun _ h hs => delayTick_path h hs) _ h hd le_rfl
  have hreach := h.path (fun _ _ h => h.1) hpath
  obtain ⟨db', hpath', hrequeue, hdelay'⟩ := exists_empty (fun s => s.requeueTick = .idle) (fun _ _ h => h)
    (fun _ h hs => requeueTick_path h hs) _ hreach hr le_rfl
  exact ⟨db', hpath.trans hpath', hdelay'.trans hdelay, hrequeue⟩

/-! ## What the workers have begun -/

/-- The schedule worker does not throw in a LIFO run. -/
theorem scheduleAlive_reachable (h : Reach (system cron lt config) (fun s a => lifo config s a = true) s) :
    s.scheduleTick ≠ .dead := by
  induction h with
  | init => simp [init, system]
  | @step s s' a h _ hs ih =>
    have htick := step_tick hs
    have hticks := (inv_reachable h).ticks
    generalize s'.scheduleTick = tick at htick
    cases htick with
    | other => exact ih
    | missing hold =>
      obtain ⟨_, ms, hms, _⟩ := hticks.messages _ _ _ hold
      cases ms <;> cases hms
    | noQueue hold hq =>
      have hqueue := (stock_reachable h _ (.inr (.schedule hold List.mem_cons_self))).queue
      rw [hq] at hqueue
      cases hqueue
    | _ => simp

/-- The delay worker can finish its tick. -/
theorem delay_finished (h : Reach (system cron lt config) P s) : ∃ db,
    Path (system cron lt config) (byWorkers config) s { s with db := db, delayTick := .idle } := by
  cases hf : s.delayTick with
  | idle =>
    refine ⟨s.db, ?_⟩
    rw [← hf]
    exact .refl
  | dead => exact absurd hf (workersAlive_reachable h).1
  | fetched b =>
    obtain ⟨cmds, hcmds⟩ := parallel_scheduleTask_ok cron b.now fun i hi =>
      retryDelay_of_mem h (((batches_reachable h).delay b hf).subset hi)
    have hexec : step cron lt config s .delayExec =
        some { s with db := s.db.execAll lt cmds, delayTick := .idle } := by
      simp only [step, delayExec, hf, hcmds]
    exact ⟨_, path_step .refl rfl rfl hexec⟩

/-- The re-queue worker can finish its tick. -/
theorem requeue_finished (h : Reach (system cron lt config) P s) : ∃ db,
    Path (system cron lt config) (byWorkers config) s { s with db := db, requeueTick := .idle } := by
  cases hf : s.requeueTick with
  | idle =>
    refine ⟨s.db, ?_⟩
    rw [← hf]
    exact .refl
  | dead => exact absurd hf (workersAlive_reachable h).2
  | fetched b =>
    obtain ⟨cmds, hcmds⟩ := parallel_requeueTask_ok b.withPriority fun i hi =>
      queue_of_mem h (((batches_reachable h).requeue b hf).subset hi)
    have hexec : step cron lt config s .requeueExec =
        some { s with db := s.db.execAll lt cmds, requeueTick := .idle } := by
      simp only [step, requeueExec, hf, hcmds]
    exact ⟨_, path_step .refl rfl rfl hexec⟩

/-- The transactions that the schedule worker still has to make. -/
theorem schedule_messages (h : Reach (system cron lt config) (fun s a => lifo config s a = true) s)
    {withPriority : Bool} {rest : List (Option Message)} (htick : s.scheduleTick = .messages withPriority now rest) :
    ∃ db, Path (system cron lt config) (byWorkers config) s { s with db := db, scheduleTick := .idle } := by
  obtain ⟨rfl, ms, rfl, hnodup, _⟩ := (inv_reachable h).ticks.messages _ _ _ htick
  have hqueues : ∀ m ∈ ms, m.queue.isSome := fun m hm =>
    (stock_reachable h m (.inr (.schedule htick (List.mem_map_of_mem hm)))).queue
  obtain ⟨db, hdb, _⟩ := @ScheduleHandler.enqueue_ok cron lt now ms s.db hnodup hqueues
  have hpath : Path (system cron lt config) (fun _ a => a ∈ ScheduleHandler.tickActions false now now) s
      { s with db := db, scheduleTick := .idle } := ScheduleHandler.enqueue_path .refl htick hdb
  refine ⟨db, hpath.mono fun s a ha => ?_⟩
  simp only [ScheduleHandler.tickActions, List.mem_cons, List.not_mem_nil, or_false] at ha
  rcases ha with rfl | rfl | rfl <;> exact ⟨rfl, rfl⟩

/-- The schedule worker can finish its tick in a LIFO run. -/
theorem schedule_finished (h : Reach (system cron lt config) (fun s a => lifo config s a = true) s) : ∃ db,
    Path (system cron lt config) (byWorkers config) s { s with db := db, scheduleTick := .idle } := by
  cases htick : s.scheduleTick with
  | idle =>
    refine ⟨s.db, ?_⟩
    rw [← htick]
    exact .refl
  | dead => exact absurd htick (scheduleAlive_reachable h)
  | messages withPriority now rest => exact schedule_messages h htick
  | ids withPriority ids =>
    have hfetch : step cron lt config s (.scheduleFetchMessages 0) = some { s with
        scheduleTick := .messages withPriority 0 (ids.map (s.db.hashes getGlobalKeys.keyScheduledMessages)) } := by
      simp only [step, htick]
    have hpath := path_step .refl rfl rfl hfetch
    obtain ⟨db, hrest⟩ := schedule_messages (h.path (fun _ _ h => h.1) hpath) rfl
    exact ⟨db, hpath.trans hrest⟩

/-- The workers can finish what they have begun. -/
theorem exists_idle (h : Reach (system cron lt config) (fun s a => lifo config s a = true) s) :
    ∃ t, Path (system cron lt config) (byWorkers config) s t ∧
      t.delayTick = .idle ∧ t.requeueTick = .idle ∧ t.scheduleTick = .idle := by
  obtain ⟨_, hdelay⟩ := delay_finished h
  have h1 := h.path (fun _ _ h => h.1) hdelay
  obtain ⟨_, hrequeue⟩ := requeue_finished h1
  have h2 := h1.path (fun _ _ h => h.1) hrequeue
  obtain ⟨_, hschedule⟩ := schedule_finished h2
  exact ⟨_, (hdelay.trans hrequeue).trans hschedule, rfl, rfl, rfl⟩

/-! ## The scheduled store -/

/-- After a tick at a clock value that all timestamps have reached, a message that is not periodic is not stored. -/
theorem not_mem_of_ticked {fetchedAt : ℕ} {db' : Db} (ht : ScheduleHandler.Ticked cron fetchedAt now db db')
    (hw : ScheduleHandler.WellStored db)
    (hlate : ∀ t n, (db.zsets getGlobalKeys.keyQueueScheduled).score t = some n → n ≤ fetchedAt)
    (hripe : Forall Ripe db) {id : String} (hp : ∀ m, db.hashes getGlobalKeys.keyScheduledMessages (.id id) = some m →
      m.isPeriodic = false) : .id id ∉ (db'.zsets getGlobalKeys.keyQueueScheduled).members := by
  intro hid
  obtain ⟨n, hn⟩ := SortedSet.exists_score.mpr hid
  by_cases hdue : ∃ m, ScheduleHandler.Due db fetchedAt m ∧ m.uuid = id
  · obtain ⟨m, hdue, rfl⟩ := hdue
    obtain ⟨hrescheduled, huuid, _⟩ := ht.rescheduled m hdue
    have hperiodic : m.isPeriodic = false := hp m hdue.2
    have hzero : (ScheduleHandler.next cron false now m).1 = 0 := by
      by_contra hne
      have hnot : m.delayed = false :=
        (delayed_of_next ((sameMessage_enqueued m false now).isPeriodic.trans hperiodic) hne).2
      rw [hripe (.field _ _) m hdue.2 rfl hperiodic] at hnot
      cases hnot
    unfold ScheduleHandler.Rescheduled at hrescheduled
    rw [if_neg (by simpa using hzero), huuid] at hrescheduled
    rw [hrescheduled.1] at hn
    cases hn
  · have hscore := (ht.unchanged id fun m hm huuid => hdue ⟨m, hm, huuid⟩).1
    rw [hscore] at hn
    obtain ⟨m, hm, hmid, _⟩ := hw _ (SortedSet.exists_score.mp ⟨n, hn⟩)
    obtain rfl : id = m.uuid := Text.id.inj hmid
    exact hdue ⟨m, ⟨⟨n, hlate _ n hn, hn⟩, hm⟩, rfl⟩

/-- One tick can enqueue everything that is scheduled, unless it is periodic. -/
theorem exists_enqueued (h : Reach (system cron lt config) (fun s a => lifo config s a = true) s)
    (hidle : s.scheduleTick = .idle) : ∃ db, Path (system cron lt config) (byWorkers config) s { s with db := db } ∧
      (∀ id, (∀ m, s.db.hashes getGlobalKeys.keyScheduledMessages (.id id) = some m → m.isPeriodic = false) →
        .id id ∉ (db.zsets getGlobalKeys.keyQueueScheduled).members) ∧
      db.lists getGlobalKeys.keyQueueDelay = s.db.lists getGlobalKeys.keyQueueDelay ∧
      db.lists getGlobalKeys.keyQueueRequeue = s.db.lists getGlobalKeys.keyQueueRequeue := by
  obtain ⟨late, hlate⟩ := (s.db.zsets getGlobalKeys.keyQueueScheduled).exists_score_le
  obtain ⟨db, hpath, hticked⟩ := ScheduleHandler.tick_reachable h hidle late late
  refine ⟨db, hpath.mono fun s a ha => ?_, fun id hp =>
    not_mem_of_ticked hticked (ScheduleHandler.wellStored_reachable h) hlate (allRipe_reachable h).held hp, ?_, ?_⟩
  · simp only [ScheduleHandler.tickActions, List.mem_cons, List.not_mem_nil, or_false] at ha
    rcases ha with rfl | rfl | rfl <;> exact ⟨rfl, rfl⟩
  · exact (hticked.frame _ (by simp) (by simp [RedisKey.ext_iff]) (by simp [RedisKey.ext_iff])).lists
  · exact (hticked.frame _ (by simp) (by simp [RedisKey.ext_iff]) (by simp [RedisKey.ext_iff])).lists

/-! ## All of them together -/

/-- The lists of the workers are global. -/
def Global : Slot → Message → Prop
  | .list key, _ => (key.type = .keyQueueDelay → key = getGlobalKeys.keyQueueDelay) ∧
    (key.type = .keyQueueRequeue → key = getGlobalKeys.keyQueueRequeue)
  | .field _ _, _ => True

theorem global_list {key : RedisKey} (hd : key.type ≠ .keyQueueDelay) (hr : key.type ≠ .keyQueueRequeue) :
    Global (.list key) m :=
  ⟨fun h => absurd h hd, fun h => absurd h hr⟩

theorem global_reachable (h : Reach (system cron lt config) P s) : Forall Global s.db := by
  refine h.invariant (I := fun s => Forall Global s.db) Forall.empty fun s a s' hi _ hs =>
    step_forall hs hi fun slot m hputs => ?_
  cases hputs with
  | produceScheduled | delayed | rescheduled => trivial
  | @produceEnqueued _ withPriority | @enqueueScheduled withPriority | @requested _ _ _ _ withPriority =>
    cases withPriority
    · exact global_list (by simp) (by simp)
    · trivial
  | dequeuePriority | dequeue =>
    exact global_list (by simp [ConsumerConfig.keyQueueProcessing]) (by simp [ConsumerConfig.keyQueueProcessing])
  | acknowledge | requeued => exact global_list (by simp) (by simp)
  | @unacknowledge c cause now m =>
    cases Broker.destination m cause now
    · exact global_list (by simp [Broker.Destination.key]) (by simp [Broker.Destination.key])
    · exact ⟨fun _ => rfl, fun h => (by cases h)⟩
    · exact ⟨fun h => (by cases h), fun _ => rfl⟩

/-- The workers leave alone what is neither waiting nor pending. -/
theorem byWorkers_frame (h : Path (system cron lt config) (byWorkers config) s t) :
    t.produced = s.produced ∧
      ∀ k : RedisKey, k.type ∈ [ERedisKey.keyQueueProcessing, .keyQueueAcknowledgedMessages, .keyQueueDL] →
        t.db.lists k = s.db.lists k := by
  refine h.invariant (I := fun t => t.produced = s.produced ∧ ∀ k : RedisKey, k.type ∈ [ERedisKey.keyQueueProcessing,
    .keyQueueAcknowledgedMessages, .keyQueueDL] → t.db.lists k = s.db.lists k) ⟨rfl, fun _ _ => rfl⟩
    fun t a t' hi ha hs => ⟨?_, fun k hk => ?_⟩
  · rcases step_produced hs with heq | ⟨_, _, _, _, rfl, _⟩
    · exact heq.trans hi.1
    · cases ha.2
  · have htypes : k.type ∉ a.types := by
      obtain ⟨_, ha⟩ := ha
      simp only [List.mem_cons, List.not_mem_nil, or_false] at hk
      rcases hk with hk | hk | hk <;> rw [hk] <;> cases a <;> first
        | cases ha; done
        | simp [Action.types]
    exact (step_frame hs htypes).lists.trans (hi.2 k hk)

/-- **Nothing is stuck**: from every state of a LIFO run, steps of the workers lead to a state in which each message that
waited for them is pending, unless it is periodic. -/
theorem unstuck_reachable (h : Reach (system cron lt config) (fun s a => lifo config s a = true) s) :
    ∃ t, Path (system cron lt config) (byWorkers config) s t ∧
      ∀ r ∈ s.produced, r.message.isPeriodic = false → (∃ p ∈ Place.waiting, r.message.uuid ∈ board s.db p) →
        ∃ k : RedisKey, k.type = .keyQueue ∧ r.message.uuid ∈ board t.db (.list k) := by
  obtain ⟨t0, hpath0, hdelay, hrequeue, hschedule⟩ := exists_idle h
  have h0 := h.path (fun _ _ h => h.1) hpath0
  obtain ⟨db1, hpath1, hnodelay, hnorequeue⟩ := exists_drained h0 hdelay hrequeue
  have h1 := h0.path (fun _ _ h => h.1) hpath1
  obtain ⟨db2, hpath2, hstored, hdelay2, hrequeue2⟩ := exists_enqueued h1 hschedule
  have hpath := (hpath0.trans hpath1).trans hpath2
  have h2 := h1.path (fun _ _ h => h.1) hpath2
  refine ⟨_, hpath, fun r hr hp ⟨p, hwaiting, hmem⟩ => ?_⟩
  obtain ⟨hproduced, hframe⟩ := byWorkers_frame hpath
  have hi := inv_reachable h
  have hi1 := inv_reachable h1
  have hi2 := inv_reachable h2
  obtain ⟨p0, _, hunique⟩ := hi.balanced r.message.uuid ⟨r, hr, rfl, hp⟩
  obtain rfl : p = p0 := by
    by_contra hne
    exact hunique p hne hmem
  obtain ⟨p', hcount, _⟩ := hi2.balanced r.message.uuid ⟨r, by rw [hproduced]; exact hr, rfl, hp⟩
  have hone : Multiset.count r.message.uuid (board db2 p') = 1 := hcount
  have hmem' : r.message.uuid ∈ board db2 p' := Multiset.count_pos.mp (by omega)
  cases p' with
  | scheduled =>
    refine absurd (mem_board_scheduled.mp hmem') (hstored _ fun m hm => ?_)
    obtain ⟨⟨r', hr', huuid, hperiodic⟩, hfield⟩ := hi1.held (.field _ _) m hm
    have hid : m.uuid = r.message.uuid := (Text.id.inj (hfield rfl).1).symm
    have hproduced1 := (byWorkers_frame (hpath0.trans hpath1)).1
    rw [← hperiodic, hi1.distinct r' hr' r (hproduced1 ▸ hr) (huuid.trans hid)]
    exact hp
  | list key =>
    obtain ⟨m, hm, huuid⟩ := List.mem_map.mp hmem'
    obtain ⟨hglobal, hglobal'⟩ := global_reachable h2 (.list key) m hm
    -- where the workers do not come, the message would have been before
    have hother : key.type ∈ [ERedisKey.keyQueueProcessing, .keyQueueAcknowledgedMessages, .keyQueueDL] → False := by
      intro hk
      have hbefore : r.message.uuid ∈ board s.db (.list key) := by
        have heq : board s.db (.list key) = board db2 (.list key) := by
          rw [board, board, hframe key hk]
        rw [heq]
        exact hmem'
      have hsame : p = .list key := by
        by_contra hne
        exact hunique (.list key) (fun heq => hne heq.symm) hbefore
      subst hsame
      simp only [Place.waiting, List.mem_cons, Place.list.injEq, List.not_mem_nil, or_false, reduceCtorEq] at hwaiting
      rcases hwaiting with rfl | rfl <;> simp at hk
    have htype : key.type ∈ containerTypes := (hi2.held (.list key) m hm).2
    simp only [containerTypes, List.mem_cons, List.not_mem_nil, or_false] at htype
    rcases htype with hk | hk | hk | hk | hk | hk
    · exact ⟨key, hk, hmem'⟩
    · exact (hother (by simp [hk])).elim
    · rw [hglobal hk] at hm
      rw [hdelay2, hnodelay] at hm
      cases hm
    · rw [hglobal' hk] at hm
      rw [hrequeue2, hnorequeue] at hm
      cases hm
    · exact (hother (by simp [hk])).elim
    · exact (hother (by simp [hk])).elim

end

/-- A delayed message of a consumer that failed becomes pending again. -/
def delayedRun : Option State :=
  run (system minuteParser (fun _ _ => false) lifoConsumer) (fun s a => lifo lifoConsumer s a = true) init
    [.produce ⟨"q", "ns"⟩ false (Message.new Message.defaultOpts "m" 0) 1, .dequeue "c", .unacknowledge "c" .timeout 2,
      .scheduleFetchIds false 3]

theorem unstuck_delayedRun : ∃ s, delayedRun = some s ∧
    ∃ t, Path (system minuteParser (fun _ _ => false) lifoConsumer) (byWorkers lifoConsumer) s t ∧
      ∃ k : RedisKey, k.type = .keyQueue ∧ "m" ∈ board t.db (.list k) := by
  have hrun : delayedRun.map (fun s => (s.produced, (s.db.lists getGlobalKeys.keyQueueDelay).map (·.uuid))) =
      some ([⟨sent ⟨"q", "ns"⟩ (Message.new Message.defaultOpts "m" 0), false⟩], ["m"]) := by decide
  obtain ⟨s, hs, heq⟩ := Option.map_eq_some_iff.mp hrun
  obtain ⟨hproduced, hdelay⟩ := Prod.mk.inj heq
  obtain ⟨t, hpath, ht⟩ := unstuck_reachable (reach_of_run _ hs)
  refine ⟨s, hs, t, hpath, ht ⟨sent ⟨"q", "ns"⟩ (Message.new Message.defaultOpts "m" 0), false⟩ ?_ rfl
    ⟨.list getGlobalKeys.keyQueueDelay, by simp [Place.waiting], ?_⟩⟩
  · rw [hproduced]
    exact List.mem_singleton_self _
  · show "m" ∈ ((s.db.lists getGlobalKeys.keyQueueDelay).map (·.uuid) : Multiset String)
    rw [hdelay]
    exact List.mem_singleton_self _

end RedisSmq.Queue
