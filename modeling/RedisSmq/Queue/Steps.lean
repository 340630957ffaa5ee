import RedisSmq.Queue.System

/-!
# What a step can do

Every transaction of the system is made of two blocks: `enqueueCmds` adds a message to the pending messages of its
queue, `storeCmds` puts it into the scheduled store or removes it. The lemmas of the first sections say which blocks
the handlers make, which keys a block names, and which messages it puts where.

`StepDb` lists, action by action, the requests that a step makes (`step_db`); what a step leaves alone is a case analysis
over it (`step_frame`). `StepPuts` lists which message a step can put into which slot, and `step_holds` says that a held
message was held before or put by the step. Invariants about held messages are cases over `StepPuts`.
-/

namespace RedisSmq.Queue

open RedisKeys Db

section Blocks

variable {cron : CronParser} {lt : Text → Text → Bool} {config : String → ConsumerConfig}
variable {db : Db} {k : RedisKey} {slot : Slot} {m m' i : Message} {q : TMessageQueue} {withPriority : Bool} {now : ℕ}

/-! ## Messages at different stages -/

/-- What a message is constructed and configured with, apart from its queue, its priority and its delay. -/
structure Content where
  ttl : Timeout
  retryThreshold : ℤ
  retryDelay : Timeout
  consumeTimeout : Timeout
  body : String
  scheduledCron : Option CronExpression
  scheduledPeriod : Option Period
  scheduledRepeat : ℤ
  uuid : String
  createdAt : ℕ

def content (m : Message) : Content :=
  ⟨m.ttl, m.retryThreshold, m.retryDelay, m.consumeTimeout, m.body, m.scheduledCron, m.scheduledPeriod, m.scheduledRepeat,
    m.uuid, m.createdAt⟩

theorem isPeriodic_eq (h : content m = content m') : m.isPeriodic = m'.isPeriodic := by
  have hcron : m.scheduledCron = m'.scheduledCron := congrArg Content.scheduledCron h
  have hrepeat : m.scheduledRepeat = m'.scheduledRepeat := congrArg Content.scheduledRepeat h
  rw [Message.isPeriodic, Message.isPeriodic, hcron, hrepeat]

/-- The same message at two stages of its life. -/
structure SameMessage (m m' : Message) : Prop where
  content : content m = content m'
  queue : m.queue = m'.queue
  expired : m.expired = m'.expired

theorem SameMessage.refl (m : Message) : SameMessage m m := ⟨rfl, rfl, rfl⟩

theorem SameMessage.trans {m''} (h : SameMessage m m') (h' : SameMessage m' m'') : SameMessage m m'' :=
  ⟨h.content.trans h'.content, h.queue.trans h'.queue, h.expired.trans h'.expired⟩

theorem SameMessage.uuid (h : SameMessage m m') : m.uuid = m'.uuid := congrArg Content.uuid h.content

theorem SameMessage.isPeriodic (h : SameMessage m m') : m.isPeriodic = m'.isPeriodic := isPeriodic_eq h.content

theorem sameMessage_enqueued (m : Message) (withPriority : Bool) (now : ℕ) :
    SameMessage (EnqueueHandler.enqueued m withPriority now) m := by
  cases withPriority <;> exact ⟨rfl, rfl, rfl⟩

theorem sameMessage_next (cron : CronParser) (now : ℕ) (m : Message) :
    SameMessage (ScheduleHandler.getNextScheduledTimestamp cron now m).2 m := by
  obtain ⟨_, _, _, h⟩ := ScheduleHandler.next_message cron now m
  rw [h]
  exact ⟨rfl, rfl, rfl⟩

/-- A message that is not periodic gets a timestamp only for its pending delay. -/
theorem pendingDelay_of_next (hp : m.isPeriodic = false)
    (h : (ScheduleHandler.getNextScheduledTimestamp cron now m).1 ≠ 0) : ScheduleHandler.PendingDelay m := by
  by_contra hd
  simp only [Message.isPeriodic, Bool.or_eq_false_iff, Option.isSome_eq_false_iff, Option.isNone_iff_eq_none,
    decide_eq_false_iff_not] at hp
  have hc : ScheduleHandler.cronTimestamp cron now m = 0 := ScheduleHandler.cronTimestamp_none hp.1
  have hr : ScheduleHandler.repeatTimestamp now m = 0 := by
    by_contra hne
    have := (ScheduleHandler.repeatTimestamp_ne_zero hne).1
    omega
  rcases ScheduleHandler.next_cases cron now hd _ rfl with ⟨_, hne, _⟩ | ⟨_, hne⟩ | ⟨_, hne, _⟩ |
    ⟨h0, _⟩
  · exact hne hr
  · exact hne hc
  · exact hne hr
  · rw [h0] at h; exact h rfl

/-- A new timestamp of a message that is not periodic is its delay, and puts the delay behind it. -/
theorem delayed_of_next (hp : m.isPeriodic = false)
    (h : (ScheduleHandler.getNextScheduledTimestamp cron now m).1 ≠ 0) :
    (ScheduleHandler.getNextScheduledTimestamp cron now m).2.delayed = true ∧ m.delayed = false := by
  obtain ⟨hsome, hd⟩ := pendingDelay_of_next hp h
  obtain ⟨d, hd'⟩ := Option.isSome_iff_exists.mp hsome
  rw [ScheduleHandler.next_pending hd' hd]
  exact ⟨rfl, hd⟩

/-- The message that the delay worker stores for `i`, under a timestamp `p` after its clock value. -/
def delayed (i : Message) (p : Period) (now : ℕ) : Message :=
  { i.incrAttempts with scheduledDelay := some p, delayed := true, scheduledAt := some now }

theorem sameMessage_delayed {p : Period} : SameMessage (delayed i p now) i := ⟨rfl, rfl, rfl⟩

/-! ## Slots and blocks -/

/-- The slot of the scheduled store for a message. -/
abbrev scheduledSlot (m : Message) : Slot := .field getGlobalKeys.keyScheduledMessages (.id m.uuid)

/-- The slot that a message is enqueued into. -/
def enqueueSlot (q : TMessageQueue) (m : Message) (withPriority : Bool) : Slot :=
  if withPriority then .field q.keys.keyPendingMessagesWithPriority (.id m.uuid) else .list q.keys.keyQueue

/-- Enqueueing names keys of three types. -/
theorem enqueueCmds_frame (h : k.type ≠ .keyQueue) (h' : k.type ≠ .keyQueuePriority)
    (h'' : k.type ≠ .keyPendingMessagesWithPriority) :
    SameAt (db.execAll lt (EnqueueHandler.enqueueCmds q m withPriority now)) db k := by
  refine execAll_frame _ (fun c hc => ?_)
  cases withPriority
  · rcases List.mem_singleton.mp hc with rfl
    rintro hk
    rcases List.mem_singleton.mp hk with rfl
    exact h rfl
  · rcases List.mem_pair.mp hc with rfl | rfl
    · rintro hk
      rcases List.mem_singleton.mp hk with rfl
      exact h'' rfl
    · rintro hk
      rcases List.mem_singleton.mp hk with rfl
      exact h' rfl

/-- The scheduled store has two keys. -/
theorem storeCmds_frame {r : ℕ × Message} (h : k ≠ getGlobalKeys.keyQueueScheduled)
    (h' : k ≠ getGlobalKeys.keyScheduledMessages) : SameAt (db.execAll lt (ScheduleHandler.storeCmds r)) db k := by
  unfold ScheduleHandler.storeCmds
  split
  · refine execAll_frame _ (fun c hc => ?_)
    rcases List.mem_pair.mp hc with rfl | rfl
    · simpa [Cmd.keys] using h
    · simpa [Cmd.keys] using h'
  · refine execAll_frame _ (fun c hc => ?_)
    rcases List.mem_pair.mp hc with rfl | rfl
    · simpa [Cmd.keys] using h
    · simpa [Cmd.keys] using h'

theorem enqueueCmds_puts {c : Cmd} (hc : c ∈ EnqueueHandler.enqueueCmds q m withPriority now)
    (h : c.Puts db slot m') : slot = enqueueSlot q m withPriority ∧ m' = EnqueueHandler.enqueued m withPriority now := by
  cases withPriority
  · rcases List.mem_singleton.mp hc with rfl
    exact h
  · rcases List.mem_pair.mp hc with rfl | rfl
    · exact h
    · cases h

theorem storeCmds_puts {r : ℕ × Message} {c : Cmd} (hc : c ∈ ScheduleHandler.storeCmds r) (h : c.Puts db slot m') :
    r.1 ≠ 0 ∧ slot = scheduledSlot r.2 ∧ m' = r.2 := by
  unfold ScheduleHandler.storeCmds at hc
  split at hc
  · rename_i hr
    rcases List.mem_pair.mp hc with rfl | rfl
    · cases h
    · exact ⟨hr, h⟩
  · rcases List.mem_pair.mp hc with rfl | rfl <;> cases h

/-! ## The blocks of the handlers -/

/-- `schedule` stores the message under a timestamp, if it has one. -/
theorem schedule_eq : (ScheduleHandler.schedule cron m now).1 =
    let r := ScheduleHandler.getNextScheduledTimestamp cron now m
    if r.1 ≠ 0 then ScheduleHandler.storeCmds (r.1, r.2.setScheduledAt now) else [] := by
  by_cases h : (ScheduleHandler.getNextScheduledTimestamp cron now m).1 = 0
  · simp [ScheduleHandler.schedule, h]
  · simp [ScheduleHandler.schedule, h, Nat.pos_of_ne_zero h, ScheduleHandler.scheduleMessage,
      ScheduleHandler.storeCmds, Message.setScheduledAt]

/-- A message as a producer of the queue `q` sends it. -/
abbrev sent (q : TMessageQueue) (m : Message) : Message := m.reset.setQueue q.ns q.name

/-- The block that a producer makes. -/
def produceCmds (cron : CronParser) (q : TMessageQueue) (withPriority : Bool) (m : Message) (now : ℕ) : List Cmd :=
  if (sent q m).isSchedulable then (ScheduleHandler.schedule cron (sent q m) now).1
  else EnqueueHandler.enqueueCmds q (sent q m) withPriority now

/-- The script of a producer and the transaction of the schedule worker have the same effect. -/
theorem produceMessage_exec {r : List Cmd × Bool}
    (h : Producer.produceMessage cron q.ns q.name withPriority m now = .ok r) :
    db.execAll lt r.1 = db.execAll lt (produceCmds cron q withPriority m now) := by
  simp only [Producer.produceMessage] at h
  unfold produceCmds
  split at h
  · rename_i hs
    rw [if_pos hs, show ScheduleHandler.schedule cron (sent q m) now = r from Except.ok.inj h]
  · rename_i hs
    rw [if_neg hs]
    cases withPriority <;> cases h <;> rfl

theorem step_produce {s s' : State} (h : step cron lt config s (.produce q withPriority m now) = some s') :
    s' = { s with
      db := s.db.execAll lt (produceCmds cron q withPriority m now)
      produced := ⟨sent q m, withPriority⟩ :: s.produced } := by
  simp only [step] at h
  split at h
  · rename_i hcmds
    cases h
    rw [← produceMessage_exec hcmds]
  · cases h

/-- The delay worker moves a message of the delay list into the scheduled store, after its retry delay. -/
theorem scheduleTask_ok {cs : List Cmd} (h : DelayHandler.scheduleTask cron now i = .ok cs) :
    ∃ p : Period, p.ms = i.retryDelay.ms ∧
      cs = .lrem getGlobalKeys.keyQueueDelay i :: ScheduleHandler.storeCmds (now + p.ms, delayed i p now) := by
  dsimp only [DelayHandler.scheduleTask] at h
  have hne : i.retryDelay.ms ≠ 0 := by
    intro h0
    have : i.incrAttempts.retryDelay.ms = 0 := h0
    rw [this] at h
    cases h
  obtain ⟨p, hp, hset⟩ := Message.setScheduledDelay_retryDelay (m := i.incrAttempts) hne
  rw [hset] at h
  have hnext : ScheduleHandler.getNextScheduledTimestamp cron now
      { i.incrAttempts with scheduledDelay := some p, delayed := false } =
      (now + p.ms, { i.incrAttempts with scheduledDelay := some p, delayed := true }) :=
    ScheduleHandler.next_pending rfl rfl
  have hpos : now + p.ms ≠ 0 := by have := p.min; omega
  refine ⟨p, hp, ?_⟩
  cases h
  rw [schedule_eq, hnext]
  simp only [if_pos hpos, Message.setScheduledAt, delayed]

/-- The re-queue worker moves a message of the re-queue list to its queue, in the mode of the worker. -/
theorem requeueTask_ok {cs : List Cmd} (h : RequeueWorker.requeueTask withPriority i = .ok cs) :
    ∃ q, i.queue = some q ∧ cs = .lrem getGlobalKeys.keyQueueRequeue i ::
      if withPriority then
        [.zadd q.keys.keyQueuePriority (i.priority.getD .normal).value (.json i.incrAttempts.getSetPriority.2)]
      else [.lpush q.keys.keyQueue i.incrAttempts] := by
  unfold RequeueWorker.requeueTask at h
  cases hq : i.queue with
  | none => rw [hq] at h; cases h
  | some q =>
    rw [hq] at h
    refine ⟨q, rfl, ?_⟩
    cases withPriority <;> cases h <;> rfl

/-- The transaction of a re-queue, for the copy that it enqueues. -/
theorem requeueCmds_ok {source : RedisKey} {cs : List Cmd} (hm : SameMessage m' (sent q m))
    (h : (do let (_, cmds) ← EnqueueHandler.enqueueMulti m' withPriority now
             return Cmd.lrem source m :: cmds : Except String (List Cmd)) = .ok cs) :
    ∃ m', SameMessage m' (sent q m) ∧ cs = .lrem source m :: EnqueueHandler.enqueueCmds q m' withPriority now := by
  rw [EnqueueHandler.enqueueMulti_ok (show m'.queue = some q from hm.queue)] at h
  cases h
  exact ⟨m', hm, rfl⟩

/-- The message manager re-queues a copy of the message that is reset. -/
theorem requeueListMessage_ok {source : RedisKey} {priority : Option ℕ} {cs : List Cmd}
    (h : RequeueHandler.requeueListMessage source q.ns q.name withPriority priority m now = .ok cs) :
    ∃ m', SameMessage m' (sent q m) ∧ cs = .lrem source m :: EnqueueHandler.enqueueCmds q m' withPriority now := by
  unfold RequeueHandler.requeueListMessage at h
  cases withPriority with
  | false => exact requeueCmds_ok ⟨rfl, rfl, rfl⟩ h
  | true =>
    cases priority with
    | none => exact requeueCmds_ok ⟨rfl, rfl, rfl⟩ h
    | some n =>
      cases hp : (sent q m).setPriority n with
      | error e =>
        simp only [Message.createFromMessage, if_true] at h
        rw [show (m.reset.setQueue q.ns q.name).setPriority n = .error e from hp] at h
        cases h
      | ok m' =>
        simp only [Message.createFromMessage, if_true] at h
        rw [show (m.reset.setQueue q.ns q.name).setPriority n = .ok m' from hp] at h
        refine requeueCmds_ok ?_ h
        unfold Message.setPriority at hp
        split at hp
        · cases hp
        · cases hp; exact ⟨rfl, rfl, rfl⟩

/-- The transaction of the schedule worker for one message. -/
theorem enqueueScheduledMessage_cases {cmds : List Cmd}
    (h : ScheduleHandler.enqueueScheduledMessage cron m withPriority now = .ok cmds) :
    ∃ q, m.queue = some q ∧ cmds = EnqueueHandler.enqueueCmds q m withPriority now ++
      ScheduleHandler.storeCmds (ScheduleHandler.getNextScheduledTimestamp cron now
        (EnqueueHandler.enqueued m withPriority now)) := by
  cases hq : m.queue with
  | none =>
    unfold ScheduleHandler.enqueueScheduledMessage EnqueueHandler.enqueueMulti at h
    rw [hq] at h
    cases h
  | some q =>
    rw [ScheduleHandler.enqueueScheduledMessage_ok cron hq] at h
    cases h
    exact ⟨q, rfl, rfl⟩

/-! ## Frames of the batches -/

/-- The transaction of the delay worker names three keys. -/
theorem delay_frame {ms : List Message} {cmds : List Cmd}
    (h : parallel (DelayHandler.scheduleTask cron now) ms = .ok cmds) (hd : k ≠ getGlobalKeys.keyQueueDelay)
    (hz : k ≠ getGlobalKeys.keyQueueScheduled) (hh : k ≠ getGlobalKeys.keyScheduledMessages) :
    SameAt (db.execAll lt cmds) db k := by
  refine execAll_frame _ (fun c hc hk => ?_)
  obtain ⟨i, _, cs, hcs, hc⟩ := mem_parallel h c hc
  obtain ⟨p, _, rfl⟩ := scheduleTask_ok hcs
  have hpos : now + p.ms ≠ 0 := by have := p.min; omega
  simp only [ScheduleHandler.storeCmds, if_pos hpos, List.mem_cons, List.not_mem_nil, or_false] at hc
  rcases hc with rfl | rfl | rfl
  · exact hd (List.mem_singleton.mp hk)
  · exact hz (List.mem_singleton.mp hk)
  · exact hh (List.mem_singleton.mp hk)

/-- The transaction of the re-queue worker names its list and, in the mode of the worker, the queues of the messages. -/
theorem requeue_frame {ms : List Message} {cmds : List Cmd}
    (h : parallel (RequeueWorker.requeueTask withPriority) ms = .ok cmds) (hr : k ≠ getGlobalKeys.keyQueueRequeue)
    (hq : ∀ i ∈ ms, ∀ q, i.queue = some q →
      k ≠ if withPriority then q.keys.keyQueuePriority else q.keys.keyQueue) :
    SameAt (db.execAll lt cmds) db k := by
  refine execAll_frame _ (fun c hc hk => ?_)
  obtain ⟨i, hi, cs, hcs, hc⟩ := mem_parallel h c hc
  obtain ⟨q, hiq, rfl⟩ := requeueTask_ok hcs
  have hne := hq i hi q hiq
  rcases List.mem_cons.mp hc with rfl | hc
  · exact hr (List.mem_singleton.mp hk)
  · cases withPriority <;> rcases List.mem_singleton.mp hc with rfl <;> exact hne (List.mem_singleton.mp hk)

end Blocks

/-! ## What a step does to the database -/

/-- The keys of the queue of a consumer, in the namespace of its process. -/
abbrev ConsumerConfig.keys (k : ConsumerConfig) : QueueKeys := getKeys k.ns k.queueName none

/-- The queue of a consumer. -/
abbrev ConsumerConfig.queue (k : ConsumerConfig) : TMessageQueue := ⟨k.queueName, k.ns⟩

/-- The database after an action, by the requests that the action makes; an action that only reads makes none. -/
inductive StepDb (cron : CronParser) (lt : Text → Text → Bool) (config : String → ConsumerConfig) (s : State) :
    Action → Db → Prop
  | reads {a} : StepDb cron lt config s a s.db
  | produce {q withPriority m now} : StepDb cron lt config s (.produce q withPriority m now)
    (s.db.execAll lt (produceCmds cron q withPriority m now))
  | dequeuePriority {id} : (config id).priorityQueue = true → StepDb cron lt config s (.dequeue id)
    (s.db.zpophgetrpush (config id).keys.keyQueuePriority (config id).keys.keyPendingMessagesWithPriority
      ((config id).keyQueueProcessing id)).1
  | dequeue {id} : (config id).priorityQueue = false → StepDb cron lt config s (.dequeue id)
    (s.db.exec lt (.rpoplpush (config id).keys.keyQueue ((config id).keyQueueProcessing id)))
  | acknowledge {id} : StepDb cron lt config s (.acknowledge id)
    (s.db.exec lt (ProcessingHandler.acknowledge (config id).ns (config id).queueName
      ((config id).keyQueueProcessing id)))
  | unacknowledge {id cause now m} : s.consumers id = .holding m → StepDb cron lt config s (.unacknowledge id cause now)
    (s.db.exec lt ((Broker.destination m cause now).cmd (config id).ns (config id).queueName
      ((config id).keyQueueProcessing id)))
  | delayExec {b cmds} : s.delayTick = .fetched b →
    parallel (DelayHandler.scheduleTask cron b.now) b.messages = .ok cmds →
    StepDb cron lt config s .delayExec (s.db.execAll lt cmds)
  | requeueExec {b cmds} : s.requeueTick = .fetched b →
    parallel (RequeueWorker.requeueTask b.withPriority) b.messages = .ok cmds →
    StepDb cron lt config s .requeueExec (s.db.execAll lt cmds)
  | scheduleExec {withPriority now m rest q} : s.scheduleTick = .messages withPriority now (some m :: rest) →
    m.queue = some q → StepDb cron lt config s .scheduleExec
      ((s.db.execAll lt (EnqueueHandler.enqueueCmds q m withPriority now)).execAll lt (ScheduleHandler.storeCmds
        (ScheduleHandler.getNextScheduledTimestamp cron now (EnqueueHandler.enqueued m withPriority now))))
  | requeueRequest {index now source q withPriority priority msg m} :
    s.requests[index]? = some (.requeue source q withPriority priority msg) → SameMessage m (sent q msg) →
    StepDb cron lt config s (.requestExec index now)
      ((s.db.exec lt (.lrem (source.key q) msg)).execAll lt (EnqueueHandler.enqueueCmds q m withPriority now))
  | deleteRequest {index now source q msg} : s.requests[index]? = some (.delete source q msg) →
    StepDb cron lt config s (.requestExec index now) (s.db.exec lt (.lrem (source.key q) msg))
  | deletePendingMessageWithPriority {q messageId} :
    StepDb cron lt config s (.deletePendingMessageWithPriority q messageId)
      (s.db.execAll lt (EnqueueHandler.deletePendingMessageWithPriority q messageId))
  | deleteScheduled {messageId} : StepDb cron lt config s (.deleteScheduled messageId)
    (s.db.execAll lt (ScheduleHandler.deleteScheduled messageId))
  | purge {l q} : StepDb cron lt config s (.purge l q) (s.db.exec lt (.del (l.key q)))
  | purgePriorityQueue {q} : StepDb cron lt config s (.purgePriorityQueue q)
    (s.db.exec lt (QueueManager.purgePriorityQueue q))
  | purgeScheduledMessagesQueue : StepDb cron lt config s .purgeScheduledMessagesQueue
    (s.db.exec lt QueueManager.purgeScheduledMessagesQueue)

variable {cron : CronParser} {lt : Text → Text → Bool} {config : String → ConsumerConfig} {slot : Slot} {m : Message}
variable {s s' : State} {a : Action} {db : Db}

theorem step_db (h : step cron lt config s a = some s') : StepDb cron lt config s a s'.db := by
  cases a with
  | produce q withPriority m now =>
    rw [step_produce h]
    exact .produce
  | dequeue id =>
    simp only [step, dequeueMessage] at h
    split at h
    · split at h
      · rename_i hmode
        split at h <;> cases h <;> exact .dequeuePriority hmode
      · rename_i hmode
        split at h <;> cases h
        exact .dequeue (by simpa using hmode)
    · cases h
  | acknowledge id =>
    simp only [step, settle] at h
    split at h <;> cases h
    exact .acknowledge
  | unacknowledge id cause now =>
    simp only [step, settle, Broker.retry_eq] at h
    split at h <;> cases h
    rename_i hm
    exact .unacknowledge hm
  | delayExec =>
    simp only [step, Queue.delayExec] at h
    split at h
    · rename_i hb
      split at h <;> cases h
      · rename_i hcmds
        exact .delayExec hb hcmds
      · exact .reads
    · cases h
  | requeueExec =>
    simp only [step, Queue.requeueExec] at h
    split at h
    · rename_i hb
      split at h <;> cases h
      · rename_i hcmds
        exact .requeueExec hb hcmds
      · exact .reads
    · cases h
  | scheduleExec =>
    simp only [step, Queue.scheduleExec] at h
    split at h
    · cases h; exact .reads
    · cases h; exact .reads
    · rename_i ht
      split at h <;> cases h
      · rename_i hcmds
        obtain ⟨q, hq, rfl⟩ := enqueueScheduledMessage_cases hcmds
        rw [execAll_append]
        exact .scheduleExec ht hq
      · exact .reads
    · cases h
  | requestExec index now =>
    simp only [step, Queue.requestExec] at h
    split at h
    · cases h
    · rename_i r hr
      split at h <;> cases h
      · rename_i hcmds
        cases r with
        | requeue source q withPriority priority msg =>
          obtain ⟨m, hsame, rfl⟩ := requeueListMessage_ok hcmds
          exact .requeueRequest hr hsame
        | delete source q msg =>
          cases hcmds
          exact .deleteRequest hr
      · exact .reads
  | delayFetch | requeueFetch | scheduleFetchIds | scheduleFetchMessages | deleteMessageRead =>
    simp only [step] at h
    split at h <;> cases h
    exact .reads
  | requeueMessageRead =>
    simp only [step] at h
    split at h
    · split at h <;> cases h
      exact .reads
    · cases h
  | deletePendingMessageWithPriority => cases h; exact .deletePendingMessageWithPriority
  | deleteScheduled => cases h; exact .deleteScheduled
  | purge => cases h; exact .purge
  | purgePriorityQueue => cases h; exact .purgePriorityQueue
  | purgeScheduledMessagesQueue => cases h; exact .purgeScheduledMessagesQueue

/-! ## What a step puts where -/

/-- The message that a settlement moves out of a processing list. -/
def movedOut (l : List Message) : Broker.Destination → Option Message
  | .deadLetter _ => l.head?
  | .delay | .requeue => l.getLast?

/-- The action can put the message into the slot. -/
inductive StepPuts (cron : CronParser) (config : String → ConsumerConfig) (s : State) : Action → Slot → Message → Prop
  | produceScheduled {q withPriority m now} : (sent q m).isSchedulable = true →
    (ScheduleHandler.getNextScheduledTimestamp cron now (sent q m)).1 ≠ 0 →
    StepPuts cron config s (.produce q withPriority m now) (scheduledSlot m)
      ((ScheduleHandler.getNextScheduledTimestamp cron now (sent q m)).2.setScheduledAt now)
  | produceEnqueued {q withPriority m now} : (sent q m).isSchedulable = false →
    StepPuts cron config s (.produce q withPriority m now) (enqueueSlot q m withPriority)
      (EnqueueHandler.enqueued (sent q m) withPriority now)
  | dequeuePriority {id t m} : (config id).priorityQueue = true →
    s.db.hashes (config id).keys.keyPendingMessagesWithPriority t = some m →
    StepPuts cron config s (.dequeue id) (.list ((config id).keyQueueProcessing id)) m
  | dequeue {id m} : (config id).priorityQueue = false → (s.db.lists (config id).keys.keyQueue).getLast? = some m →
    StepPuts cron config s (.dequeue id) (.list ((config id).keyQueueProcessing id)) m
  | acknowledge {id m} : (s.db.lists ((config id).keyQueueProcessing id)).head? = some m →
    StepPuts cron config s (.acknowledge id) (.list (config id).keys.keyQueueAcknowledgedMessages) m
  | unacknowledge {id cause now m m'} : s.consumers id = .holding m →
    movedOut (s.db.lists ((config id).keyQueueProcessing id)) (Broker.destination m cause now) = some m' →
    StepPuts cron config s (.unacknowledge id cause now)
      (.list ((Broker.destination m cause now).key (config id).ns (config id).queueName)) m'
  | delayed {b i p} : s.delayTick = .fetched b → i ∈ b.messages → p.ms = i.retryDelay.ms →
    StepPuts cron config s .delayExec (scheduledSlot i) (delayed i p b.now)
  | requeued {b i q} : s.requeueTick = .fetched b → b.withPriority = false → i ∈ b.messages → i.queue = some q →
    StepPuts cron config s .requeueExec (.list q.keys.keyQueue) i.incrAttempts
  | enqueueScheduled {withPriority now m rest q} : s.scheduleTick = .messages withPriority now (some m :: rest) →
    m.queue = some q →
    StepPuts cron config s .scheduleExec (enqueueSlot q m withPriority) (EnqueueHandler.enqueued m withPriority now)
  | rescheduled {withPriority now m rest} : s.scheduleTick = .messages withPriority now (some m :: rest) →
    (ScheduleHandler.getNextScheduledTimestamp cron now (EnqueueHandler.enqueued m withPriority now)).1 ≠ 0 →
    StepPuts cron config s .scheduleExec (scheduledSlot m)
      (ScheduleHandler.getNextScheduledTimestamp cron now (EnqueueHandler.enqueued m withPriority now)).2
  | requested {index now source q withPriority priority msg m} :
    s.requests[index]? = some (.requeue source q withPriority priority msg) → SameMessage m (sent q msg) →
    StepPuts cron config s (.requestExec index now) (enqueueSlot q m withPriority)
      (EnqueueHandler.enqueued m withPriority now)

/-- Every message held after a step was held before, or the step put it. -/
theorem StepDb.holds (h : StepDb cron lt config s a db) (hm : db.Holds slot m) :
    s.db.Holds slot m ∨ StepPuts cron config s a slot m := by
  suffices hall : Forall (fun slot m => s.db.Holds slot m ∨ StepPuts cron config s a slot m) db from hall _ _ hm
  have h0 : Forall (fun slot m => s.db.Holds slot m ∨ StepPuts cron config s a slot m) s.db := fun _ _ h => .inl h
  cases h with
  | reads => exact h0
  | @produce q withPriority m now =>
    refine h0.execAll (fun c hc db slot m' hp => .inr ?_)
    unfold produceCmds at hc
    split at hc
    · rename_i hs
      rw [schedule_eq] at hc
      dsimp only at hc
      split at hc
      · rename_i hr
        obtain ⟨_, rfl, rfl⟩ := storeCmds_puts hc hp
        have huuid : (ScheduleHandler.getNextScheduledTimestamp cron now (sent q m)).2.uuid = m.uuid :=
          (sameMessage_next cron now (sent q m)).uuid
        have hslot : scheduledSlot ((ScheduleHandler.getNextScheduledTimestamp cron now (sent q m)).2.setScheduledAt
            now) = scheduledSlot m := by
          show Slot.field _ (Text.id _) = _
          rw [show ((ScheduleHandler.getNextScheduledTimestamp cron now (sent q m)).2.setScheduledAt now).uuid =
            m.uuid from huuid]
        rw [hslot]
        exact .produceScheduled hs hr
      · cases hc
    · rename_i hs
      obtain ⟨rfl, rfl⟩ := enqueueCmds_puts hc hp
      exact .produceEnqueued (by simpa using hs)
  | dequeuePriority hmode => exact h0.zpophgetrpush (fun t m hm => .inr (.dequeuePriority hmode hm))
  | dequeue hmode =>
    refine h0.exec (fun slot m hp => .inr ?_)
    obtain ⟨rfl, hp⟩ := hp
    exact .dequeue hmode hp
  | acknowledge =>
    refine h0.exec (fun slot m hp => .inr ?_)
    obtain ⟨rfl, hp⟩ := hp
    exact .acknowledge hp
  | @unacknowledge id cause now m' hc =>
    refine h0.exec (fun slot m hp => .inr ?_)
    have hputs : movedOut (s.db.lists ((config id).keyQueueProcessing id)) (Broker.destination m' cause now) =
        some m → StepPuts cron config s (.unacknowledge id cause now)
          (.list ((Broker.destination m' cause now).key (config id).ns (config id).queueName)) m := .unacknowledge hc
    cases hd : Broker.destination m' cause now <;> rw [hd] at hp hputs <;> obtain ⟨rfl, hp⟩ := hp <;> exact hputs hp
  | delayExec hb hcmds =>
    refine h0.execAll (fun c hc db slot m hp => .inr ?_)
    obtain ⟨i, hi, cs, hcs, hc⟩ := mem_parallel hcmds c hc
    obtain ⟨p, hpms, rfl⟩ := scheduleTask_ok hcs
    rcases List.mem_cons.mp hc with rfl | hc
    · cases hp
    · obtain ⟨_, rfl, rfl⟩ := storeCmds_puts hc hp
      exact .delayed hb hi hpms
  | requeueExec hb hcmds =>
    refine h0.execAll (fun c hc db slot m hp => .inr ?_)
    obtain ⟨i, hi, cs, hcs, hc⟩ := mem_parallel hcmds c hc
    obtain ⟨q, hq, rfl⟩ := requeueTask_ok hcs
    rcases List.mem_cons.mp hc with rfl | hc
    · cases hp
    · split at hc
      · rcases List.mem_singleton.mp hc with rfl
        cases hp
      · rename_i hmode
        rcases List.mem_singleton.mp hc with rfl
        obtain ⟨rfl, rfl⟩ := hp
        exact .requeued hb (by simpa using hmode) hi hq
  | @scheduleExec withPriority now m rest q ht hq =>
    refine (h0.execAll (fun c hc db slot m' hp => .inr ?_)).execAll (fun c hc db slot m' hp => .inr ?_)
    · obtain ⟨rfl, rfl⟩ := enqueueCmds_puts hc hp
      exact .enqueueScheduled ht hq
    · obtain ⟨hr, rfl, rfl⟩ := storeCmds_puts hc hp
      have huuid := (sameMessage_next cron now _).uuid.trans (sameMessage_enqueued m withPriority now).uuid
      rw [show scheduledSlot _ = scheduledSlot m by show Slot.field _ (Text.id _) = _; rw [huuid]]
      exact .rescheduled ht hr
  | requeueRequest hr hsame =>
    refine (h0.exec (fun slot m' hp => by cases hp)).execAll (fun c hc db slot m' hp => .inr ?_)
    obtain ⟨rfl, rfl⟩ := enqueueCmds_puts hc hp
    exact .requested hr hsame
  | deletePendingMessageWithPriority | deleteScheduled =>
    refine h0.execAll (fun c hc db slot m hp => ?_)
    rcases List.mem_pair.mp hc with rfl | rfl <;> cases hp
  | deleteRequest | purge | purgePriorityQueue | purgeScheduledMessagesQueue =>
    exact h0.exec (fun slot m hp => by cases hp)

theorem step_holds (h : step cron lt config s a = some s') (hm : s'.db.Holds slot m) :
    s.db.Holds slot m ∨ StepPuts cron config s a slot m :=
  (step_db h).holds hm

/-- A property of the held messages is kept by a step that only puts messages with the property. -/
theorem step_forall {p : Slot → Message → Prop} (h : step cron lt config s a = some s') (hs : Forall p s.db)
    (hputs : ∀ slot m, StepPuts cron config s a slot m → p slot m) : Forall p s'.db := by
  intro slot m hm
  rcases step_holds h hm with hm | hm
  · exact hs slot m hm
  · exact hputs slot m hm

/-! ## What a step leaves alone -/

/-- The types of the keys that the requests of an action name. -/
def Action.types : Action → List ERedisKey
  | .produce .. | .scheduleExec =>
    [.keyQueue, .keyQueuePriority, .keyPendingMessagesWithPriority, .keyQueueScheduled, .keyScheduledMessages]
  | .dequeue _ => [.keyQueue, .keyQueuePriority, .keyPendingMessagesWithPriority, .keyQueueProcessing]
  | .acknowledge _ => [.keyQueueProcessing, .keyQueueAcknowledgedMessages]
  | .unacknowledge .. => [.keyQueueProcessing, .keyQueueDL, .keyQueueDelay, .keyQueueRequeue]
  | .delayExec => [.keyQueueDelay, .keyQueueScheduled, .keyScheduledMessages]
  | .requeueExec => [.keyQueueRequeue, .keyQueue, .keyQueuePriority]
  | .requestExec .. =>
    [.keyQueue, .keyQueuePriority, .keyPendingMessagesWithPriority, .keyQueueAcknowledgedMessages, .keyQueueDL]
  | .deletePendingMessageWithPriority .. => [.keyQueuePriority, .keyPendingMessagesWithPriority]
  | .deleteScheduled _ => [.keyQueueScheduled, .keyScheduledMessages]
  | .purge .. => [.keyQueue, .keyQueueAcknowledgedMessages, .keyQueueDL]
  | .purgePriorityQueue _ => [.keyQueuePriority]
  | .purgeScheduledMessagesQueue => [.keyQueueScheduled]
  | _ => []

/-- A command that only names keys of these types changes nothing under the others. -/
theorem exec_types {k : RedisKey} {c : Cmd} {types : List ERedisKey} (hk : k.type ∉ types)
    (hc : ∀ k' ∈ c.keys, k'.type ∈ types) : SameAt (db.exec lt c) db k :=
  exec_frame (fun hmem => hk (hc k hmem))

/-- A step changes nothing under keys of other types. -/
theorem StepDb.frame {k : RedisKey} (h : StepDb cron lt config s a db) (hk : k.type ∉ a.types) :
    SameAt db s.db k := by
  have hne : ∀ k' : RedisKey, k'.type ∈ a.types → k ≠ k' := by rintro k' h' rfl; exact hk h'
  have henqueue : ∀ {q m withPriority now} {db : Db}, ERedisKey.keyQueue ∈ a.types →
      ERedisKey.keyQueuePriority ∈ a.types → ERedisKey.keyPendingMessagesWithPriority ∈ a.types →
      SameAt (db.execAll lt (EnqueueHandler.enqueueCmds q m withPriority now)) db k := by
    intro q m withPriority now db h1 h2 h3
    exact enqueueCmds_frame (fun h => hk (h ▸ h1)) (fun h => hk (h ▸ h2)) (fun h => hk (h ▸ h3))
  have hstore : ∀ {r : ℕ × Message} {db : Db}, ERedisKey.keyQueueScheduled ∈ a.types →
      ERedisKey.keyScheduledMessages ∈ a.types → SameAt (db.execAll lt (ScheduleHandler.storeCmds r)) db k :=
    fun h1 h2 => storeCmds_frame (hne _ h1) (hne _ h2)
  cases h with
  | reads => exact .refl _ _
  | produce =>
    unfold produceCmds
    split
    · rw [schedule_eq]
      dsimp only
      split
      · exact hstore (by simp [Action.types]) (by simp [Action.types])
      · exact .refl _ _
    · exact henqueue (by simp [Action.types]) (by simp [Action.types]) (by simp [Action.types])
  | dequeuePriority =>
    refine zpophgetrpush_frame (hne _ ?_) (hne _ ?_) (hne _ ?_) <;>
      simp [Action.types, ConsumerConfig.keyQueueProcessing]
  | dequeue =>
    exact exec_types hk (by simp [Cmd.keys, Action.types, ConsumerConfig.keyQueueProcessing])
  | acknowledge =>
    exact exec_types hk (by
      simp [ProcessingHandler.acknowledge, Cmd.keys, Action.types, ConsumerConfig.keyQueueProcessing])
  | @unacknowledge id cause now m _ =>
    refine exec_types hk ?_
    cases Broker.destination m cause now <;>
      simp [Broker.Destination.cmd, ProcessingHandler.deadLetterMessage, ProcessingHandler.delayBeforeRequeue,
        ProcessingHandler.requeue, Cmd.keys, Action.types, ConsumerConfig.keyQueueProcessing]
  | delayExec _ hcmds =>
    refine delay_frame hcmds (hne _ ?_) (hne _ ?_) (hne _ ?_) <;> simp [Action.types]
  | requeueExec _ hcmds =>
    refine requeue_frame hcmds (hne _ (by simp [Action.types])) (fun i _ q _ => ?_)
    split <;> exact hne _ (by simp [Action.types])
  | scheduleExec =>
    exact (hstore (by simp [Action.types]) (by simp [Action.types])).trans
      (henqueue (by simp [Action.types]) (by simp [Action.types]) (by simp [Action.types]))
  | @requeueRequest index now source q withPriority priority msg m hr hsame =>
    refine (henqueue (by simp [Action.types]) (by simp [Action.types]) (by simp [Action.types])).trans ?_
    cases source <;> exact exec_types hk (by simp [Cmd.keys, QueueList.key, Action.types])
  | @deleteRequest index now source q msg hr =>
    cases source <;> exact exec_types hk (by simp [Cmd.keys, QueueList.key, Action.types])
  | deletePendingMessageWithPriority | deleteScheduled =>
    refine execAll_frame _ (fun c hc hm => ?_)
    rcases List.mem_pair.mp hc with rfl | rfl <;> exact hne _ (by simp [Action.types]) (List.mem_singleton.mp hm)
  | @purge l q => cases l <;> exact exec_types hk (by simp [Cmd.keys, QueueList.key, Action.types])
  | purgePriorityQueue =>
    exact exec_types hk (by simp [QueueManager.purgePriorityQueue, Cmd.keys, Action.types])
  | purgeScheduledMessagesQueue =>
    exact exec_types hk (by simp [QueueManager.purgeScheduledMessagesQueue, Cmd.keys, Action.types])

theorem step_frame {k : RedisKey} (h : step cron lt config s a = some s') (hk : k.type ∉ a.types) :
    SameAt s'.db s.db k :=
  (step_db h).frame hk

/-- The types of the keys that messages and their identifiers are kept under. -/
def messageTypes : List ERedisKey :=
  [.keyQueue, .keyQueueProcessing, .keyQueueDelay, .keyQueueRequeue, .keyQueueAcknowledgedMessages, .keyQueueDL,
    .keyQueueScheduled, .keyScheduledMessages, .keyQueuePriority, .keyPendingMessagesWithPriority]

theorem types_subset (a : Action) : a.types ⊆ messageTypes := by
  cases a <;> simp [Action.types, messageTypes]

/-! ## What actors remember -/

/-- An actor has read the message and will act on it. -/
inductive Carries (s : State) (m : Message) : Prop
  | delay {b} : s.delayTick = .fetched b → m ∈ b.messages → Carries s m
  | requeue {b} : s.requeueTick = .fetched b → m ∈ b.messages → Carries s m
  | schedule {withPriority now rest} : s.scheduleTick = .messages withPriority now rest → some m ∈ rest → Carries s m
  | request {source q withPriority priority} : .requeue source q withPriority priority m ∈ s.requests → Carries s m

/-- What an actor remembers after a step, it remembered before, unless it has just read it. -/
theorem Carries.of_step {p : Prop} (hc : Carries s' m)
    (hd : s'.delayTick = s.delayTick ∨ ∀ b, s'.delayTick = .fetched b → m ∈ b.messages → p)
    (hr : s'.requeueTick = s.requeueTick ∨ ∀ b, s'.requeueTick = .fetched b → m ∈ b.messages → p)
    (hs : s'.scheduleTick = s.scheduleTick ∨ ∀ withPriority now rest,
      s'.scheduleTick = .messages withPriority now rest → some m ∈ rest → Carries s m ∨ p)
    (hq : ∀ source q withPriority priority, .requeue source q withPriority priority m ∈ s'.requests →
      .requeue source q withPriority priority m ∈ s.requests ∨ p) : Carries s m ∨ p := by
  cases hc with
  | delay hb hm =>
    rcases hd with h | h
    · exact .inl (.delay (h ▸ hb) hm)
    · exact .inr (h _ hb hm)
  | requeue hb hm =>
    rcases hr with h | h
    · exact .inl (.requeue (h ▸ hb) hm)
    · exact .inr (h _ hb hm)
  | schedule ht hm =>
    rcases hs with h | h
    · exact .inl (.schedule (h ▸ ht) hm)
    · exact h _ _ _ ht hm
  | request hmem =>
    rcases hq _ _ _ _ hmem with h | h
    · exact .inl (.request h)
    · exact .inr h

/-- Actors only read messages that are held. -/
theorem step_carries (h : step cron lt config s a = some s') (hc : Carries s' m) :
    Carries s m ∨ ∃ slot, s.db.Holds slot m := by
  have hsame : s'.delayTick = s.delayTick → s'.requeueTick = s.requeueTick → s'.scheduleTick = s.scheduleTick →
      s'.requests = s.requests → Carries s m ∨ ∃ slot, s.db.Holds slot m := fun h1 h2 h3 h4 =>
    hc.of_step (.inl h1) (.inl h2) (.inl h3) (fun _ _ _ _ hq => .inl (h4 ▸ hq))
  cases a with
  | produce q withPriority m now =>
    rw [step_produce h] at hsame
    exact hsame rfl rfl rfl rfl
  | dequeue id =>
    simp only [step, dequeueMessage] at h
    split at h
    · split at h
      · split at h <;> cases h <;> exact hsame rfl rfl rfl rfl
      · split at h <;> cases h
        exact hsame rfl rfl rfl rfl
    · cases h
  | acknowledge id | unacknowledge id cause now =>
    simp only [step, settle] at h
    split at h <;> cases h
    exact hsame rfl rfl rfl rfl
  | delayFetch now =>
    simp only [step] at h
    split at h <;> cases h
    refine hc.of_step (.inr (fun b hb hm => ?_)) (.inl rfl) (.inl rfl) (fun _ _ _ _ hq => .inl hq)
    cases hb
    exact ⟨.list _, List.mem_of_mem_take hm⟩
  | delayExec =>
    simp only [step, Queue.delayExec] at h
    split at h
    · split at h <;> cases h <;>
        exact hc.of_step (.inr (fun _ hb _ => by cases hb)) (.inl rfl) (.inl rfl) (fun _ _ _ _ hq => .inl hq)
    · cases h
  | requeueFetch withPriority =>
    simp only [step] at h
    split at h <;> cases h
    refine hc.of_step (.inl rfl) (.inr (fun b hb hm => ?_)) (.inl rfl) (fun _ _ _ _ hq => .inl hq)
    cases hb
    exact ⟨.list _, List.mem_of_mem_take hm⟩
  | requeueExec =>
    simp only [step, Queue.requeueExec] at h
    split at h
    · split at h <;> cases h <;>
        exact hc.of_step (.inl rfl) (.inr (fun _ hb _ => by cases hb)) (.inl rfl) (fun _ _ _ _ hq => .inl hq)
    · cases h
  | scheduleFetchIds withPriority now =>
    simp only [step] at h
    split at h <;> cases h
    exact hc.of_step (.inl rfl) (.inl rfl) (.inr (fun _ _ _ ht _ => by cases ht)) (fun _ _ _ _ hq => .inl hq)
  | scheduleFetchMessages now =>
    simp only [step] at h
    split at h <;> cases h
    refine hc.of_step (.inl rfl) (.inl rfl) (.inr (fun _ _ _ ht hm => .inr ?_)) (fun _ _ _ _ hq => .inl hq)
    cases ht
    obtain ⟨t, _, ht⟩ := List.mem_map.mp hm
    exact ⟨.field _ t, ht⟩
  | scheduleExec =>
    simp only [step, Queue.scheduleExec] at h
    split at h
    · cases h
      exact hc.of_step (.inl rfl) (.inl rfl) (.inr (fun _ _ _ ht _ => by cases ht)) (fun _ _ _ _ hq => .inl hq)
    · cases h
      exact hc.of_step (.inl rfl) (.inl rfl) (.inr (fun _ _ _ ht _ => by cases ht)) (fun _ _ _ _ hq => .inl hq)
    · rename_i ht₀
      split at h <;> cases h
      · refine hc.of_step (.inl rfl) (.inl rfl) (.inr (fun _ _ _ ht hm => .inl ?_)) (fun _ _ _ _ hq => .inl hq)
        cases ht
        exact .schedule ht₀ (List.mem_cons_of_mem _ hm)
      · exact hc.of_step (.inl rfl) (.inl rfl) (.inr (fun _ _ _ ht _ => by cases ht)) (fun _ _ _ _ hq => .inl hq)
    · cases h
  | requeueMessageRead source q index messageId withPriority priority =>
    simp only [step] at h
    split at h
    · rename_i msg hmsg
      split at h <;> cases h
      refine hc.of_step (.inl rfl) (.inl rfl) (.inl rfl) (fun _ _ _ _ hq => ?_)
      rcases List.mem_cons.mp hq with heq | hq
      · cases heq
        obtain ⟨hget, _⟩ := Option.filter_eq_some_iff.mp hmsg
        exact .inr ⟨.list _, List.mem_of_getElem? hget⟩
      · exact .inl hq
    · cases h
  | deleteMessageRead source q index messageId =>
    simp only [step] at h
    split at h <;> cases h
    refine hc.of_step (.inl rfl) (.inl rfl) (.inl rfl) (fun _ _ _ _ hq => ?_)
    rcases List.mem_cons.mp hq with heq | hq
    · cases heq
    · exact .inl hq
  | requestExec index now =>
    simp only [step, Queue.requestExec] at h
    split at h
    · cases h
    · split at h <;> cases h <;>
        exact hc.of_step (.inl rfl) (.inl rfl) (.inl rfl) (fun _ _ _ _ hq => .inl (List.mem_of_mem_eraseIdx hq))
  | deletePendingMessageWithPriority | deleteScheduled | purge | purgePriorityQueue | purgeScheduledMessagesQueue =>
    cases h
    exact hsame rfl rfl rfl rfl

/-- What was produced stays recorded. -/
theorem step_produced (h : step cron lt config s a = some s') :
    s'.produced = s.produced ∨ ∃ q withPriority m now, a = .produce q withPriority m now ∧
      s'.produced = ⟨sent q m, withPriority⟩ :: s.produced := by
  cases a with
  | produce q withPriority m now => rw [step_produce h]; exact .inr ⟨_, _, _, _, rfl, rfl⟩
  | _ =>
    left
    simp only [step, dequeueMessage, settle, Queue.delayExec, Queue.requeueExec, Queue.scheduleExec,
      Queue.requestExec] at h
    repeat' (split at h)
    all_goals cases h <;> rfl

end RedisSmq.Queue
