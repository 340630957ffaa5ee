import RedisSmq.Queue.Stores

/-!
# The scheduled store in any run

The scheduled store is a sorted set of identifiers and a hash of payloads. `StepSchedules` lists which step stores which
message under which timestamp, and `step_score` says that every score was there before or was set by the step. `StepTick`
lists what the schedule worker remembers after a step.

`StoreInv` holds in every run, in either mode and with any requests of the message manager: payloads lie under their
identifiers, and the members of the sorted set have payloads (`storeInv_reachable`). A purge deletes the sorted set
alone, so a payload need not have a member.
-/

namespace RedisSmq.Queue

open RedisKeys Db Transition

/-- The step stores the message in the scheduled store, under the timestamp. -/
inductive StepSchedules (cron : CronParser) (s : State) : Action → ℕ → Message → Prop
  | produce {q withPriority m now} : (ScheduleHandler.getNextScheduledTimestamp cron now (sent q m)).1 ≠ 0 →
    StepSchedules cron s (.produce q withPriority m now)
      (ScheduleHandler.getNextScheduledTimestamp cron now (sent q m)).1
      ((ScheduleHandler.getNextScheduledTimestamp cron now (sent q m)).2.setScheduledAt now)
  | delayed {b i p} : s.delayTick = .fetched b → i ∈ b.messages → p.ms = i.retryDelay.ms →
    StepSchedules cron s .delayExec (b.now + p.ms) (delayed i p b.now)
  | rescheduled {withPriority now m rest} : s.scheduleTick = .messages withPriority now (some m :: rest) →
    (ScheduleHandler.getNextScheduledTimestamp cron now (EnqueueHandler.enqueued m withPriority now)).1 ≠ 0 →
    StepSchedules cron s .scheduleExec
      (ScheduleHandler.getNextScheduledTimestamp cron now (EnqueueHandler.enqueued m withPriority now)).1
      (ScheduleHandler.getNextScheduledTimestamp cron now (EnqueueHandler.enqueued m withPriority now)).2

/-- What the schedule worker remembers after a step. -/
inductive StepTick (s : State) : Action → ScheduleTick → Prop
  | other {a} : a ≠ .scheduleExec → StepTick s a s.scheduleTick
  | fetchIds {withPriority now} : s.scheduleTick = .idle → StepTick s (.scheduleFetchIds withPriority now)
    (.ids withPriority ((s.db.zsets getGlobalKeys.keyQueueScheduled).zrangebyscore 0 now))
  | fetchMessages {withPriority ids now} : s.scheduleTick = .ids withPriority ids →
    StepTick s (.scheduleFetchMessages now)
      (.messages withPriority now (ids.map (s.db.hashes getGlobalKeys.keyScheduledMessages)))
  | finished {withPriority now} : s.scheduleTick = .messages withPriority now [] → StepTick s .scheduleExec .idle
  | missing {withPriority now rest} : s.scheduleTick = .messages withPriority now (none :: rest) →
    StepTick s .scheduleExec .dead
  | noQueue {withPriority now m rest} : s.scheduleTick = .messages withPriority now (some m :: rest) → m.queue = none →
    StepTick s .scheduleExec .dead
  | enqueued {withPriority now m rest} : s.scheduleTick = .messages withPriority now (some m :: rest) →
    StepTick s .scheduleExec (.messages withPriority now rest)

section

variable {cron : CronParser} {lt : Text → Text → Bool} {config : String → ConsumerConfig}
variable {s s' : State} {a : Action} {q : TMessageQueue} {m : Message} {db : Db} {t : Text} {n now : ℕ}
variable {withPriority : Bool} {id : String} {c : Cmd}

theorem step_tick (h : step cron lt config s a = some s') : StepTick s a s'.scheduleTick := by
  cases a with
  | scheduleFetchIds withPriority now =>
    simp only [step] at h
    split at h <;> cases h
    rename_i ht
    exact .fetchIds ht
  | scheduleFetchMessages now =>
    simp only [step] at h
    split at h <;> cases h
    rename_i ht
    exact .fetchMessages ht
  | scheduleExec =>
    simp only [step, scheduleExec] at h
    split at h
    · rename_i ht; cases h; exact .finished ht
    · rename_i ht; cases h; exact .missing ht
    · rename_i m _ ht
      split at h <;> cases h
      · exact .enqueued ht
      · rename_i herr
        refine .noQueue ht ?_
        cases hq : m.queue with
        | none => rfl
        | some q => rw [ScheduleHandler.enqueueScheduledMessage_ok cron hq] at herr; cases herr
    · cases h
  | produce => rw [step_produce h]; exact .other (by simp)
  | _ =>
    have hsame : s'.scheduleTick = s.scheduleTick := by
      simp only [step, dequeueMessage, settle, Queue.delayExec, Queue.requeueExec, Queue.requestExec] at h
      repeat' (split at h)
      all_goals cases h <;> rfl
    rw [hsame]
    exact .other (by simp)

/-! ## Scores -/

theorem zadd_mem_storeCmds {r : ℕ × Message} {k : RedisKey} (h : .zadd k n t ∈ ScheduleHandler.storeCmds r) :
    r.1 ≠ 0 ∧ n = r.1 ∧ t = .id r.2.uuid := by
  unfold ScheduleHandler.storeCmds at h
  split at h
  · rename_i hr
    rcases List.mem_pair.mp h with h | h <;> cases h
    exact ⟨hr, rfl, rfl⟩
  · rcases List.mem_pair.mp h with h | h <;> cases h

/-- Enqueueing sets no score of the scheduled set. -/
theorem score_enqueueCmds (h : ((db.execAll lt (EnqueueHandler.enqueueCmds q m withPriority now)).zsets
    getGlobalKeys.keyQueueScheduled).score t = some n) :
    (db.zsets getGlobalKeys.keyQueueScheduled).score t = some n := by
  rwa [(enqueueCmds_frame (by simp) (by simp) (by simp)).zsets] at h

/-- A score of the scheduled set is as it was, or the step stored a message under it. -/
theorem StepDb.score (h : StepDb cron lt config s a db)
    (hn : (db.zsets getGlobalKeys.keyQueueScheduled).score t = some n) :
    (s.db.zsets getGlobalKeys.keyQueueScheduled).score t = some n ∨
      ∃ m, StepSchedules cron s a n m ∧ t = .id m.uuid := by
  cases h with
  | reads => exact .inl hn
  | @produce q withPriority m now =>
    unfold produceCmds at hn
    split at hn
    · rw [schedule_eq] at hn
      dsimp only at hn
      split at hn
      · rename_i hne
        rcases score_execAll _ hn with hn | hn
        · exact .inl hn
        · obtain ⟨_, rfl, rfl⟩ := zadd_mem_storeCmds hn
          exact .inr ⟨_, .produce hne, rfl⟩
      · exact .inl hn
    · exact .inl (score_enqueueCmds hn)
  | dequeuePriority =>
    rw [(zpophgetrpush_frame (by simp [RedisKey.ext_iff]) (by simp [RedisKey.ext_iff])
      (by simp [RedisKey.ext_iff, ConsumerConfig.keyQueueProcessing])).zsets] at hn
    exact .inl hn
  | @unacknowledge id cause now m _ =>
    rcases score_exec hn with hn | hn
    · exact .inl hn
    · cases hd : Broker.destination m cause now <;> rw [hd] at hn <;> cases hn
  | dequeue | acknowledge | deleteRequest | purge | purgePriorityQueue | purgeScheduledMessagesQueue =>
    rcases score_exec hn with hn | hn
    · exact .inl hn
    · cases hn
  | delayExec hb hcmds =>
    rcases score_execAll _ hn with hn | hn
    · exact .inl hn
    · obtain ⟨i, hi, cs, hcs, hc⟩ := mem_parallel hcmds _ hn
      obtain ⟨p, hp, rfl⟩ := scheduleTask_ok hcs
      rcases List.mem_cons.mp hc with hc | hc
      · cases hc
      · obtain ⟨_, rfl, rfl⟩ := zadd_mem_storeCmds hc
        exact .inr ⟨_, .delayed hb hi hp, rfl⟩
  | requeueExec _ hcmds =>
    rw [(requeue_frame hcmds (by simp [RedisKey.ext_iff]) (fun i _ q _ => by
      split <;> simp [RedisKey.ext_iff])).zsets] at hn
    exact .inl hn
  | scheduleExec ht hq =>
    rcases score_execAll _ hn with hn | hn
    · exact .inl (score_enqueueCmds hn)
    · obtain ⟨hr, rfl, rfl⟩ := zadd_mem_storeCmds hn
      exact .inr ⟨_, .rescheduled ht hr, rfl⟩
  | requeueRequest =>
    rcases score_exec (score_enqueueCmds hn) with hn | hn
    · exact .inl hn
    · cases hn
  | deletePendingMessageWithPriority | deleteScheduled =>
    rcases score_execAll _ hn with hn | hn
    · exact .inl hn
    · rcases List.mem_pair.mp hn with hn | hn <;> cases hn

theorem step_score (h : step cron lt config s a = some s')
    (hn : (s'.db.zsets getGlobalKeys.keyQueueScheduled).score t = some n) :
    (s.db.zsets getGlobalKeys.keyQueueScheduled).score t = some n ∨
      ∃ m, StepSchedules cron s a n m ∧ t = .id m.uuid :=
  (step_db h).score hn

/-- A member of the scheduled set was one before, or the step stored its message. -/
theorem step_mem_scheduled (h : step cron lt config s a = some s')
    (ht : t ∈ (s'.db.zsets getGlobalKeys.keyQueueScheduled).members) :
    t ∈ (s.db.zsets getGlobalKeys.keyQueueScheduled).members ∨ ∃ n m, StepSchedules cron s a n m ∧ t = .id m.uuid := by
  obtain ⟨n, hn⟩ := SortedSet.exists_score.mpr ht
  rcases step_score h hn with hn | ⟨m, hm⟩
  · exact .inl (SortedSet.exists_score.mp ⟨n, hn⟩)
  · exact .inr ⟨n, m, hm⟩

/-- With a timestamp, the block stores the message under it. -/
theorem storeCmds_stored {r : ℕ × Message} (hr : r.1 ≠ 0) :
    ((db.execAll lt (ScheduleHandler.storeCmds r)).zsets getGlobalKeys.keyQueueScheduled).score (.id r.2.uuid) =
        some r.1 ∧
      (db.execAll lt (ScheduleHandler.storeCmds r)).hashes getGlobalKeys.keyScheduledMessages (.id r.2.uuid) =
        some r.2 := by
  rw [ScheduleHandler.storeCmds, if_pos hr]
  simp [Db.exec, SortedSet.score_zadd_self]

/-! ## Blocks about one message -/

theorem about_enqueueCmds (hc : c ∈ EnqueueHandler.enqueueCmds q m withPriority now) (h : c.About id) : m.uuid = id := by
  cases withPriority
  · rcases List.mem_singleton.mp hc with rfl
    exact h
  · rcases List.mem_pair.mp hc with rfl | rfl <;> exact Text.id.inj h

theorem about_storeCmds {r : ℕ × Message} (hc : c ∈ ScheduleHandler.storeCmds r) (h : c.About id) : r.2.uuid = id := by
  unfold ScheduleHandler.storeCmds at hc
  split at hc <;> rcases List.mem_pair.mp hc with rfl | rfl <;> exact Text.id.inj h

/-- The transaction of the schedule worker for another message changes nothing for an identifier. -/
theorem sameFor_scheduleExec (h : m.uuid ≠ id) :
    SameFor ((db.execAll lt (EnqueueHandler.enqueueCmds q m withPriority now)).execAll lt (ScheduleHandler.storeCmds
      (ScheduleHandler.getNextScheduledTimestamp cron now (EnqueueHandler.enqueued m withPriority now)))) db id := by
  have hid := (sameMessage_next cron now _).uuid.trans (sameMessage_enqueued m withPriority now).uuid
  exact (execAll_sameFor _ (fun c hc ha => h (hid ▸ about_storeCmds hc ha))).trans
    (execAll_sameFor _ (fun c hc ha => h (about_enqueueCmds hc ha)))

/-! ## The invariant -/

/-- A payload lies under the identifier of its message. -/
def Filed : Slot → Message → Prop
  | .list _, _ => True
  | .field _ t, m => t = .id m.uuid

/-- Every step puts payloads under their identifiers. -/
theorem stepPuts_filed {slot : Slot} (h : StepPuts cron config s a slot m) : Filed slot m := by
  have henqueue : ∀ {q m m' withPriority}, m'.uuid = m.uuid → Filed (enqueueSlot q m withPriority) m' := by
    intro q m m' withPriority huuid
    cases withPriority
    · trivial
    · exact congrArg Text.id huuid.symm
  cases h with
  | @produceScheduled q withPriority m now =>
    have huuid : (ScheduleHandler.getNextScheduledTimestamp cron now (sent q m)).2.uuid = m.uuid :=
      (sameMessage_next cron now (sent q m)).uuid
    exact congrArg Text.id huuid.symm
  | delayed => exact rfl
  | @rescheduled withPriority now m rest =>
    have huuid := ((sameMessage_next cron now _).trans (sameMessage_enqueued m withPriority now)).uuid
    exact congrArg Text.id huuid.symm
  | produceEnqueued | enqueueScheduled | requested => exact henqueue (sameMessage_enqueued ..).uuid
  | _ => trivial

/-- The invariant of the scheduled store. -/
structure StoreInv (s : State) : Prop where
  filed : Forall Filed s.db
  linked : Linked s.db getGlobalKeys.keyQueueScheduled getGlobalKeys.keyScheduledMessages

/-- Every step keeps the invariant. -/
theorem StoreInv.step (hi : StoreInv s) (hs : Queue.step cron lt config s a = some s') : StoreInv s' where
  filed := step_forall hs hi.filed (fun _ _ => stepPuts_filed)
  linked := (step_scheduledOps hs).linked (fun _ hop _ _ he => by cases hop <;> cases he) hi.linked

/-- **The scheduled store** keeps its form in every run. -/
theorem storeInv_reachable {P : State → Action → Prop} (h : Reach (system cron lt config) P s) : StoreInv s :=
  h.invariant (I := StoreInv) ⟨Forall.empty, fun t ht => by cases ht⟩ (fun _ _ _ hi _ hs => hi.step hs)

end

end RedisSmq.Queue
