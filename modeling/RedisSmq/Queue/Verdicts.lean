import RedisSmq.Queue.Retries

/-!
# Verdicts

A message that was not acknowledged is judged once, by `Broker.retry`: it goes to the dead-letter queue when it has
expired, is periodic or has used up its attempts, and is retried otherwise, after its retry delay if it has one. The
verdicts can be read off the lists in every state of every run, in either mode, whatever the workers and the message
manager do in between (`judged_reachable`): no message is dead-lettered without a reason that still stands, no message that
waits for a retry has a reason, and no message has more attempts than its threshold allows.
-/

namespace RedisSmq.Queue

open RedisKeys Db Transition

/-- The reasons to dead-letter a message at the clock value `now`. -/
def Hopeless (m : Message) (now : ℕ) : Prop :=
  m.hasExpired now = true ∨ m.isPeriodic = true ∨ m.hasRetryThresholdExceeded = true

/-- What lies in a list of judged messages was judged this way. -/
def Verdict (now : ℕ) : Slot → Message → Prop
  | .list ⟨_, .keyQueueDL, _⟩, m => Hopeless m now
  | .list ⟨_, .keyQueueDelay, _⟩, m =>
    m.isPeriodic = false ∧ m.hasRetryThresholdExceeded = false ∧ m.retryDelay.ms ≠ 0
  | .list ⟨_, .keyQueueRequeue, _⟩, m =>
    m.isPeriodic = false ∧ m.hasRetryThresholdExceeded = false ∧ m.retryDelay.ms = 0
  | _, _ => True

/-- The attempts of a message do not reach its threshold, where it has one. -/
def Bounded (m : Message) : Prop := 0 < m.retryThreshold → (m.attempts : ℤ) < m.retryThreshold

/-- Every message that is held was judged by its fields, and has attempts left. -/
structure Judged (now : ℕ) (db : Db) : Prop where
  verdict : Forall (Verdict now) db
  bounded : Forall (fun _ m => Bounded m) db

/-- A delivery is settled at the clock value of the settlement, and as expired only when the message has expired. -/
def judgedInTime (s : State × ℕ) (a : ℕ × Action) : Bool :=
  timely s.1 a.2 && match a.2 with
    | .unacknowledge _ _ now => decide (now = a.1)
    | _ => true

section

variable {cron : CronParser} {lt : Text → Text → Bool} {config : String → ConsumerConfig}
variable {s s' : State} {a : Action} {c : String} {m m' : Message} {slot : Slot} {q : TMessageQueue} {now now' : ℕ}
variable {withPriority : Bool} {cause : EMessageUnacknowledgedCause}

/-! ## Reasons -/

/-- A reason stands. -/
theorem Hopeless.mono (h : Hopeless m now) (hle : now ≤ now') : Hopeless m now' := by
  refine h.imp_left fun hexp => ?_
  simp only [Message.hasExpired, Bool.or_eq_true, Bool.and_eq_true, decide_eq_true_eq] at hexp ⊢
  exact hexp.imp_right fun h => ⟨h.1, h.2.trans hle⟩

theorem Verdict.mono (h : Verdict now slot m) (hle : now ≤ now') : Verdict now' slot m := by
  unfold Verdict at h ⊢
  split
  · exact Hopeless.mono h hle
  · exact h
  · exact h
  · trivial

theorem Judged.mono {db : Db} (h : Judged now db) (hle : now ≤ now') : Judged now' db :=
  ⟨fun slot m hm => (h.verdict slot m hm).mono hle, h.bounded⟩

/-- The destination of a message follows from its fields. -/
theorem verdict_destination {ns queueName : String} (hcause : cause = .ttlExpired → m.hasExpired now = true) :
    Verdict now (.list ((Broker.destination m cause now).key ns queueName)) m := by
  unfold Broker.destination
  split
  · rename_i h
    exact .inl (h.elim hcause id)
  · split
    · rename_i h
      exact .inr (.inl h)
    · rename_i hperiodic
      split
      · rename_i h
        exact .inr (.inr h)
      · rename_i hthreshold
        split
        · rename_i hdelay
          exact ⟨by simpa using hperiodic, by simpa using hthreshold, hdelay⟩
        · rename_i hdelay
          exact ⟨by simpa using hperiodic, by simpa using hthreshold, by simpa using hdelay⟩

/-- There is room for another attempt. -/
theorem bounded_incrAttempts (h : m.hasRetryThresholdExceeded = false) : Bounded m.incrAttempts := by
  intro hpos
  have hpos' : 0 < m.retryThreshold := hpos
  simp only [Message.hasRetryThresholdExceeded, Bool.and_eq_false_iff, bne_eq_false_iff_eq,
    decide_eq_false_iff_not] at h
  have hattempts : ((m.incrAttempts.attempts : ℕ) : ℤ) = (m.attempts : ℤ) + 1 := by simp [Message.incrAttempts]
  have hthreshold : m.incrAttempts.retryThreshold = m.retryThreshold := rfl
  rw [hattempts, hthreshold]
  omega

/-- The stages of a message have its threshold. -/
theorem Bounded.of_same (h : Bounded m') (hc : content m = content m') (ha : m.attempts = m'.attempts) : Bounded m := by
  have hthreshold : m.retryThreshold = m'.retryThreshold := congrArg Content.retryThreshold hc
  unfold Bounded
  rw [hthreshold, ha]
  exact h

/-- A message starts without attempts. -/
theorem bounded_sent : Bounded (sent q m) := fun h => h

/-! ## Steps -/

theorem verdict_enqueueSlot : Verdict now (enqueueSlot q m withPriority) m' := by
  cases withPriority <;> trivial

theorem stepPuts_verdict {s : State × ℕ} {a : ℕ × Action} (hh : Hands config s.1) (hj : judgedInTime s a = true)
    (h : StepPuts cron config s.1 a.2 slot m) : Verdict a.1 slot m := by
  obtain ⟨t, a⟩ := a
  cases h with
  | produceScheduled | delayed | rescheduled => trivial
  | produceEnqueued | enqueueScheduled | requested => exact verdict_enqueueSlot
  | dequeuePriority | dequeue | acknowledge | requeued => trivial
  | @unacknowledge c cause now m' m hc hm =>
    simp only [judgedInTime, Bool.and_eq_true, decide_eq_true_eq] at hj
    obtain ⟨htimely, rfl⟩ := hj
    rw [show s.1.db.lists ((config c).keyQueueProcessing c) = [m'] by rw [hh c, hc]; rfl] at hm
    have heq : m' = m := by
      cases hd : Broker.destination m' cause now <;> rw [hd] at hm <;> exact Option.some.inj hm
    subst heq
    refine verdict_destination fun hcause => ?_
    rw [hcause, timely, hc] at htimely
    exact htimely

/-- The copy that the message manager re-queues has no attempts. -/
theorem attempts_requeueListMessage {source : RedisKey} {priority : Option ℕ} {cmds : List Cmd} {db : Db}
    (h : RequeueHandler.requeueListMessage source q.ns q.name withPriority priority m now = .ok cmds) {cmd : Cmd}
    (hcmd : cmd ∈ cmds) (hputs : cmd.Puts db slot m') : m'.attempts = 0 := by
  have hdone : ∀ {m₁ : Message}, m₁.queue = some q → m₁.attempts = 0 →
      (do let r ← EnqueueHandler.enqueueMulti m₁ withPriority now
          return Cmd.lrem source m :: r.2 : Except String (List Cmd)) = .ok cmds → m'.attempts = 0 := by
    intro m₁ hq hzero h
    rw [EnqueueHandler.enqueueMulti_ok hq] at h
    cases h
    rcases List.mem_cons.mp hcmd with rfl | hcmd
    · cases hputs
    · obtain ⟨_, rfl⟩ := enqueueCmds_puts hcmd hputs
      rw [attempts_enqueued]
      exact hzero
  unfold RequeueHandler.requeueListMessage at h
  cases withPriority with
  | false => exact @hdone (sent q m) rfl rfl h
  | true =>
    cases priority with
    | none => exact @hdone (sent q m) rfl rfl h
    | some n =>
      simp only [Message.createFromMessage, if_true] at h
      cases hp : (sent q m).setPriority n with
      | error e =>
        rw [show (m.reset.setQueue q.ns q.name).setPriority n = .error e from hp] at h
        cases h
      | ok m₁ =>
        rw [show (m.reset.setQueue q.ns q.name).setPriority n = .ok m₁ from hp] at h
        unfold Message.setPriority at hp
        split at hp <;> cases hp
        rename_i p _
        exact @hdone { sent q m with priority := some p } rfl rfl h

/-- What a request leaves in the database was there before, or has no attempts. -/
theorem holds_requestExec {index : ℕ} (hs : step cron lt config s (.requestExec index now) = some s')
    (hm : s'.db.Holds slot m) : s.db.Holds slot m ∨ m.attempts = 0 := by
  simp only [step, requestExec] at hs
  split at hs
  · cases hs
  · rename_i r _
    split at hs <;> cases hs
    · rename_i hcmds
      refine Forall.execAll (p := fun slot m => s.db.Holds slot m ∨ m.attempts = 0) (fun _ _ h => .inl h)
        (fun cmd hcmd db slot m hp => .inr ?_) slot m hm
      cases r with
      | requeue source q withPriority priority msg => exact attempts_requeueListMessage hcmds hcmd hp
      | delete =>
        cases hcmds
        cases List.mem_singleton.mp hcmd
        cases hp
    · exact .inl hm

/-- A step puts messages whose attempts are bounded. -/
theorem bounded_holds (hb : Batches s) (hv : Forall (Verdict now) s.db) (hin : ∀ m, InStock s m → Bounded m)
    (hs : step cron lt config s a = some s') (hm : s'.db.Holds slot m) : Bounded m := by
  have hheld : ∀ slot {m}, s.db.Holds slot m → Bounded m := fun slot m hm => hin m (.inl ⟨slot, hm⟩)
  rcases step_holds hs hm with hold | hput
  · exact hheld slot hold
  · cases hput with
    | @produceScheduled q withPriority m now =>
      exact bounded_sent.of_same (sameMessage_next cron now (sent q m)).content attempts_next
    | produceEnqueued => exact bounded_sent.of_same (sameMessage_enqueued ..).content attempts_enqueued
    | dequeuePriority _ hm => exact hheld (.field _ _) hm
    | dequeue _ hm => exact hheld (.list _) (List.mem_of_getLast? hm)
    | acknowledge hm => exact hheld (.list _) (List.mem_of_head? hm)
    | @unacknowledge c cause now m' m _ hm =>
      cases hd : Broker.destination m' cause now <;> rw [hd] at hm
      · exact hheld (.list _) (List.mem_of_head? hm)
      · exact hheld (.list _) (List.mem_of_getLast? hm)
      · exact hheld (.list _) (List.mem_of_getLast? hm)
    | @delayed b i p hf hi _ =>
      have hverdict : Verdict now (.list getGlobalKeys.keyQueueDelay) i := hv _ i ((hb.delay b hf).subset hi)
      exact bounded_incrAttempts hverdict.2.1
    | @requeued b i q hf _ hi _ =>
      have hverdict : Verdict now (.list getGlobalKeys.keyQueueRequeue) i := hv _ i ((hb.requeue b hf).subset hi)
      exact bounded_incrAttempts hverdict.2.1
    | enqueueScheduled ht _ =>
      exact (hin _ (.inr (.schedule ht List.mem_cons_self))).of_same (sameMessage_enqueued ..).content attempts_enqueued
    | rescheduled ht _ =>
      exact (hin _ (.inr (.schedule ht List.mem_cons_self))).of_same
        ((sameMessage_next ..).trans (sameMessage_enqueued ..)).content (attempts_next.trans attempts_enqueued)
    | requested =>
      rcases holds_requestExec hs hm with hold | hzero
      · exact hheld _ hold
      · intro hpos
        rw [hzero]
        exact hpos

/-! ## Runs -/

theorem judged_stock {s : State × ℕ} (h : Reach (system cron lt config).timed (fun s a => judgedInTime s a = true) s) :
    Forall (Verdict s.2) s.1.db ∧ ∀ m, InStock s.1 m → Bounded m := by
  induction h with
  | init => exact ⟨Forall.empty, fun m hm => absurd hm not_inStock_init⟩
  | @step s s' a h hj hs ih =>
    obtain ⟨hv, hin⟩ := ih
    obtain ⟨hstep, hle, hclock⟩ := Machine.timed_step hs
    have hrun : Reach (system cron lt config) (fun _ _ => True) s.1 := reach_timed (h.mono fun _ _ _ => trivial)
    have hb : Batches s.1 := batches_reachable hrun
    refine ⟨?_, fun m hm => ?_⟩
    · rw [hclock]
      exact step_forall hstep (fun slot m hm => (hv slot m hm).mono hle)
        fun _ _ => stepPuts_verdict (hands_reachable hrun) hj
    · rcases hm with ⟨slot, hm⟩ | hm
      · exact bounded_holds hb hv hin hstep hm
      · rcases step_carries hstep hm with hm | hm
        · exact hin m (.inr hm)
        · exact hin m (.inl hm)

/-- **Verdicts stand**: in every run, a dead letter has expired, is periodic or has used up its attempts; a message in the
delay list or in the re-queue list is neither periodic nor has it used up its attempts; and no message anywhere has more
attempts than its threshold allows. -/
theorem judged_reachable {s : State × ℕ}
    (h : Reach (system cron lt config).timed (fun s a => judgedInTime s a = true) s) : Judged s.2 s.1.db :=
  ⟨(judged_stock h).1, fun slot m hm => (judged_stock h).2 m (.inl ⟨slot, hm⟩)⟩

end

/-- A message that fails twice is dead-lettered the second time, another one is delayed. -/
theorem judged_twice : ∃ s, run (system minuteParser (fun _ _ => false) lifoConsumer).timed
    (fun s a => judgedInTime s a = true) (init, 0)
    [(1, .produce ⟨"q", "ns"⟩ false { twice with retryDelay := .none } 1),
      (2, .dequeue "c"), (3, .unacknowledge "c" .timeout 3), (4, .requeueFetch false), (5, .requeueExec),
      (6, .dequeue "c"), (7, .unacknowledge "c" .caughtError 7),
      (8, .produce ⟨"q", "ns"⟩ false (Message.new Message.defaultOpts "n" 8) 8), (9, .dequeue "d"),
      (10, .unacknowledge "d" .recovery 10)] = some s ∧ Judged s.2 s.1.db :=
  exists_run (by decide) fun _ h => judged_reachable h

end RedisSmq.Queue
