import RedisSmq.LifeCycle.Calls

/-!
# Starting and stopping again

In the runs in which no task of a start reports an error, an instance can be started and stopped any number of times
(`restarts_reachable`): the events of its power state go round `powerCycle`; when it is up, every field that a task sets
is set, so nobody misses one; and when it is down, no field is left set, so it starts like a new instance.

- `Fields.of`: the fields that the tasks of a start have set so far;
- `Fields.left`: the fields that the tasks of a stop have to take down;
- `Serves`: how the power state, the tasks that are left, and the fields go together.
-/

namespace RedisSmq.LifeCycle

open Transition

/-- The events of the power state. -/
def Event.isPower : Event → Bool
  | .goingUp | .up | .goingDown | .down => true
  | .runCallback _ | .shutdownCallback | .dequeue | .thrown _ => false

/-- The power states in their order, and the events between them. -/
def powerCycle : Machine PowerManager Event where
  init := .new
  step
    | ⟨.down, none⟩, .goingUp => some ⟨.down, some .up⟩
    | ⟨.down, some .up⟩, .up => some ⟨.up, none⟩
    | ⟨.up, none⟩, .goingDown => some ⟨.up, some .down⟩
    | ⟨.up, some .down⟩, .down => some ⟨.down, none⟩
    | _, _ => none

/-- The fields that are set when these tasks of a start are done. -/
def Fields.of (config : Config) (done : List SetUp) : Fields where
  sharedRedisClient := .sharedRedisClient ∈ done
  broker := .broker ∈ done
  dequeueHandler := false
  messageRate := config.monitorEnabled && .messageRate ∈ done
  consumerRedisClient := .consumerRedisClient ∈ done
  heartbeat := .heartbeat ∈ done
  consumerWorkers := .consumerWorkers ∈ done

/-- The fields that are set when these tasks of a stop are left. -/
def Fields.left (config : Config) (tasks : List TearDown) : Fields where
  sharedRedisClient := .sharedRedisClient ∈ tasks
  broker := .broker ∈ tasks
  dequeueHandler := false
  messageRate := config.monitorEnabled && .messageRate ∈ tasks
  consumerRedisClient := .consumerRedisClient ∈ tasks
  heartbeat := .heartbeat ∈ tasks
  consumerWorkers := .consumerWorkers ∈ tasks

/-- The fields that tasks set; the handler of the broker is set by the first request for a message. -/
def Fields.tasks (f : Fields) : Fields := { f with dequeueHandler := false }

/-- The task waits for a reply. -/
def SetUp.waits : SetUp → Bool
  | .sharedRedisClient | .messageQueue | .consumerRedisClient | .heartbeat | .consumerProcessingQueue => true
  | .broker | .messageRate | .consumerWorkers => false

/-- The power state, the tasks that are left, and the fields. -/
inductive Serves (config : Config) (s : State) : Prop
  | down (work : s.work = .idle) (power : s.powerManager = ⟨.down, none⟩) (fields : s.fields.tasks = .of config [])
  | goingUp (done ts : List SetUp) (waits : Bool) (work : s.work = .up ts waits)
    (tasks : done ++ ts = goingUp config.kind) (waiting : waits = true → ts.head?.all SetUp.waits)
    (power : s.powerManager = ⟨.down, some .up⟩) (fields : s.fields.tasks = .of config done)
  | up (work : s.work = .idle) (power : s.powerManager = ⟨.up, none⟩)
    (fields : s.fields.tasks = .of config (goingUp config.kind))
  | goingDown (done ts : List TearDown) (waits : Bool) (work : s.work = .down ts waits)
    (tasks : done ++ ts = goingDown config.kind) (power : s.powerManager = ⟨.up, some .down⟩)
    (fields : s.fields.tasks = .left config ts)

/-- What `run` and `shutdown` throw at the wrong time. -/
def PowerError (e : String) : Prop :=
  e = "Can not switch state while another state transition is in progress." ∨
    e = "Can not switch to the same current state."

/-- What a list of events says: it follows the power cycle, callbacks come with `UP` and `DOWN`, and only power managers
throw. -/
structure Tidy (p : PowerManager) (events : List Event) : Prop where
  power : powerCycle.follow .new (events.filter Event.isPower) = some p
  thrown : ∀ e, .thrown e ∈ events → PowerError e
  runs : events.count (.runCallback none) = events.count .up
  shutdowns : events.count .shutdownCallback = events.count .down

structure Orderly (config : Config) (s : State) : Prop where
  serves : Serves config s
  handler : s.fields.dequeueHandler = true → s.fields.broker = true
  tidy : Tidy s.powerManager s.events

section

variable {cron : CronParser} {lt : Text → Text → Bool} {config : Config} {now : ℕ} {s s' : State} {a : Action}
variable {c : Call} {e : String} {f f' : Fields} {p p' : PowerManager} {events : List Event}

/-! ## Events -/

theorem Tidy.append {new : List Event} (h : Tidy p events)
    (hpower : powerCycle.follow p (new.filter Event.isPower) = some p') (hthrown : ∀ e, .thrown e ∈ new → PowerError e)
    (hruns : new.count (.runCallback none) = new.count .up)
    (hshutdowns : new.count .shutdownCallback = new.count .down) : Tidy p' (events ++ new) := by
  refine ⟨?_, fun e he => ?_, ?_, ?_⟩
  · rw [List.filter_append, Machine.follow_append, h.power]
    exact hpower
  · rcases List.mem_append.mp he with he | he
    · exact h.thrown e he
    · exact hthrown e he
  · rw [List.count_append, List.count_append, h.runs, hruns]
  · rw [List.count_append, List.count_append, h.shutdowns, hshutdowns]

theorem goingUp_error (h : p.goingUp = .error e) : PowerError e := by
  unfold PowerManager.goingUp PowerManager.switchState at h
  split at h
  · cases h
    exact .inl rfl
  · split at h <;> cases h
    exact .inr rfl

theorem goingDown_error (h : p.goingDown = .error e) : PowerError e := by
  unfold PowerManager.goingDown PowerManager.switchState at h
  split at h
  · cases h
    exact .inl rfl
  · split at h <;> cases h
    exact .inr rfl

/-! ## Calls -/

/-- The instance is the same. -/
structure SameInstance (s s' : State) : Prop where
  powerManager : s'.powerManager = s.powerManager
  work : s'.work = s.work
  fields : s'.fields = s.fields
  events : s'.events = s.events

theorem SameInstance.refl (s : State) : SameInstance s s := ⟨rfl, rfl, rfl, rfl⟩

theorem SameInstance.trans {s'' : State} (h : SameInstance s s') (h' : SameInstance s' s'') : SameInstance s s'' :=
  ⟨h'.powerManager.trans h.powerManager, h'.work.trans h.work, h'.fields.trans h.fields, h'.events.trans h.events⟩

theorem Serves.same (h : Serves config s) (hpower : s'.powerManager = s.powerManager) (hwork : s'.work = s.work)
    (hfields : s'.fields.tasks = s.fields.tasks) : Serves config s' := by
  cases h with
  | down work power fields => exact .down (hwork.trans work) (hpower.trans power) (hfields.trans fields)
  | goingUp done ts waits work tasks waiting power fields =>
    exact .goingUp done ts waits (hwork.trans work) tasks waiting (hpower.trans power) (hfields.trans fields)
  | up work power fields => exact .up (hwork.trans work) (hpower.trans power) (hfields.trans fields)
  | goingDown done ts waits work tasks power fields =>
    exact .goingDown done ts waits (hwork.trans work) tasks (hpower.trans power) (hfields.trans fields)

theorem Orderly.same (h : Orderly config s) (hs : SameInstance s s') : Orderly config s' := by
  refine ⟨h.serves.same hs.powerManager hs.work (congrArg Fields.tasks hs.fields), ?_, ?_⟩
  · rw [hs.fields]
    exact h.handler
  · rw [hs.powerManager, hs.events]
    exact h.tidy

/-- An instance that throws goes on. -/
theorem Orderly.throws (h : Orderly config s) (he : PowerError e) : Orderly config (s.emit (.thrown e)) := by
  refine ⟨h.serves.same rfl rfl rfl, h.handler, h.tidy.append rfl (fun e' he' => ?_) rfl rfl⟩
  cases List.mem_singleton.mp he'
  exact he

theorem same_handOver (cron : CronParser) (config : Config) (now : ℕ) (c : Call) (s : State) :
    ∃ s', s.handOver cron config now c = .ok s' ∧ SameInstance s s' := by
  unfold State.handOver
  rcases produceMessage_cases cron (fun _ _ => false) now config c with ⟨cmds, hcmds, -⟩ | ⟨cmds, hcmds⟩
  · rw [hcmds]
    exact ⟨_, rfl, rfl, rfl, rfl, rfl⟩
  · rw [hcmds]
    exact ⟨_, rfl, rfl, rfl, rfl, rfl⟩

/-- A call goes on, if there is a broker or nobody is told that there is none. -/
theorem same_proceed (h : s.fields.broker = true ∨ handleError s.powerManager "Expected an instance of Broker" = none) :
    ∃ s', s.proceed cron config now c = .ok s' ∧ SameInstance s s' := by
  unfold State.proceed State.getBroker
  split
  · exact same_handOver ..
  · rename_i hb
    rw [h.resolve_left hb]
    exact ⟨s, rfl, .refl s⟩

theorem same_proceedAll : ∀ {cs : List Call} {s : State}, s.fields.broker = true →
    ∃ s', s.proceedAll cron config now cs = (s', none) ∧ SameInstance s s'
  | [], s, _ => ⟨_, rfl, rfl, rfl, rfl, rfl⟩
  | c :: cs, s, h => by
    obtain ⟨s₁, hproceed, hs₁⟩ := @same_proceed cron config now { s with waiting := cs } c (.inl h)
    obtain ⟨s₂, hall, hs₂⟩ := @same_proceedAll cs s₁ (hs₁.fields ▸ h)
    have hcs : SameInstance s { s with waiting := cs } := ⟨rfl, rfl, rfl, rfl⟩
    refine ⟨s₂, ?_, hcs.trans (hs₁.trans hs₂)⟩
    rw [State.proceedAll, hproceed]
    exact hall

/-- The broker is there while the instance is up, and nobody is told when it goes down. -/
theorem Serves.broker (h : Serves config s) (hup : s.powerManager.isUp = true) :
    s.fields.broker = true ∨ handleError s.powerManager "Expected an instance of Broker" = none := by
  cases h with
  | down _ power | goingUp _ _ _ _ _ _ power =>
    rw [power] at hup
    cases hup
  | up _ _ fields =>
    have hb : s.fields.broker = decide (.broker ∈ LifeCycle.goingUp config.kind) := congrArg Fields.broker fields
    left
    rw [hb]
    cases config.kind <;> rfl
  | goingDown _ _ _ _ _ power =>
    right
    rw [power]
    rfl

theorem orderly_produceMessage (h : Orderly config s) (m : Message) :
    Orderly config (s.produceMessage cron config now m) := by
  unfold State.produceMessage
  dsimp only
  split
  · split <;> exact h.same ⟨rfl, rfl, rfl, rfl⟩
  · rename_i hup
    obtain ⟨s', hs', hsame⟩ := @same_proceed cron config now { s with issued := s.issued + 1 } ⟨s.issued, m⟩
      (h.serves.broker (by simpa using hup))
    have hissued : SameInstance s { s with issued := s.issued + 1 } := ⟨rfl, rfl, rfl, rfl⟩
    rw [hs']
    exact h.same (hissued.trans hsame)

/-! ## Going up -/

/-- The last task of a start is done. -/
theorem orderly_endUp (hh : s.fields.dequeueHandler = true → s.fields.broker = true)
    (ht : Tidy s.powerManager s.events) (hpower : s.powerManager = ⟨.down, some .up⟩)
    (hfields : s.fields.tasks = .of config (goingUp config.kind)) (err : Option String) :
    Orderly config (s.endUp cron config now err) := by
  have hbroker : s.fields.broker = true := by
    rw [show s.fields.broker = decide (.broker ∈ goingUp config.kind) from congrArg Fields.broker hfields]
    cases config.kind <;> rfl
  rw [hpower] at ht
  unfold State.endUp
  rw [show s.powerManager.commit = .ok ⟨.up, none⟩ by rw [hpower]; rfl]
  dsimp only
  cases hkind : config.kind with
  | producer =>
    obtain ⟨s', hs', hsame⟩ := @same_proceedAll cron config now s.waiting
      ({ s with powerManager := ⟨.up, none⟩, work := .idle }.emit .up) hbroker
    have hup : ({ s with powerManager := ⟨.up, none⟩, work := .idle } : State).emitUp cron config now = (s', none) := by
      rw [State.emitUp, hkind]
      exact hs'
    rw [hup]
    have hevents : s'.events = s.events ++ [.up] := hsame.events
    refine ⟨.up hsame.work hsame.powerManager ?_, ?_, ?_⟩
    · exact (congrArg Fields.tasks hsame.fields).trans hfields
    · show s'.fields.dequeueHandler = true → s'.fields.broker = true
      rw [hsame.fields]
      exact hh
    · show Tidy s'.powerManager (s'.events ++ [.runCallback none])
      rw [hsame.powerManager, hevents, List.append_assoc]
      exact ht.append rfl (by simp) rfl rfl
  | consumer =>
    have hclient : s.fields.consumerRedisClient = true := by
      rw [show s.fields.consumerRedisClient = decide (.consumerRedisClient ∈ goingUp config.kind) from
        congrArg Fields.consumerRedisClient hfields, hkind]
      rfl
    have hup : ({ s with powerManager := ⟨.up, none⟩, work := .idle } : State).emitUp cron config now =
        ({ s with
          powerManager := ⟨.up, none⟩
          work := .idle
          fields := { s.fields with dequeueHandler := true }
          events := s.events ++ [.up] ++ [.dequeue] }, none) := by
      simp [State.emitUp, hkind, State.messageNext, State.emit, PowerManager.isRunning, PowerManager.isUp, hclient,
        State.getBroker, hbroker]
    rw [hup]
    refine ⟨.up rfl rfl hfields, fun _ => hbroker, ?_⟩
    show Tidy _ (s.events ++ [.up] ++ [.dequeue] ++ [.runCallback none])
    rw [List.append_assoc, List.append_assoc]
    exact ht.append rfl (by simp) rfl rfl

/-- Every start begins with the shared client. -/
theorem shared_mem {done ts : List SetUp} {t : SetUp} (h : done ++ t :: ts = goingUp config.kind)
    (ht : t ≠ .sharedRedisClient) : .sharedRedisClient ∈ done := by
  have hhead : (done ++ t :: ts).head? = some .sharedRedisClient := by
    rw [h]
    cases config.kind <;> rfl
  cases done with
  | nil => exact absurd (Option.some.inj hhead) ht
  | cons t' done => exact List.mem_cons.mpr (.inl (Option.some.inj hhead).symm)

theorem tasks_eq_of {done : List SetUp} : f.tasks = .of config done ↔
    f.sharedRedisClient = decide (.sharedRedisClient ∈ done) ∧ f.broker = decide (.broker ∈ done) ∧
      f.messageRate = (config.monitorEnabled && decide (.messageRate ∈ done)) ∧
      f.consumerRedisClient = decide (.consumerRedisClient ∈ done) ∧ f.heartbeat = decide (.heartbeat ∈ done) ∧
      f.consumerWorkers = decide (.consumerWorkers ∈ done) := by
  simp [Fields.tasks, Fields.of]

/-- The first task that is left waits for a reply, or sets its field. -/
theorem begin_setUp {done ts : List SetUp} {t : SetUp} (p : PowerManager) (h : done ++ t :: ts = goingUp config.kind)
    (hf : f.tasks = .of config done) :
    (t.begin config p f = .waits ∧ t.waits = true) ∨
      ∃ f', t.begin config p f = .ends f' ∧ f'.tasks = .of config (done ++ [t]) ∧
        ((f.dequeueHandler = true → f.broker = true) → f'.dequeueHandler = true → f'.broker = true) := by
  have hshared : t ≠ .sharedRedisClient → f.sharedRedisClient = true := fun ht => by
    rw [(tasks_eq_of.mp hf).1, decide_eq_true (shared_mem h ht)]
  cases t with
  | sharedRedisClient | consumerRedisClient | heartbeat => exact .inl ⟨rfl, rfl⟩
  | messageQueue =>
    refine .inl ⟨?_, rfl⟩
    rw [SetUp.begin, SetUp.withClient, if_pos (hshared (by simp))]
  | consumerProcessingQueue =>
    refine .inl ⟨?_, rfl⟩
    rw [SetUp.begin, SetUp.getSharedRedisClient, if_pos (hshared (by simp))]
  | broker =>
    refine .inr ⟨{ f with broker := true, dequeueHandler := false }, ?_, ?_, fun _ h => by cases h⟩
    · rw [SetUp.begin, SetUp.withClient, if_pos (hshared (by simp))]
    · rw [tasks_eq_of] at hf ⊢
      simp [hf]
  | messageRate =>
    cases hmonitor : config.monitorEnabled with
    | true =>
      refine .inr ⟨{ f with messageRate := true }, ?_, ?_, id⟩
      · rw [SetUp.begin, if_pos hmonitor, SetUp.withClient, if_pos (hshared (by simp))]
      · rw [tasks_eq_of] at hf ⊢
        simp [hf, hmonitor]
    | false =>
      refine .inr ⟨f, ?_, ?_, id⟩
      · rw [SetUp.begin, if_neg (by simp [hmonitor])]
      · rw [tasks_eq_of] at hf ⊢
        simp [hf, hmonitor]
  | consumerWorkers =>
    refine .inr ⟨{ f with consumerWorkers := true }, ?_, ?_, id⟩
    · rw [SetUp.begin, SetUp.getSharedRedisClient, if_pos (hshared (by simp))]
    · rw [tasks_eq_of] at hf ⊢
      simp [hf]

/-- A reply without an error sets the field of the task that waited. -/
theorem reply_setUp {done : List SetUp} {t : SetUp} {r : Except String Bool} (hf : f.tasks = .of config done)
    (hw : t.waits = true) (hr : t.reply f r = .ok f') : f'.tasks = .of config (done ++ [t]) ∧
      f'.dequeueHandler = f.dequeueHandler ∧ f'.broker = f.broker := by
  have hnew : ∀ {f₁ : Fields}, SetUp.newInstance f₁ r = .ok f' → f' = f₁ := by
    intro f₁ h
    unfold SetUp.newInstance at h
    split at h <;> cases h
    rfl
  cases t with
  | broker | messageRate | consumerWorkers => cases hw
  | sharedRedisClient | consumerRedisClient | heartbeat =>
    rw [hnew hr]
    refine ⟨?_, rfl, rfl⟩
    rw [tasks_eq_of] at hf ⊢
    simp [hf]
  | messageQueue | consumerProcessingQueue =>
    cases r with
    | error => cases hr
    | ok =>
      cases hr
      refine ⟨?_, rfl, rfl⟩
      rw [tasks_eq_of] at hf ⊢
      simp [hf]

/-! ## Going down -/

theorem tasks_eq_left {ts : List TearDown} : f.tasks = .left config ts ↔
    f.sharedRedisClient = decide (.sharedRedisClient ∈ ts) ∧ f.broker = decide (.broker ∈ ts) ∧
      f.messageRate = (config.monitorEnabled && decide (.messageRate ∈ ts)) ∧
      f.consumerRedisClient = decide (.consumerRedisClient ∈ ts) ∧ f.heartbeat = decide (.heartbeat ∈ ts) ∧
      f.consumerWorkers = decide (.consumerWorkers ∈ ts) := by
  simp [Fields.tasks, Fields.left]

/-- A stop has to take down what a start has set. -/
theorem of_goingUp (config : Config) :
    Fields.of config (goingUp config.kind) = .left config (goingDown config.kind) := by
  cases hkind : config.kind <;> cases hmonitor : config.monitorEnabled <;>
    simp [Fields.of, Fields.left, goingUp, goingDown, Base.goingUp, Base.goingDown, hmonitor]

theorem notMem_left {done ts : List TearDown} {t : TearDown} (h : done ++ t :: ts = goingDown config.kind) :
    t ∉ ts := by
  have hnodup : (done ++ t :: ts).Nodup := by
    rw [h]
    cases config.kind <;> decide
  exact (List.nodup_cons.mp (List.nodup_append.mp hnodup).2.1).1

/-- The first task that is left clears its field, at once or when it has a reply. -/
theorem reply_tearDown {ts : List TearDown} {t : TearDown} (hf : f.tasks = .left config (t :: ts)) (ht : t ∉ ts) :
    (t.reply f).tasks = .left config ts := by
  rw [tasks_eq_left] at hf ⊢
  cases t <;> simp [TearDown.reply, hf, ht]

theorem begin_tearDown {ts : List TearDown} {t : TearDown} (hf : f.tasks = .left config (t :: ts)) :
    t.begin f = .waits ∨ t.begin f = .ends (t.reply f) := by
  rw [tasks_eq_left] at hf
  cases t with
  | consumerWorkers | heartbeat | consumerRedisClient | sharedRedisClient => exact .inl (if_pos (by simp [hf]))
  | messageRate => exact .inr rfl
  | broker =>
    cases hhandler : f.dequeueHandler with
    | true => exact .inl (if_pos (by simp [hf, hhandler]))
    | false =>
      right
      rw [TearDown.begin, if_neg (by simp [hhandler]), TearDown.reply, ← hhandler]

/-! ## Steps -/

theorem orderly_nextUp {done ts : List SetUp} {t : SetUp} (htidy : Tidy s.powerManager s.events)
    (h : done ++ t :: ts = goingUp config.kind) (hpower : s.powerManager = ⟨.down, some .up⟩)
    (hf : s.fields.tasks = .of config (done ++ [t])) (hh : s.fields.dequeueHandler = true → s.fields.broker = true) :
    Orderly config (s.nextUp cron config now ts) := by
  have h' : (done ++ [t]) ++ ts = goingUp config.kind := by
    rw [List.append_assoc]
    exact h
  cases ts with
  | nil =>
    rw [List.append_nil] at h'
    exact orderly_endUp hh htidy hpower (h' ▸ hf) none
  | cons t' ts => exact ⟨.goingUp _ _ false rfl h' (fun hw => by cases hw) hpower hf, hh, htidy⟩

theorem orderly_nextDown {done ts : List TearDown} {t : TearDown} (htidy : Tidy s.powerManager s.events)
    (h : done ++ t :: ts = goingDown config.kind) (hpower : s.powerManager = ⟨.up, some .down⟩)
    (hf : s.fields.tasks = .left config ts) (hh : s.fields.dequeueHandler = true → s.fields.broker = true) :
    Orderly config (s.nextDown ts) := by
  have h' : (done ++ [t]) ++ ts = goingDown config.kind := by
    rw [List.append_assoc]
    exact h
  cases ts with
  | nil =>
    rw [State.nextDown, State.endDown, hpower]
    refine ⟨.down rfl rfl ?_, hh, ?_⟩
    · show s.fields.tasks = _
      rw [hf, Fields.left, Fields.of]
      simp
    · show Tidy _ (s.events ++ [.down] ++ [.shutdownCallback])
      rw [hpower] at htidy
      rw [List.append_assoc]
      exact htidy.append rfl (by simp) rfl rfl
  | cons t' ts => exact ⟨.goingDown _ _ false rfl h' hpower hf, hh, htidy⟩

theorem handler_reply {t : TearDown} (hh : f.dequeueHandler = true → f.broker = true) :
    (t.reply f).dequeueHandler = true → (t.reply f).broker = true := by
  cases t with
  | broker => exact fun h => by cases h
  | _ => exact hh

theorem orderly_run (h : Orderly config s) : Orderly config (s.run config) := by
  unfold State.run
  split
  · rename_i e he
    exact h.throws (goingUp_error he)
  · rename_i p hp
    obtain ⟨hdown, rfl⟩ := goingUp_ok hp
    have htidy := h.tidy
    cases h.serves with
    | down _ _ fields =>
      refine ⟨.goingUp [] _ false rfl rfl (fun hw => by cases hw) rfl fields, h.handler, ?_⟩
      rw [hdown] at htidy
      exact htidy.append rfl (by simp) rfl rfl
    | goingUp _ _ _ _ _ _ power | up _ power | goingDown _ _ _ _ _ power =>
      rw [power] at hdown
      cases hdown

theorem orderly_shutdown (h : Orderly config s) : Orderly config (s.shutdown config) := by
  unfold State.shutdown
  split
  · rename_i e he
    exact h.throws (goingDown_error he)
  · rename_i p hp
    obtain ⟨hup, rfl⟩ := goingDown_ok hp
    have htidy := h.tidy
    cases h.serves with
    | up _ _ fields =>
      refine ⟨.goingDown [] _ false rfl rfl rfl (fields.trans (of_goingUp config)), h.handler, ?_⟩
      rw [hup] at htidy
      exact htidy.append rfl (by simp) rfl rfl
    | down _ power | goingUp _ _ _ _ _ _ power | goingDown _ _ _ _ _ power =>
      rw [power] at hup
      cases hup

/-- The first task that is left begins. -/
theorem orderly_begin (h : Orderly config s) (hs : s.begin cron config now = some s') : Orderly config s' := by
  cases h.serves with
  | down work | up work =>
    rw [State.begin, work] at hs
    cases hs
  | goingUp done ts waits work tasks waiting power fields =>
    cases ts with
    | nil =>
      rw [State.begin, work] at hs
      cases hs
    | cons t ts =>
      cases waits with
      | true =>
        rw [State.begin, work] at hs
        cases hs
      | false =>
        simp only [State.begin, work] at hs
        rcases begin_setUp s.powerManager tasks fields with ⟨hb, hw⟩ | ⟨f, hb, hf, hh⟩
        · rw [hb] at hs
          cases hs
          exact ⟨.goingUp done _ true rfl tasks (fun _ => hw) power fields, h.handler, h.tidy⟩
        · rw [hb] at hs
          cases hs
          exact orderly_nextUp (s := { s with fields := f }) h.tidy tasks power hf (hh h.handler)
  | goingDown done ts waits work tasks power fields =>
    cases ts with
    | nil =>
      rw [State.begin, work] at hs
      cases hs
    | cons t ts =>
      cases waits with
      | true =>
        rw [State.begin, work] at hs
        cases hs
      | false =>
        simp only [State.begin, work] at hs
        rcases begin_tearDown fields with hb | hb
        · rw [hb] at hs
          cases hs
          exact ⟨.goingDown done _ true rfl tasks power fields, h.handler, h.tidy⟩
        · rw [hb] at hs
          cases hs
          exact orderly_nextDown (s := { s with fields := t.reply s.fields }) h.tidy tasks power
            (reply_tearDown fields (notMem_left tasks)) (handler_reply h.handler)

/-- It has a reply. -/
theorem orderly_reply {r : Except String Bool} (h : Orderly config s) (hr : reported config s (.reply r now) = none)
    (hs : s.reply cron config now r = some s') : Orderly config s' := by
  cases h.serves with
  | down work | up work =>
    rw [State.reply, work] at hs
    cases hs
  | goingUp done ts waits work tasks waiting power fields =>
    cases ts with
    | nil =>
      rw [State.reply, work] at hs
      cases hs
    | cons t ts =>
      cases waits with
      | false =>
        rw [State.reply, work] at hs
        cases hs
      | true =>
        simp only [State.reply, work] at hs
        simp only [reported, work] at hr
        cases hf : t.reply s.fields r with
        | error e =>
          rw [hf] at hr
          cases hr
        | ok f =>
          rw [hf] at hs
          cases hs
          obtain ⟨hfields, hhandler, hbroker⟩ := reply_setUp fields (waiting rfl) hf
          refine orderly_nextUp (s := { s with fields := f }) h.tidy tasks power hfields ?_
          show f.dequeueHandler = true → f.broker = true
          rw [hhandler, hbroker]
          exact h.handler
  | goingDown done ts waits work tasks power fields =>
    cases ts with
    | nil =>
      rw [State.reply, work] at hs
      cases hs
    | cons t ts =>
      cases waits with
      | false =>
        rw [State.reply, work] at hs
        cases hs
      | true =>
        simp only [State.reply, work] at hs
        cases hs
        exact orderly_nextDown (s := { s with fields := t.reply s.fields }) h.tidy tasks power
          (reply_tearDown fields (notMem_left tasks)) (handler_reply h.handler)

/-- **Every step** in which no task of a start reports an error. -/
theorem orderly_step (h : Orderly config s) (hr : reported config s a = none) (hs : step cron lt config s a = some s') :
    Orderly config s' := by
  cases a with
  | run =>
    cases hs
    exact orderly_run h
  | shutdown =>
    cases hs
    exact orderly_shutdown h
  | begin now => exact orderly_begin h hs
  | reply r now => exact orderly_reply h hr hs
  | produce m now =>
    simp only [step] at hs
    split at hs <;> cases hs
    exact orderly_produceMessage h m
  | execute i =>
    simp only [step, State.execute] at hs
    split at hs <;> cases hs
    exact h.same ⟨rfl, rfl, rfl, rfl⟩
  | answer i err =>
    simp only [step, State.answer] at hs
    split at hs
    · cases hs
      exact h.same ⟨rfl, rfl, rfl, rfl⟩
    · split at hs <;> cases hs
      exact h.same ⟨rfl, rfl, rfl, rfl⟩
    · cases hs
  | other db =>
    cases hs
    exact h.same ⟨rfl, rfl, rfl, rfl⟩

/-- A new instance has no fields. -/
theorem fields_new (config : Config) : State.new.fields = .of config [] := by
  simp [State.new, Fields.of]

theorem orderly_new : Orderly config State.new where
  serves := .down rfl rfl (fields_new config)
  handler := fun h => by cases h
  tidy := ⟨rfl, fun e he => absurd he List.not_mem_nil, rfl, rfl⟩

theorem orderly_reachable (h : Reach (system cron lt config) (fun s a => reported config s a = none) s) :
    Orderly config s := by
  refine h.invariant ?_ fun _ _ _ hi hr hs => orderly_step hi hr hs
  unfold system
  dsimp only
  split
  · exact orderly_run orderly_new
  · exact orderly_new

/-- **Starting and stopping again**: in every run in which no task of a start reports an error, the power state goes
round its cycle, an instance that is down has the fields of a new one, an instance that is up has every field, the
callbacks of `run` and `shutdown` come with `UP` and `DOWN`, and nothing is thrown but for calls of them at the wrong
time. -/
theorem restarts_reachable (h : Reach (system cron lt config) (fun s a => reported config s a = none) s) :
    Tidy s.powerManager s.events ∧
      (s.powerManager = ⟨.down, none⟩ → s.work = .idle ∧ s.fields = State.new.fields) ∧
      (s.powerManager = ⟨.up, none⟩ → s.work = .idle ∧ s.fields.tasks = .of config (goingUp config.kind)) := by
  obtain ⟨hserves, hhandler, htidy⟩ := orderly_reachable h
  refine ⟨htidy, fun hdown => ?_, fun hup => ?_⟩
  · cases hserves with
    | down work power fields =>
      have hnone : s.fields.dequeueHandler = false := by
        by_contra hh
        have hbroker := hhandler (by simpa using hh)
        rw [(tasks_eq_of.mp fields).2.1] at hbroker
        cases hbroker
      refine ⟨work, ?_⟩
      rw [fields_new config, ← fields, Fields.tasks, ← hnone]
    | goingUp _ _ _ _ _ _ power | up _ power | goingDown _ _ _ _ _ power =>
      rw [power] at hdown
      cases hdown
  · cases hserves with
    | up work power fields => exact ⟨work, fields⟩
    | down _ power | goingUp _ _ _ _ _ _ power | goingDown _ _ _ _ _ power =>
      rw [power] at hup
      cases hup

end

/-- A consumer is started, asked to start again, stopped, and started again up to its third task. -/
def restartedRun : Option State :=
  run (system minuteParser (fun _ _ => false) (exampleConfig .consumer))
    (fun s a => reported (exampleConfig .consumer) s a = none) State.new
    (exampleStart ++ [.reply (.ok true) 0, .run, .shutdown, .begin 0, .reply (.ok true) 0, .begin 0,
      .reply (.ok true) 0, .begin 0, .reply (.ok true) 0, .begin 0, .reply (.ok true) 0, .begin 0, .begin 0,
      .reply (.ok true) 0, .run, .begin 0, .reply (.ok true) 0])

theorem restarts_restartedRun : ∃ s, restartedRun = some s ∧
    s.events = [.goingUp, .up, .dequeue, .runCallback none,
      .thrown "Can not switch to the same current state.", .goingDown, .down, .shutdownCallback, .goingUp] ∧
    Tidy s.powerManager s.events := by
  have hrun : ∃ s, restartedRun = some s ∧ s.events = [.goingUp, .up, .dequeue, .runCallback none,
      .thrown "Can not switch to the same current state.", .goingDown, .down, .shutdownCallback, .goingUp] :=
    ⟨_, rfl, rfl⟩
  obtain ⟨s, hs, hevents⟩ := hrun
  exact ⟨s, hs, hevents, (restarts_reachable (reach_of_run _ hs)).1⟩

end RedisSmq.LifeCycle
