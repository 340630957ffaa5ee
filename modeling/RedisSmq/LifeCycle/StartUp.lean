import RedisSmq.LifeCycle.System

/-!
# A start that fails

The end of the waterfall of `run` does not look at the error. So whichever task reports one, the instance commits its
power state to `UP`, emits `UP`, and the error is dropped (`failedStart_up`).

- `Frame`: what the calls and the listeners of `UP` leave as it is;
- `going_reachable`: while the tasks of a waterfall are left, its transition is pending.
-/

namespace RedisSmq.LifeCycle

open Transition

variable {cron : CronParser} {lt : Text → Text → Bool} {config : Config} {now : ℕ} {s s' : State} {a : Action}
variable {c : Call} {e : String}

/-! ## Frames -/

/-- The power state, the tasks that are left and the broker are the same. -/
structure Frame (s s' : State) : Prop where
  powerManager : s'.powerManager = s.powerManager
  work : s'.work = s.work
  broker : s'.fields.broker = s.fields.broker

theorem Frame.refl (s : State) : Frame s s := ⟨rfl, rfl, rfl⟩

theorem Frame.trans {s'' : State} (h : Frame s s') (h' : Frame s' s'') : Frame s s'' :=
  ⟨h'.powerManager.trans h.powerManager, h'.work.trans h.work, h'.broker.trans h.broker⟩

/-- A call that goes on is handed over, or nothing happens. -/
theorem proceed_cases (h : s.proceed cron config now c = .ok s') :
    (s.fields.broker = true ∧ s.handOver cron config now c = .ok s') ∨ (s.fields.broker = false ∧ s' = s) := by
  unfold State.proceed State.getBroker at h
  split at h
  · rename_i hb
    exact .inl ⟨hb, h⟩
  · rename_i hb
    split at h <;> cases h
    exact .inr ⟨by simpa using hb, rfl⟩

theorem frame_handOver (h : s.handOver cron config now c = .ok s') : Frame s s' ∧ s'.events = s.events := by
  unfold State.handOver at h
  split at h <;> cases h <;> exact ⟨⟨rfl, rfl, rfl⟩, rfl⟩

theorem frame_proceed (h : s.proceed cron config now c = .ok s') : Frame s s' ∧ s'.events = s.events := by
  rcases proceed_cases h with ⟨-, h⟩ | ⟨-, rfl⟩
  · exact frame_handOver h
  · exact ⟨.refl _, rfl⟩

theorem frame_proceedAll (cron : CronParser) (config : Config) (now : ℕ) (s : State) (cs : List Call) :
    Frame s (s.proceedAll cron config now cs).1 ∧ (s.proceedAll cron config now cs).1.events = s.events := by
  induction cs generalizing s with
  | nil => exact ⟨⟨rfl, rfl, rfl⟩, rfl⟩
  | cons c cs ih =>
    rw [State.proceedAll]
    split
    · exact ⟨⟨rfl, rfl, rfl⟩, rfl⟩
    · rename_i s₁ h
      obtain ⟨hf, he⟩ := frame_proceed h
      have hf' : Frame s s₁ := ⟨hf.powerManager, hf.work, hf.broker⟩
      exact ⟨hf'.trans (ih s₁).1, (ih s₁).2.trans he⟩

/-- `MESSAGE_NEXT` only asks the broker for a message. -/
theorem frame_messageNext (s : State) : Frame s s.messageNext.1 ∧
    (s.messageNext.1.events = s.events ∨ s.messageNext.1.events = s.events ++ [.dequeue]) := by
  unfold State.messageNext State.getBroker
  split
  · split
    · split
      · exact ⟨.refl _, .inl rfl⟩
      · rename_i s' h
        split at h
        · cases h
          exact ⟨⟨rfl, rfl, rfl⟩, .inr rfl⟩
        · split at h <;> cases h
          exact ⟨.refl _, .inl rfl⟩
    · exact ⟨.refl _, .inl rfl⟩
  · exact ⟨.refl _, .inl rfl⟩

/-- The listeners of `UP`. -/
theorem frame_emitUp (cron : CronParser) (config : Config) (now : ℕ) (s : State) :
    Frame s (s.emitUp cron config now).1 ∧
    ∃ new, (s.emitUp cron config now).1.events = s.events ++ .up :: new ∧ ∀ e ∈ new, e = .dequeue := by
  unfold State.emitUp
  split
  · obtain ⟨hf, he⟩ := frame_proceedAll cron config now (s.emit .up) s.waiting
    exact ⟨⟨hf.powerManager, hf.work, hf.broker⟩, [], he, fun e h => absurd h List.not_mem_nil⟩
  · obtain ⟨hf, he⟩ := frame_messageNext (s.emit .up)
    refine ⟨⟨hf.powerManager, hf.work, hf.broker⟩, ?_⟩
    rcases he with he | he
    · exact ⟨[], he, fun e h => absurd h List.not_mem_nil⟩
    · refine ⟨[.dequeue], ?_, fun e h => List.mem_singleton.mp h⟩
      rw [he]
      simp [State.emit]

/-- **The end of a start**, with an error or without one: the instance is up, and `UP` was emitted; no error is passed to
the callback. -/
theorem endUp_cases (cron : CronParser) (config : Config) (now : ℕ) (h : s.powerManager = ⟨.down, some .up⟩)
    (err : Option String) :
    (s.endUp cron config now err).powerManager = ⟨.up, none⟩ ∧ (s.endUp cron config now err).work = .idle ∧
      (s.endUp cron config now err).fields.broker = s.fields.broker ∧
      ∃ new, (s.endUp cron config now err).events = s.events ++ .up :: new ∧ ∀ e, .runCallback (some e) ∉ new := by
  have hcommit : s.powerManager.commit = .ok ⟨.up, none⟩ := by
    rw [h]
    rfl
  unfold State.endUp
  rw [hcommit]
  dsimp only
  obtain ⟨hf, new, hevents, hnew⟩ := frame_emitUp cron config now
    { s with powerManager := ⟨.up, none⟩, work := .idle }
  generalize ({ s with powerManager := ⟨.up, none⟩, work := .idle } : State).emitUp cron config now = r at *
  obtain ⟨s', thrown⟩ := r
  have hs' : s'.events = s.events ++ .up :: new := hevents
  cases thrown with
  | none =>
    refine ⟨hf.powerManager, hf.work, hf.broker, new ++ [.runCallback none], ?_, fun e he => ?_⟩
    · simp [State.emit, hs']
    · rcases List.mem_append.mp he with he | he
      · cases hnew _ he
      · cases List.mem_singleton.mp he
  | some e' =>
    refine ⟨hf.powerManager, hf.work, hf.broker, new ++ [.thrown e'], ?_, fun e he => ?_⟩
    · simp [State.emit, hs']
    · rcases List.mem_append.mp he with he | he
      · cases hnew _ he
      · cases List.mem_singleton.mp he

/-! ## Transitions -/

/-- While tasks are left, the transition is pending. -/
structure Going (s : State) : Prop where
  up : ∀ ts w, s.work = .up ts w → s.powerManager = ⟨.down, some .up⟩
  down : ∀ ts w, s.work = .down ts w → s.powerManager = ⟨.up, some .down⟩

theorem Going.of_idle (h : s.work = .idle) : Going s := by
  constructor <;> intro ts w hw <;> rw [h] at hw <;> cases hw

theorem Going.of_up {ts : List SetUp} {w : Bool} (hw : s.work = .up ts w) (h : s.powerManager = ⟨.down, some .up⟩) :
    Going s :=
  ⟨fun _ _ _ => h, fun _ _ hw' => (nomatch hw.symm.trans hw')⟩

theorem Going.of_down {ts : List TearDown} {w : Bool} (hw : s.work = .down ts w)
    (h : s.powerManager = ⟨.up, some .down⟩) : Going s :=
  ⟨fun _ _ hw' => (nomatch hw.symm.trans hw'), fun _ _ _ => h⟩

theorem Going.frame (h : Going s) (hf : Frame s s') : Going s' :=
  ⟨fun ts w hw => hf.powerManager.trans (h.up ts w (hf.work ▸ hw)),
    fun ts w hw => hf.powerManager.trans (h.down ts w (hf.work ▸ hw))⟩

theorem goingUp_ok {p p' : PowerManager} (h : p.goingUp = .ok p') : p = ⟨.down, none⟩ ∧ p' = ⟨.down, some .up⟩ := by
  obtain ⟨state, pending⟩ := p
  unfold PowerManager.goingUp PowerManager.switchState at h
  cases state <;> cases pending <;> cases h
  exact ⟨rfl, rfl⟩

theorem goingDown_ok {p p' : PowerManager} (h : p.goingDown = .ok p') :
    p = ⟨.up, none⟩ ∧ p' = ⟨.up, some .down⟩ := by
  obtain ⟨state, pending⟩ := p
  unfold PowerManager.goingDown PowerManager.switchState at h
  cases state <;> cases pending <;> cases h
  exact ⟨rfl, rfl⟩

theorem going_run (h : Going s) : Going (s.run config) := by
  unfold State.run
  split
  · exact h.frame ⟨rfl, rfl, rfl⟩
  · rename_i p hp
    obtain ⟨-, rfl⟩ := goingUp_ok hp
    exact .of_up rfl rfl

theorem going_shutdown (h : Going s) : Going (s.shutdown config) := by
  unfold State.shutdown
  split
  · exact h.frame ⟨rfl, rfl, rfl⟩
  · rename_i p hp
    obtain ⟨-, rfl⟩ := goingDown_ok hp
    exact .of_down rfl rfl

theorem going_nextUp (h : s.powerManager = ⟨.down, some .up⟩) (ts : List SetUp) :
    Going (s.nextUp cron config now ts) := by
  cases ts with
  | nil => exact .of_idle (endUp_cases _ _ _ h none).2.1
  | cons t ts => exact .of_up rfl h

theorem going_nextDown (h : s.powerManager = ⟨.up, some .down⟩) (ts : List TearDown) : Going (s.nextDown ts) := by
  cases ts with
  | nil =>
    refine .of_idle ?_
    rw [State.nextDown, State.endDown, h]
    rfl
  | cons t ts => exact .of_down rfl h

theorem going_produceMessage (h : Going s) (m : Message) : Going (s.produceMessage cron config now m) := by
  unfold State.produceMessage
  dsimp only
  split
  · split <;> exact h.frame ⟨rfl, rfl, rfl⟩
  · split
    · exact h.frame ⟨rfl, rfl, rfl⟩
    · rename_i s' hs'
      have hf : Frame s { s with issued := s.issued + 1 } := ⟨rfl, rfl, rfl⟩
      exact h.frame (hf.trans (frame_proceed hs').1)

theorem going_step (h : Going s) (hs : step cron lt config s a = some s') : Going s' := by
  cases a with
  | run =>
    cases hs
    exact going_run h
  | shutdown =>
    cases hs
    exact going_shutdown h
  | begin now =>
    simp only [step, State.begin] at hs
    split at hs
    · rename_i t ts hw
      have hp := h.up _ _ hw
      split at hs <;> cases hs
      · exact .of_up rfl hp
      · refine going_nextUp ?_ ts
        exact hp
      · exact .of_idle (endUp_cases _ _ _ hp _).2.1
      · exact .of_idle rfl
      · exact .of_idle rfl
    · rename_i t ts hw
      have hp := h.down _ _ hw
      split at hs <;> cases hs
      · exact .of_down rfl hp
      · refine going_nextDown ?_ ts
        exact hp
    · cases hs
  | reply r now =>
    simp only [step, State.reply] at hs
    split at hs
    · rename_i t ts hw
      have hp := h.up _ _ hw
      split at hs <;> cases hs
      · exact .of_idle (endUp_cases _ _ _ hp _).2.1
      · refine going_nextUp ?_ ts
        exact hp
    · rename_i t ts hw
      cases hs
      refine going_nextDown ?_ ts
      exact h.down _ _ hw
    · cases hs
  | produce m now =>
    simp only [step] at hs
    split at hs <;> cases hs
    exact going_produceMessage h m
  | execute i =>
    simp only [step, State.execute] at hs
    split at hs <;> cases hs
    exact h.frame ⟨rfl, rfl, rfl⟩
  | answer i err =>
    simp only [step, State.answer] at hs
    split at hs
    · cases hs
      exact h.frame ⟨rfl, rfl, rfl⟩
    · split at hs <;> cases hs
      exact h.frame ⟨rfl, rfl, rfl⟩
    · cases hs
  | other db =>
    cases hs
    exact h.frame ⟨rfl, rfl, rfl⟩

theorem going_init (cron : CronParser) (lt : Text → Text → Bool) (config : Config) :
    Going (system cron lt config).init := by
  unfold system
  dsimp only
  split
  · exact going_run (.of_idle rfl)
  · exact .of_idle rfl

theorem going_reachable {P : State → Action → Prop} (h : Reach (system cron lt config) P s) : Going s :=
  h.invariant (going_init cron lt config) fun _ _ _ hi _ hs => going_step hi hs

/-! ## Starts that fail -/

/-- What is expected of the step in which a task of the start-up reports an error. -/
structure Rejected (s s' : State) (e : String) : Prop where
  notUp : s'.powerManager.isUp = false
  notEmitted : .up ∉ s'.events.drop s.events.length
  passed : .runCallback (some e) ∈ s'.events.drop s.events.length

/-- An error that is reported ends the start. -/
theorem reported_step (hr : reported config s a = some e) (hs : step cron lt config s a = some s') :
    (∃ ts w, s.work = .up ts w) ∧ ∃ now, s' = s.endUp cron config now (some e) := by
  cases a with
  | begin now =>
    simp only [reported] at hr
    split at hr
    · rename_i t ts hw
      split at hr
      · rename_i e' hb
        cases hr
        simp only [step, State.begin, hw, hb] at hs
        exact ⟨⟨_, _, hw⟩, now, (Option.some.inj hs).symm⟩
      · cases hr
    · cases hr
  | reply r now =>
    simp only [reported] at hr
    split at hr
    · rename_i t ts hw
      split at hr
      · rename_i e' hb
        cases hr
        simp only [step, State.reply, hw, hb] at hs
        exact ⟨⟨_, _, hw⟩, now, (Option.some.inj hs).symm⟩
      · cases hr
    · cases hr
  | _ => cases hr

/-- **A start that fails looks like one that succeeds**, whichever task reports an error: the instance is up, `UP` was
emitted, and the error is not passed on. -/
theorem failedStart_up (h : Reach (system cron lt config) (fun _ _ => True) s) (hr : reported config s a = some e)
    (hs : step cron lt config s a = some s') : ¬Rejected s s' e ∧ s'.powerManager = ⟨.up, none⟩ ∧
      .up ∈ s'.events.drop s.events.length ∧ ∀ e', .runCallback (some e') ∉ s'.events.drop s.events.length := by
  obtain ⟨⟨ts, w, hw⟩, now, rfl⟩ := reported_step hr hs
  obtain ⟨hp, -, -, new, hevents, hnew⟩ :=
    endUp_cases cron config now ((going_reachable h).up ts w hw) (some e)
  rw [hevents, List.drop_left]
  refine ⟨fun hrejected => ?_, hp, List.mem_cons_self, fun e' he' => ?_⟩
  · have hup := hrejected.notUp
    rw [hp] at hup
    cases hup
  · rcases List.mem_cons.mp he' with he' | he'
    · cases he'
    · exact hnew e' he'

/-- A producer, and a consumer of the same queue. -/
def exampleConfig (kind : InstanceKind) : Config := ⟨kind, "c0", "ns", "q", false, true⟩

/-- A start up to the reply of the last task of a consumer. -/
def exampleStart : List Action :=
  [.run, .begin 0, .reply (.ok true) 0, .begin 0, .reply (.ok true) 0, .begin 0, .begin 0, .begin 0, .reply (.ok true) 0,
    .begin 0, .reply (.ok true) 0, .begin 0, .begin 0]

/-- The last task of a consumer fails. -/
theorem failedStart_processingQueue : ∃ s s',
    run (system minuteParser (fun _ _ => false) (exampleConfig .consumer)) (fun _ _ => True) State.new exampleStart =
      some s ∧
    reported (exampleConfig .consumer) s (.reply (.error "ERR") 0) = some "ERR" ∧
    step minuteParser (fun _ _ => false) (exampleConfig .consumer) s (.reply (.error "ERR") 0) = some s' ∧
    (¬Rejected s s' "ERR" ∧ s'.powerManager = ⟨.up, none⟩ ∧ .up ∈ s'.events.drop s.events.length ∧
      ∀ e', .runCallback (some e') ∉ s'.events.drop s.events.length) := by
  have hrun : ∃ s, run (system minuteParser (fun _ _ => false) (exampleConfig .consumer)) (fun _ _ => True) State.new
      exampleStart = some s ∧ reported (exampleConfig .consumer) s (.reply (.error "ERR") 0) = some "ERR" ∧
      (step minuteParser (fun _ _ => false) (exampleConfig .consumer) s (.reply (.error "ERR") 0)).isSome :=
    ⟨_, rfl, rfl, rfl⟩
  obtain ⟨s, hs, hr, hstep⟩ := hrun
  obtain ⟨s', hs'⟩ := Option.isSome_iff_exists.mp hstep
  exact ⟨s, s', hs, hr, hs', failedStart_up (reach_of_run exampleStart hs) hr hs'⟩

/-- The queue of a producer can not be registered. -/
theorem not_rejected_messageQueue : ¬∀ s a s' e,
    Reach (system minuteParser (fun _ _ => false) (exampleConfig .producer)) (fun _ _ => True) s →
      reported (exampleConfig .producer) s a = some e →
        step minuteParser (fun _ _ => false) (exampleConfig .producer) s a = some s' → Rejected s s' e := by
  intro h
  have hrun : ∃ s, run (system minuteParser (fun _ _ => false) (exampleConfig .producer)) (fun _ _ => True)
      (State.new.run (exampleConfig .producer)) [.begin 0, .reply (.ok true) 0, .begin 0] = some s ∧
      reported (exampleConfig .producer) s (.reply (.error "ERR") 0) = some "ERR" ∧
      ∃ s', step minuteParser (fun _ _ => false) (exampleConfig .producer) s (.reply (.error "ERR") 0) = some s' ∧
        s'.powerManager.isUp = true :=
    ⟨_, rfl, rfl, _, rfl, rfl⟩
  obtain ⟨s, hs, hr, s', hs', hup⟩ := hrun
  have hdown := (h s _ s' "ERR" (reach_of_run _ hs) hr hs').notUp
  rw [hup] at hdown
  cases hdown

end RedisSmq.LifeCycle
