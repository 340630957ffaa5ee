import RedisSmq.Queue.Steps

/-!
# What consumers hold

The processing list of a consumer has the message that the consumer holds, and nothing else, in every run
(`hands_reachable`): the other actors do not name processing lists, and a settlement moves the message that was taken.
`StepHolding` lists how a consumer comes to hold a message.
-/

namespace RedisSmq.Queue

open RedisKeys Db Transition

/-- The messages that a consumer holds. -/
def Phase.held : Phase → List Message
  | .holding m => [m]
  | .idle | .failed => []

/-- The consumer holds the message. -/
def held (s : State) (c id : String) : List Message := (s.consumers c).held.filter (·.uuid = id)

/-- The processing lists have what the consumers hold. -/
def Hands (config : String → ConsumerConfig) (s : State) : Prop :=
  ∀ id, s.db.lists ((config id).keyQueueProcessing id) = (s.consumers id).held

/-- The request takes the message `m` for the consumer. -/
inductive Takes (config : String → ConsumerConfig) (s : State) (id : String) (m : Message) : Prop
  | list : (config id).priorityQueue = false → (s.db.lists (config id).keys.keyQueue).getLast? = some m →
    Takes config s id m
  | store {t} : (config id).priorityQueue = true →
    (s.db.zsets (config id).keys.keyQueuePriority).first = some t →
    s.db.hashes (config id).keys.keyPendingMessagesWithPriority t = some m → Takes config s id m

/-- What a step does to the consumers. -/
inductive StepHolding (config : String → ConsumerConfig) (s : State) : Action → (String → Phase) → Prop
  | other {a} : ERedisKey.keyQueueProcessing ∉ a.types → StepHolding config s a s.consumers
  | taken {id m} : s.consumers id = .idle → Takes config s id m →
    StepHolding config s (.dequeue id) (Function.update s.consumers id (.holding m))
  | missed {id} : s.consumers id = .idle → StepHolding config s (.dequeue id) (Function.update s.consumers id .failed)
  | acknowledged {id m} : s.consumers id = .holding m →
    StepHolding config s (.acknowledge id) (Function.update s.consumers id .idle)
  | unacknowledged {id m cause now} : s.consumers id = .holding m →
    StepHolding config s (.unacknowledge id cause now) (Function.update s.consumers id .idle)

section

variable {cron : CronParser} {lt : Text → Text → Bool} {config : String → ConsumerConfig}
variable {s s' : State} {a : Action} {id id' : String} {m : Message}

theorem mem_held : m ∈ held s id id' ↔ s.consumers id = .holding m ∧ m.uuid = id' := by
  unfold held Phase.held
  cases hc : s.consumers id with
  | holding m' =>
    rw [List.mem_filter, List.mem_singleton, decide_eq_true_eq, Phase.holding.injEq]
    exact and_congr_left' eq_comm
  | idle | failed => simp

theorem held_eq (hc : s.consumers id = .holding m) (hid : m.uuid = id') : held s id id' = [m] := by
  simp [held, hc, Phase.held, hid]

/-- Processing lists have one owner. -/
theorem keyQueueProcessing_ne (h : id ≠ id') :
    (config id).keyQueueProcessing id ≠ (config id').keyQueueProcessing id' := by
  intro heq
  have hsegments : [(config id).queueName, id] = [(config id').queueName, id'] := congrArg RedisKey.segments heq
  exact h (List.cons.inj (List.cons.inj hsegments).2).1

/-- A step of one consumer. -/
theorem Hands.update (hh : Hands config s) {phase : Phase} (hc : s'.consumers = Function.update s.consumers id phase)
    (hl : s'.db.lists ((config id).keyQueueProcessing id) = phase.held)
    (hother : ∀ id', id' ≠ id → SameAt s'.db s.db ((config id').keyQueueProcessing id')) : Hands config s' := by
  intro id'
  rw [hc]
  by_cases heq : id' = id
  · subst heq
    rw [hl, Function.update_self]
  · rw [Function.update_of_ne heq, (hother id' heq).lists]
    exact hh id'

/-- A dequeue puts the message that it takes into an empty processing list; a member without a payload fails it. -/
theorem dequeueMessage_cases (h : dequeueMessage lt config s id = some s')
    (hnil : s.db.lists ((config id).keyQueueProcessing id) = []) :
    (∃ m, Takes config s id m ∧ s'.consumers = Function.update s.consumers id (.holding m) ∧
      s'.db.lists ((config id).keyQueueProcessing id) = [m]) ∨
    (s'.consumers = Function.update s.consumers id .failed ∧
      s'.db.lists ((config id).keyQueueProcessing id) = []) := by
  unfold dequeueMessage at h
  dsimp only at h
  split at h
  · rename_i hmode
    have hlists := @zpophgetrpush_lists s.db (config id).keys.keyQueuePriority
      (config id).keys.keyPendingMessagesWithPriority ((config id).keyQueueProcessing id)
    split at h
    · cases h
    · rename_i hreply
      cases h
      rw [hreply, hnil] at hlists
      exact .inr ⟨rfl, hlists⟩
    · rename_i m hreply
      cases h
      obtain ⟨t, ht, hm⟩ := zpophgetrpush_message hreply
      rw [hreply, hnil] at hlists
      exact .inl ⟨m, .store hmode ht hm, rfl, hlists⟩
  · rename_i hmode
    split at h
    · cases h
    · rename_i m hlast
      cases h
      refine .inl ⟨m, .list (by simpa using hmode) hlast, rfl, ?_⟩
      have hlast' : (s.db.lists (config id).keys.keyQueue).getLast? = some m := hlast
      have hne : (config id).keyQueueProcessing id ≠ (config id).keys.keyQueue := by
        simp [RedisKey.ext_iff, ConsumerConfig.keyQueueProcessing]
      show (s.db.rpoplpush _ _).lists _ = _
      simp only [Db.rpoplpush, hlast', setList_lists, Function.update_self, Function.update_of_ne hne, hnil]

/-- A settlement empties the processing list of its consumer. -/
theorem Hands.settle (hh : Hands config s) {cmd : Message → Cmd} (hcmd : ∀ m, ∃ destination,
    IsMove ((config id).keyQueueProcessing id) destination (cmd m) ∧ destination.type ≠ .keyQueueProcessing)
    (h : settle lt s id cmd = some s') :
    (∃ m, s.consumers id = .holding m) ∧ s'.consumers = Function.update s.consumers id .idle ∧ Hands config s' := by
  unfold Queue.settle at h
  split at h
  · rename_i m hm
    cases h
    obtain ⟨destination, hmove, htype⟩ := hcmd m
    have hdest : ∀ id', destination ≠ (config id').keyQueueProcessing id' := by
      rintro id' rfl
      exact htype rfl
    have hlist : s.db.lists ((config id).keyQueueProcessing id) = [m] := by rw [hh id, hm]; rfl
    refine ⟨⟨m, hm⟩, rfl, hh.update rfl (move_singleton hmove (hdest id) hlist).1 (fun id' hne => ?_)⟩
    rcases hmove with hc | hc <;> rw [hc]
    · exact rpoplpush_frame (keyQueueProcessing_ne hne) (hdest id').symm
    · exact lpoprpush_frame (keyQueueProcessing_ne hne) (hdest id').symm
  · cases h

/-- The steps of the other actors leave consumers and processing lists alone. -/
theorem Hands.other (hh : Hands config s) (ha : ERedisKey.keyQueueProcessing ∉ a.types)
    (h : step cron lt config s a = some s') : s'.consumers = s.consumers ∧ Hands config s' := by
  have hsame : s'.consumers = s.consumers := by
    cases a with
    | produce => rw [step_produce h]
    | dequeue | acknowledge | unacknowledge => simp [Action.types] at ha
    | _ =>
      simp only [step, Queue.delayExec, Queue.requeueExec, Queue.scheduleExec, Queue.requestExec] at h
      repeat' (split at h)
      all_goals cases h <;> rfl
  refine ⟨hsame, fun id => ?_⟩
  have hframe : SameAt s'.db s.db ((config id).keyQueueProcessing id) := step_frame h ha
  rw [hframe.lists, hsame]
  exact hh id

/-- What a step does to the consumers, and the processing lists after it. -/
theorem step_holding (hh : Hands config s) (h : step cron lt config s a = some s') :
    StepHolding config s a s'.consumers ∧ Hands config s' := by
  cases a with
  | dequeue id =>
    simp only [step] at h
    split at h
    · rename_i hidle
      have hnil : s.db.lists ((config id).keyQueueProcessing id) = [] := by rw [hh id, hidle]; rfl
      have hother : ∀ id', id' ≠ id → SameAt s'.db s.db ((config id').keyQueueProcessing id') := by
        intro id' hne
        have hstep : step cron lt config s (.dequeue id) = some s' := by simp only [step, if_pos hidle, h]
        have hdb := step_db hstep
        generalize s'.db = db at hdb ⊢
        cases hdb with
        | reads => exact .refl _ _
        | dequeuePriority =>
          refine zpophgetrpush_frame ?_ ?_ (keyQueueProcessing_ne hne) <;>
            simp [RedisKey.ext_iff, ConsumerConfig.keyQueueProcessing]
        | dequeue =>
          exact rpoplpush_frame (by simp [RedisKey.ext_iff, ConsumerConfig.keyQueueProcessing])
            (keyQueueProcessing_ne hne)
      rcases dequeueMessage_cases h hnil with ⟨m, htakes, hc, hl⟩ | ⟨hc, hl⟩
      · exact ⟨hc ▸ .taken hidle htakes, hh.update hc hl hother⟩
      · exact ⟨hc ▸ .missed hidle, hh.update hc hl hother⟩
    · cases h
  | acknowledge id =>
    obtain ⟨⟨m, hm⟩, hc, hh'⟩ := hh.settle (fun _ => Broker.isMove_acknowledge ..) h
    rw [hc]
    exact ⟨.acknowledged hm, hh'⟩
  | unacknowledge id cause now =>
    obtain ⟨⟨m, hm⟩, hc, hh'⟩ := hh.settle (fun _ => Broker.isMove_retry ..) h
    rw [hc]
    exact ⟨.unacknowledged hm, hh'⟩
  | _ =>
    obtain ⟨hc, hh'⟩ := hh.other (by simp [Action.types]) h
    rw [hc]
    exact ⟨.other (by simp [Action.types]), hh'⟩

/-- The processing lists have what the consumers hold, in every run. -/
theorem hands_reachable {P : State → Action → Prop} (h : Reach (system cron lt config) P s) : Hands config s :=
  h.invariant (I := Hands config) (fun _ => rfl) (fun _ _ _ hh _ hs => (step_holding hh hs).2)

end

end RedisSmq.Queue
