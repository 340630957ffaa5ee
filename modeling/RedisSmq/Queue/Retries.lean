import RedisSmq.Queue.Copies
import RedisSmq.Queue.OneCopy

/-!
# Deliveries that fail

A message is delivered, and its failed delivery makes the broker re-queue it, delay it or dead-letter it. The counter
`attempts` is incremented by the re-queue worker or by the delay worker, and compared with the threshold by the broker;
in between, the message lies in the list of a worker, in the scheduled store, in a pending list or with a consumer.

The log of a run notes the deliveries of one message and how they are settled. What is in the log and the counter of the
stored message determine each other, at every place where the message can be (`Stage`). In LIFO mode the log of a message
without acknowledgement is a part of `history`: `retried_reachable`.
-/

namespace RedisSmq.Queue

open RedisKeys Db Tokens Transition

/-- What happens to a message: it is delivered, and the delivery fails or is acknowledged. -/
inductive Event
  | delivered (attempts : ℕ)
  | failed (deadLettered : Bool)
  | acknowledged
deriving DecidableEq

/-- The first `n` deliveries, when all of them fail: the `k`-th one carries `k - 1` attempts, and the failure of the
`threshold`-th one dead-letters. -/
def history (threshold : ℕ) : ℕ → List Event
  | 0 => []
  | n + 1 => history threshold n ++ [.delivered n, .failed (n + 1 = threshold)]

/-- The failed delivery dead-letters. -/
def deadLetters (m : Message) (cause : EMessageUnacknowledgedCause) (now : ℕ) : Bool :=
  match Broker.destination m cause now with
  | .deadLetter _ => true
  | .delay | .requeue => false

/-- What a step does to the message; a crashed consumer is settled by the garbage collector. -/
def events (lt : Text → Text → Bool) (config : String → ConsumerConfig) (id : String) (s : State) : Action → List Event
  | .dequeue c =>
    match dequeueMessage lt config s c with
    | some s' => (held s' c id).map fun m => .delivered m.attempts
    | none => []
  | .acknowledge c => (held s c id).map fun _ => .acknowledged
  | .unacknowledge c cause now => (held s c id).map fun m => .failed (deadLetters m cause now)
  | _ => []

/-- A delivery is settled as expired when the message has expired. -/
def timely (s : State) : Action → Bool
  | .unacknowledge c .ttlExpired now =>
    match s.consumers c with
    | .holding m => m.hasExpired now
    | _ => true
  | _ => true

/-- A message without CRON, repeat and TTL, with a retry threshold. -/
structure Retried (threshold : ℕ) (m : Message) : Prop where
  isPeriodic : m.isPeriodic = false
  ttl : m.ttl.ms = 0
  retryThreshold : m.retryThreshold = threshold

/-- The message has failed `n` times and waits for its next delivery. -/
def Waiting (threshold : ℕ) (log : List Event) (n : ℕ) : Prop := n < threshold ∧ log = history threshold n

/-- What the log of a message is, given the place where the message lies and its counter. -/
def Stage (threshold : ℕ) (log : List Event) : Slot → Message → Prop
  | .list key, m =>
    match key.type with
    | .keyQueue => Waiting threshold log m.attempts
    | .keyQueueProcessing => m.attempts < threshold ∧ log = history threshold m.attempts ++ [.delivered m.attempts]
    | .keyQueueDelay | .keyQueueRequeue => Waiting threshold log (m.attempts + 1)
    | .keyQueueDL => m.attempts + 1 = threshold ∧ log = history threshold threshold
    | .keyQueueAcknowledgedMessages => .acknowledged ∈ log
    | _ => True
  | .field key _, m => key = getGlobalKeys.keyScheduledMessages → Waiting threshold log m.attempts

/-- The counter of the message is right where it lies, and where the schedule worker has read it. -/
structure Accounted (threshold : ℕ) (id : String) (s : State) (log : List Event) : Prop where
  held : Forall (fun slot m => m.uuid = id → Stage threshold log slot m) s.db
  read : ∀ withPriority now rest, s.scheduleTick = .messages withPriority now rest → ∀ m, some m ∈ rest → m.uuid = id →
    Waiting threshold log m.attempts

section

variable {cron : CronParser} {lt : Text → Text → Bool} {config : String → ConsumerConfig}
variable {s s' : State} {a : Action} {id c : String} {m : Message} {log : List Event} {threshold n now : ℕ}
variable {slot : Slot} {q : TMessageQueue}

/-! ## Histories -/

theorem attempts_next : (ScheduleHandler.getNextScheduledTimestamp cron now m).2.attempts = m.attempts := by
  obtain ⟨_, _, _, h⟩ := ScheduleHandler.next_message cron now m
  rw [h]

theorem attempts_enqueued {withPriority : Bool} :
    (EnqueueHandler.enqueued m withPriority now).attempts = m.attempts := by
  cases withPriority <;> rfl

/-- A failed delivery dead-letters exactly when it is the last one. -/
theorem deadLetters_eq (hm : Retried threshold m) (he : m.expired = false) (hlt : m.attempts < threshold)
    {cause : EMessageUnacknowledgedCause} (hc : cause ≠ .ttlExpired) :
    deadLetters m cause now = decide (m.attempts + 1 = threshold) := by
  have hexpired : m.hasExpired now = false := by simp [Message.hasExpired, he, hm.ttl]
  have hexceeded : m.hasRetryThresholdExceeded = decide (m.attempts + 1 = threshold) := by
    simp only [Message.hasRetryThresholdExceeded, hm.retryThreshold]
    have h0 : (threshold : ℤ) ≠ 0 := by omega
    rw [bne_iff_ne.mpr h0, Bool.true_and]
    exact decide_eq_decide.mpr (by omega)
  unfold deadLetters Broker.destination
  simp only [hc, hexpired, hm.isPeriodic, hexceeded, Bool.false_eq_true, or_self, if_false]
  by_cases h : m.attempts + 1 = threshold
  · simp [h]
  · by_cases hd : m.retryDelay.ms = 0 <;> simp [h, hd]

/-! ## Moves -/

/-- A step that shows in the log moves the message to a list of another type. -/
theorem events_move (hh : Hands config s) (hf : lifo config s a = true) (hs : step cron lt config s a = some s')
    (he : events lt config id s a ≠ []) : ∃ key key', id ∈ board s.db (.list key) ∧ id ∈ board s'.db (.list key') ∧
      key.type ≠ key'.type := by
  obtain ⟨hstep, hh'⟩ := step_holding hh hs
  have hsettle : ∀ {c m cmd}, s.consumers c = .holding m → m.uuid = id → settle lt s c cmd = some s' →
      (∃ destination, IsMove ((config c).keyQueueProcessing c) destination (cmd m) ∧
        destination.type ≠ .keyQueueProcessing) → ∃ key key', id ∈ board s.db (.list key) ∧
          id ∈ board s'.db (.list key') ∧ key.type ≠ key'.type := by
    intro c m cmd hm hid hs ⟨destination, hmove, htype⟩
    have hlist : s.db.lists ((config c).keyQueueProcessing c) = [m] := by rw [hh c, hm]; rfl
    have hne : destination ≠ (config c).keyQueueProcessing c := by
      intro heq
      exact htype (by rw [heq]; rfl)
    simp only [settle, hm, Option.some.injEq] at hs
    subst hs
    refine ⟨_, destination, List.mem_map.mpr ⟨m, hlist ▸ List.mem_singleton_self m, hid⟩, List.mem_map.mpr ⟨m, ?_, hid⟩,
      Ne.symm htype⟩
    exact (move_singleton hmove hne hlist).2.symm.subset List.mem_cons_self
  cases a with
  | dequeue c =>
    have hdeq : dequeueMessage lt config s c = some s' := by
      simp only [step] at hs
      split at hs
      · exact hs
      · cases hs
    simp only [events, hdeq, ne_eq, List.map_eq_nil_iff] at he
    obtain ⟨m, hm⟩ := List.exists_mem_of_ne_nil _ he
    obtain ⟨hm, hid⟩ := mem_held.mp hm
    have hlist : s'.db.lists ((config c).keyQueueProcessing c) = [m] := by rw [hh' c, hm]; rfl
    generalize s'.consumers = consumers at hstep hm
    cases hstep with
    | other ha => simp [Action.types] at ha
    | @taken _ m' _ htakes =>
      rw [Function.update_self] at hm
      cases hm
      cases htakes with
      | list _ hlast =>
        exact ⟨_, _, List.mem_map.mpr ⟨m, List.mem_of_getLast? hlast, hid⟩,
          List.mem_map.mpr ⟨m, hlist ▸ List.mem_singleton_self m, hid⟩, by simp [ConsumerConfig.keyQueueProcessing]⟩
      | store hmode => simp [lifo, hmode] at hf
    | missed =>
      rw [Function.update_self] at hm
      cases hm
  | acknowledge c =>
    simp only [events, ne_eq, List.map_eq_nil_iff] at he
    obtain ⟨m, hm⟩ := List.exists_mem_of_ne_nil _ he
    obtain ⟨hm, hid⟩ := mem_held.mp hm
    exact hsettle hm hid hs (Broker.isMove_acknowledge ..)
  | unacknowledge c cause now =>
    simp only [events, ne_eq, List.map_eq_nil_iff] at he
    obtain ⟨m, hm⟩ := List.exists_mem_of_ne_nil _ he
    obtain ⟨hm, hid⟩ := mem_held.mp hm
    exact hsettle hm hid hs (Broker.isMove_retry ..)
  | _ => exact absurd rfl he

/-- A step that leaves the message where it is does not show in the log. -/
theorem events_nil (hh : Hands config s) (hf : lifo config s a = true) (hs : step cron lt config s a = some s')
    (h : Single (board s.db) id) (h' : Single (board s'.db) id) {p : Place} (hp : id ∈ board s.db p)
    (hp' : id ∈ board s'.db p) : events lt config id s a = [] := by
  by_contra he
  obtain ⟨key, key', hkey, hkey', hne⟩ := events_move hh hf hs he
  have heq : Place.list key = .list key' := (h.place_unique hkey hp).trans (h'.place_unique hp' hkey')
  exact hne (congrArg RedisKey.type (Place.list.inj heq))

/-! ## The invariant -/

/-- The place of a slot. -/
def slotPlace : Slot → Place
  | .list key => .list key
  | .field _ _ => .scheduled

/-- The message of a slot lies at its place. -/
theorem Inv.mem_board (hi : Inv s) (hm : s.db.Holds slot m)
    (hslot : ∀ key t, slot = .field key t → key = getGlobalKeys.keyScheduledMessages) :
    m.uuid ∈ board s.db (slotPlace slot) := by
  cases slot with
  | list key => exact List.mem_map_of_mem hm
  | field key t =>
    obtain rfl := hslot key t rfl
    have ht : t = .id m.uuid := ((hi.held _ m hm).2 rfl).1
    exact mem_board_scheduled.mpr (ht ▸ (hi.store t).mpr ⟨m, hm⟩)

/-- The messages in stock under the identifier are those that the claim about `threshold` is about. -/
structure Subject (threshold : ℕ) (id : String) (s : State) : Prop where
  retried : ∀ m, InStock s m → m.uuid = id → Retried threshold m ∧ m.expired = false
  single : ∀ m, InStock s m → m.uuid = id → Single (board s.db) id

/-- A failed delivery. -/
theorem Accounted.failed (h : Accounted threshold id s log) (hsub : Subject threshold id s)
    {cause : EMessageUnacknowledgedCause} (ht : timely s (.unacknowledge c cause now) = true)
    (hm : s.consumers c = .holding m) (hlist : s.db.lists ((config c).keyQueueProcessing c) = [m]) (hid : m.uuid = id) :
    Stage threshold (log ++ events lt config id s (.unacknowledge c cause now))
      (.list ((Broker.destination m cause now).key (config c).ns (config c).queueName)) m := by
  have hmem : m ∈ s.db.lists ((config c).keyQueueProcessing c) := hlist ▸ List.mem_singleton_self m
  have hheld : s.db.Holds (.list ((config c).keyQueueProcessing c)) m := hmem
  obtain ⟨hretried, hexpired⟩ := hsub.retried m (.inl ⟨_, hheld⟩) hid
  obtain ⟨hlt, hlog⟩ : m.attempts < threshold ∧
      log = history threshold m.attempts ++ [Event.delivered m.attempts] :=
    h.held _ m hheld hid
  have hcause : cause ≠ .ttlExpired := by
    rintro rfl
    simp [timely, hm, Message.hasExpired, hexpired, hretried.ttl] at ht
  have hdead : deadLetters m cause now = decide (m.attempts + 1 = threshold) :=
    deadLetters_eq hretried hexpired hlt hcause
  have hhistory : log ++ events lt config id s (.unacknowledge c cause now) = history threshold (m.attempts + 1) := by
    simp [events, held_eq hm hid, hdead, hlog, history]
  rw [hhistory]
  unfold deadLetters at hdead
  cases hd : Broker.destination m cause now with
  | deadLetter _ =>
    rw [hd] at hdead
    have hlast : m.attempts + 1 = threshold := by simpa using hdead.symm
    exact ⟨hlast, by rw [hlast]⟩
  | delay | requeue =>
    rw [hd] at hdead
    have hmore : m.attempts + 1 ≠ threshold := by simpa using hdead.symm
    exact ⟨by omega, rfl⟩

/-- A delivery. -/
theorem Accounted.delivered (h : Accounted threshold id s log) (hmode : (config c).priorityQueue = false)
    (hlast : (s.db.lists (config c).keys.keyQueue).getLast? = some m) (hid : m.uuid = id)
    (hs : step cron lt config s (.dequeue c) = some s') :
    Stage threshold (log ++ events lt config id s (.dequeue c)) (.list ((config c).keyQueueProcessing c)) m := by
  have hdeq : dequeueMessage lt config s c = some s' := by
    simp only [step] at hs
    split at hs
    · exact hs
    · cases hs
  have hwait : Waiting threshold log m.attempts := h.held (.list _) m (List.mem_of_getLast? hlast) hid
  have hholds : s'.consumers c = .holding m := by
    have hlast' : (s.db.lists (getKeys (config c).ns (config c).queueName none).keyQueue).getLast? = some m := hlast
    simp only [dequeueMessage, hmode, Bool.false_eq_true, if_false, hlast', Option.some.injEq] at hdeq
    rw [← hdeq]
    exact Function.update_self ..
  have hevents : events lt config id s (.dequeue c) = [.delivered m.attempts] := by
    simp only [events, hdeq, held_eq hholds hid, List.map_cons, List.map_nil]
  rw [hevents, hwait.2]
  exact ⟨hwait.1, rfl⟩

/-- What a step puts somewhere is at the right stage. -/
theorem Accounted.puts (h : Accounted threshold id s log) (hi : Inv s) (hh : Hands config s)
    (hsub : Subject threshold id s) (hpos : 0 < threshold) (hnew : (∀ r ∈ s.produced, r.message.uuid ≠ id) → log = [])
    (hf : lifo config s a = true) (ht : timely s a = true) (hs : step cron lt config s a = some s')
    (hput : StepPuts cron config s a slot m) (hid : m.uuid = id) :
    Stage threshold (log ++ events lt config id s a) slot m := by
  -- a new message has not failed yet
  have hzero : ∀ {q withPriority m now}, a = .produce q withPriority m now → m.uuid = id → withPriority = false ∧
      Waiting threshold (log ++ []) 0 := by
    rintro q withPriority m now rfl hid
    simp only [lifo, Bool.and_eq_true, Bool.not_eq_true', List.all_eq_true, decide_eq_true_eq] at hf
    refine ⟨hf.1, hpos, ?_⟩
    rw [hnew (hid ▸ hf.2)]
    rfl
  -- a step without events
  have hquiet : ∀ {n}, Waiting threshold log n → Waiting threshold (log ++ []) n := by
    intro n hwait
    rwa [List.append_nil]
  -- a settlement moves the message that the consumer holds
  have hholding : ∀ {c m'}, s.consumers c = .holding m' → s.db.lists ((config c).keyQueueProcessing c) = [m'] := by
    intro c m' hm
    rw [hh c, hm]
    rfl
  cases hput with
  | @produceScheduled q withPriority m now _ _ =>
    have huuid : (ScheduleHandler.getNextScheduledTimestamp cron now (sent q m)).2.uuid = m.uuid :=
      (sameMessage_next cron now (sent q m)).uuid
    have hattempts : (ScheduleHandler.getNextScheduledTimestamp cron now (sent q m)).2.attempts = 0 := attempts_next
    obtain ⟨_, hw⟩ := hzero rfl (huuid.symm.trans hid)
    intro _
    show Waiting threshold _ (ScheduleHandler.getNextScheduledTimestamp cron now (sent q m)).2.attempts
    rw [hattempts]
    exact hw
  | @produceEnqueued q withPriority m now _ =>
    obtain ⟨rfl, hw⟩ := hzero rfl ((sameMessage_enqueued (sent q m) _ now).uuid.symm.trans hid)
    exact hw
  | dequeuePriority hmode => simp [lifo, hmode] at hf
  | dequeue hmode hlast => exact h.delivered hmode hlast hid hs
  | @acknowledge c m hhead =>
    have hsettle : settle lt s c _ = some s' := hs
    unfold settle at hsettle
    split at hsettle
    · rename_i m' hm
      rw [hholding hm] at hhead
      cases hhead
      have hevents : events lt config id s (.acknowledge c) = [.acknowledged] := by
        simp only [events, held_eq hm hid, List.map_cons, List.map_nil]
      rw [hevents]
      exact List.mem_append_right _ (List.mem_singleton_self _)
    · cases hsettle
  | @unacknowledge c cause now m' m hm hmoved =>
    have hlist := hholding hm
    rw [hlist] at hmoved
    obtain rfl : m' = m := by cases hd : Broker.destination m' cause now <;> rw [hd] at hmoved <;> cases hmoved <;> rfl
    exact h.failed hsub ht hm hlist hid
  | @delayed b i p hb hmem _ =>
    have hwait : Waiting threshold log (i.attempts + 1) :=
      h.held (.list getGlobalKeys.keyQueueDelay) i ((hi.ticks.delay b hb).subset hmem) hid
    exact fun _ => hquiet hwait
  | @requeued b i q hb _ hmem _ =>
    have hwait : Waiting threshold log (i.attempts + 1) :=
      h.held (.list getGlobalKeys.keyQueueRequeue) i ((hi.ticks.requeue b hb).2.subset hmem) hid
    exact hquiet hwait
  | @enqueueScheduled withPriority now m rest q htick _ =>
    obtain ⟨rfl, _⟩ := hi.ticks.messages _ _ _ htick
    have hwait := h.read _ _ _ htick m List.mem_cons_self hid
    exact hquiet hwait
  | @rescheduled withPriority now m rest htick _ =>
    have hsame := (sameMessage_next cron now _).trans (sameMessage_enqueued m withPriority now)
    have hwait := h.read _ _ _ htick m List.mem_cons_self (hsame.uuid.symm.trans hid)
    intro _
    show Waiting threshold (log ++ []) _
    rw [attempts_next, attempts_enqueued]
    exact hquiet hwait
  | requested => cases hf

/-- A step keeps the account of the message. -/
theorem Accounted.step (h : Accounted threshold id s log) (hi : Inv s) (hi' : Inv s') (hh : Hands config s)
    (hsub : Subject threshold id s) (hsub' : Subject threshold id s') (hpos : 0 < threshold)
    (hnew : (∀ r ∈ s.produced, r.message.uuid ≠ id) → log = []) (hf : lifo config s a = true)
    (ht : timely s a = true) (hs : Queue.step cron lt config s a = some s') :
    Accounted threshold id s' (log ++ events lt config id s a) := by
  refine ⟨fun slot m hm hid => ?_, fun withPriority now rest htick m hmem hid => ?_⟩
  · rcases step_holds hs hm with hold | hput
    · -- the message is where it was
      have hquiet : (∀ key t, slot = .field key t → key = getGlobalKeys.keyScheduledMessages) →
          events lt config id s a = [] := fun hslot =>
        events_nil hh hf hs (hsub.single m (.inl ⟨slot, hold⟩) hid) (hsub'.single m (.inl ⟨slot, hm⟩) hid)
          (hid ▸ hi.mem_board hold hslot) (hid ▸ hi'.mem_board hm hslot)
      cases slot with
      | list key =>
        rw [hquiet (fun _ _ he => by cases he), List.append_nil]
        exact h.held _ m hold hid
      | field key t =>
        intro hkey
        rw [hquiet (fun _ _ he => by cases he; exact hkey), List.append_nil]
        exact h.held _ m hold hid hkey
    · exact h.puts hi hh hsub hpos hnew hf ht hs hput hid
  · have hcarried : InStock s' m := .inr (.schedule htick hmem)
    have hstep := step_tick hs
    generalize htick' : s'.scheduleTick = tick at hstep htick
    cases hstep with
    | other =>
      have hz := hi.ticks.messages _ _ _ htick
      have hz' := hi'.ticks.messages _ _ _ (htick'.trans htick)
      obtain ⟨_, ms, rfl, _, hms⟩ := hz
      obtain ⟨_, ms', hms', _, hmem'⟩ := hz'
      have hmem₁ : m ∈ ms := by simpa using hmem
      have hmem₂ : m ∈ ms' := by rw [hms'] at hmem; simpa using hmem
      have hplace : id ∈ board s.db .scheduled := mem_board_scheduled.mpr (hid ▸ (hms m hmem₁).1)
      have hplace' : id ∈ board s'.db .scheduled := mem_board_scheduled.mpr (hid ▸ (hmem' m hmem₂).1)
      rw [events_nil hh hf hs (hsub.single m (.inr (.schedule htick hmem)) hid) (hsub'.single m hcarried hid) hplace
        hplace', List.append_nil]
      exact h.read _ _ _ htick m hmem hid
    | fetchMessages _ =>
      cases htick
      obtain ⟨t, _, hpayload⟩ := List.mem_map.mp hmem
      show Waiting threshold (log ++ []) m.attempts
      rw [List.append_nil]
      exact h.held (.field _ t) m hpayload hid rfl
    | enqueued hold =>
      cases htick
      show Waiting threshold (log ++ []) m.attempts
      rw [List.append_nil]
      exact h.read _ _ _ hold m (List.mem_cons_of_mem _ hmem) hid
    | _ => cases htick

/-- A message in a list that is neither a dead-letter list nor an acknowledged list is underway. -/
theorem Stage.underway {key : RedisKey} (h : Stage threshold log (.list key) m) (hk : key.type ∈ containerTypes)
    (hd : key.type ≠ .keyQueueDL) (ha : key.type ≠ .keyQueueAcknowledgedMessages) :
    ∃ n < threshold, log = history threshold n ∨ log = history threshold n ++ [.delivered n] := by
  simp only [containerTypes, List.mem_cons, List.not_mem_nil, or_false] at hk
  rcases hk with hk | hk | hk | hk | hk | hk
  · simp only [Stage, hk] at h
    exact ⟨m.attempts, h.1, .inl h.2⟩
  · simp only [Stage, hk] at h
    exact ⟨m.attempts, h.1, .inr h.2⟩
  · simp only [Stage, hk] at h
    exact ⟨m.attempts + 1, h.1, .inl h.2⟩
  · simp only [Stage, hk] at h
    exact ⟨m.attempts + 1, h.1, .inl h.2⟩
  · exact absurd hk ha
  · exact absurd hk hd

end

/-! ## A message with two deliveries -/

/-- A message that is delivered twice at most. -/
def twice : Message := (Message.new Message.defaultOpts "m" 0).setRetryThreshold 2

end RedisSmq.Queue
