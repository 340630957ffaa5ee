import RedisSmq.Queue.Finished
import RedisSmq.Queue.OneCopy
import RedisSmq.Queue.Stages

/-!
# Turns of a message in the system

`turns` reads off a step of the system what it does to a message: one turn, or none. `At` says which entry of the
stores a stage stands for, and `Stands` where the message is. A payload without a member in its sorted set is out of
reach, so the message is not there.

A step is followed (`Follows`) when its turns lead from the stage of the message to its stage after the step: the
message stays (`Stands.keep`), moves (`Stands.moved`), or goes out of the stores (`Stands.dropped`).
-/

namespace RedisSmq.Queue

open RedisKeys Db Tokens Transition

/-! ## Turns -/

/-- The message waits in the priority store of the queue. -/
def isPrioritized (db : Db) (q : TMessageQueue) (id : String) : Bool :=
  decide (.id id ∈ (db.zsets q.keys.keyQueuePriority).members) &&
    (db.hashes q.keys.keyPendingMessagesWithPriority (.id id)).isSome

/-- The message is in the scheduled set. -/
def isScheduled (db : Db) (id : String) : Bool := decide (.id id ∈ (db.zsets getGlobalKeys.keyQueueScheduled).members)

/-- The scheduled message goes out of the scheduled set. -/
def unscheduled (id : String) (s : State) : List Turn :=
  if isScheduled s.db id then [if s.scheduleTick.reads id = 0 then .removed else .withdrawn] else []

/-- The schedule worker stops and forgets what it has read. -/
def forgotten (id : String) (s : State) : List Turn :=
  if s.scheduleTick.reads id ≠ 0 ∧ isScheduled s.db id = false then [.skipped] else []

/-- What a step does to the message. -/
def turns (cron : CronParser) (lt : Text → Text → Bool) (config : String → ConsumerConfig) (id : String) (s : State) :
    Action → List Turn
  | .produce q _ m _ => if m.uuid = id then [if (sent q m).isSchedulable then .scheduled else .enqueued] else []
  | .dequeue c =>
    match dequeueMessage lt config s c with
    | some s' => (held s' c id).map fun _ => .taken
    | none => []
  | .acknowledge c => (held s c id).map fun _ => .acknowledged
  | .unacknowledge c cause now => (held s c id).map fun m => .failed (Broker.destination m cause now)
  | .delayExec =>
    match s.delayTick with
    | .fetched b =>
      if b.messages.any (·.uuid = id) ∧ (parallel (DelayHandler.scheduleTask cron b.now) b.messages).isOk then
        [.rescheduled]
      else []
    | _ => []
  | .requeueExec =>
    match s.requeueTick with
    | .fetched b =>
      if b.messages.any (·.uuid = id) ∧ (parallel (RequeueWorker.requeueTask b.withPriority) b.messages).isOk then
        [if b.withPriority then .lost else .returned]
      else []
    | _ => []
  | .scheduleFetchMessages _ =>
    match s.scheduleTick with
    | .ids _ ids =>
      if .id id ∈ ids ∧ s.db.hashes getGlobalKeys.keyScheduledMessages (.id id) = none then [.skipped] else []
    | _ => []
  | .scheduleExec =>
    match s.scheduleTick with
    | .messages _ _ (none :: _) => forgotten id s
    | .messages _ _ (some m :: _) => if m.queue = none then forgotten id s else if m.uuid = id then [.due] else []
    | _ => []
  | .requestExec index now =>
    match s.requests[index]? with
    | some (.requeue source q withPriority priority msg) =>
      if (Request.requeue source q withPriority priority msg).requeues id now then [.revived] else []
    | some (.delete source q msg) => if msg.uuid = id ∧ msg ∈ s.db.lists (source.key q) then [.removed] else []
    | none => []
  | .deletePendingMessageWithPriority q messageId =>
    if messageId = id ∧ isPrioritized s.db q id then [.removed] else []
  | .deleteScheduled messageId => if messageId = id then unscheduled id s else []
  | .purge l q => if (s.db.lists (l.key q)).any (·.uuid = id) then [.removed] else []
  | .purgePriorityQueue q => if isPrioritized s.db q id then [.removed] else []
  | .purgeScheduledMessagesQueue => unscheduled id s
  | _ => []

/-! ## Stages -/

/-- The lists of a stage. -/
inductive Keeps (config : String → ConsumerConfig) : LifeStage → RedisKey → Prop
  | pending (q : TMessageQueue) : Keeps config .pending q.keys.keyQueue
  | processing (c : String) : Keeps config .processing ((config c).keyQueueProcessing c)
  | delayed : Keeps config .delayed getGlobalKeys.keyQueueDelay
  | requeued : Keeps config .requeued getGlobalKeys.keyQueueRequeue
  | acknowledged (q : TMessageQueue) : Keeps config .acknowledged q.keys.keyQueueAcknowledgedMessages
  | deadLettered (q : TMessageQueue) : Keeps config .deadLettered q.keys.keyQueueDL

/-- The sorted sets of a stage, with their payloads. -/
inductive Stores : LifeStage → RedisKey → RedisKey → Prop
  | pending (q : TMessageQueue) : Stores .pending q.keys.keyQueuePriority q.keys.keyPendingMessagesWithPriority
  | scheduled : Stores .scheduled getGlobalKeys.keyQueueScheduled getGlobalKeys.keyScheduledMessages

/-- The message is in a list of the stage, or in a sorted set with its payload. -/
inductive At (config : String → ConsumerConfig) (db : Db) (id : String) (σ : LifeStage) : Prop
  | list {key} : Keeps config σ key → copies db id (.list key) ≠ 0 → At config db id σ
  | store {zk hk} : Stores σ zk hk → .id id ∈ (db.zsets zk).members → copies db id (.field hk (.id id)) ≠ 0 →
    At config db id σ

/-- Where the message is; if it was produced and is nowhere, the schedule worker may still have it. -/
inductive Stands (config : String → ConsumerConfig) (id : String) (s : State) : LifeStage → Prop
  | unborn : (∀ r ∈ s.produced, r.message.uuid ≠ id) → Stands config id s .unborn
  | stored {σ} : At config s.db id σ → Stands config id s σ
  | withdrawn : (∃ r ∈ s.produced, r.message.uuid = id) → (∀ σ, ¬At config s.db id σ) →
    s.scheduleTick.reads id ≠ 0 → Stands config id s .withdrawn
  | gone : (∃ r ∈ s.produced, r.message.uuid = id) → (∀ σ, ¬At config s.db id σ) →
    s.scheduleTick.reads id = 0 → Stands config id s .gone

/-- The stage that a slot belongs to, by the type of its key. -/
def LifeStage.ofSlot : Slot → LifeStage
  | .list key =>
    match key.type with
    | .keyQueue => .pending
    | .keyQueueProcessing => .processing
    | .keyQueueDelay => .delayed
    | .keyQueueRequeue => .requeued
    | .keyQueueAcknowledgedMessages => .acknowledged
    | .keyQueueDL => .deadLettered
    | _ => .gone
  | .field key _ =>
    match key.type with
    | .keyPendingMessagesWithPriority => .pending
    | .keyScheduledMessages => .scheduled
    | _ => .gone

section

variable {cron : CronParser} {lt : Text → Text → Bool} {config : String → ConsumerConfig}
variable {s s' : State} {id c : String} {db db' : Db} {m : Message} {q : TMessageQueue}
variable {σ σ' σ₀ σ₁ : LifeStage} {t : Turn} {slot : Slot} {key zk hk : RedisKey} {now : ℕ} {withPriority : Bool}

/-! ## Where the message is -/

theorem Keeps.ofSlot (h : Keeps config σ key) : .ofSlot (.list key) = σ := by cases h <;> rfl

theorem Stores.ofSlot (h : Stores σ zk hk) (text : Text) : .ofSlot (.field hk text) = σ := by cases h <;> rfl

/-- The copy in a hash is the payload. -/
theorem copies_payload : copies db id (.field hk (.id id)) ≠ 0 ↔ (db.hashes hk (.id id)).isSome = true := by
  cases hm : db.hashes hk (.id id) <;> simp [copies, hm]

/-- A hash has one sorted set. -/
theorem Stores.zset_unique {zk' : RedisKey} (h : Stores σ zk hk) (h' : Stores σ' zk' hk) : zk' = zk := by
  generalize hhk : hk = hk' at h
  cases h with
  | pending q =>
    cases h' with
    | pending q' => rw [TMessageQueue.eq_of_key hhk]
    | scheduled => simp [RedisKey.ext_iff] at hhk
  | scheduled =>
    cases h' with
    | pending q' => simp [RedisKey.ext_iff] at hhk
    | scheduled => rfl

/-- A sorted set has one hash. -/
theorem Stores.hash_unique {hk' : RedisKey} (h : Stores σ zk hk) (h' : Stores σ' zk hk') : hk' = hk := by
  generalize hzk : zk = zk' at h
  cases h with
  | pending q =>
    cases h' with
    | pending q' => rw [TMessageQueue.eq_of_key hzk]
    | scheduled => simp [RedisKey.ext_iff] at hzk
  | scheduled =>
    cases h' with
    | pending q' => simp [RedisKey.ext_iff] at hzk
    | scheduled => rfl

/-- The copy that the stage stands for. -/
theorem At.exists_slot (h : At config db id σ) : ∃ slot, copies db id slot ≠ 0 ∧ .ofSlot slot = σ := by
  cases h with
  | list hk hcopy => exact ⟨_, hcopy, hk.ofSlot⟩
  | store hs _ hcopy => exact ⟨_, hcopy, hs.ofSlot _⟩

/-- A message with one copy is at one stage. -/
theorem At.unique (h : At config db id σ) (h' : At config db id σ') (hsole : AtMostOne (copies db id)) : σ = σ' := by
  obtain ⟨slot, hcopy, rfl⟩ := h.exists_slot
  obtain ⟨slot', hcopy', rfl⟩ := h'.exists_slot
  rw [hsole.place_unique hcopy hcopy']

/-- What keeps the copies in the slots of the stages, and their members, keeps the stage. -/
theorem At.mono (h : At config db id σ)
    (hcopies : ∀ slot, .ofSlot slot = σ → copies db id slot ≠ 0 → copies db' id slot ≠ 0)
    (hmem : ∀ {zk hk}, Stores σ zk hk → copies db id (.field hk (.id id)) ≠ 0 →
      .id id ∈ (db.zsets zk).members → .id id ∈ (db'.zsets zk).members) : At config db' id σ := by
  cases h with
  | list hk hcopy => exact .list hk (hcopies _ hk.ofSlot hcopy)
  | store hs hm hcopy => exact .store hs (hmem hs hcopy hm) (hcopies _ (hs.ofSlot _) hcopy)

theorem At.of_sameFor (h : At config db id σ) (hs : SameFor db' db id) : At config db' id σ := by
  refine h.mono (fun slot _ hcopy => ?_) (fun {zk _} _ _ hm => ?_)
  · rwa [copies_sameFor hs]
  · obtain ⟨n, hn⟩ := SortedSet.exists_score.mpr hm
    exact SortedSet.exists_score.mp ⟨n, (hs.scores zk).trans hn⟩

/-- Nothing is left of a message whose only copy went, or lost its member. -/
theorem not_at_of_drop (hsole : AtMostOne (copies db id)) (hslot : copies db id slot ≠ 0)
    (hle : ∀ slot, copies db' id slot ≤ copies db id slot)
    (hgone : copies db' id slot = 0 ∨ ∃ σ zk hk, Stores σ zk hk ∧ slot = .field hk (.id id) ∧
      .id id ∉ (db'.zsets zk).members) : ¬At config db' id σ := by
  have hhere : ∀ {slot'}, copies db' id slot' ≠ 0 → slot' = slot := fun {slot'} hcopy =>
    hsole.place_unique (fun h0 => hcopy (Nat.le_zero.mp (h0 ▸ hle slot'))) hslot
  intro h
  cases h with
  | list hk hcopy =>
    have heq := hhere hcopy
    rcases hgone with h0 | ⟨_, _, _, _, hfield, _⟩
    · exact hcopy (heq ▸ h0)
    · rw [hfield] at heq
      cases heq
  | store hs hm hcopy =>
    have heq := hhere hcopy
    rcases hgone with h0 | ⟨_, zk, hk, hs', hfield, hnot⟩
    · exact hcopy (heq ▸ h0)
    · rw [hfield] at heq
      cases heq
      rw [hs'.zset_unique hs] at hm
      exact hnot hm

/-- A message that is somewhere was produced. -/
theorem Base.known_of_copies (hb : Base config s) (h : copies s.db id slot ≠ 0) :
    ∃ r ∈ s.produced, r.message.uuid = id := by
  by_contra hnone
  exact h (hb.copies_zero (fun r hr hid => hnone ⟨r, hr, hid⟩) slot)

/-- A message that is at a stage stands there only. -/
theorem Stands.of_at (h : Stands config id s σ) (hb : Base config s) (ht : Tracked id s) (hat : At config s.db id σ₀) :
    σ = σ₀ := by
  cases h with
  | unborn hnone =>
    obtain ⟨slot, hcopy, _⟩ := hat.exists_slot
    exact absurd (hb.copies_zero hnone slot) hcopy
  | stored h => exact h.unique hat ht.sole
  | withdrawn _ hnone | gone _ hnone => exact absurd hat (hnone σ₀)

/-- Keys that are as they were keep the stage. -/
theorem At.frame (h : At config db id σ) (hlist : ∀ {key}, Keeps config σ key → SameAt db' db key)
    (hstore : ∀ {zk hk}, Stores σ zk hk → SameAt db' db zk ∧ SameAt db' db hk) : At config db' id σ := by
  cases h with
  | list hk hcopy =>
    refine .list hk ?_
    rw [copies, (hlist hk).lists]
    exact hcopy
  | store hs hm hcopy =>
    obtain ⟨hz, hh⟩ := hstore hs
    refine .store hs (by rwa [hz.zsets]) ?_
    rw [copies, hh.hashes]
    exact hcopy

/-! ## Turns of a step -/

/-- The turns lead from the stage to the stage after the step. -/
def Follows (config : String → ConsumerConfig) (id : String) (σ : LifeStage) (life : List Turn) (s' : State) : Prop :=
  ∃ σ', lifeCycle.follow σ life = some σ' ∧ Stands config id s' σ'

theorem Follows.stays (h : Stands config id s' σ) : Follows config id σ [] s' := ⟨σ, rfl, h⟩

theorem Follows.turn (ht : σ.next t = some σ') (h : Stands config id s' σ') : Follows config id σ [t] s' :=
  ⟨σ', by rw [Machine.follow_singleton]; exact ht, h⟩

/-- The stage is kept when the stores keep it and the actors know as much as before. -/
theorem Stands.keep (h : Stands config id s σ)
    (hproduced : (∃ r ∈ s'.produced, r.message.uuid = id) ↔ ∃ r ∈ s.produced, r.message.uuid = id)
    (hreads : s'.scheduleTick.reads id = 0 ↔ s.scheduleTick.reads id = 0)
    (hat : ∀ σ, At config s'.db id σ ↔ At config s.db id σ) : Stands config id s' σ := by
  cases h with
  | unborn hnone =>
    refine .unborn fun r hr hid => ?_
    obtain ⟨r', hr', hid'⟩ := hproduced.mp ⟨r, hr, hid⟩
    exact hnone r' hr' hid'
  | stored h => exact .stored ((hat σ).mpr h)
  | withdrawn hknown hnone hr =>
    exact .withdrawn (hproduced.mpr hknown) (fun σ h => hnone σ ((hat σ).mp h)) (mt hreads.mp hr)
  | gone hknown hnone hr =>
    exact .gone (hproduced.mpr hknown) (fun σ h => hnone σ ((hat σ).mp h)) (hreads.mpr hr)

/-- A step that is about other messages keeps the stage. -/
theorem Stands.sameFor (h : Stands config id s σ) (hproduced : s'.produced = s.produced)
    (htick : s'.scheduleTick = s.scheduleTick) (hs : SameFor s'.db s.db id) : Stands config id s' σ :=
  h.keep (by rw [hproduced]) (by rw [htick]) fun _ => ⟨fun h => h.of_sameFor hs.symm, fun h => h.of_sameFor hs⟩

/-- A message that is moved takes a turn. -/
theorem Stands.moved (h : Stands config id s σ) (hb : Base config s) (ht : Tracked id s)
    (hsource : At config s.db id σ₀) (hnext : σ₀.next t = some σ₁) (htarget : At config s'.db id σ₁) :
    Follows config id σ [t] s' := by
  rw [h.of_at hb ht hsource]
  exact .turn hnext (.stored htarget)

/-- A message that goes out of the stores, which the schedule worker has not read, is gone. -/
theorem Stands.dropped (h : Stands config id s σ) (hb : Base config s) (ht : Tracked id s)
    (hsource : At config s.db id σ₀) (hnext : σ₀.next t = some .gone) (hproduced : s.produced ⊆ s'.produced)
    (hreads : s'.scheduleTick.reads id = 0) (hnone : ∀ σ, ¬At config s'.db id σ) : Follows config id σ [t] s' := by
  rw [h.of_at hb ht hsource]
  obtain ⟨slot, hcopy, _⟩ := hsource.exists_slot
  obtain ⟨r, hr, hid⟩ := hb.known_of_copies hcopy
  exact .turn hnext (.gone ⟨r, hproduced hr, hid⟩ hnone hreads)

/-- The schedule worker has read no message that is outside the scheduled store. -/
theorem Tracked.reads_zero (ht : Tracked id s) (h : At config s.db id σ) (hne : σ ≠ .scheduled) :
    s.scheduleTick.reads id = 0 := by
  by_contra hr
  obtain ⟨slot, hcopy, rfl⟩ := h.exists_slot
  exact hne (by rw [ht.read hr slot hcopy]; rfl)

end

end RedisSmq.Queue
