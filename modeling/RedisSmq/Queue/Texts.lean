import RedisSmq.DbText
import RedisSmq.Queue.Modes

/-!
# Runs on texts

`requests` are the commands that an action sends to the Redis server. In a run whose names are valid, whose identifiers are
no JSON and whose messages have JSON bodies, every command has texts, and the texts of all commands of the run, sent one
after the other to an empty key space, never meet a value of the wrong type. What they lead to is the key space that the
database stands for: a message that is read is the one that its text is parsed to (`texts_reachable`).
-/

namespace RedisSmq

open KeyText

/-- No name of the queue has the separator of keys in it. -/
def TMessageQueue.Separable (q : TMessageQueue) : Prop := '|' ∉ q.ns.toList ∧ '|' ∉ q.name.toList

instance (q : TMessageQueue) : Decidable q.Separable := by
  unfold TMessageQueue.Separable
  infer_instance

/-- The message can be stored: its body is JSON, its identifier is not, and its queue has a valid name. -/
structure Message.Plain (m : Message) : Prop where
  storable : m.Storable
  uuid : (Text.id m.uuid).Plain
  queue : ∀ q, m.queue = some q → q.Separable

namespace Queue

open RedisKeys Db Transition

/-- The commands of `zpophgetrpush.lua`: it removes the first identifier and its payload, and pushes the payload if there
is one. -/
def popCmds (db : Db) (sortedSet hash list : RedisKey) : List Cmd :=
  match (db.zsets sortedSet).first with
  | none => []
  | some messageId =>
    .zrem sortedSet messageId :: .hdel hash messageId :: ((db.hashes hash messageId).map (Cmd.rpush list)).toList

/-- The commands that an action sends, in the order in which they are executed. -/
def requests (cron : CronParser) (config : String → ConsumerConfig) (s : State) : Action → List Cmd
  | .produce q withPriority m now =>
    match Producer.produceMessage cron q.ns q.name withPriority m now with
    | .ok r => r.1
    | .error _ => []
  | .dequeue id =>
    let keys := (config id).keys
    let keyQueueProcessing := (config id).keyQueueProcessing id
    if (config id).priorityQueue then
      popCmds s.db keys.keyQueuePriority keys.keyPendingMessagesWithPriority keyQueueProcessing
    else [.rpoplpush keys.keyQueue keyQueueProcessing]
  | .acknowledge id =>
    [ProcessingHandler.acknowledge (config id).ns (config id).queueName ((config id).keyQueueProcessing id)]
  | .unacknowledge id cause now =>
    match s.consumers id with
    | .holding m => [Broker.retry (config id).ns (config id).queueName ((config id).keyQueueProcessing id) m cause now]
    | _ => []
  | .delayExec =>
    match s.delayTick with
    | .fetched b => (parallel (DelayHandler.scheduleTask cron b.now) b.messages).toOption.getD []
    | _ => []
  | .requeueExec =>
    match s.requeueTick with
    | .fetched b => (parallel (RequeueWorker.requeueTask b.withPriority) b.messages).toOption.getD []
    | _ => []
  | .scheduleExec =>
    match s.scheduleTick with
    | .messages withPriority now (some m :: _) =>
      (ScheduleHandler.enqueueScheduledMessage cron m withPriority now).toOption.getD []
    | _ => []
  | .requestExec index now =>
    match s.requests[index]? with
    | some r => (r.cmds now).toOption.getD []
    | none => []
  | .deletePendingMessageWithPriority q messageId => EnqueueHandler.deletePendingMessageWithPriority q messageId
  | .deleteScheduled messageId => ScheduleHandler.deleteScheduled messageId
  | .purge l q => [.del (l.key q)]
  | .purgePriorityQueue q => [QueueManager.purgePriorityQueue q]
  | .purgeScheduledMessagesQueue => [QueueManager.purgeScheduledMessagesQueue]
  | _ => []

/-- The consumer has a valid name, as has its queue. -/
def ConsumerConfig.Valid (config : ConsumerConfig) (id : String) : Prop := config.queue.Separable ∧ '|' ∉ id.toList

/-- The names that come from outside are valid, identifiers are no JSON, and bodies are JSON. -/
def Sendable (config : String → ConsumerConfig) : Action → Prop
  | .produce q _ m _ => q.Separable ∧ m.Storable ∧ (Text.id m.uuid).Plain
  | .dequeue id | .acknowledge id | .unacknowledge id _ _ => (config id).Valid id
  | .requeueMessageRead _ q _ _ _ _ | .deleteMessageRead _ q _ _ | .purge _ q | .purgePriorityQueue q => q.Separable
  | .deletePendingMessageWithPriority q messageId => q.Separable ∧ (Text.id messageId).Plain
  | .deleteScheduled messageId => (Text.id messageId).Plain
  | _ => True

instance (config : String → ConsumerConfig) (a : Action) : Decidable (Sendable config a) := by
  cases a <;> unfold Sendable <;> try unfold ConsumerConfig.Valid
  all_goals infer_instance

/-- The queue that a request names. -/
def Request.queue : Request → TMessageQueue
  | .requeue _ q _ _ _ | .delete _ q _ => q

/-- The message that a request has read. -/
def Request.message : Request → Message
  | .requeue _ _ _ _ msg | .delete _ _ msg => msg

/-- What actors remember can be sent. -/
structure Ready (s : State) : Prop where
  held : ∀ slot m, s.db.Holds slot m → m.Plain
  members : ∀ key, ∀ t ∈ (s.db.zsets key).members, t.Plain
  carried : ∀ m, Carries s m → m.Plain
  requests : ∀ r ∈ s.requests, r.queue.Separable ∧ r.message.Plain

section

variable {cron : CronParser} {lt : Text → Text → Bool} {config : String → ConsumerConfig}
variable {s s' : State} {a : Action} {id : String} {m m' : Message} {q : TMessageQueue} {now : ℕ} {withPriority : Bool}

/-! ## Messages that stay plain -/

theorem plain_of_same (h : m'.Plain) (hs : SameMessage m m') : m.Plain := by
  have hbody : m.body = m'.body := congrArg Content.body hs.content
  refine ⟨?_, ?_, fun q hq => h.queue q (hs.queue ▸ hq)⟩
  · unfold Message.Storable
    rw [hbody]
    exact h.storable
  · rw [hs.uuid]
    exact h.uuid

theorem plain_sent (hbody : m.Storable) (huuid : (Text.id m.uuid).Plain) (hq : q.Separable) : (sent q m).Plain :=
  ⟨hbody, huuid, fun q' hq' => by cases hq'; exact hq⟩

/-! ## The blocks -/

theorem usedAs_queue {type : ERedisKey} (hq : q.Separable) (k : KeySpace.Kind) (hk : kindOf type = k) :
    UsedAs k ⟨q.ns, type, [q.name]⟩ := by
  refine ⟨⟨hq.1, fun t ht => ?_⟩, hk⟩
  rw [List.mem_singleton.mp ht]
  exact hq.2

theorem usedAs_global {type : ERedisKey} (k : KeySpace.Kind) (hk : kindOf type = k) :
    UsedAs k ⟨globalNamespace, type, []⟩ := by
  have hns : '|' ∉ globalNamespace.toList := by decide
  exact ⟨⟨hns, fun _ ht => by cases ht⟩, hk⟩

theorem usedAs_processing {config : ConsumerConfig} (h : config.Valid id) :
    UsedAs .list (config.keyQueueProcessing id) := by
  refine ⟨⟨h.1.1, fun t ht => ?_⟩, rfl⟩
  rcases List.mem_pair.mp ht with rfl | rfl
  · exact h.1.2
  · exact h.2

theorem wellFormed_enqueueCmds (h : m.Plain) (hq : q.Separable) :
    ∀ c ∈ EnqueueHandler.enqueueCmds q m withPriority now, c.WellFormed := by
  have hm : (EnqueueHandler.enqueued m withPriority now).Plain := plain_of_same h (sameMessage_enqueued m withPriority now)
  intro c hc
  cases withPriority with
  | false =>
    cases List.mem_singleton.mp hc
    exact ⟨usedAs_queue hq .list rfl, hm.storable⟩
  | true =>
    rcases List.mem_pair.mp hc with rfl | rfl
    · exact ⟨usedAs_queue hq .hash rfl, h.uuid, hm.storable⟩
    · exact ⟨usedAs_queue hq .zset rfl, h.uuid⟩

theorem wellFormed_storeCmds {r : ℕ × Message} (h : r.2.Plain) : ∀ c ∈ ScheduleHandler.storeCmds r, c.WellFormed := by
  intro c hc
  unfold ScheduleHandler.storeCmds at hc
  split at hc
  · rcases List.mem_pair.mp hc with rfl | rfl
    · exact ⟨usedAs_global .zset rfl, h.uuid⟩
    · exact ⟨usedAs_global .hash rfl, h.uuid, h.storable⟩
  · rcases List.mem_pair.mp hc with rfl | rfl
    · exact ⟨usedAs_global .zset rfl, h.uuid⟩
    · exact ⟨usedAs_global .hash rfl, h.uuid⟩

theorem wellFormed_schedule (h : m.Plain) : ∀ c ∈ (ScheduleHandler.schedule cron m now).1, c.WellFormed := by
  have hm : ((ScheduleHandler.getNextScheduledTimestamp cron now m).2.setScheduledAt now).Plain :=
    plain_of_same h ⟨(sameMessage_next cron now m).content, (sameMessage_next cron now m).queue,
      (sameMessage_next cron now m).expired⟩
  intro c hc
  rw [schedule_eq] at hc
  dsimp only at hc
  split at hc
  · exact wellFormed_storeCmds hm c hc
  · cases hc

/-- A producer makes the commands of `enqueueCmds` in one of two orders, or schedules. -/
theorem wellFormed_produceMessage {r : List Cmd × Bool} (hbody : m.Storable) (huuid : (Text.id m.uuid).Plain)
    (hq : q.Separable) (hr : Producer.produceMessage cron q.ns q.name withPriority m now = .ok r) :
    ∀ c ∈ r.1, c.WellFormed := by
  have hm : (sent q m).Plain := plain_sent hbody huuid hq
  intro c hc
  simp only [Producer.produceMessage] at hr
  split at hr
  · rw [← show ScheduleHandler.schedule cron (sent q m) now = r from Except.ok.inj hr] at hc
    exact wellFormed_schedule hm c hc
  · apply @wellFormed_enqueueCmds (sent q m) q now withPriority hm hq
    cases withPriority <;> cases hr
    · exact hc
    · rcases List.mem_pair.mp hc with rfl | rfl
      · exact List.mem_cons_of_mem _ List.mem_cons_self
      · exact List.mem_cons_self

/-! ## The commands of an action -/

theorem wellFormed_parallel {task : Message → Except String (List Cmd)} {ms : List Message}
    (h : ∀ i ∈ ms, ∀ cs, task i = .ok cs → ∀ c ∈ cs, c.WellFormed) :
    ∀ c ∈ (parallel task ms).toOption.getD [], c.WellFormed := by
  intro c hc
  cases hcmds : parallel task ms with
  | error e =>
    rw [hcmds] at hc
    cases hc
  | ok cmds =>
    rw [hcmds] at hc
    obtain ⟨i, hi, cs, hcs, hc⟩ := mem_parallel hcmds c hc
    exact h i hi cs hcs c hc

theorem wellFormed_scheduleTask (h : m.Plain) {cs : List Cmd} (hcs : DelayHandler.scheduleTask cron now m = .ok cs) :
    ∀ c ∈ cs, c.WellFormed := by
  obtain ⟨p, _, rfl⟩ := scheduleTask_ok hcs
  intro c hc
  rcases List.mem_cons.mp hc with rfl | hc
  · exact ⟨usedAs_global .list rfl, h.storable⟩
  · exact wellFormed_storeCmds (plain_of_same h sameMessage_delayed) c hc

theorem wellFormed_requeueTask (h : m.Plain) {cs : List Cmd} (hcs : RequeueWorker.requeueTask withPriority m = .ok cs) :
    ∀ c ∈ cs, c.WellFormed := by
  obtain ⟨q, hq, rfl⟩ := requeueTask_ok hcs
  have hqueue := h.queue q hq
  intro c hc
  rcases List.mem_cons.mp hc with rfl | hc
  · exact ⟨usedAs_global .list rfl, h.storable⟩
  · cases withPriority with
    | false =>
      cases List.mem_singleton.mp hc
      exact ⟨usedAs_queue hqueue .list rfl, h.storable⟩
    | true =>
      cases List.mem_singleton.mp hc
      exact ⟨usedAs_queue hqueue .zset rfl, h.storable⟩

theorem usedAs_source (source : QueueList) (hq : q.Separable) : UsedAs .list (source.key q) := by
  cases source <;> exact usedAs_queue hq .list rfl

theorem wellFormed_request {r : Request} (hq : r.queue.Separable) (hm : r.message.Plain) {cmds : List Cmd}
    (h : r.cmds now = .ok cmds) : ∀ c ∈ cmds, c.WellFormed := by
  intro c hc
  cases r with
  | requeue source q withPriority priority msg =>
    obtain ⟨m', hsame, rfl⟩ := requeueListMessage_ok h
    rcases List.mem_cons.mp hc with rfl | hc
    · exact ⟨usedAs_source source hq, hm.storable⟩
    · exact wellFormed_enqueueCmds (plain_of_same (plain_sent hm.storable hm.uuid hq) hsame) hq c hc
  | delete source q msg =>
    cases h
    cases List.mem_singleton.mp hc
    exact ⟨usedAs_source source hq, hm.storable⟩

theorem wellFormed_toOption {x : Except String (List Cmd)} (h : ∀ cmds, x = .ok cmds → ∀ c ∈ cmds, c.WellFormed) :
    ∀ c ∈ x.toOption.getD [], c.WellFormed := by
  cases x with
  | error e => exact fun c hc => by cases hc
  | ok cmds => exact h cmds rfl

/-- **The commands of an action** are well formed, when the action and what actors remember can be sent. -/
theorem wellFormed_requests (h : Ready s) (ha : Sendable config a) : ∀ c ∈ requests cron config s a, c.WellFormed := by
  intro c hc
  cases a with
  | produce q withPriority m now =>
    obtain ⟨hq, hbody, huuid⟩ := ha
    simp only [requests] at hc
    split at hc
    · rename_i r hr
      exact wellFormed_produceMessage hbody huuid hq hr c hc
    · cases hc
  | dequeue id =>
    have hprocessing := usedAs_processing ha
    simp only [requests] at hc
    split at hc
    · unfold popCmds at hc
      split at hc
      · cases hc
      · rename_i t ht
        have hplain := h.members _ t (SortedSet.mem_of_first ht)
        rcases List.mem_cons.mp hc with rfl | hc
        · exact ⟨usedAs_queue ha.1 .zset rfl, hplain⟩
        · rcases List.mem_cons.mp hc with rfl | hc
          · exact ⟨usedAs_queue ha.1 .hash rfl, hplain⟩
          · obtain ⟨m, hm, rfl⟩ := Option.mem_toList.mp hc |> Option.map_eq_some_iff.mp
            exact ⟨hprocessing, (h.held (.field _ _) m hm).storable⟩
    · cases List.mem_singleton.mp hc
      exact ⟨usedAs_queue ha.1 .list rfl, hprocessing⟩
  | acknowledge id =>
    cases List.mem_singleton.mp hc
    exact ⟨usedAs_processing ha, usedAs_queue ha.1 .list rfl⟩
  | unacknowledge id cause now =>
    simp only [requests] at hc
    split at hc
    · rename_i m _
      cases List.mem_singleton.mp hc
      rw [Broker.retry_eq]
      cases Broker.destination m cause now with
      | deadLetter _ => exact ⟨usedAs_processing ha, usedAs_queue ha.1 .list rfl⟩
      | delay | requeue => exact ⟨usedAs_processing ha, usedAs_global .list rfl⟩
    · cases hc
  | delayExec =>
    simp only [requests] at hc
    split at hc
    · rename_i b hb
      exact wellFormed_parallel (fun i hi _ hcs => wellFormed_scheduleTask (h.carried i (.delay hb hi)) hcs) c hc
    · cases hc
  | requeueExec =>
    simp only [requests] at hc
    split at hc
    · rename_i b hb
      exact wellFormed_parallel (fun i hi _ hcs => wellFormed_requeueTask (h.carried i (.requeue hb hi)) hcs) c hc
    · cases hc
  | scheduleExec =>
    simp only [requests] at hc
    split at hc
    · rename_i withPriority now m rest ht
      have hm := h.carried m (.schedule ht List.mem_cons_self)
      apply wellFormed_toOption _ c hc
      intro cmds hcmds c hc
      obtain ⟨q, hq, rfl⟩ := enqueueScheduledMessage_cases hcmds
      rcases List.mem_append.mp hc with hc | hc
      · exact wellFormed_enqueueCmds hm (hm.queue q hq) c hc
      · have henqueued := plain_of_same hm (sameMessage_enqueued m withPriority now)
        exact wellFormed_storeCmds (plain_of_same henqueued (sameMessage_next cron now _)) c hc
    · cases hc
  | requestExec index now =>
    simp only [requests] at hc
    split at hc
    · rename_i r hr
      obtain ⟨hq, hm⟩ := h.requests r (List.mem_of_getElem? hr)
      exact wellFormed_toOption (fun cmds hcmds => wellFormed_request hq hm hcmds) c hc
    · cases hc
  | deletePendingMessageWithPriority q messageId =>
    rcases List.mem_pair.mp hc with rfl | rfl
    · exact ⟨usedAs_queue ha.1 .hash rfl, ha.2⟩
    · exact ⟨usedAs_queue ha.1 .zset rfl, ha.2⟩
  | deleteScheduled messageId =>
    rcases List.mem_pair.mp hc with rfl | rfl
    · exact ⟨usedAs_global .hash rfl, ha⟩
    · exact ⟨usedAs_global .zset rfl, ha⟩
  | purge l q =>
    cases List.mem_singleton.mp hc
    exact (usedAs_source l ha).1
  | purgePriorityQueue q =>
    cases List.mem_singleton.mp hc
    exact (show UsedAs .zset q.keys.keyQueuePriority from usedAs_queue ha .zset rfl).1
  | purgeScheduledMessagesQueue =>
    cases List.mem_singleton.mp hc
    exact (show UsedAs .zset getGlobalKeys.keyQueueScheduled from usedAs_global .zset rfl).1
  | delayFetch | requeueFetch | scheduleFetchIds | scheduleFetchMessages | requeueMessageRead | deleteMessageRead =>
    cases hc

theorem zpophgetrpush_requests (db : Db) (zk hk lk : RedisKey) :
    (db.zpophgetrpush zk hk lk).1 = db.execAll lt (popCmds db zk hk lk) := by
  unfold zpophgetrpush popCmds
  cases (db.zsets zk).first with
  | none => rfl
  | some messageId =>
    dsimp only
    cases db.hashes hk messageId <;> rfl

/-- The database after an action is the one after its commands. -/
theorem step_requests (h : step cron lt config s a = some s') : s'.db = s.db.execAll lt (requests cron config s a) := by
  cases a with
  | produce q withPriority m now =>
    simp only [step] at h
    simp only [requests]
    split at h
    · rename_i hcmds
      cases h
      rw [hcmds]
    · cases h
  | dequeue id =>
    simp only [step, dequeueMessage] at h
    simp only [requests]
    split at h
    · split at h
      · rename_i hmode
        rw [if_pos hmode]
        split at h <;> cases h <;> exact zpophgetrpush_requests _ _ _ _
      · rename_i hmode
        rw [if_neg hmode]
        split at h <;> cases h
        rfl
    · cases h
  | acknowledge id =>
    simp only [step, settle] at h
    split at h <;> cases h
    rfl
  | unacknowledge id cause now =>
    simp only [step, settle] at h
    simp only [requests]
    cases hm : s.consumers id with
    | idle | failed => rw [hm] at h; cases h
    | holding m =>
      rw [hm] at h
      cases h
      rfl
  | delayExec =>
    simp only [step, Queue.delayExec] at h
    simp only [requests]
    cases hb : s.delayTick with
    | idle | dead => rw [hb] at h; cases h
    | fetched b =>
      rw [hb] at h
      dsimp only at h ⊢
      cases hcmds : parallel (DelayHandler.scheduleTask cron b.now) b.messages with
      | error e => rw [hcmds] at h; cases h; rfl
      | ok cmds => rw [hcmds] at h; cases h; rfl
  | requeueExec =>
    simp only [step, Queue.requeueExec] at h
    simp only [requests]
    cases hb : s.requeueTick with
    | idle | dead => rw [hb] at h; cases h
    | fetched b =>
      rw [hb] at h
      dsimp only at h ⊢
      cases hcmds : parallel (RequeueWorker.requeueTask b.withPriority) b.messages with
      | error e => rw [hcmds] at h; cases h; rfl
      | ok cmds => rw [hcmds] at h; cases h; rfl
  | scheduleExec =>
    simp only [step, Queue.scheduleExec] at h
    simp only [requests]
    cases ht : s.scheduleTick with
    | idle | dead | ids => rw [ht] at h; cases h
    | messages withPriority now rest =>
      rw [ht] at h
      cases rest with
      | nil => cases h; rfl
      | cons i rest =>
        cases i with
        | none => cases h; rfl
        | some m =>
          dsimp only at h ⊢
          cases hcmds : ScheduleHandler.enqueueScheduledMessage cron m withPriority now with
          | error e => rw [hcmds] at h; cases h; rfl
          | ok cmds => rw [hcmds] at h; cases h; rfl
  | requestExec index now =>
    simp only [step, Queue.requestExec] at h
    simp only [requests]
    cases hr : s.requests[index]? with
    | none => rw [hr] at h; cases h
    | some r =>
      rw [hr] at h
      dsimp only at h ⊢
      cases hcmds : r.cmds now with
      | error e => rw [hcmds] at h; cases h; rfl
      | ok cmds => rw [hcmds] at h; cases h; rfl
  | deletePendingMessageWithPriority | deleteScheduled | purge | purgePriorityQueue | purgeScheduledMessagesQueue =>
    cases h
    rfl
  | delayFetch | requeueFetch | scheduleFetchIds | scheduleFetchMessages =>
    simp only [step] at h
    split at h <;> cases h
    rfl
  | requeueMessageRead | deleteMessageRead =>
    simp only [step] at h
    repeat' (split at h)
    all_goals cases h
    all_goals rfl

/-! ## Runs -/

/-- What the request remembers, it has read, and it names the queue that it was sent for. -/
theorem step_request {r : Request} (h : step cron lt config s a = some s') (hr : r ∈ s'.requests) :
    r ∈ s.requests ∨ (∃ slot, s.db.Holds slot r.message) ∧ (Sendable config a → r.queue.Separable) := by
  cases a with
  | requeueMessageRead source q index messageId withPriority priority =>
    simp only [step] at h
    split at h
    · rename_i msg hmsg
      split at h <;> cases h
      rcases List.mem_cons.mp hr with rfl | hr
      · obtain ⟨hget, _⟩ := Option.filter_eq_some_iff.mp hmsg
        exact .inr ⟨⟨.list _, List.mem_of_getElem? hget⟩, id⟩
      · exact .inl hr
    · cases h
  | deleteMessageRead source q index messageId =>
    simp only [step] at h
    split at h <;> cases h
    rename_i msg hmsg
    rcases List.mem_cons.mp hr with rfl | hr
    · obtain ⟨hget, _⟩ := Option.filter_eq_some_iff.mp hmsg
      exact .inr ⟨⟨.list _, List.mem_of_getElem? hget⟩, id⟩
    · exact .inl hr
  | requestExec index now =>
    simp only [step, Queue.requestExec] at h
    split at h
    · cases h
    · split at h <;> cases h <;> exact .inl (List.mem_of_mem_eraseIdx hr)
  | _ =>
    left
    simp only [step, dequeueMessage, settle, Queue.delayExec, Queue.requeueExec, Queue.scheduleExec] at h
    repeat' (split at h)
    all_goals cases h <;> exact hr

/-- A step puts plain messages only. -/
theorem plain_puts {slot : Slot} (h : Ready s) (ha : Sendable config a) (hp : StepPuts cron config s a slot m) :
    m.Plain := by
  cases hp with
  | @produceScheduled q _ m now =>
    obtain ⟨hq, hbody, huuid⟩ := ha
    have hsame := sameMessage_next cron now (sent q m)
    exact plain_of_same (plain_sent hbody huuid hq) ⟨hsame.content, hsame.queue, hsame.expired⟩
  | produceEnqueued =>
    obtain ⟨hq, hbody, huuid⟩ := ha
    exact plain_of_same (plain_sent hbody huuid hq) (sameMessage_enqueued _ _ _)
  | dequeuePriority _ hm => exact h.held (.field _ _) m hm
  | dequeue _ hm => exact h.held (.list _) m (List.mem_of_getLast? hm)
  | acknowledge hm => exact h.held (.list _) m (List.mem_of_head? hm)
  | unacknowledge _ hm =>
    apply h.held (.list _) m
    unfold movedOut at hm
    split at hm
    · exact List.mem_of_head? hm
    · exact List.mem_of_getLast? hm
    · exact List.mem_of_getLast? hm
  | delayed hb hi => exact plain_of_same (h.carried _ (.delay hb hi)) sameMessage_delayed
  | requeued hb _ hi => exact plain_of_same (h.carried _ (.requeue hb hi)) ⟨rfl, rfl, rfl⟩
  | enqueueScheduled ht => exact plain_of_same (h.carried _ (.schedule ht List.mem_cons_self)) (sameMessage_enqueued _ _ _)
  | @rescheduled withPriority now i rest ht =>
    have henqueued := plain_of_same (h.carried i (.schedule ht List.mem_cons_self))
      (sameMessage_enqueued i withPriority now)
    exact plain_of_same henqueued (sameMessage_next cron _ _)
  | requested hr hsame =>
    obtain ⟨hq, hm⟩ := h.requests _ (List.mem_of_getElem? hr)
    have hsent := plain_of_same (plain_sent hm.storable hm.uuid hq) hsame
    exact plain_of_same hsent (sameMessage_enqueued _ _ _)

theorem ready_init : Ready init where
  held slot m h := by cases slot <;> cases h
  members _ _ h := by cases h
  carried m h := by
    cases h with
    | delay h | requeue h | schedule h => cases h
    | request h => cases h
  requests _ h := by cases h

theorem ready_step (h : Ready s) (ha : Sendable config a) (hs : step cron lt config s a = some s')
    (hr : s'.db.Readable) : Ready s' where
  held slot m hm := by
    rcases step_holds hs hm with hm | hp
    · exact h.held slot m hm
    · exact plain_puts h ha hp
  members := hr.zsets
  carried m hc := by
    rcases step_carries hs hc with hc | ⟨slot, hm⟩
    · exact h.carried m hc
    · exact h.held slot m hm
  requests r hmem := by
    rcases step_request hs hmem with hmem | ⟨⟨slot, hm⟩, hq⟩
    · exact h.requests r hmem
    · exact ⟨hq ha, h.held slot _ hm⟩

end

/-- The key space after the texts of all commands that were sent, one after the other. -/
def keySpace (lt : JsString → JsString → Bool) (cmds : List Cmd) : Option (KeySpace String JsString) :=
  (cmds.mapM Cmd.command).bind fun commands => (KeySpace.empty.execAll lt commands).toOption

/-- More commands act on the key space that the earlier ones lead to. -/
theorem keySpace_append {lt : JsString → JsString → Bool} {cmds cmds' : List Cmd} {commands : List _}
    {ks ks' : KeySpace String JsString} (h : keySpace lt cmds = some ks) (hc : cmds'.mapM Cmd.command = some commands)
    (hks : ks.execAll lt commands = .ok ks') : keySpace lt (cmds ++ cmds') = some ks' := by
  obtain ⟨commands₀, h0, hks₀⟩ := Option.bind_eq_some_iff.mp h
  have hexec : KeySpace.empty.execAll lt commands₀ = .ok ks := by
    cases hr : (KeySpace.empty : KeySpace String JsString).execAll lt commands₀ with
    | error e => rw [hr] at hks₀; cases hks₀
    | ok ks₀ => rw [hr] at hks₀; cases hks₀; rfl
  have hall : (KeySpace.empty : KeySpace String JsString).execAll lt (commands₀ ++ commands) = .ok ks' := by
    rw [KeySpace.execAll, List.foldlM_append]
    rw [KeySpace.execAll] at hexec
    rw [hexec]
    exact hks
  unfold keySpace
  rw [List.mapM_append, h0, hc]
  show (KeySpace.execAll lt .empty (commands₀ ++ commands)).toOption = some ks'
  rw [hall]
  rfl

/-- **Runs on texts**: in every run with valid names, no command meets a value of the wrong type; the texts that the server
ends with are those of the database, and each message in it is the one that its text is parsed to. -/
theorem texts_reachable (cron : CronParser) (lt : JsString → JsString → Bool) (config : String → ConsumerConfig)
    {s : State × List Cmd} (h : Reach ((system cron (byText lt) config).logged (requests cron config))
      (fun _ a => Sendable config a) s) :
    (∃ ks, keySpace lt s.2 = some ks ∧ Holds ks s.1.db) ∧
      ∀ slot m, s.1.db.Holds slot m → Message.parse m.text = some m := by
  suffices hinv : (∃ ks, keySpace lt s.2 = some ks ∧ Holds ks s.1.db) ∧ Ready s.1 from
    ⟨hinv.1, fun slot m hm => Message.parse_text (hinv.2.held slot m hm).storable⟩
  refine h.invariant (I := fun s => (∃ ks, keySpace lt s.2 = some ks ∧ Holds ks s.1.db) ∧ Ready s.1)
    ⟨⟨_, rfl, holds_empty⟩, ready_init⟩ ?_
  rintro s a s' ⟨⟨ks, hks, hholds⟩, hready⟩ ha hs
  obtain ⟨hstep, hlog⟩ := Machine.logged_step hs
  obtain ⟨commands, ks', hcommands, hks', hholds'⟩ :=
    @holds_execAll _ lt _ hholds _ (@wellFormed_requests cron _ _ _ hready ha)
  rw [← step_requests hstep] at hholds'
  refine ⟨⟨ks', ?_, hholds'⟩, ready_step hready ha hstep hholds'.readable⟩
  rw [hlog]
  exact keySpace_append hks hcommands hks'

theorem texts_twoModes : ∃ s, run ((system minuteParser (byText (fun _ _ => false)) twoModes).logged
    (requests minuteParser twoModes)) (fun _ a => Sendable twoModes a) (init, [])
    [.produce ⟨"q", "ns"⟩ false (Message.new Message.defaultOpts "m" 0) 1,
      .produce ⟨"r", "ns"⟩ true (Message.new Message.defaultOpts "n" 0) 2, .dequeue "c", .dequeue "p",
      .unacknowledge "c" .timeout 3, .acknowledge "p"] = some s ∧
    (∃ ks, keySpace (fun _ _ => false) s.2 = some ks ∧ Holds ks s.1.db) ∧
      ∀ slot m, s.1.db.Holds slot m → Message.parse m.text = some m :=
  exists_run (by decide) fun _ h => texts_reachable _ _ _ h

end Queue

end RedisSmq
