import RedisSmq.Queue.RetryDelay

/-!
# Deliveries of one message

What the handlers of the consumers may rely on, for a message without CRON and repeat whose identifier stands for one
message, in either mode, whatever the workers and the message manager do in between:

- no two consumers have the message at the same time (`oneConsumer_reachable`);
- when a consumer has acknowledged it or it went to the dead-letter queue, the message is not handed to a consumer again
  until the message manager re-queues it (`final_reachable`).

The invariant of the second result is `Rests`: a message that is finished lies in the lists of acknowledged and
dead-lettered messages, if anywhere, and no worker has it in its batch.
-/

namespace RedisSmq.Queue

open RedisKeys Db Transition

/-- What happens to a message: a consumer gets it, it is acknowledged or dead-lettered, or the message manager re-queues
it. -/
inductive Delivery
  | handed
  | finished
  | requeued
deriving DecidableEq

/-- The request re-queues the message. -/
def Request.requeues (id : String) (now : ℕ) : Request → Bool
  | .requeue source q withPriority priority msg =>
    decide (msg.uuid = id) && (Request.requeue source q withPriority priority msg |>.cmds now).isOk
  | .delete .. => false

/-- What an action does to the message. -/
def deliveries (lt : Text → Text → Bool) (config : String → ConsumerConfig) (id : String) (s : State) :
    Action → List Delivery
  | .dequeue c =>
    match dequeueMessage lt config s c with
    | some s' => (held s' c id).map fun _ => .handed
    | none => []
  | .acknowledge c => (held s c id).map fun _ => .finished
  | .unacknowledge c cause now =>
    ((held s c id).filter fun m => Broker.destination m cause now ∉ [.delay, .requeue]).map fun _ => .finished
  | .requestExec index now => ((s.requests[index]?.toList).filter (·.requeues id now)).map fun _ => .requeued
  | _ => []

/-- After the last event of a log, the message is finished. -/
def isFinished : Bool → List Delivery → Bool
  | done, [] => done
  | done, .handed :: log => isFinished done log
  | _, .finished :: log => isFinished true log
  | _, .requeued :: log => isFinished false log

/-- No consumer gets the message while it is finished. -/
def NotRedelivered : Bool → List Delivery → Prop
  | _, [] => True
  | done, .handed :: log => done = false ∧ NotRedelivered done log
  | _, .finished :: log => NotRedelivered true log
  | _, .requeued :: log => NotRedelivered false log

/-- The message is out of the way: it lies in the lists of finished messages, if anywhere. -/
structure Rests (id : String) (s : State) : Prop where
  places : ∀ slot, copies s.db id slot ≠ 0 →
    ∃ key : RedisKey, slot = .list key ∧ key.type ∈ [ERedisKey.keyQueueAcknowledgedMessages, .keyQueueDL]
  read : s.scheduleTick.reads id = 0
  known : ∃ r ∈ s.produced, r.message.uuid = id

section

variable {cron : CronParser} {lt : Text → Text → Bool} {config : String → ConsumerConfig}
variable {s s' : State} {a : Action} {id c c' : String} {m m' i : Message} {slot : Slot} {now : ℕ}
variable {done : Bool} {log log' : List Delivery}

/-! ## Logs -/

theorem isFinished_append : isFinished done (log ++ log') = isFinished (isFinished done log) log' := by
  induction log generalizing done with
  | nil => rfl
  | cons e log ih => cases e <;> exact ih

theorem notRedelivered_append : NotRedelivered done (log ++ log') ↔
    NotRedelivered done log ∧ NotRedelivered (isFinished done log) log' := by
  induction log generalizing done with
  | nil => exact ⟨fun h => ⟨trivial, h⟩, fun h => h.2⟩
  | cons e log ih =>
    cases e with
    | handed => exact (and_congr_right' ih).trans and_assoc.symm
    | finished | requeued => exact ih

/-! ## Messages that rest -/

/-- A message that rests is in no other list. -/
theorem Rests.not_mem (hr : Rests id s) (hb : Base config s) {key : RedisKey}
    (hk : key.type ∉ [ERedisKey.keyQueueAcknowledgedMessages, .keyQueueDL]) (hm : m ∈ s.db.lists key) :
    m.uuid ≠ id := by
  intro huuid
  obtain ⟨_, heq, htype⟩ := hr.places _ (copies_of_holds hb.store.filed (.list key) hm huuid)
  cases heq
  exact hk htype

/-- Nor is it in a hash. -/
theorem Rests.not_field (hr : Rests id s) (hb : Base config s) {key : RedisKey} {t : Text}
    (hm : s.db.hashes key t = some m) : m.uuid ≠ id := by
  intro huuid
  obtain ⟨_, heq, _⟩ := hr.places _ (copies_of_holds hb.store.filed (.field key t) hm huuid)
  cases heq

/-- No consumer gets a message that rests. -/
theorem Rests.not_handed (hr : Rests id s) (hb : Base config s) (hidle : s.consumers c = .idle)
    (hs : dequeueMessage lt config s c = some s') : held s' c id = [] := by
  refine List.eq_nil_iff_forall_not_mem.mpr fun m hm => ?_
  obtain ⟨hc, huuid⟩ := mem_held.mp hm
  have hnil : s.db.lists ((config c).keyQueueProcessing c) = [] := by
    rw [hb.hands c, hidle]
    rfl
  rcases dequeueMessage_cases hs hnil with ⟨m', htakes, heq, _⟩ | ⟨heq, _⟩
  · rw [heq, Function.update_self] at hc
    cases hc
    cases htakes with
    | list _ hlast => exact hr.not_mem hb (by simp) (List.mem_of_getLast? hlast) huuid
    | store _ _ hm => exact hr.not_field hb hm huuid
  · rw [heq, Function.update_self] at hc
    cases hc

/-- A request that fails changes nothing. -/
theorem requestExec_error {index : ℕ} {r : Request} (hr : s.requests[index]? = some r) (hf : (r.cmds now).isOk = false)
    (hs : step cron lt config s (.requestExec index now) = some s') : s'.db = s.db := by
  simp only [step, requestExec, hr] at hs
  split at hs
  · rename_i hcmds
    rw [hcmds] at hf
    cases hf
  · cases hs
    rfl

/-- Where a message rests, a step leaves it, unless the message manager re-queues it. -/
theorem Rests.places_step (hr : Rests id s) (hb : Base config s) (hid : identifies id s a = true)
    (hs : step cron lt config s a = some s') (ha : .requeued ∉ deliveries lt config id s a)
    (hslot : copies s'.db id slot ≠ 0) : copies s.db id slot ≠ 0 := by
  obtain ⟨m, hm, huuid⟩ := exists_of_copies (hb.store.step hs).filed hslot
  have hnew : ∀ {q withPriority m now}, a = .produce q withPriority m now → m.uuid ≠ id := by
    rintro q withPriority m now rfl hm
    obtain ⟨r, hr, hrid⟩ := hr.known
    simp only [identifies, hm, ne_eq, not_true_eq_false, decide_false, Bool.false_or, List.all_eq_true,
      decide_eq_true_eq] at hid
    exact hid r hr hrid
  have hread : ∀ {withPriority now m rest}, s.scheduleTick = .messages withPriority now (some m :: rest) →
      m.uuid ≠ id := by
    rintro withPriority now m rest htick hid
    have hzero := hr.read
    rw [htick, reads_cons, if_pos hid] at hzero
    omega
  rcases step_holds hs hm with hold | hput
  · exact copies_of_holds hb.store.filed slot hold huuid
  · cases hput with
    | @produceScheduled q withPriority m now _ _ =>
      have hid' : m.uuid = id := (sameMessage_next cron now (sent q m)).uuid.symm.trans huuid
      exact absurd hid' (hnew rfl)
    | @produceEnqueued q withPriority m now _ =>
      have hid' : m.uuid = id := (sameMessage_enqueued (sent q m) withPriority now).uuid.symm.trans huuid
      exact absurd hid' (hnew rfl)
    | dequeuePriority _ hm' => exact absurd huuid (hr.not_field hb hm')
    | dequeue _ hm' => exact absurd huuid (hr.not_mem hb (by simp) (List.mem_of_getLast? hm'))
    | acknowledge hm' =>
      exact absurd huuid (hr.not_mem hb (by simp [ConsumerConfig.keyQueueProcessing]) (List.mem_of_head? hm'))
    | @unacknowledge c cause now m' m _ hm' =>
      have hmem : m ∈ s.db.lists ((config c).keyQueueProcessing c) := by
        cases hd : Broker.destination m' cause now <;> rw [hd] at hm'
        · exact List.mem_of_head? hm'
        · exact List.mem_of_getLast? hm'
        · exact List.mem_of_getLast? hm'
      exact absurd huuid (hr.not_mem hb (by simp [ConsumerConfig.keyQueueProcessing]) hmem)
    | @delayed b i p hf hi _ =>
      have hid' : i.uuid = id := huuid
      exact absurd hid' (hr.not_mem hb (by simp) ((hb.batches.delay b hf).subset hi))
    | @requeued b i q hf _ hi _ =>
      have hid' : i.uuid = id := huuid
      exact absurd hid' (hr.not_mem hb (by simp) ((hb.batches.requeue b hf).subset hi))
    | @enqueueScheduled withPriority now m rest q htick _ =>
      exact absurd ((sameMessage_enqueued m withPriority now).uuid.symm.trans huuid) (hread htick)
    | @rescheduled withPriority now m rest htick _ =>
      have hsame := (sameMessage_next cron now _).trans (sameMessage_enqueued m withPriority now)
      exact absurd (hsame.uuid.symm.trans huuid) (hread htick)
    | @requested index now source q withPriority priority msg m hreq hsent =>
      have hmsg : msg.uuid = id :=
        hsent.uuid.symm.trans ((sameMessage_enqueued m withPriority now).uuid.symm.trans huuid)
      -- the request is not one that re-queues the message, so it fails
      have hfails : (Request.requeue source q withPriority priority msg |>.cmds now).isOk = false := by
        by_contra hok
        simp only [deliveries, hreq, Option.toList_some, List.mem_map, List.mem_filter, List.mem_singleton,
          and_true, exists_eq_left, Request.requeues, hmsg, decide_true, Bool.true_and] at ha
        exact ha (by simpa using hok)
      rw [← requestExec_error hreq hfails hs]
      exact hslot

/-- While a message rests, the schedule worker does not read it. -/
theorem Rests.read_step (hr : Rests id s) (hb : Base config s) (hs : step cron lt config s a = some s') :
    s'.scheduleTick.reads id = 0 := by
  have htick := step_tick hs
  have hread := hr.read
  generalize s'.scheduleTick = tick at htick
  cases htick with
  | other => exact hread
  | @fetchIds withPriority now _ =>
    refine List.count_eq_zero.mpr fun hmem => ?_
    have hsub := (s.db.zsets getGlobalKeys.keyQueueScheduled).zrangebyscore_sublist 0 now
    obtain ⟨m, hm⟩ := hb.store.linked _ (hsub.subset hmem)
    have hfiled : Text.id id = .id m.uuid := hb.store.filed (.field _ _) m hm
    exact hr.not_field hb hm (Text.id.inj hfiled).symm
  | @fetchMessages withPriority ids now hold =>
    have hle := @reads_payloads id s.db hb.store.filed ids
    rw [hold] at hread
    simp only [ScheduleTick.reads] at hread ⊢
    omega
  | enqueued hold =>
    rw [hold, reads_cons] at hread
    omega
  | _ => rfl

theorem Rests.step (hr : Rests id s) (hb : Base config s) (hid : identifies id s a = true)
    (hs : Queue.step cron lt config s a = some s') (ha : .requeued ∉ deliveries lt config id s a) : Rests id s' where
  places slot hslot := hr.places slot (hr.places_step hb hid hs ha hslot)
  read := hr.read_step hb hs
  known := by
    obtain ⟨r, hr, huuid⟩ := hr.known
    exact ⟨r, produced_subset hs hr, huuid⟩

/-- A message whose only copy came into a list of finished messages rests. -/
theorem Tracked.rests (ht : Tracked id s) (hb : Base config s) {key : RedisKey}
    (hkey : key.type ∈ [ERedisKey.keyQueueAcknowledgedMessages, .keyQueueDL]) (hm : m ∈ s.db.lists key)
    (huuid : m.uuid = id) : Rests id s := by
  have hcopy : copies s.db id (.list key) ≠ 0 := copies_of_holds hb.store.filed (.list key) hm huuid
  refine ⟨fun slot hslot => ⟨key, ht.sole.place_unique hslot hcopy, hkey⟩, ?_, ?_⟩
  · by_contra hread
    cases ht.read hread _ hcopy
  · obtain ⟨⟨r, hr, hcontent⟩, _⟩ := hb.original m (.inl ⟨.list key, hm⟩)
    exact ⟨r, hr, (congrArg Content.uuid hcontent : r.message.uuid = m.uuid).trans huuid⟩

/-- A consumer that acknowledges or dead-letters a message moves it into a list of finished messages. -/
theorem mem_of_finished (hb : Base config s) (hs : step cron lt config s a = some s')
    (ha : .finished ∈ deliveries lt config id s a) :
    ∃ key : RedisKey, key.type ∈ [ERedisKey.keyQueueAcknowledgedMessages, .keyQueueDL] ∧
      ∃ m ∈ s'.db.lists key, m.uuid = id := by
  have hlist : ∀ {c m}, s.consumers c = .holding m → s.db.lists ((config c).keyQueueProcessing c) = [m] := by
    intro c m hc
    rw [hb.hands c, hc]
    rfl
  cases a with
  | acknowledge c =>
    obtain ⟨m, hm, _⟩ := List.mem_map.mp ha
    obtain ⟨hc, huuid⟩ := mem_held.mp hm
    simp only [step, settle, hc, Option.some.injEq] at hs
    subst hs
    have hne : (config c).keys.keyQueueAcknowledgedMessages ≠ (config c).keyQueueProcessing c := by
      simp [RedisKey.ext_iff, ConsumerConfig.keyQueueProcessing]
    have hmoved := (@move_singleton lt s.db _ _ _ m (.inr rfl) hne (hlist hc)).2
    exact ⟨_, by simp, m, hmoved.symm.subset List.mem_cons_self, huuid⟩
  | unacknowledge c cause now =>
    obtain ⟨m, hm, _⟩ := List.mem_map.mp ha
    obtain ⟨hm, hd⟩ := List.mem_filter.mp hm
    obtain ⟨hc, huuid⟩ := mem_held.mp hm
    simp only [step, settle, hc, Broker.retry_eq, Option.some.injEq] at hs
    subst hs
    have hne : (config c).keys.keyQueueDL ≠ (config c).keyQueueProcessing c := by
      simp [RedisKey.ext_iff, ConsumerConfig.keyQueueProcessing]
    cases hdest : Broker.destination m cause now with
    | deadLetter =>
      have hmoved := (@move_singleton lt s.db _ _ _ m (.inr rfl) hne (hlist hc)).2
      exact ⟨_, by simp, m, hmoved.symm.subset List.mem_cons_self, huuid⟩
    | delay | requeue => simp [hdest] at hd
  | dequeue c =>
    simp only [deliveries] at ha
    split at ha
    · obtain ⟨_, _, h⟩ := List.mem_map.mp ha
      cases h
    · cases ha
  | requestExec index now =>
    obtain ⟨_, _, h⟩ := List.mem_map.mp ha
    cases h
  | _ => cases ha

/-! ## Runs -/

/-- One thing happens to a message in a step, at most. -/
theorem deliveries_cases (lt : Text → Text → Bool) (config : String → ConsumerConfig) (id : String) (s : State)
    (a : Action) : deliveries lt config id s a = [] ∨ ∃ e, deliveries lt config id s a = [e] := by
  suffices h : (deliveries lt config id s a).length ≤ 1 by
    match hlog : deliveries lt config id s a with
    | [] => exact .inl rfl
    | [e] => exact .inr ⟨e, rfl⟩
    | _ :: _ :: _ => rw [hlog] at h; simp at h
  have hheld : ∀ (s : State) c, (held s c id).length ≤ 1 := by
    intro s c
    refine (List.length_filter_le _ _).trans ?_
    cases s.consumers c <;> simp [Phase.held]
  cases a with
  | dequeue c =>
    simp only [deliveries]
    split
    · exact (List.length_map _).trans_le (hheld _ c)
    · exact Nat.zero_le _
  | acknowledge c => exact (List.length_map _).trans_le (hheld s c)
  | unacknowledge c cause now =>
    exact (List.length_map _).trans_le ((List.length_filter_le _ _).trans (hheld s c))
  | requestExec index now =>
    refine (List.length_map _).trans_le ((List.length_filter_le _ _).trans ?_)
    cases s.requests[index]? <;> simp
  | _ => exact Nat.zero_le _

/-- A finished message rests, and no consumer got it. -/
structure Concluded (id : String) (s : State) (log : List Delivery) : Prop where
  rests : isFinished false log = true → Rests id s
  final : NotRedelivered false log

/-- Each step keeps a finished message out of the way. -/
theorem Concluded.step (hi : Concluded id s log) (hb : Base config s) (hb' : Base config s') (ht' : Tracked id s')
    (hid : identifies id s a = true) (hs : Queue.step cron lt config s a = some s') :
    Concluded id s' (log ++ deliveries lt config id s a) := by
  rcases deliveries_cases lt config id s a with hnone | ⟨e, he⟩
  · rw [hnone, List.append_nil]
    exact ⟨fun hdone => (hi.rests hdone).step hb hid hs (hnone ▸ List.not_mem_nil), hi.final⟩
  · cases e with
    | handed =>
      have hlive : isFinished false log = false := by
        by_contra hdone
        have hr := hi.rests (by simpa using hdone)
        have hmem : .handed ∈ deliveries lt config id s a := he ▸ List.mem_singleton_self _
        cases a with
        | dequeue c =>
          simp only [Queue.step] at hs
          split at hs
          · rename_i hidle
            simp only [deliveries, hs, hr.not_handed hb hidle hs] at hmem
            cases hmem
          · cases hs
        | acknowledge | unacknowledge | requestExec =>
          obtain ⟨_, _, h⟩ := List.mem_map.mp hmem
          cases h
        | _ => cases hmem
      rw [he]
      refine ⟨fun hdone => ?_, notRedelivered_append.mpr ⟨hi.final, hlive, trivial⟩⟩
      rw [isFinished_append, hlive] at hdone
      cases hdone
    | finished =>
      obtain ⟨key, hkey, m, hm, huuid⟩ := mem_of_finished hb hs (he ▸ List.mem_singleton_self _)
      rw [he]
      exact ⟨fun _ => ht'.rests hb' hkey hm huuid, notRedelivered_append.mpr ⟨hi.final, trivial⟩⟩
    | requeued =>
      rw [he]
      refine ⟨fun hdone => ?_, notRedelivered_append.mpr ⟨hi.final, trivial⟩⟩
      rw [isFinished_append] at hdone
      cases hdone

theorem concluded_reachable {s : State × List Delivery}
    (h : Reach ((system cron lt config).logged (deliveries lt config id)) (fun s a => identifies id s.1 a = true) s) :
    (∀ r ∈ s.1.produced, r.message.uuid = id → r.message.isPeriodic = false) → Concluded id s.1 s.2 := by
  induction h with
  | init => exact fun _ => ⟨fun h => (by cases h), trivial⟩
  | @step s s' a h hid hs ih =>
    intro hp
    obtain ⟨hstep, hlog⟩ := Machine.logged_step hs
    have hrun : Reach (system cron lt config) (fun s a => identifies id s a = true) s.1 := reach_logged h
    have hrun' := hrun.step hid hstep
    rw [hlog]
    exact (ih fun r hr => hp r (produced_subset hstep hr)).step (base_reachable hrun) (base_reachable hrun')
      (tracked_reachable hrun' hp) hid hstep

/-- **Finished for good**: a message that was acknowledged or dead-lettered is not handed to a consumer again, unless the
message manager re-queues it in between. -/
theorem final_reachable {r : Produced} {s : State × List Delivery}
    (h : Reach ((system cron lt config).logged (deliveries lt config r.message.uuid))
      (fun s a => identifies r.message.uuid s.1 a = true) s)
    (hr : r ∈ s.1.produced) (hp : r.message.isPeriodic = false) : NotRedelivered false s.2 := by
  refine (concluded_reachable h fun r' hr' huuid => ?_).final
  rw [← produced_unique (reach_logged h) r hr rfl r' hr' huuid]
  exact hp

/-- A message that is acknowledged, re-queued by the message manager and delivered again. -/
def requeuedRun : Option (State × List Delivery) :=
  run ((system minuteParser (fun _ _ => false) lifoConsumer).logged (deliveries (fun _ _ => false) lifoConsumer "m"))
    (fun s a => identifies "m" s.1 a = true) (init, [])
    [.produce ⟨"q", "ns"⟩ false (Message.new Message.defaultOpts "m" 0) 1, .dequeue "c", .acknowledge "c",
      .requeueMessageRead .acknowledged ⟨"q", "ns"⟩ 0 "m" false none, .requestExec 0 2, .dequeue "d"]

theorem final_requeuedRun : ∃ s, requeuedRun = some s ∧ s.2 = [.handed, .finished, .requeued, .handed] ∧
    NotRedelivered false s.2 := by
  have hrun : requeuedRun.map (fun s => (s.2, s.1.produced)) = some ([.handed, .finished, .requeued, .handed],
      [⟨sent ⟨"q", "ns"⟩ (Message.new Message.defaultOpts "m" 0), false⟩]) := by
    decide
  obtain ⟨s, hs, heq⟩ := Option.map_eq_some_iff.mp hrun
  obtain ⟨hlog, hproduced⟩ := Prod.mk.inj heq
  refine ⟨s, hs, hlog, final_reachable (r := ⟨sent ⟨"q", "ns"⟩ (Message.new Message.defaultOpts "m" 0), false⟩)
    (reach_of_run _ hs) ?_ rfl⟩
  rw [hproduced]
  exact List.mem_singleton_self _

/-- **One consumer at a time**: two consumers never have the same message. -/
theorem oneConsumer_reachable {r : Produced}
    (h : Reach (system cron lt config) (fun s a => identifies r.message.uuid s a = true) s)
    (hr : r ∈ s.produced) (hp : r.message.isPeriodic = false) (hc : s.consumers c = .holding m)
    (hc' : s.consumers c' = .holding m') (hm : m.uuid = r.message.uuid) (hm' : m'.uuid = r.message.uuid) : c = c' := by
  have ht : Tracked r.message.uuid s := tracked_reachable h fun r' hr' huuid => by
    rw [← produced_unique h r hr rfl r' hr' huuid]
    exact hp
  have hb : Base config s := base_reachable h
  have hcopy : ∀ {c m}, s.consumers c = .holding m → m.uuid = r.message.uuid →
      copies s.db r.message.uuid (.list ((config c).keyQueueProcessing c)) ≠ 0 := by
    intro c m hc hm
    refine copies_of_holds hb.store.filed (.list _) (?_ : m ∈ s.db.lists _) hm
    rw [hb.hands c, hc]
    exact List.mem_singleton_self m
  by_contra hne
  have hslot := ht.sole.place_unique (hcopy hc hm) (hcopy hc' hm')
  exact keyQueueProcessing_ne hne (Slot.list.inj hslot)

/-- The consumer that has the message of this run. -/
theorem oneConsumer_requeuedRun : ∃ s, requeuedRun = some s ∧ ∀ c m, s.1.consumers c = .holding m → m.uuid = "m" →
    c = "d" := by
  have hrun : requeuedRun.map (fun s => (s.1.consumers "d", s.1.produced)) =
      some (.holding ((sent ⟨"q", "ns"⟩ (Message.new Message.defaultOpts "m" 0)).setPublishedAt 2),
        [⟨sent ⟨"q", "ns"⟩ (Message.new Message.defaultOpts "m" 0), false⟩]) := by
    decide
  obtain ⟨s, hs, heq⟩ := Option.map_eq_some_iff.mp hrun
  obtain ⟨hheld, hproduced⟩ := Prod.mk.inj heq
  refine ⟨s, hs, fun c m hc hm => ?_⟩
  refine oneConsumer_reachable (r := ⟨sent ⟨"q", "ns"⟩ (Message.new Message.defaultOpts "m" 0), false⟩)
    (reach_logged (reach_of_run _ hs)) ?_ rfl hc hheld hm rfl
  rw [hproduced]
  exact List.mem_singleton_self _

end

end RedisSmq.Queue
