import RedisSmq.Queue.PriorityStore

/-!
# The modes of queues

A producer sends a message to its queue in a mode, LIFO or priority, and the consumers of this mode read it from the
pending list or from the priority store of the queue. `ModesKept` says that everything pending was sent to this queue
in the mode of the structure it is in.

The schedule worker and the re-queue worker run in the mode of the consumer that started them, whatever the mode of
the messages they find; and the re-queue worker in priority mode adds members that have no payload.
`modesKept_reachable` is the invariant over the runs in which the workers only meet messages that fit them
(`fits`).
-/

namespace RedisSmq.Queue

open RedisKeys Db Transition

/-- The message was produced to the queue it names, by a producer of the mode. -/
def ProducedIn (produced : List Produced) (m : Message) (withPriority : Bool) : Prop :=
  ∃ r ∈ produced, r.message.uuid = m.uuid ∧ r.message.queue = m.queue ∧ r.withPriority = withPriority

/-- Everything pending was produced to this queue in the mode of the structure it is in, and the members of the
priority store are the identifiers of its payloads. -/
def ModesKept (s : State) : Prop :=
  ∀ q : TMessageQueue,
    (∀ m ∈ s.db.lists q.keys.keyQueue, m.queue = some q ∧ ProducedIn s.produced m false) ∧
    (∀ t m, s.db.hashes q.keys.keyPendingMessagesWithPriority t = some m →
      m.queue = some q ∧ ProducedIn s.produced m true) ∧
    PriorityStore s.db q

/-- Whoever produced the message to its queue did so in the mode. -/
def producedOnlyIn (produced : List Produced) (m : Message) (withPriority : Bool) : Bool :=
  produced.all fun r =>
    !(r.message.uuid = m.uuid && r.message.queue = m.queue) || r.withPriority = withPriority

/-- The step makes no message pending in another mode than its own: the schedule worker runs in the mode of the message
it enqueues, the re-queue worker runs in LIFO mode and finds LIFO messages only, and a request of the message manager
names the queue and the mode of its message. -/
def fits (s : State) : Action → Bool
  | .scheduleExec =>
    match s.scheduleTick with
    | .messages withPriority _ (some m :: _) => producedOnlyIn s.produced m withPriority
    | _ => true
  | .requeueExec =>
    match s.requeueTick with
    | .fetched b => !b.withPriority && b.messages.all (producedOnlyIn s.produced · false)
    | _ => true
  | .requestExec index _ =>
    match s.requests[index]? with
    | some (.requeue _ q withPriority _ msg) => msg.queue = some q && producedOnlyIn s.produced msg withPriority
    | _ => true
  | _ => true

section

variable {cron : CronParser} {lt : Text → Text → Bool} {config : String → ConsumerConfig}
variable {s s' : State} {a : Action} {q : TMessageQueue} {m m' : Message} {withPriority : Bool}
variable {produced produced' : List Produced}

theorem ProducedIn.of_same (h : ProducedIn produced m withPriority) (hm : SameMessage m' m) :
    ProducedIn produced m' withPriority := by
  obtain ⟨r, hr, h1, h2, h3⟩ := h
  exact ⟨r, hr, h1.trans hm.uuid.symm, h2.trans hm.queue.symm, h3⟩

theorem ProducedIn.mono (h : ProducedIn produced m withPriority) (hsub : produced ⊆ produced') :
    ProducedIn produced' m withPriority := by
  obtain ⟨r, hr, h1⟩ := h
  exact ⟨r, hsub hr, h1⟩

/-- A message that was produced in one mode only was produced in this one. -/
theorem ProducedIn.of_only (h : ∃ mode, ProducedIn produced m mode) (ho : producedOnlyIn produced m withPriority = true) :
    ProducedIn produced m withPriority := by
  obtain ⟨mode, r, hr, h1, h2, _⟩ := h
  have hall := List.all_eq_true.mp ho r hr
  simp only [h1, h2, decide_true, Bool.and_self, Bool.not_true, Bool.false_or, decide_eq_true_eq] at hall
  exact ⟨r, hr, h1, h2, hall⟩

/-- A held message was produced; a pending one was produced to this queue in this mode. -/
def Fits (produced : List Produced) (slot : Slot) (m : Message) : Prop :=
  (∃ mode, ProducedIn produced m mode) ∧
    match slot with
    | .list key => key.type = .keyQueue → ∃ q, m.queue = some q ∧ key = q.keys.keyQueue ∧ ProducedIn produced m false
    | .field key _ => key.type = .keyPendingMessagesWithPriority →
      ∃ q, m.queue = some q ∧ key = q.keys.keyPendingMessagesWithPriority ∧ ProducedIn produced m true

theorem Fits.mono {slot : Slot} (h : Fits produced slot m) (hsub : produced ⊆ produced') : Fits produced' slot m := by
  obtain ⟨⟨mode, hm⟩, h⟩ := h
  refine ⟨⟨mode, hm.mono hsub⟩, ?_⟩
  cases slot with
  | list key => exact fun hk => let ⟨q, h1, h2, h3⟩ := h hk; ⟨q, h1, h2, h3.mono hsub⟩
  | field key t => exact fun hk => let ⟨q, h1, h2, h3⟩ := h hk; ⟨q, h1, h2, h3.mono hsub⟩

/-- The slot that a message is enqueued into in its own mode. -/
theorem fits_enqueueSlot (hq : m.queue = some q) (hp : ProducedIn produced m withPriority) :
    Fits produced (enqueueSlot q m' withPriority) m := by
  refine ⟨⟨_, hp⟩, ?_⟩
  cases withPriority with
  | false => exact fun _ => ⟨q, hq, rfl, hp⟩
  | true => exact fun _ => ⟨q, hq, rfl, hp⟩

/-- Slots that are not pending only ask for a producer. -/
theorem fits_list {key : RedisKey} (hk : key.type ≠ .keyQueue) (hp : ∃ mode, ProducedIn produced m mode) :
    Fits produced (.list key) m := ⟨hp, fun h => absurd h hk⟩

theorem fits_scheduledSlot (hp : ∃ mode, ProducedIn produced m mode) : Fits produced (scheduledSlot m') m :=
  ⟨hp, fun h => by cases h⟩

/-- The invariant: every message, held or remembered, was produced, and pending ones fit. -/
structure ModeInv (s : State) : Prop where
  queued : ∀ r ∈ s.produced, ∃ q, r.message.queue = some q
  held : Forall (Fits s.produced) s.db
  carried : ∀ m, Carries s m → ∃ mode, ProducedIn s.produced m mode
  linked : ∀ q, QueueLinked s.db q
  underId : Forall UnderId s.db

/-- What a fitting step puts somewhere fits there. -/
theorem stepPuts_fits {slot : Slot} (hi : ModeInv s) (hf : fits s a = true)
    (hs : step cron lt config s a = some s') (h : StepPuts cron config s a slot m) : Fits s'.produced slot m := by
  have hsub : s.produced ⊆ s'.produced := by
    rcases step_produced hs with h | ⟨_, _, _, _, _, h⟩ <;> rw [h]
    · exact List.Subset.refl _
    · exact List.subset_cons_self _ _
  have hlist : ∀ {key m}, m ∈ s.db.lists key → ∃ mode, ProducedIn s'.produced m mode := fun {key m} h =>
    let ⟨mode, hm⟩ := (hi.held (.list key) m h).1; ⟨mode, hm.mono hsub⟩
  have hfield : ∀ {key t m}, s.db.hashes key t = some m → ∃ mode, ProducedIn s'.produced m mode := fun {key t m} h =>
    let ⟨mode, hm⟩ := (hi.held (.field key t) m h).1; ⟨mode, hm.mono hsub⟩
  cases h with
  | @produceScheduled q withPriority m now =>
    rw [step_produce hs]
    exact fits_scheduledSlot ⟨withPriority, _, List.mem_cons_self,
      (sameMessage_next cron now (sent q m)).uuid.symm,
      (sameMessage_next cron now (sent q m)).queue.symm, rfl⟩
  | @produceEnqueued q withPriority m now =>
    rw [step_produce hs]
    have hsame := sameMessage_enqueued (sent q m) withPriority now
    exact fits_enqueueSlot hsame.queue ⟨_, List.mem_cons_self, hsame.uuid.symm, hsame.queue.symm, rfl⟩
  | dequeuePriority _ hm => exact fits_list (by simp [ConsumerConfig.keyQueueProcessing]) (hfield hm)
  | dequeue _ hm => exact fits_list (by simp [ConsumerConfig.keyQueueProcessing]) (hlist (List.mem_of_getLast? hm))
  | acknowledge hm => exact fits_list (by simp) (hlist (List.mem_of_head? hm))
  | @unacknowledge id cause now m' m'' _ hm =>
    refine fits_list ?_ ?_
    · cases Broker.destination m' cause now <;> simp [Broker.Destination.key]
    · cases hd : Broker.destination m' cause now <;> rw [hd] at hm
      · exact hlist (List.mem_of_head? hm)
      · exact hlist (List.mem_of_getLast? hm)
      · exact hlist (List.mem_of_getLast? hm)
  | @delayed b i p hb hi' _ =>
    obtain ⟨mode, hm⟩ := hi.carried i (.delay hb hi')
    exact fits_scheduledSlot ⟨mode, (hm.mono hsub).of_same sameMessage_delayed⟩
  | @requeued b i q hb hw hi' hq =>
    simp only [fits, hb, Bool.and_eq_true, List.all_eq_true] at hf
    have hp := ProducedIn.of_only (hi.carried i (.requeue hb hi')) (hf.2 i hi')
    have hnew : ProducedIn s'.produced i.incrAttempts false := (hp.mono hsub).of_same ⟨rfl, rfl, rfl⟩
    exact ⟨⟨false, hnew⟩, fun _ => ⟨q, hq, rfl, hnew⟩⟩
  | @enqueueScheduled withPriority now m rest q ht hq =>
    simp only [fits, ht] at hf
    have hp := ProducedIn.of_only (hi.carried m (.schedule ht List.mem_cons_self)) hf
    have hsame := sameMessage_enqueued m withPriority now
    exact fits_enqueueSlot (hsame.queue.trans hq) ((hp.mono hsub).of_same hsame)
  | @rescheduled withPriority now m rest ht _ =>
    obtain ⟨mode, hm⟩ := hi.carried m (.schedule ht List.mem_cons_self)
    have hsame := (sameMessage_next cron now _).trans (sameMessage_enqueued m withPriority now)
    exact fits_scheduledSlot ⟨mode, (hm.mono hsub).of_same hsame⟩
  | @requested index now source q withPriority priority msg m hr hsame =>
    simp only [fits, hr, Bool.and_eq_true, decide_eq_true_eq] at hf
    have hp := ProducedIn.of_only (hi.carried msg (.request (List.mem_of_getElem? hr))) hf.2
    have hsame' : SameMessage (EnqueueHandler.enqueued m withPriority now) m := sameMessage_enqueued m _ _
    refine fits_enqueueSlot (hsame'.queue.trans hsame.queue) ?_
    obtain ⟨r, hr, h1, h2, h3⟩ := hp.mono hsub
    refine ⟨r, hr, h1.trans (hsame'.uuid.trans hsame.uuid).symm, ?_, h3⟩
    rw [h2, hf.1, hsame'.queue, hsame.queue]
    rfl

/-- A fitting step keeps the invariant. -/
theorem ModeInv.step (hi : ModeInv s) (hf : fits s a = true) (hs : Queue.step cron lt config s a = some s') :
    ModeInv s' := by
  have hsub : s.produced ⊆ s'.produced := by
    rcases step_produced hs with h | ⟨_, _, _, _, _, h⟩ <;> rw [h]
    · exact List.Subset.refl _
    · exact List.subset_cons_self _ _
  constructor
  · intro r hr
    rcases step_produced hs with h | ⟨q, _, _, _, _, h⟩ <;> rw [h] at hr
    · exact hi.queued r hr
    · rcases List.mem_cons.mp hr with rfl | hr
      · exact ⟨q, rfl⟩
      · exact hi.queued r hr
  · exact step_forall hs (fun slot m hm => (hi.held slot m hm).mono hsub) (fun slot m => stepPuts_fits hi hf hs)
  · intro m hm
    rcases step_carries hs hm with hc | ⟨slot, hc⟩
    · obtain ⟨mode, h⟩ := hi.carried m hc; exact ⟨mode, h.mono hsub⟩
    · obtain ⟨mode, h⟩ := (hi.held slot m hc).1; exact ⟨mode, h.mono hsub⟩
  · intro q
    refine (hi.linked q).step ?_ hs
    cases a with
    | requeueExec =>
      cases hb : s.requeueTick with
      | fetched b =>
        simp only [fits, hb, Bool.and_eq_true] at hf
        simp [requeuesNot, hb, hf.1]
      | _ => simp [requeuesNot, hb]
    | _ => rfl
  · exact step_forall hs hi.underId (fun _ _ => stepPuts_underId)

theorem ModeInv.modesKept (hi : ModeInv s) : ModesKept s := by
  intro q
  refine ⟨fun m hm => ?_, fun t m hm => ?_, fun t ht => ?_⟩
  · obtain ⟨q', h1, h2, h3⟩ := (hi.held (.list _) m hm).2 rfl
    obtain rfl : q = q' := TMessageQueue.eq_of_key h2
    exact ⟨h1, h3⟩
  · obtain ⟨q', h1, h2, h3⟩ := (hi.held (.field _ t) m hm).2 rfl
    obtain rfl : q = q' := TMessageQueue.eq_of_key h2
    exact ⟨h1, h3⟩
  · obtain ⟨m, hm⟩ := hi.linked q t ht
    exact ⟨m, hm, hi.underId (.field _ t) m hm rfl⟩

/-! ## Where the workers place messages -/

/-- A message that actors remember names its queue. -/
theorem ModeInv.queue (hi : ModeInv s) (hc : Carries s m) : ∃ q, m.queue = some q := by
  obtain ⟨_, r, hr, _, hq, _⟩ := hi.carried m hc
  obtain ⟨q, h⟩ := hi.queued r hr
  exact ⟨q, hq.symm.trans h⟩

/-- The schedule worker places a message in the structure of its own mode. -/
theorem holds_scheduleExec {now : ℕ} {rest : List (Option Message)}
    (ht : s.scheduleTick = .messages withPriority now (some m :: rest)) (hq : m.queue = some q)
    (hs : step cron lt config s .scheduleExec = some s') :
    s'.db.Holds (enqueueSlot q m withPriority) (EnqueueHandler.enqueued m withPriority now) := by
  simp only [step, scheduleExec, ht, ScheduleHandler.enqueueScheduledMessage_ok cron hq, Option.some.injEq] at hs
  subst hs
  show Db.Holds (s.db.execAll lt (_ ++ _)) _ _
  rw [execAll_append]
  have hframe : ∀ k : RedisKey, k.type = .keyQueue ∨ k.type = .keyPendingMessagesWithPriority →
      ∀ r : ℕ × Message, ∀ db : Db, SameAt (db.execAll lt (ScheduleHandler.storeCmds r)) db k := by
    intro k hk r db
    refine storeCmds_frame ?_ ?_ <;> (rintro rfl; rcases hk with hk | hk <;> cases hk)
  cases withPriority with
  | false =>
    show _ ∈ Db.lists _ _
    rw [(hframe _ (.inl rfl) _ _).lists]
    simp [EnqueueHandler.enqueueCmds, Db.exec]
  | true =>
    show Db.hashes _ _ _ = _
    rw [(hframe _ (.inr rfl) _ _).hashes]
    simp [EnqueueHandler.enqueueCmds, Db.exec]

/-- Re-queueing in LIFO mode keeps what is pending, and adds every message of the batch. -/
theorem mem_lists_requeue : ∀ {ms : List Message} {cmds : List Cmd} (db : Db),
    parallel (RequeueWorker.requeueTask false) ms = .ok cmds →
    (∀ m ∈ db.lists q.keys.keyQueue, m ∈ (db.execAll lt cmds).lists q.keys.keyQueue) ∧
      ∀ i ∈ ms, i.queue = some q → i.incrAttempts ∈ (db.execAll lt cmds).lists q.keys.keyQueue
  | [], _, _, h => by
    cases h
    exact ⟨fun _ h => h, fun _ hi => absurd hi List.not_mem_nil⟩
  | i :: ms, _, db, h => by
    obtain ⟨c, cs, h1, h2, rfl⟩ := parallel_cons h
    obtain ⟨q', hq', rfl⟩ := requeueTask_ok h1
    rw [execAll_append]
    obtain ⟨hkeep, hadd⟩ := mem_lists_requeue (db.execAll lt [.lrem getGlobalKeys.keyQueueRequeue i,
      .lpush q'.keys.keyQueue i.incrAttempts]) h2
    have hlists : (db.execAll lt [.lrem getGlobalKeys.keyQueueRequeue i,
        .lpush q'.keys.keyQueue i.incrAttempts]).lists q.keys.keyQueue =
        if q = q' then i.incrAttempts :: db.lists q.keys.keyQueue else db.lists q.keys.keyQueue := by
      split
      · rename_i heq; subst heq; simp [Db.exec, RedisKey.ext_iff]
      · rename_i hne
        have : q.keys.keyQueue ≠ q'.keys.keyQueue := fun hk => hne (TMessageQueue.eq_of_key hk)
        simp [Db.exec, Function.update_of_ne this]
        simp [RedisKey.ext_iff]
    refine ⟨fun m hm => hkeep m ?_, fun j hj hq => ?_⟩
    · rw [hlists]; split
      · exact List.mem_cons_of_mem _ hm
      · exact hm
    · rcases List.mem_cons.mp hj with rfl | hj
      · rw [hq'] at hq
        cases hq
        exact hkeep _ (by rw [hlists, if_pos rfl]; exact List.mem_cons_self)
      · exact hadd j hj hq

/-- The re-queue worker can always prepare its transaction for messages that name their queues. -/
theorem parallel_requeueTask_ok (withPriority : Bool) {ms : List Message} (h : ∀ i ∈ ms, ∃ q, i.queue = some q) :
    ∃ cmds, parallel (RequeueWorker.requeueTask withPriority) ms = .ok cmds := by
  refine parallel_ok fun i hi => ?_
  obtain ⟨q, hq⟩ := h i hi
  rw [RequeueWorker.requeueTask, hq]
  cases withPriority
  · exact ⟨_, rfl⟩
  · exact ⟨_, rfl⟩

/-- The re-queue worker in LIFO mode places every message of its batch in the pending list of its queue. -/
theorem ModeInv.holds_requeueExec (hi : ModeInv s) {b : RequeueBatch} (hb : s.requeueTick = .fetched b)
    (hw : b.withPriority = false) (hs : Queue.step cron lt config s .requeueExec = some s') {i : Message}
    (him : i ∈ b.messages) (hq : i.queue = some q) : i.incrAttempts ∈ s'.db.lists q.keys.keyQueue := by
  obtain ⟨cmds, hcmds⟩ := parallel_requeueTask_ok b.withPriority (fun j hj => hi.queue (.requeue hb hj))
  simp only [Queue.step, requeueExec, hb, hcmds, Option.some.injEq] at hs
  subst hs
  rw [hw] at hcmds
  exact (mem_lists_requeue s.db hcmds).2 i him hq

/-- **The modes of queues are kept** in every state of a run whose steps fit: everything pending is in the structure of
the mode it was produced in, and that is where the schedule worker and the re-queue worker place their messages. -/
theorem modesKept_reachable (h : Reach (system cron lt config) (fun s a => fits s a = true) s) :
    ModesKept s ∧
      (∀ withPriority now m rest s', s.scheduleTick = .messages withPriority now (some m :: rest) →
        fits s .scheduleExec = true → Queue.step cron lt config s .scheduleExec = some s' →
        ∃ q, m.queue = some q ∧ ProducedIn s.produced m withPriority ∧
          s'.db.Holds (enqueueSlot q m withPriority) (EnqueueHandler.enqueued m withPriority now)) ∧
      (∀ b s', s.requeueTick = .fetched b → fits s .requeueExec = true →
        Queue.step cron lt config s .requeueExec = some s' → ∀ i ∈ b.messages,
        ∃ q, i.queue = some q ∧ ProducedIn s.produced i false ∧ i.incrAttempts ∈ s'.db.lists q.keys.keyQueue) := by
  have hi : ModeInv s := by
    refine h.invariant (I := ModeInv) ⟨?_, Forall.empty, ?_, fun q t ht => ?_, Forall.empty⟩
      (fun s a s' hi hf hs => hi.step hf hs)
    · intro r hr; cases hr
    · intro m hm; cases hm with
      | delay hb _ | requeue hb _ | schedule hb _ => cases hb
      | request hr => cases hr
    · cases ht
  refine ⟨hi.modesKept, ?_, ?_⟩
  · intro withPriority now m rest s' ht hf hs
    have hc : Carries s m := .schedule ht List.mem_cons_self
    obtain ⟨q, hq⟩ := hi.queue hc
    simp only [fits, ht] at hf
    exact ⟨q, hq, ProducedIn.of_only (hi.carried m hc) hf, holds_scheduleExec ht hq hs⟩
  · intro b s' hb hf hs i him
    have hc : Carries s i := .requeue hb him
    obtain ⟨q, hq⟩ := hi.queue hc
    simp only [fits, hb, Bool.and_eq_true, Bool.not_eq_true', List.all_eq_true] at hf
    exact ⟨q, hq, ProducedIn.of_only (hi.carried i hc) (hf.2 i him), hi.holds_requeueExec hb hf.1 hs him hq⟩

end

/-! ## Two queues of different modes -/

/-- A LIFO consumer `c` of the queue `q`, and a priority consumer `p` of the queue `r`. -/
def twoModes : String → ConsumerConfig := fun id => if id = "p" then ⟨"ns", "r", true⟩ else ⟨"ns", "q", false⟩

/-- A message that is delivered after ten seconds. -/
def tenSeconds : Message :=
  { Message.new Message.defaultOpts "m" 0 with scheduledDelay := some .tenSeconds, retryDelay := .none }

/-- A schedule worker in priority mode, started by `p`, puts a message of the LIFO queue into a priority store. -/
theorem not_modesKept_scheduled : ¬∀ s, Reach (system minuteParser (fun _ _ => false) twoModes) (fun _ _ => True) s →
    ModesKept s := by
  intro h
  have hrun : ((run (system minuteParser (fun _ _ => false) twoModes) (fun _ _ => True) init
      [.produce ⟨"q", "ns"⟩ false tenSeconds 1, .scheduleFetchIds true 10001, .scheduleFetchMessages 10002,
        .scheduleExec]).map fun s =>
      ((s.db.hashes (getKeys "ns" "q" none).keyPendingMessagesWithPriority (.id "m")).isSome,
        s.produced.map (·.withPriority))) = some (true, [false]) := by decide
  obtain ⟨s, hreach, heq⟩ := exists_reach_of_run hrun
  obtain ⟨hstored, hmodes⟩ := Prod.mk.inj heq
  obtain ⟨m, hm⟩ := Option.isSome_iff_exists.mp hstored
  obtain ⟨r, hr, _, _, hmode⟩ := ((h s hreach ⟨"q", "ns"⟩).2.1 (.id "m") m hm).2
  have : r.withPriority ∈ s.produced.map (·.withPriority) := List.mem_map_of_mem hr
  rw [hmodes, hmode] at this
  cases List.mem_singleton.mp this

/-- A run with both queues: a scheduled message is enqueued and re-queued in its mode, next to a priority message. -/
theorem modesKept_twoModes : ∃ s, run (system minuteParser (fun _ _ => false) twoModes)
    (fun s a => fits s a = true) init
    [.produce ⟨"q", "ns"⟩ false tenSeconds 1, .produce ⟨"r", "ns"⟩ true retried 2, .scheduleFetchIds false 10001,
      .scheduleFetchMessages 10002, .scheduleExec, .dequeue "p", .dequeue "c",
      .unacknowledge "c" .unacknowledged 10003, .requeueFetch false, .requeueExec] = some s ∧ ModesKept s :=
  exists_run (by decide) (fun _ h => (modesKept_reachable h).1)

end RedisSmq.Queue
