import RedisSmq.Deployment.Orderly
import RedisSmq.Queue.Copies

/-!
# The deployment refines the queue system

In `Queue.system` a consumer takes a message and settles it, once. In the deployment it runs its handler, whose callback,
exceptions and timeout make it send requests, it is stopped and started again, and GC workers recover what it left. In
orderly runs this is the same: `Abs` reads the phase of a consumer off its processing list, and every step of the
deployment is a step of the queue system or none (`simulates`). A message that is recovered is unacknowledged.

- `refines_reachable`: what the deployment reaches in orderly runs, the queue system reaches, under any condition on the
  steps of producers, workers and the message manager;
- `oneHandler_reachable`: so a message is worked on by one consumer at a time, through crashes and recoveries.
-/

namespace RedisSmq.Deployment

open RedisKeys Db Transition

/-! ## Abstraction -/

/-- A consumer holds the first message of its processing list. -/
def phaseOf : List Message → Queue.Phase
  | [] => .idle
  | m :: _ => .holding m

/-- The phases of the consumers, read off their processing lists. -/
def phases (config : String → Queue.ConsumerConfig) (db : Db) (id : String) : Queue.Phase :=
  phaseOf (db.lists ((config id).keyQueueProcessing id))

/-- The queue system at the same point: it has the same messages, and its consumers hold what the processing lists
have. -/
def Abs (config : String → Queue.ConsumerConfig) (s : State) (q : Queue.State) : Prop :=
  ∃ db, SameMessages db s.queue.db ∧ q = { s.queue with db := db, consumers := phases config s.queue.db }

/-- A condition on the steps of producers, workers and the message manager. -/
def Within (Q : Queue.State → Queue.Action → Prop) (s : State) : Action → Prop
  | .queue b => Q s.queue b
  | .consumer .. | .recover .. | .destroy .. => True

section

variable {cron : CronParser} {lt : Text → Text → Bool} {config : String → Queue.ConsumerConfig}
variable {s s' : State} {a : Action} {q q' : Queue.State} {b : Queue.Action} {db db' : Db} {id : String} {m : Message}
variable {c : Cmd} {l : List Message}

/-- Producers, workers and the message manager see neither indexes and heartbeats nor the phases of the consumers. -/
theorem queue_step_same (hb : ofOthers b = true) (h : SameMessages db q.db) (consumers : String → Queue.Phase)
    (hs : Queue.step cron lt config q b = some q') :
    ∃ db', SameMessages db' q'.db ∧ Queue.step cron lt config { q with db := db, consumers := consumers } b =
      some { q' with db := db', consumers := consumers } := by
  cases b with
  | dequeue | acknowledge | unacknowledge => cases hb
  | produce t withPriority m now =>
    simp only [Queue.step] at hs ⊢
    split at hs
    · cases hs
      exact ⟨_, h.execAll, rfl⟩
    · cases hs
  | delayFetch now | requeueFetch withPriority =>
    simp only [Queue.step, h.lists] at hs ⊢
    split at hs <;> cases hs
    exact ⟨_, h, rfl⟩
  | scheduleFetchIds withPriority now =>
    simp only [Queue.step, h.zsets] at hs ⊢
    split at hs <;> cases hs
    exact ⟨_, h, rfl⟩
  | scheduleFetchMessages now =>
    simp only [Queue.step, h.hashes] at hs ⊢
    split at hs <;> cases hs
    exact ⟨_, h, rfl⟩
  | delayExec =>
    simp only [Queue.step, Queue.delayExec] at hs ⊢
    split at hs
    · split at hs <;> cases hs
      · exact ⟨_, h.execAll, rfl⟩
      · exact ⟨_, h, rfl⟩
    · cases hs
  | requeueExec =>
    simp only [Queue.step, Queue.requeueExec] at hs ⊢
    split at hs
    · split at hs <;> cases hs
      · exact ⟨_, h.execAll, rfl⟩
      · exact ⟨_, h, rfl⟩
    · cases hs
  | scheduleExec =>
    simp only [Queue.step, Queue.scheduleExec] at hs ⊢
    split at hs
    · cases hs
      exact ⟨_, h, rfl⟩
    · cases hs
      exact ⟨_, h, rfl⟩
    · split at hs <;> cases hs
      · exact ⟨_, h.execAll, rfl⟩
      · exact ⟨_, h, rfl⟩
    · cases hs
  | requeueMessageRead source t index messageId withPriority priority =>
    simp only [Queue.step, Queue.getListMessageAtSequenceId, h.lists] at hs ⊢
    split at hs
    · split at hs <;> cases hs
      rename_i hsource
      exact ⟨_, h, if_neg hsource⟩
    · cases hs
  | deleteMessageRead source t index messageId =>
    simp only [Queue.step, Queue.getListMessageAtSequenceId, h.lists] at hs ⊢
    split at hs <;> cases hs
    exact ⟨_, h, rfl⟩
  | requestExec index now =>
    simp only [Queue.step, Queue.requestExec] at hs ⊢
    split at hs
    · cases hs
    · split at hs <;> cases hs
      · exact ⟨_, h.execAll, rfl⟩
      · exact ⟨_, h, rfl⟩
  | deletePendingMessageWithPriority | deleteScheduled =>
    cases hs
    exact ⟨_, h.execAll, rfl⟩
  | purge | purgePriorityQueue | purgeScheduledMessagesQueue =>
    cases hs
    exact ⟨_, h.exec _, rfl⟩

/-! ## The simulation -/

/-- The phases are the same when the processing lists are. -/
theorem phases_congr (hl : ∀ id, db'.lists ((config id).keyQueueProcessing id) =
    db.lists ((config id).keyQueueProcessing id)) : phases config db' = phases config db := by
  funext id
  rw [phases, phases, hl id]

/-- The phase of one consumer changes with its processing list. -/
theorem phases_update (hl : db'.lists ((config id).keyQueueProcessing id) = l)
    (hother : ∀ id', id' ≠ id → db'.lists ((config id').keyQueueProcessing id') =
      db.lists ((config id').keyQueueProcessing id')) :
    phases config db' = Function.update (phases config db) id (phaseOf l) := by
  funext id'
  by_cases hid : id' = id
  · subst hid
    rw [Function.update_self, phases, hl]
  · rw [Function.update_of_ne hid, phases, phases, hother id' hid]

theorem phases_settle (hc : Settles config id c) (hl : db.lists ((config id).keyQueueProcessing id) = [m]) :
    phases config (db.exec lt c) = Function.update (phases config db) id .idle :=
  phases_update (settled_lists hc hl) fun _ hne => (hc.frame hne).lists

/-- A consumer that waits for a message has an empty processing list. -/
theorem Served.waits (hi : Served config s) (h : (s.consumers id).dequeues ≠ 0) :
    s.queue.db.lists ((config id).keyQueueProcessing id) = [] := by
  have hup := (hi.inv id).awake (.inr h)
  cases (hi.inv id).stage with
  | down hdown => exact absurd hdown hup.1
  | waiting _ _ hnil => exact hnil
  | processing _ hzero | settling _ hzero => exact absurd hzero h

/-- The first request of a consumer settles the message of its processing list. -/
theorem Served.settles {r : Consumer.Request} {requests : List Consumer.Request} (hi : Served config s)
    (h : (s.consumers id).requests = r :: requests) : ∃ m c now,
    s.queue.db.lists ((config id).keyQueueProcessing id) = [m] ∧
      r.cmd = Consumer.settlementCmd (config id) id m now c := by
  obtain ⟨m, c, now, hmsg, hc⟩ := hi.asked id r (h ▸ List.mem_cons_self)
  refine ⟨m, c, now, ?_, hc⟩
  have hrequests : (s.view id).requests = r :: requests := h
  have hup := (hi.inv id).awake (.inl (by rw [hrequests]; exact List.cons_ne_nil _ _))
  cases (hi.inv id).stage with
  | down hdown => exact absurd hdown hup.1
  | waiting hnone | processing hnone => rw [hrequests] at hnone; cases hnone
  | @settling index run m' cmd destination hone _ hget hlist _ _ _ =>
    rw [hrequests] at hone
    cases hone
    obtain ⟨entry, hentry, hrecord⟩ : ∃ entry, (s.consumers id).entries[index]? = some entry ∧
        entry.record = ⟨m', run, 1, 0⟩ := by
      simpa [Consumer.State.records, State.view] using hget
    have hm' : entry.delivery.message = m' := congrArg Consumer.Record.message hrecord
    rw [delivered, hentry, Option.map_some, hm'] at hmsg
    cases hmsg
    exact hlist

/-- The queue system takes the message that a consumer takes. -/
theorem dequeue_same (hidle : q.consumers id = .idle) (h : SameMessages q.db db)
    (hpop : Consumer.pop lt (config id) id db = some (db', some m)) :
    ∃ db₁, SameMessages db₁ db' ∧ Queue.step cron lt config q (.dequeue id) =
      some { q with db := db₁, consumers := Function.update q.consumers id (.holding m) } := by
  simp only [Queue.step, if_pos hidle, Queue.dequeueMessage]
  unfold Consumer.pop at hpop
  dsimp only at hpop
  split at hpop
  · rename_i hmode
    obtain ⟨hsame, hreply⟩ := h.zpophgetrpush (getKeys (config id).ns (config id).queueName none).keyQueuePriority
      (getKeys (config id).ns (config id).queueName none).keyPendingMessagesWithPriority
      ((config id).keyQueueProcessing id)
    split at hpop <;> rename_i heq <;> cases hpop
    rw [heq] at hsame hreply
    refine ⟨_, hsame, ?_⟩
    rw [if_pos hmode]
    simp only [hreply]
  · rename_i hmode
    split at hpop <;> rename_i hlast <;> cases hpop
    refine ⟨_, h.exec _, ?_⟩
    rw [if_neg hmode]
    simp only [h.lists, hlast]

/-- The queue system settles a message as a consumer does. -/
theorem settle_same (hm : q.consumers id = .holding m) (c : Consumer.Settlement) (now : ℕ) :
    ∃ b, ofOthers b = false ∧ Queue.step cron lt config q b = some { q with
      db := q.db.exec lt (Consumer.settlementCmd (config id) id m now c)
      consumers := Function.update q.consumers id .idle } := by
  cases c with
  | acknowledge => exact ⟨.acknowledge id, rfl, by simp only [Queue.step, Queue.settle, hm, Consumer.settlementCmd]⟩
  | unacknowledge cause =>
    exact ⟨.unacknowledge id cause now, rfl, by simp only [Queue.step, Queue.settle, hm, Consumer.settlementCmd]⟩

section Simulation

variable {Q : Queue.State → Queue.Action → Prop}

/-- A settlement of the message of a processing list, by the consumer or by a GC worker. -/
theorem simulates_settle {now : ℕ} {c : Consumer.Settlement} (hQ : ∀ q b, ofOthers b = false → Q q b)
    (habs : Abs config s q) (hl : s.queue.db.lists ((config id).keyQueueProcessing id) = [m])
    (hdb : s'.queue = { s.queue with db := s.queue.db.exec lt (Consumer.settlementCmd (config id) id m now c) }) :
    ∃ q', Path (Queue.system cron lt config) Q q q' ∧ Abs config s' q' := by
  obtain ⟨db, hsame, rfl⟩ := habs
  have hm : phases config s.queue.db id = .holding m := by rw [phases, hl, phaseOf]
  obtain ⟨b, hb, hstep⟩ := @settle_same cron lt config
    { s.queue with db := db, consumers := phases config s.queue.db } id m hm c now
  refine ⟨_, .step .refl (hQ _ b hb) hstep, db.exec lt (Consumer.settlementCmd (config id) id m now c), ?_, ?_⟩
  · rw [hdb]
    exact hsame.exec _
  · rw [hdb]
    dsimp only
    rw [phases_settle (Consumer.isMove_settlementCmd now c) hl]

/-- A step that the queue system does not see. -/
theorem Abs.stutter (habs : Abs config s q) (hqueue : s'.queue = s.queue) :
    ∃ q', Path (Queue.system cron lt config) Q q q' ∧ Abs config s' q' := by
  refine ⟨q, .refl, ?_⟩
  unfold Abs
  rw [hqueue]
  exact habs

/-- The message that a consumer takes. -/
theorem simulates_pop (hQ : ∀ q b, ofOthers b = false → Q q b) (habs : Abs config s q)
    (hnil : s.queue.db.lists ((config id).keyQueueProcessing id) = [])
    (hpop : Consumer.pop lt (config id) id s.queue.db = some (db', some m))
    (hdb : s'.queue = { s.queue with db := db' }) :
    ∃ q', Path (Queue.system cron lt config) Q q q' ∧ Abs config s' q' := by
  have hlist : db'.lists ((config id).keyQueueProcessing id) = [m] := Consumer.pop_lists hpop hnil
  obtain ⟨db, hsame, rfl⟩ := habs
  have hidle : phases config s.queue.db id = .idle := by rw [phases, hnil, phaseOf]
  obtain ⟨db₁, hsame₁, hstep⟩ := @dequeue_same cron lt config
    { s.queue with db := db, consumers := phases config s.queue.db } s.queue.db db' id m hidle hsame hpop
  refine ⟨_, .step .refl (hQ _ (.dequeue id) rfl) hstep, db₁, ?_, ?_⟩
  · rw [hdb]
    exact hsame₁
  · rw [hdb]
    dsimp only
    rw [phases_update hlist fun id' hne => ((pop_cases hpop).2.2 id' hne).lists, phaseOf]

/-- A step of a consumer: it takes a message, settles one, or the queue system does not see it. -/
theorem simulates_consumer {a : Consumer.Action} {t : Consumer.State} (hQ : ∀ q b, ofOthers b = false → Q q b)
    (hi : Served config s) (habs : Abs config s q) (ho : orderly lt config s (.consumer id a) = true)
    (ha : ofConsumer a = true) (ht : Consumer.step lt (config id) id (s.view id) a = some t)
    (hs' : s'.queue = { s.queue with db := t.db }) :
    ∃ q', Path (Queue.system cron lt config) Q q q' ∧ Abs config s' q' := by
  cases a with
  | other => cases ha
  | goUp | up | goDown | halt =>
    simp only [Consumer.step] at ht
    split at ht <;> cases ht
    exact habs.stutter hs'
  | event i e now =>
    simp only [Consumer.step, bind, Option.bind_eq_some_iff] at ht
    obtain ⟨_, _, _, _, ht⟩ := ht
    cases ht
    exact habs.stutter hs'
  | dequeue now =>
    simp only [Consumer.step] at ht
    split at ht
    · rename_i hpos
      have hnil : s.queue.db.lists ((config id).keyQueueProcessing id) = [] := hi.waits (Nat.pos_iff_ne_zero.mp hpos)
      split at ht <;> rename_i hpop
      · cases ht
      · have hsome : Consumer.pop lt (config id) id s.queue.db = some (_, none) := hpop
        rw [orderly, hsome] at ho
        cases ho
      · cases ht
        refine simulates_pop hQ habs hnil hpop ?_
        rw [hs']
        unfold Consumer.handleReceivedMessage
        split <;> rfl
    · cases ht
  | exec =>
    simp only [Consumer.step] at ht
    split at ht <;> rename_i hrequests <;> cases ht
    obtain ⟨m, c, now, hl, hc⟩ := hi.settles hrequests
    have hdb : s'.queue = { s.queue with
        db := s.queue.db.exec lt (Consumer.settlementCmd (config id) id m now c) } := by
      rw [hs', hc]
      rfl
    exact simulates_settle hQ habs hl hdb

/-- **Every orderly step** of the deployment is a step of the queue system, or none. -/
theorem simulates (hQ : ∀ q b, ofOthers b = false → Q q b)
    (hsame : ∀ s q b, Abs config s q → Q s.queue b → Q q b) (hi : Served config s) (habs : Abs config s q)
    (ho : orderly lt config s a = true) (ha : Within Q s a) (hs : Deployment.step cron lt config s a = some s') :
    ∃ q', Path (Queue.system cron lt config) Q q q' ∧ Abs config s' q' := by
  cases a with
  | queue b =>
    obtain ⟨hb, q₁, hq, rfl⟩ := step_queue hs
    have hQ' : Q q b := hsame s q b habs ha
    obtain ⟨db, hdb, rfl⟩ := habs
    obtain ⟨db', hdb', hstep⟩ := queue_step_same hb hdb (phases config s.queue.db) hq
    refine ⟨_, .step .refl hQ' hstep, db', hdb', ?_⟩
    dsimp only
    rw [phases_congr fun id => (others_frame hb hq).lists]
  | consumer id a =>
    obtain ⟨ha', t, ht, rfl⟩ := step_consumer hs
    exact simulates_consumer hQ hi habs ho ha' ht rfl
  | recover id w msg now =>
    cases hs
    obtain ⟨hns, -, hl⟩ := hi.recovered ho
    have hcmd : recoverCmd config id w msg now =
        Consumer.settlementCmd (config id) id msg now (.unacknowledge .recovery) := by
      rw [recoverCmd, GCWorker.retryCmd_eq, hns, Consumer.settlementCmd, Broker.retry_eq]
    have hdb : (s.setDb (s.queue.db.exec lt (recoverCmd config id w msg now))).queue = { s.queue with
        db := s.queue.db.exec lt (Consumer.settlementCmd (config id) id msg now (.unacknowledge .recovery)) } := by
      rw [← hcmd]
      rfl
    exact simulates_settle hQ habs hl hdb
  | destroy id w =>
    cases hs
    have hsame' := @destroy_same lt config s.queue.db id w hi.plain (destroyed ho).2
    obtain ⟨db, hdb, rfl⟩ := habs
    refine ⟨_, .refl, db, ⟨hdb.lists.trans hsame'.lists.symm, hdb.zsets.trans hsame'.zsets.symm,
      hdb.hashes.trans hsame'.hashes.symm⟩, ?_⟩
    simp only [State.setDb]
    rw [phases_congr fun id' => congrFun hsame'.lists _]

/-- **Refinement**: what the deployment reaches in orderly runs, the queue system reaches. A condition on the steps of
the queue system that lets consumers do what they like, and does not see what `Abs` forgets, is kept. -/
theorem refines_reachable (hQ : ∀ q b, ofOthers b = false → Q q b)
    (hsame : ∀ s q b, Abs config s q → Q s.queue b → Q q b)
    (h : Reach (system cron lt config) (fun s a => orderly lt config s a = true ∧ Within Q s a) s) :
    ∃ q, Reach (Queue.system cron lt config) Q q ∧ Abs config s q := by
  refine reach_simulates ⟨_, .refl _, rfl⟩ (fun s q a s' hr habs hp hs => ?_) h
  have hi : Served config s := served_reachable hr fun _ _ hp => hp.1
  exact simulates hQ hsame hi habs hp.1 hp.2 hs

end Simulation

/-! ## One handler at a time -/

/-- The consumer is working on the message: it is not down, and this delivery of its run is not settled. -/
def WorksOn (s : State) (id : String) (index : ℕ) (x : String) : Prop :=
  (s.consumers id).power ≠ .down ∧ ∃ entry, (s.consumers id).entries[index]? = some entry ∧
    entry.run = (s.consumers id).run ∧ entry.calls = 0 ∧ entry.delivery.message.uuid = x

/-- A message that a consumer works on is in its processing list, and it has no other one. -/
theorem Served.works {index : ℕ} {x : String} (hi : Served config s) (h : WorksOn s id index x) :
    (∃ m, s.queue.db.lists ((config id).keyQueueProcessing id) = [m] ∧ m.uuid = x) ∧
      ∀ index' x', WorksOn s id index' x' → index' = index := by
  have hrecord : ∀ {index x}, WorksOn s id index x → ∃ r, (s.view id).records[index]? = some r ∧
      r.run = (s.view id).run ∧ r.calls = 0 ∧ r.message.uuid = x := by
    rintro index x ⟨-, entry, hentry, hrun, hcalls, hx⟩
    refine ⟨entry.record, ?_, hrun, hcalls, hx⟩
    simp only [Consumer.State.records, List.getElem?_map, State.view, hentry, Option.map_some]
  have hsettled : ¬Consumer.Settled (s.view id) := by
    intro hall
    obtain ⟨r, hr, hrun, hcalls, -⟩ := hrecord h
    have := hall r (List.mem_of_getElem? hr) hrun
    omega
  cases (hi.inv id).stage with
  | down hdown => exact absurd hdown h.1
  | waiting _ _ _ hall | settling _ _ _ _ _ _ hall => exact absurd hall hsettled
  | @processing i run m _ _ hget hlist hothers =>
    have hindex : ∀ {index x}, WorksOn s id index x → index = i := by
      intro index x hw
      obtain ⟨r, hr, hrun, hcalls, -⟩ := hrecord hw
      by_contra hne
      have := hothers index r hr hne hrun
      omega
    obtain ⟨r, hr, -, -, hx⟩ := hrecord h
    rw [hindex h, hget] at hr
    cases hr
    exact ⟨⟨m, hlist, hx⟩, fun index' x' hw => (hindex hw).trans (hindex h).symm⟩

theorem copies_same {x : String} (h : SameMessages db db') : Queue.copies db x = Queue.copies db' x := by
  funext slot
  cases slot <;> simp [Queue.copies, h.lists, h.hashes]

/-- The queue system sees the same re-queues and the same identifiers. -/
theorem identifies_abs {x : String} (habs : Abs config s q) (h : Queue.identifies x s.queue b = true) :
    Queue.identifies x q b = true := by
  obtain ⟨db, hsame, rfl⟩ := habs
  cases b with
  | requestExec index now =>
    simp only [Queue.identifies, Queue.finds, hsame.lists] at h ⊢
    exact h
  | _ => exact h

/-- What consumers do identifies the message. -/
theorem identifies_consumer {x : String} (hb : ofOthers b = false) : Queue.identifies x q b = true := by
  cases b with
  | dequeue | acknowledge | unacknowledge => rfl
  | _ => cases hb

/-- **One handler at a time**: while a consumer works on a message without CRON and repeat, no other delivery of it is
worked on, and no other place has a copy of it, through crashes and recoveries. -/
theorem oneHandler_reachable {index : ℕ} {x : String}
    (h : Reach (system cron lt config) (fun s a => orderly lt config s a = true ∧
      Within (fun q b => Queue.identifies x q b = true) s a) s)
    (hp : ∀ r ∈ s.queue.produced, r.message.uuid = x → r.message.isPeriodic = false) (hw : WorksOn s id index x) :
    (∀ id' index', WorksOn s id' index' x → id' = id ∧ index' = index) ∧
      ∀ slot, Queue.copies s.queue.db x slot = if slot = .list ((config id).keyQueueProcessing id) then 1 else 0 := by
  have hi : Served config s := served_reachable h fun _ _ hp => hp.1
  obtain ⟨q, hq, habs⟩ := refines_reachable (Q := fun q b => Queue.identifies x q b = true)
    (fun _ _ hb => identifies_consumer hb) (fun _ _ _ habs hb => identifies_abs habs hb) h
  obtain ⟨db, hsame, rfl⟩ := habs
  have hsole : Tokens.AtMostOne (Queue.copies s.queue.db x) := by
    have htracked := (Queue.tracked_reachable hq hp).sole
    rw [copies_same hsame] at htracked
    exact htracked
  have hone : ∀ {id index}, WorksOn s id index x →
      Queue.copies s.queue.db x (.list ((config id).keyQueueProcessing id)) = 1 := by
    intro id index hw
    obtain ⟨m, hl, hm⟩ := (hi.works hw).1
    simp [Queue.copies, hl, hm]
  have hne : ∀ {id index}, WorksOn s id index x →
      Queue.copies s.queue.db x (.list ((config id).keyQueueProcessing id)) ≠ 0 := by
    intro id index hw
    rw [hone hw]
    exact Nat.one_ne_zero
  refine ⟨fun id' index' hw' => ?_, fun slot => ?_⟩
  · have hslots := hsole.place_unique (hne hw) (hne hw')
    have hid : id' = id := by
      by_contra hdiffer
      exact Queue.keyQueueProcessing_ne hdiffer (Slot.list.inj hslots).symm
    subst hid
    exact ⟨rfl, (hi.works hw).2 index' x hw'⟩
  · split
    · rename_i heq
      rw [heq, hone hw]
    · rename_i hother
      by_contra hzero
      exact hother (hsole.place_unique hzero (hne hw))

end

instance {Q : Queue.State → Queue.Action → Prop} [∀ q b, Decidable (Q q b)] (s : State) : ∀ a, Decidable (Within Q s a)
  | .queue _ => inferInstanceAs (Decidable (Q _ _))
  | .consumer .. | .recover .. | .destroy .. => isTrue trivial

/-- A message that is re-queued at once when a delivery of it fails. -/
def undelayed : Message := Message.new { Message.defaultOpts with retryDelay := .none } "m" 0

/-- The consumer `c` crashes while its handler works on a message, which is recovered, re-queued, and taken by `d`. -/
def crashedRun : Option State :=
  run (system minuteParser (fun _ _ => false) Queue.lifoConsumer)
    (fun s a => orderly (fun _ _ => false) Queue.lifoConsumer s a = true ∧
      Within (fun q b => Queue.identifies "m" q b = true) s a) init
    [.queue (.produce ⟨"q", "ns"⟩ false undelayed 1), .consumer "c" .goUp, .consumer "c" .up, .consumer "c" (.dequeue 2),
      .consumer "c" .goDown, .consumer "c" .halt,
      .recover "c" ⟨"ns", "d"⟩ (EnqueueHandler.enqueued (undelayed.reset.setQueue "ns" "q") false 1) 20000,
      .destroy "c" ⟨"ns", "d"⟩, .consumer "c" (.event 0 (.callback false) 20001), .queue (.requeueFetch false),
      .queue .requeueExec, .consumer "d" .goUp, .consumer "d" .up, .consumer "d" (.dequeue 20002)]

theorem crashedRun_eq : ∃ s, crashedRun = some s ∧ (∀ r ∈ s.queue.produced, r.message.isPeriodic = false) ∧
    (s.consumers "c").entries.map (·.calls) = [0] ∧ WorksOn s "d" 0 "m" := by
  have hrun : crashedRun.map (fun s => (s.queue.produced.all fun r => !r.message.isPeriodic,
      (s.consumers "c").entries.map (·.calls), decide ((s.consumers "d").power = .down), (s.consumers "d").run,
      (s.consumers "d").entries.map fun entry => (entry.run, entry.calls, entry.delivery.message.uuid))) =
        some (true, [0], false, 1, [(1, 0, "m")]) := rfl
  obtain ⟨s, hs, heq⟩ := Option.map_eq_some_iff.mp hrun
  simp only [Prod.mk.injEq] at heq
  obtain ⟨hall, hc, hpower, hd, hentries⟩ := heq
  obtain ⟨entry, hentry, heq⟩ : ∃ entry, (s.consumers "d").entries[0]? = some entry ∧
      (entry.run, entry.calls, entry.delivery.message.uuid) = (1, 0, "m") := by
    have hget := congrArg (·[0]?) hentries
    simpa using hget
  simp only [Prod.mk.injEq] at heq
  exact ⟨s, hs, by simpa using hall, hc, by simpa using hpower, entry, hentry, heq.1.trans hd.symm, heq.2.1, heq.2.2⟩

theorem refines_crashedRun : ∃ s, crashedRun = some s ∧ ∃ q,
    Reach (Queue.system minuteParser (fun _ _ => false) Queue.lifoConsumer)
      (fun q b => Queue.identifies "m" q b = true) q ∧ Abs Queue.lifoConsumer s q := by
  obtain ⟨s, hs, -⟩ := crashedRun_eq
  exact ⟨s, hs, refines_reachable (fun _ _ hb => identifies_consumer hb) (fun _ _ _ habs hb => identifies_abs habs hb)
    (reach_of_run _ hs)⟩

theorem oneHandler_crashedRun : ∃ s, crashedRun = some s ∧ (s.consumers "c").entries.map (·.calls) = [0] ∧
    WorksOn s "d" 0 "m" ∧ ∀ id index, WorksOn s id index "m" → id = "d" ∧ index = 0 := by
  obtain ⟨s, hs, hperiodic, hc, hd⟩ := crashedRun_eq
  exact ⟨s, hs, hc, hd, (oneHandler_reachable (reach_of_run _ hs) (fun r hr _ => hperiodic r hr) hd).1⟩

end RedisSmq.Deployment
