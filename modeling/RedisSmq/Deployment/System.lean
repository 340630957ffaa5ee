import RedisSmq.Consumer.Settlement
import RedisSmq.Gc.Worker
import RedisSmq.Queue.Hands
import RedisSmq.Queue.Origin

/-!
# Consumers with all their deliveries on one Redis server

Producers, workers and the requests of the message manager act as in `Queue.system`. The consumers act as in
`Consumer.system`, each with all its deliveries, and share the database. GC workers recover and destroy processing lists:
the message of a recovery was read before, and nothing is said here about when a worker takes a consumer for dead.

- `step_view`: a consumer sees its own steps, and the others as changes of the database;
- `View.other`: these changes leave its processing list alone, unless a GC worker handles it;
- `stocked_reachable`: every message in stock was produced with its content, whatever the actors do.
-/

namespace RedisSmq.Deployment

open RedisKeys Db Transition

/-- `queue`: the database, what was produced and the workers; the consumers of this part stay idle. -/
structure State where
  queue : Queue.State
  consumers : String → Consumer.State

/-- A consumer with the shared database. -/
def State.view (s : State) (id : String) : Consumer.State := { s.consumers id with db := s.queue.db }

def init : State where
  queue := Queue.init
  consumers := fun _ => Consumer.init

inductive Action
  | queue (a : Queue.Action)
  | consumer (id : String) (a : Consumer.Action)
  | recover (id : String) (w : GCWorker) (msg : Message) (now : ℕ)
  | destroy (id : String) (w : GCWorker)

/-- The consumer that an action is about. -/
def Action.target : Action → Option String
  | .queue _ => none
  | .consumer id _ | .recover id _ _ _ | .destroy id _ => some id

/-- The consumers of `Queue.system` do not act here. -/
def ofOthers : Queue.Action → Bool
  | .dequeue _ | .acknowledge _ | .unacknowledge .. => false
  | _ => true

/-- A consumer does not change the database on behalf of others. -/
def ofConsumer : Consumer.Action → Bool
  | .other _ => false
  | _ => true

section Step

variable (cron : CronParser) (lt : Text → Text → Bool) (config : String → Queue.ConsumerConfig)

/-- The request of a GC worker that recovers the message of a consumer. -/
def recoverCmd (id : String) (w : GCWorker) (msg : Message) (now : ℕ) : Cmd :=
  w.retryCmd (config id).queueName ((config id).keyQueueProcessing id) msg now

/-- The transaction of a GC worker that destroys the processing list of a consumer. -/
def destroyCmds (id : String) (w : GCWorker) : List Cmd :=
  w.destroyProcessingQueue (config id).queueName ((config id).keyQueueProcessing id)

def State.setDb (s : State) (db : Db) : State := { s with queue := { s.queue with db := db } }

def step (s : State) : Action → Option State
  | .queue a => if ofOthers a then (Queue.step cron lt config s.queue a).map fun q => { s with queue := q } else none
  | .consumer id a =>
    if ofConsumer a then
      (Consumer.step lt (config id) id (s.view id) a).map fun t =>
        { s.setDb t.db with consumers := Function.update s.consumers id t }
    else none
  | .recover id w msg now => some (s.setDb (s.queue.db.exec lt (recoverCmd config id w msg now)))
  | .destroy id w => some (s.setDb (s.queue.db.execAll lt (destroyCmds config id w)))

/-- The deployment as a machine. -/
def system : Machine State Action where
  init := init
  step := step cron lt config

end Step

/-- What a step is to a consumer: its own step, or a change of the database by others. -/
inductive View (config : String → Queue.ConsumerConfig) (lt : Text → Text → Bool) (id : String) (s : State) :
    Action → Consumer.State → Prop
  | own {a t} : ofConsumer a = true → Consumer.step lt (config id) id (s.view id) a = some t →
    View config lt id s (.consumer id a) t
  | other {a db} : a.target ≠ some id → db.lists ((config id).keyQueueProcessing id) =
    s.queue.db.lists ((config id).keyQueueProcessing id) → View config lt id s a { s.view id with db := db }
  | recover {w msg now} : View config lt id s (.recover id w msg now)
    { s.view id with db := s.queue.db.exec lt (recoverCmd config id w msg now) }
  | destroy {w} : View config lt id s (.destroy id w)
    { s.view id with db := s.queue.db.execAll lt (destroyCmds config id w) }

variable {cron : CronParser} {lt : Text → Text → Bool} {config : String → Queue.ConsumerConfig}
variable {s s' : State} {a : Action} {id id' : String} {m : Message} {db : Db} {slot : Slot} {k : RedisKey}
variable {w : GCWorker} {msg : Message} {now : ℕ} {c : Cmd}

/-! ## Requests -/

/-- A request moves a message out of the processing list of its consumer. -/
def Settles (config : String → Queue.ConsumerConfig) (id : String) (c : Cmd) : Prop :=
  ∃ destination, IsMove ((config id).keyQueueProcessing id) destination c ∧ destination.type ≠ .keyQueueProcessing

theorem settles_recoverCmd : Settles config id (recoverCmd config id w msg now) := Broker.isMove_retry ..

/-- A settlement of one consumer leaves the processing lists of the others alone. -/
theorem Settles.frame (h : Settles config id c) (hne : id' ≠ id) :
    SameAt (db.exec lt c) db ((config id').keyQueueProcessing id') := by
  obtain ⟨destination, hmove, htype⟩ := h
  have hdestination : (config id').keyQueueProcessing id' ≠ destination := by
    rintro rfl
    exact htype rfl
  rcases hmove with rfl | rfl
  · exact rpoplpush_frame (Queue.keyQueueProcessing_ne hne) hdestination
  · exact lpoprpush_frame (Queue.keyQueueProcessing_ne hne) hdestination

/-- What a settlement leaves in the database was there before. -/
theorem Settles.holds (h : Settles config id c) (hm : (db.exec lt c).Holds slot m) : ∃ slot', db.Holds slot' m := by
  obtain ⟨destination, hmove, _⟩ := h
  rcases holds_exec hm with hm | hm
  · exact ⟨slot, hm⟩
  · rcases hmove with rfl | rfl
    · exact ⟨.list _, List.mem_of_getLast? hm.2⟩
    · exact ⟨.list _, List.mem_of_head? hm.2⟩

/-- Destroying a processing list adds no message. -/
theorem holds_destroy (hm : (db.execAll lt (destroyCmds config id w)).Holds slot m) : db.Holds slot m := by
  have hall : Forall (fun slot m => db.Holds slot m) (db.execAll lt (destroyCmds config id w)) := by
    refine Forall.execAll (fun _ _ h => h) fun c hc db slot m hp => ?_
    simp only [destroyCmds, GCWorker.destroyProcessingQueue, QueueManager.deleteProcessingQueue, List.mem_cons,
      List.not_mem_nil, or_false] at hc
    rcases hc with rfl | rfl | rfl <;> cases hp
  exact hall _ _ hm

/-- Destroying a processing list changes no other list. -/
theorem destroy_lists (hne : k ≠ (config id).keyQueueProcessing id) :
    (db.execAll lt (destroyCmds config id w)).lists k = db.lists k := by
  simp [destroyCmds, GCWorker.destroyProcessingQueue, QueueManager.deleteProcessingQueue, Db.exec, hne]

/-! ## Steps of a consumer -/

section

variable {s s' : Consumer.State} {a : Consumer.Action} {db' : Db} {reply : Option Message} {r : Consumer.Request}

/-- A pop moves a message that the database held. -/
theorem pop_cases (h : Consumer.pop lt (config id) id db = some (db', reply)) :
    (∀ slot m, db'.Holds slot m → ∃ slot', db.Holds slot' m) ∧ (∀ m, reply = some m → ∃ slot, db.Holds slot m) ∧
      ∀ id', id' ≠ id → SameAt db' db ((config id').keyQueueProcessing id') := by
  have hne : ∀ id' key, key.type ≠ .keyQueueProcessing → (config id').keyQueueProcessing id' ≠ key := by
    rintro id' _ h rfl
    exact h rfl
  unfold Consumer.pop at h
  dsimp only at h
  split at h
  · have hheld : Forall (fun _ m => ∃ slot', db.Holds slot' m) (db.zpophgetrpush
        (getKeys (config id).ns (config id).queueName none).keyQueuePriority
        (getKeys (config id).ns (config id).queueName none).keyPendingMessagesWithPriority
        ((config id).keyQueueProcessing id)).1 :=
      Forall.zpophgetrpush (fun slot m hm => ⟨slot, hm⟩) (fun t m hm => ⟨.field _ t, hm⟩)
    have hframe : ∀ id', id' ≠ id → SameAt (db.zpophgetrpush
        (getKeys (config id).ns (config id).queueName none).keyQueuePriority
        (getKeys (config id).ns (config id).queueName none).keyPendingMessagesWithPriority
        ((config id).keyQueueProcessing id)).1 db ((config id').keyQueueProcessing id') := fun id' hid =>
      zpophgetrpush_frame (hne id' _ (by simp)) (hne id' _ (by simp)) (Queue.keyQueueProcessing_ne hid)
    split at h
    · cases h
    · rename_i hpop
      cases h
      rw [hpop] at hheld hframe
      exact ⟨fun slot m => hheld slot m, fun _ hm => (by cases hm), hframe⟩
    · rename_i hpop
      cases h
      have hreply := congrArg Prod.snd hpop
      rw [hpop] at hheld hframe
      refine ⟨fun slot m => hheld slot m, fun m hm => ?_, hframe⟩
      cases hm
      obtain ⟨t, _, hm⟩ := zpophgetrpush_message hreply
      exact ⟨.field _ t, hm⟩
  · split at h
    · cases h
    · rename_i hlast
      cases h
      refine ⟨fun slot m hm => ?_, fun m hm => ?_, fun id' hid => ?_⟩
      · rcases holds_exec hm with hm | ⟨_, hm⟩
        · exact ⟨slot, hm⟩
        · exact ⟨.list _, List.mem_of_getLast? hm⟩
      · cases hm
        exact ⟨.list _, List.mem_of_getLast? hlast⟩
      · exact rpoplpush_frame (hne id' _ (by simp)) (Queue.keyQueueProcessing_ne hid)

/-- What a consumer does to the database: nothing, a pop, or its first request. -/
theorem consumer_step_db (ha : ofConsumer a = true) (h : Consumer.step lt (config id) id s a = some s') :
    s'.db = s.db ∨ (∃ reply, Consumer.pop lt (config id) id s.db = some (s'.db, reply)) ∨
      ∃ r ∈ s.requests, s'.db = s.db.exec lt r.cmd := by
  cases a with
  | other => cases ha
  | goUp | up | goDown | halt =>
    simp only [Consumer.step] at h
    split at h <;> cases h
    exact .inl rfl
  | dequeue now =>
    simp only [Consumer.step] at h
    split at h
    · split at h <;> rename_i hpop <;> cases h
      · exact .inr (.inl ⟨_, hpop⟩)
      · rename_i m
        refine .inr (.inl ⟨some m, ?_⟩)
        rw [hpop]
        unfold Consumer.handleReceivedMessage
        split <;> rfl
    · cases h
  | event index e now =>
    simp only [Consumer.step, bind, Option.bind_eq_some_iff] at h
    obtain ⟨_, _, _, _, h⟩ := h
    cases h
    exact .inl rfl
  | exec =>
    simp only [Consumer.step] at h
    split at h <;> rename_i hrequests <;> cases h
    exact .inr (.inr ⟨_, by rw [hrequests]; exact List.mem_cons_self, rfl⟩)

/-- Every request of a consumer settles. -/
theorem consumer_step_requests (ha : ofConsumer a = true) (h : Consumer.step lt (config id) id s a = some s')
    (hr : r ∈ s'.requests) : r ∈ s.requests ∨ Settles config id r.cmd := by
  cases a with
  | other => cases ha
  | goUp | up | goDown =>
    simp only [Consumer.step] at h
    split at h <;> cases h
    exact .inl hr
  | halt =>
    simp only [Consumer.step] at h
    split at h <;> cases h
    cases hr
  | dequeue now =>
    simp only [Consumer.step] at h
    split at h
    · split at h <;> cases h
      · exact .inl hr
      · unfold Consumer.handleReceivedMessage at hr
        split at hr
        · rcases List.mem_append.mp hr with hr | hr
          · exact .inl hr
          · obtain ⟨c, _, rfl⟩ := List.mem_map.mp hr
            exact .inr (Consumer.isMove_settlementCmd now c)
        · exact .inl hr
    · cases h
  | event index e now =>
    simp only [Consumer.step, bind, Option.bind_eq_some_iff] at h
    obtain ⟨_, _, _, _, h⟩ := h
    cases h
    rcases List.mem_append.mp hr with hr | hr
    · exact .inl hr
    · obtain ⟨c, _, rfl⟩ := List.mem_map.mp hr
      exact .inr (Consumer.isMove_settlementCmd now c)
  | exec =>
    simp only [Consumer.step] at h
    split at h <;> rename_i hrequests <;> cases h
    exact .inl (by rw [hrequests]; exact List.mem_cons_of_mem _ hr)

end

/-! ## Steps -/

/-- A step of a producer, a worker or the message manager is a step of the queue system. -/
theorem step_queue {b : Queue.Action} (hs : step cron lt config s (.queue b) = some s') :
    ofOthers b = true ∧ ∃ q, Queue.step cron lt config s.queue b = some q ∧ s' = { s with queue := q } := by
  simp only [Deployment.step] at hs
  split at hs
  · rename_i hb
    obtain ⟨q, hq, rfl⟩ := Option.map_eq_some_iff.mp hs
    exact ⟨hb, q, hq, rfl⟩
  · cases hs

/-- A step of a consumer changes its own state and the database. -/
theorem step_consumer {b : Consumer.Action} (hs : step cron lt config s (.consumer id b) = some s') :
    ofConsumer b = true ∧ ∃ t, Consumer.step lt (config id) id (s.view id) b = some t ∧
      s' = { s.setDb t.db with consumers := Function.update s.consumers id t } := by
  simp only [Deployment.step] at hs
  split at hs
  · rename_i hb
    obtain ⟨t, ht, rfl⟩ := Option.map_eq_some_iff.mp hs
    exact ⟨hb, t, ht, rfl⟩
  · cases hs

/-- Producers, workers and the message manager do not touch processing lists. -/
theorem others_frame {q q' : Queue.State} {b : Queue.Action} (hb : ofOthers b = true)
    (hs : Queue.step cron lt config q b = some q') : SameAt q'.db q.db ((config id).keyQueueProcessing id) := by
  have htypes : ERedisKey.keyQueueProcessing ∉ b.types := by
    cases b <;> simp [ofOthers] at hb <;> simp [Queue.Action.types]
  exact Queue.step_frame hs htypes

/-! ## What a consumer sees -/

/-- The requests of all consumers settle. -/
def Requests (config : String → Queue.ConsumerConfig) (s : State) : Prop :=
  ∀ id, ∀ r ∈ (s.consumers id).requests, Settles config id r.cmd

theorem Requests.step (hr : Requests config s) (hs : step cron lt config s a = some s') : Requests config s' := by
  cases a with
  | queue a =>
    obtain ⟨-, q, -, rfl⟩ := step_queue hs
    exact hr
  | consumer id' a =>
    obtain ⟨ha, t, ht, rfl⟩ := step_consumer hs
    intro id r hmem
    by_cases hid : id = id'
    · subst hid
      dsimp only at hmem
      rw [Function.update_self] at hmem
      rcases consumer_step_requests ha ht hmem with hmem | hsettles
      · exact hr id r hmem
      · exact hsettles
    · dsimp only at hmem
      rw [Function.update_of_ne hid] at hmem
      exact hr id r hmem
  | recover | destroy =>
    cases hs
    exact hr

theorem step_view (hr : Requests config s) (hs : step cron lt config s a = some s') :
    View config lt id s a (s'.view id) := by
  cases a with
  | queue a =>
    obtain ⟨ha, q, hq, rfl⟩ := step_queue hs
    have hframe : SameAt q.db s.queue.db ((config id).keyQueueProcessing id) := others_frame ha hq
    exact .other (by simp [Action.target]) hframe.lists
  | consumer id' a =>
    obtain ⟨ha, t, ht, rfl⟩ := step_consumer hs
    by_cases hid : id = id'
    · subst hid
      have heq : State.view { s.setDb t.db with consumers := Function.update s.consumers id t } id = t := by
        simp [State.view, State.setDb]
      rw [heq]
      exact .own ha ht
    · have heq : State.view { s.setDb t.db with consumers := Function.update s.consumers id' t } id =
          { s.view id with db := t.db } := by
        simp [State.view, State.setDb, hid]
      rw [heq]
      refine .other (fun h => hid (Option.some.inj h).symm) ?_
      rcases consumer_step_db ha ht with hdb | ⟨_, hpop⟩ | ⟨r, hmem, hdb⟩
      · rw [hdb]
        rfl
      · exact ((pop_cases hpop).2.2 id hid).lists
      · rw [hdb]
        exact ((hr id' r hmem).frame hid).lists
  | recover id' w msg now =>
    cases hs
    by_cases hid : id = id'
    · subst hid
      exact .recover
    · exact .other (fun h => hid (Option.some.inj h).symm) (settles_recoverCmd.frame hid).lists
  | destroy id' w =>
    cases hs
    by_cases hid : id = id'
    · subst hid
      exact .destroy
    · exact .other (fun h => hid (Option.some.inj h).symm) (destroy_lists (Queue.keyQueueProcessing_ne hid))

/-! ## Where messages come from -/

/-- A change of the database that adds no message keeps the messages in stock. -/
theorem inStock_setDb {s : Queue.State} (hdb : ∀ slot m, db.Holds slot m → ∃ slot', s.db.Holds slot' m)
    (hm : Queue.InStock { s with db := db } m) : Queue.InStock s m := by
  rcases hm with ⟨slot, hm⟩ | hm
  · exact .inl (hdb slot m hm)
  · cases hm with
    | delay hb hm => exact .inr (.delay hb hm)
    | requeue hb hm => exact .inr (.requeue hb hm)
    | schedule ht hm => exact .inr (.schedule ht hm)
    | request hm => exact .inr (.request hm)

/-- Every message in stock was produced with its content. -/
def Stocked (s : State) : Prop := ∀ m, Queue.InStock s.queue m → Queue.Original s.queue.produced m

theorem Stocked.step (hi : Stocked s) (hr : Requests config s) (hs : step cron lt config s a = some s') :
    Stocked s' := by
  cases a with
  | queue a =>
    obtain ⟨-, q, hq, rfl⟩ := step_queue hs
    exact Queue.original_step hi hq
  | consumer id a =>
    obtain ⟨ha, t, ht, rfl⟩ := step_consumer hs
    refine fun m hm => hi m (inStock_setDb (fun slot m hm => ?_) hm)
    rcases consumer_step_db ha ht with hdb | ⟨_, hpop⟩ | ⟨r, hmem, hdb⟩
    · rw [hdb] at hm
      exact ⟨slot, hm⟩
    · exact (pop_cases hpop).1 slot m hm
    · rw [hdb] at hm
      exact (hr id r hmem).holds hm
  | recover id w msg now =>
    cases hs
    exact fun m hm => hi m (inStock_setDb (fun slot m hm => settles_recoverCmd.holds hm) hm)
  | destroy id w =>
    cases hs
    exact fun m hm => hi m (inStock_setDb (fun slot m hm => ⟨slot, holds_destroy hm⟩) hm)

/-- The requests settle and the stock is original, in every run. -/
theorem stocked_reachable {P : State → Action → Prop} (h : Reach (system cron lt config) P s) :
    Requests config s ∧ Stocked s :=
  h.invariant (I := fun s => Requests config s ∧ Stocked s)
    ⟨fun _ _ hr => (by cases hr), fun _ hm => absurd hm Queue.not_inStock_init⟩
    (fun _ _ _ hi _ hs => ⟨hi.1.step hs, hi.2.step hi.1 hs⟩)

end RedisSmq.Deployment
