import RedisSmq.Deployment.System
import RedisSmq.Queue.OneCopy

/-!
# Orderly deployments

In an orderly run every delivery is settled once, by its consumer or, after a crash, by a GC worker of its namespace; a
consumer is started again when its processing list was recovered (`orderly`). `Served` is the invariant of such runs: a
consumer is at a `Consumer.Stage`, its requests settle the messages of their deliveries, and processing lists are nothing
but lists (`Served.step`).
-/

namespace RedisSmq

open RedisKeys Transition

/-! ## The same messages -/

namespace Db

/-- The databases keep the same messages; their indexes and heartbeats may differ. -/
structure SameMessages (db db' : Db) : Prop where
  lists : db.lists = db'.lists
  zsets : db.zsets = db'.zsets
  hashes : db.hashes = db'.hashes

variable {lt : Text → Text → Bool} {db db' : Db}

theorem SameMessages.refl (db : Db) : SameMessages db db := ⟨rfl, rfl, rfl⟩

theorem SameMessages.exec (h : SameMessages db db') (c : Cmd) : SameMessages (db.exec lt c) (db'.exec lt c) := by
  obtain ⟨hlists, hzsets, hhashes⟩ := h
  cases c with
  | rpoplpush source destination =>
    simp only [Db.exec, rpoplpush, hlists]
    split
    · exact ⟨hlists, hzsets, hhashes⟩
    · exact ⟨by simp [hlists], hzsets, hhashes⟩
  | lpoprpush source destination =>
    simp only [Db.exec, lpoprpush, hlists]
    split
    · exact ⟨hlists, hzsets, hhashes⟩
    · exact ⟨by simp [hlists], hzsets, hhashes⟩
  | _ => exact ⟨by simp [Db.exec, hlists], by simp [Db.exec, hzsets], by simp [Db.exec, hhashes]⟩

theorem SameMessages.execAll : ∀ {cmds : List Cmd} {db db' : Db}, SameMessages db db' →
    SameMessages (db.execAll lt cmds) (db'.execAll lt cmds)
  | [], _, _, h => h
  | c :: _, _, _, h => (h.exec c).execAll

theorem SameMessages.zpophgetrpush (h : SameMessages db db') (zk hk list : RedisKey) :
    SameMessages (db.zpophgetrpush zk hk list).1 (db'.zpophgetrpush zk hk list).1 ∧
      (db.zpophgetrpush zk hk list).2 = (db'.zpophgetrpush zk hk list).2 := by
  obtain ⟨hlists, hzsets, hhashes⟩ := h
  simp only [Db.zpophgetrpush, hzsets, hhashes]
  split
  · exact ⟨⟨hlists, hzsets, hhashes⟩, rfl⟩
  · split
    · exact ⟨⟨hlists, by simp [hzsets], by simp [hhashes]⟩, rfl⟩
    · exact ⟨⟨by simp [hlists], by simp [hzsets], by simp [hhashes]⟩, rfl⟩

end Db

namespace Deployment

open Db

/-! ## Orderly runs -/

/-- Consumers are orderly, and do not find an identifier without a payload. GC workers recover and destroy the processing
lists of consumers that are down, in their namespace; they recover what they have read, and destroy empty lists. -/
def orderly (lt : Text → Text → Bool) (config : String → Queue.ConsumerConfig) (s : State) : Action → Bool
  | .queue _ => true
  | .consumer id (.dequeue _) => (Consumer.pop lt (config id) id s.queue.db).all (·.2.isSome)
  | .consumer id a => Consumer.orderly ((config id).keyQueueProcessing id) (s.view id) a
  | .recover id w msg _ =>
    decide (w.ns = (config id).ns) && decide ((s.consumers id).power = .down) &&
      decide ((s.queue.db.lists ((config id).keyQueueProcessing id)).head? = some msg)
  | .destroy id _ =>
    decide ((s.consumers id).power = .down) && (s.queue.db.lists ((config id).keyQueueProcessing id)).isEmpty

/-- The message of a delivery. -/
def delivered (s : Consumer.State) (index : ℕ) : Option Message := s.entries[index]?.map (·.delivery.message)

/-- The requests settle the messages of their deliveries. -/
def Asked (config : Queue.ConsumerConfig) (id : String) (s : Consumer.State) : Prop :=
  ∀ r ∈ s.requests, ∃ m c now, delivered s r.index = some m ∧ r.cmd = Consumer.settlementCmd config id m now c

/-- The processing lists are lists and nothing else. -/
def Plain (config : String → Queue.ConsumerConfig) (db : Db) : Prop :=
  ∀ id, db.zsets ((config id).keyQueueProcessing id) = .empty ∧
    db.hashes ((config id).keyQueueProcessing id) = fun _ => none

/-- What the simulation rests on. -/
structure Served (config : String → Queue.ConsumerConfig) (s : State) : Prop where
  requests : Requests config s
  inv : ∀ id, Consumer.Inv ((config id).keyQueueProcessing id) (s.view id)
  asked : ∀ id, Asked (config id) id (s.consumers id)
  plain : Plain config s.queue.db

section

variable {cron : CronParser} {lt : Text → Text → Bool} {config : String → Queue.ConsumerConfig}
variable {s s' : State} {a : Action} {db db' : Db} {id : String} {m : Message} {c : Cmd}

/-! ## What a consumer asks for -/

section

variable {config : Queue.ConsumerConfig} {t t' : Consumer.State} {a : Consumer.Action} {index : ℕ}

theorem delivered_append {es : List Consumer.Entry} (h : delivered t index = some m) :
    delivered { t with entries := t.entries ++ es } index = some m := by
  obtain ⟨entry, hentry, hm⟩ := Option.map_eq_some_iff.mp h
  exact Option.map_eq_some_iff.mpr
    ⟨entry, (List.getElem?_append_left (List.getElem?_eq_some_iff.mp hentry).1).trans hentry, hm⟩

/-- Changing an entry does not change its message. -/
theorem delivered_set {entry entry' : Consumer.Entry} {i : ℕ} (hentry : t.entries[i]? = some entry)
    (hm : entry'.delivery.message = entry.delivery.message) :
    delivered { t with entries := t.entries.set i entry' } index = delivered t index := by
  unfold delivered
  rw [List.getElem?_set]
  split
  · rename_i heq
    subst heq
    rw [if_pos (List.getElem?_eq_some_iff.mp hentry).1, hentry, Option.map_some, Option.map_some, hm]
  · rfl

/-- The last entry that was added. -/
theorem delivered_concat (t : Consumer.State) (entry : Consumer.Entry) :
    delivered { t with entries := t.entries ++ [entry] } t.entries.length = some entry.delivery.message := by
  simp [delivered]

/-- A step of a consumer keeps its requests, and adds requests for the messages of their deliveries. -/
theorem Asked.step (h : Asked config id t) (ha : ofConsumer a = true)
    (hs : Consumer.step lt config id t a = some t') : Asked config id t' := by
  cases a with
  | other => cases ha
  | goUp | up | goDown =>
    simp only [Consumer.step] at hs
    split at hs <;> cases hs
    exact h
  | halt =>
    simp only [Consumer.step] at hs
    split at hs <;> cases hs
    exact fun _ hr => absurd hr List.not_mem_nil
  | dequeue now =>
    simp only [Consumer.step] at hs
    split at hs
    · split at hs <;> cases hs
      · exact h
      · rename_i db m hpop
        unfold Consumer.handleReceivedMessage
        split
        · intro r hr
          rcases List.mem_append.mp hr with hr | hr
          · obtain ⟨m', c, n, hm, hc⟩ := h r hr
            exact ⟨m', c, n, delivered_append hm, hc⟩
          · obtain ⟨c, _, rfl⟩ := List.mem_map.mp hr
            exact ⟨m, c, now, delivered_concat t _, rfl⟩
        · intro r hr
          obtain ⟨m', c, n, hm, hc⟩ := h r hr
          exact ⟨m', c, n, delivered_append hm, hc⟩
    · cases hs
  | event i e now =>
    simp only [Consumer.step, bind, Option.bind_eq_some_iff] at hs
    obtain ⟨entry, hentry, x, hx, hs⟩ := hs
    cases hs
    have hm : x.1.message = entry.delivery.message := (Consumer.Delivery.handle_eq hx).2
    have hset : ∀ {entry' : Consumer.Entry}, entry'.delivery = x.1 → ∀ j,
        delivered { t with entries := t.entries.set i entry' } j = delivered t j :=
      fun heq j => delivered_set hentry (by rw [heq, hm])
    intro r hr
    rcases List.mem_append.mp hr with hr | hr
    · obtain ⟨m, c, n, hmsg, hc⟩ := h r hr
      exact ⟨m, c, n, (hset rfl _).trans hmsg, hc⟩
    · obtain ⟨c, _, rfl⟩ := List.mem_map.mp hr
      refine ⟨x.1.message, c, now, (hset rfl _).trans ?_, rfl⟩
      exact Option.map_eq_some_iff.mpr ⟨entry, hentry, hm.symm⟩
  | exec =>
    simp only [Consumer.step] at hs
    split at hs <;> rename_i hrequests <;> cases hs
    intro r hr
    obtain ⟨m, c, n, hmsg, hc⟩ := h r (by rw [hrequests]; exact List.mem_cons_of_mem _ hr)
    refine ⟨m, c, n, ?_, hc⟩
    obtain ⟨entry, hentry, hm⟩ := Option.map_eq_some_iff.mp hmsg
    unfold delivered
    rw [List.getElem?_modify, hentry]
    split <;> simpa using hm

end

/-! ## The invariant -/

/-- The processing list of another kind of key. -/
theorem processing_ne {key : RedisKey} (h : key.type ≠ .keyQueueProcessing) :
    (config id).keyQueueProcessing id ≠ key := by
  rintro rfl
  exact h rfl

/-- A pop leaves the processing lists lists. -/
theorem Plain.pop {reply : Option Message} (h : Plain config db)
    (hpop : Consumer.pop lt (config id) id db = some (db', reply)) : Plain config db' := by
  unfold Consumer.pop at hpop
  dsimp only at hpop
  split at hpop
  · have hplain : Plain config (db.zpophgetrpush (getKeys (config id).ns (config id).queueName none).keyQueuePriority
        (getKeys (config id).ns (config id).queueName none).keyPendingMessagesWithPriority
        ((config id).keyQueueProcessing id)).1 := by
      intro id'
      obtain ⟨hzset, hhash⟩ := h id'
      have hz : (config id').keyQueueProcessing id' ≠
          (getKeys (config id).ns (config id).queueName none).keyQueuePriority := processing_ne (by simp)
      have hh : (config id').keyQueueProcessing id' ≠
          (getKeys (config id).ns (config id).queueName none).keyPendingMessagesWithPriority := processing_ne (by simp)
      unfold Db.zpophgetrpush
      split
      · exact ⟨hzset, hhash⟩
      · dsimp only
        split <;> simp [Function.update_of_ne hz, Function.update_of_ne hh, hzset, hhash]
    split at hpop <;> rename_i heq <;> cases hpop <;> rw [heq] at hplain <;> exact hplain
  · split at hpop <;> cases hpop
    obtain ⟨hzsets, hhashes⟩ := @Queue.move_zsets_hashes lt db _ _
      (.rpoplpush (getKeys (config id).ns (config id).queueName none).keyQueue ((config id).keyQueueProcessing id))
      (.inl rfl)
    intro id'
    rw [hzsets, hhashes]
    exact h id'

theorem Plain.settle (h : Plain config db) (hc : Settles config id c) : Plain config (db.exec lt c) := by
  obtain ⟨destination, hmove, -⟩ := hc
  obtain ⟨hzsets, hhashes⟩ := @Queue.move_zsets_hashes lt db _ _ c hmove
  intro id'
  rw [hzsets, hhashes]
  exact h id'

/-- Destroying a processing list that is empty changes no message. -/
theorem destroy_same {w : GCWorker} (h : Plain config db) (hnil : db.lists ((config id).keyQueueProcessing id) = []) :
    SameMessages (db.execAll lt (destroyCmds config id w)) db := by
  obtain ⟨hzset, hhash⟩ := h id
  simp only [destroyCmds, GCWorker.destroyProcessingQueue, QueueManager.deleteProcessingQueue, Db.execAll_cons,
    Db.execAll_nil, Db.exec]
  refine ⟨?_, ?_, ?_⟩
  · simp [← hnil]
  · simp [← hzset]
  · simp [← hhash]

theorem Plain.same (h : Plain config db) (hsame : SameMessages db' db) : Plain config db' := by
  intro id
  rw [hsame.zsets, hsame.hashes]
  exact h id

/-- What is destroyed is the empty processing list of a consumer that is down. -/
theorem destroyed {w : GCWorker} (ho : orderly lt config s (.destroy id w) = true) :
    (s.consumers id).power = .down ∧ s.queue.db.lists ((config id).keyQueueProcessing id) = [] := by
  simpa only [orderly, Bool.and_eq_true, decide_eq_true_eq, List.isEmpty_iff] using ho

/-- Every step keeps the processing lists lists. -/
theorem Served.plain_step (hi : Served config s) (ho : orderly lt config s a = true)
    (hs : step cron lt config s a = some s') : Plain config s'.queue.db := by
  cases a with
  | queue b =>
    obtain ⟨hb, q, hq, rfl⟩ := step_queue hs
    intro id
    have hframe : SameAt q.db s.queue.db ((config id).keyQueueProcessing id) := others_frame hb hq
    rw [hframe.zsets, hframe.hashes]
    exact hi.plain id
  | consumer id a =>
    obtain ⟨ha, t, ht, rfl⟩ := step_consumer hs
    show Plain config t.db
    rcases consumer_step_db ha ht with hdb | ⟨_, hpop⟩ | ⟨r, hmem, hdb⟩
    · rw [hdb]
      exact hi.plain
    · exact hi.plain.pop hpop
    · rw [hdb]
      exact hi.plain.settle (hi.requests id r hmem)
  | recover id w msg now =>
    cases hs
    exact hi.plain.settle settles_recoverCmd
  | destroy id w =>
    cases hs
    exact hi.plain.same (destroy_same hi.plain (destroyed ho).2)

/-- What is recovered is the message of the processing list. -/
theorem Served.recovered {w : GCWorker} {msg : Message} {now : ℕ} (hi : Served config s)
    (ho : orderly lt config s (.recover id w msg now) = true) : w.ns = (config id).ns ∧
    (s.consumers id).power = .down ∧ s.queue.db.lists ((config id).keyQueueProcessing id) = [msg] := by
  simp only [orderly, Bool.and_eq_true, decide_eq_true_eq] at ho
  obtain ⟨⟨hns, hdown⟩, hhead⟩ := ho
  refine ⟨hns, hdown, ?_⟩
  have hlength : (s.queue.db.lists ((config id).keyQueueProcessing id)).length ≤ 1 := (hi.inv id).stage.length_le
  cases hl : s.queue.db.lists ((config id).keyQueueProcessing id) with
  | nil =>
    rw [hl] at hhead
    cases hhead
  | cons m l =>
    rw [hl] at hhead hlength
    cases hhead
    rw [List.length_eq_zero_iff.mp (Nat.le_zero.mp (Nat.le_of_succ_le_succ hlength))]

/-- A settlement empties a processing list of one message. -/
theorem settled_lists (hc : Settles config id c) (hl : db.lists ((config id).keyQueueProcessing id) = [m]) :
    (db.exec lt c).lists ((config id).keyQueueProcessing id) = [] := by
  obtain ⟨destination, hmove, htype⟩ := hc
  exact (move_singleton hmove (processing_ne htype).symm hl).1

/-- What a consumer knows of the deployment changes as in a step of the consumer or of its surroundings. -/
theorem Served.inv_step (hi : Served config s) (ho : orderly lt config s a = true)
    (hs : Deployment.step cron lt config s a = some s') (id : String) :
    Consumer.Inv ((config id).keyQueueProcessing id) (s'.view id) := by
  have hother : ∀ {db : Db}, db.lists ((config id).keyQueueProcessing id) =
      (s.view id).db.lists ((config id).keyQueueProcessing id) ∨ (((s.view id).power = .down ∨
        (s.view id).power = .goingUp) ∧ db.lists ((config id).keyQueueProcessing id) = []) →
      Consumer.Inv ((config id).keyQueueProcessing id) { s.view id with db := db } := by
    intro db hdb
    have ht : Consumer.step lt (config id) id (s.view id) (.other db) = some { s.view id with db := db } := by
      simp only [Consumer.step, if_pos hdb]
    exact (hi.inv id).step_other ht
  have hview : View config lt id s a (s'.view id) := step_view hi.requests hs
  generalize s'.view id = t at hview ⊢
  cases hview with
  | @own a t ha ht =>
    refine (hi.inv id).step ?_ ht
    cases a with
    | dequeue => rfl
    | _ => exact ho
  | other _ hdb => exact hother (.inl hdb)
  | @recover w msg now =>
    obtain ⟨-, hdown, hl⟩ := hi.recovered ho
    have hnil : (s.queue.db.exec lt (recoverCmd config id w msg now)).lists ((config id).keyQueueProcessing id) =
        [] := settled_lists settles_recoverCmd hl
    exact hother (.inr ⟨.inl hdown, hnil⟩)
  | @destroy w =>
    obtain ⟨hdown, hempty⟩ := destroyed ho
    have hnil := (congrFun (@destroy_same lt config s.queue.db id w hi.plain hempty).lists _).trans hempty
    exact hother (.inr ⟨.inl hdown, hnil⟩)

/-- Only a consumer changes what it asks for. -/
theorem Served.asked_step (hi : Served config s) (hs : Deployment.step cron lt config s a = some s') (id : String) :
    Asked (config id) id (s'.consumers id) := by
  cases a with
  | queue b =>
    obtain ⟨-, q, -, rfl⟩ := step_queue hs
    exact hi.asked id
  | consumer id' a =>
    obtain ⟨ha, t, ht, rfl⟩ := step_consumer hs
    by_cases hid : id = id'
    · subst hid
      show Asked (config id) id (Function.update s.consumers id t id)
      rw [Function.update_self]
      have hasked : Asked (config id) id (s.view id) := hi.asked id
      exact hasked.step ha ht
    · show Asked (config id) id (Function.update s.consumers id' t id)
      rw [Function.update_of_ne hid]
      exact hi.asked id
  | recover | destroy =>
    cases hs
    exact hi.asked id

/-- **Every orderly step** keeps the invariant. -/
theorem Served.step (hi : Served config s) (ho : orderly lt config s a = true)
    (hs : Deployment.step cron lt config s a = some s') : Served config s' where
  requests := hi.requests.step hs
  inv := hi.inv_step ho hs
  asked := hi.asked_step hs
  plain := hi.plain_step ho hs

theorem served_init : Served config init where
  requests _ _ hr := by cases hr
  inv _ := Consumer.inv_init
  asked _ _ hr := by cases hr
  plain _ := ⟨rfl, rfl⟩

theorem served_reachable {P : State → Action → Prop} (h : Reach (system cron lt config) P s)
    (hP : ∀ s a, P s a → orderly lt config s a = true) : Served config s :=
  h.invariant served_init fun s a _ hi hp hs => hi.step (hP s a hp) hs

end

end Deployment

end RedisSmq
