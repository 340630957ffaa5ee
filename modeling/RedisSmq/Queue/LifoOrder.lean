import RedisSmq.Lib.Deque
import RedisSmq.Queue.Copies
import RedisSmq.Queue.Texts

/-!
# The order of a LIFO queue

The pending messages of a queue are a list that is used from both ends. Its top is the right end: a message is enqueued
there, and taken from there. The re-queue worker puts a message back at the bottom.

`heights` reads off the commands of a run how high a message was put: the n-th entry has height `n` when it was
enqueued, `-n` when the re-queue worker put it back. A consumer gets the highest message that is pending
(`lifoOrder_reachable`): the one that was enqueued last, or, when all of them were put back, the one that was put back
first.
-/

namespace RedisSmq

open Deque

/-- What a command does to the list at a key. -/
def Cmd.onList (key : RedisKey) : Cmd → Option (Op Message)
  | .rpush k m => if k = key then some (.pushTop m) else none
  | .lpush k m => if k = key then some (.pushBottom m) else none
  | .lrem k m => if k = key then some (.erase m) else none
  | .rpoplpush source _ => if source = key then some .popTop else none
  | .del k => if k = key then some .clear else none
  | _ => none

/-- The command moves a message to the key, or from its left end. -/
def Cmd.Moves (key : RedisKey) : Cmd → Prop
  | .rpoplpush _ destination => destination = key
  | .lpoprpush source destination => source = key ∨ destination = key
  | _ => False

/-- The command adds a message to the list at the key, or does nothing to it. -/
def Cmd.Gives (key : RedisKey) (c : Cmd) : Prop :=
  (∃ m, c = .rpush key m) ∨ (∃ m, c = .lpush key m) ∨ key ∉ c.keys

/-- Commands of which only the first one may take something from the list. -/
def Block (key : RedisKey) (cmds : List Cmd) : Prop :=
  (∀ c ∈ cmds, ¬c.Moves key) ∧ ∀ c ∈ cmds.tail, c.Gives key

section

variable {lt : Text → Text → Bool} {db : Db} {key : RedisKey} {c : Cmd} {cmds : List Cmd}

theorem Cmd.onList_eq_none (h : key ∉ c.keys) : c.onList key = none := by
  cases c <;> simp only [Cmd.keys, List.mem_cons, List.not_mem_nil, or_false, not_or] at h <;> try rfl
  case rpoplpush => exact if_neg (Ne.symm h.1)
  all_goals exact if_neg (Ne.symm h)

/-- What is added is put on the list. -/
theorem Cmd.Gives.pushed {op : Op Message} (h : c.Gives key) (hop : c.onList key = some op) : op.pushed.isSome := by
  rcases h with ⟨m, rfl⟩ | ⟨m, rfl⟩ | hk
  · rw [Cmd.onList, if_pos rfl] at hop
    cases hop
    rfl
  · rw [Cmd.onList, if_pos rfl] at hop
    cases hop
    rfl
  · rw [Cmd.onList_eq_none hk] at hop
    cases hop

theorem Cmd.Gives.not_moves (h : c.Gives key) : ¬c.Moves key := by
  rcases h with ⟨m, rfl⟩ | ⟨m, rfl⟩ | hk
  · exact id
  · exact id
  · cases c <;> simp only [Cmd.keys, List.mem_cons, List.not_mem_nil, or_false, not_or] at hk <;>
      simp only [Cmd.Moves, not_false_eq_true]
    · exact fun heq => hk.2 heq.symm
    · exact fun heq => heq.elim (fun heq => hk.1 heq.symm) fun heq => hk.2 heq.symm

theorem Block.cons (h : ¬c.Moves key) (hcmds : ∀ c' ∈ cmds, c'.Gives key) : Block key (c :: cmds) := by
  refine ⟨fun c' hc' => ?_, hcmds⟩
  rcases List.mem_cons.mp hc' with rfl | hc'
  · exact h
  · exact (hcmds c' hc').not_moves

theorem Block.of_gives (h : ∀ c ∈ cmds, c.Gives key) : Block key cmds :=
  ⟨fun c hc => (h c hc).not_moves, fun c hc => h c (List.mem_of_mem_tail hc)⟩

/-- Only the first operation of a block may take something from the list. -/
theorem Block.pushed (h : Block key cmds) : ∀ op ∈ (cmds.filterMap (Cmd.onList key)).tail, op.pushed.isSome := by
  intro op hop
  cases cmds with
  | nil => cases hop
  | cons c cmds =>
    have hmem : op ∈ cmds.filterMap (Cmd.onList key) := by
      rw [List.filterMap_cons] at hop
      cases hc : c.onList key with
      | none =>
        rw [hc] at hop
        exact List.mem_of_mem_tail hop
      | some op' =>
        rw [hc] at hop
        exact hop
    obtain ⟨c', hc', hop⟩ := List.mem_filterMap.mp hmem
    exact (h.2 c' hc').pushed hop

namespace Db

/-- What a command does to a list. -/
theorem lists_exec (h : ¬c.Moves key) :
    (db.exec lt c).lists key = (c.onList key).toList.foldl Op.apply (db.lists key) := by
  by_cases hk : key ∈ c.keys
  · cases c with
    | rpush | lpush | lrem | del =>
      cases List.mem_singleton.mp hk
      simp [exec, Cmd.onList, Op.apply]
    | rpoplpush source destination =>
      have hne : key ≠ destination := fun heq => h heq.symm
      cases (List.mem_pair.mp hk).resolve_right hne
      cases hlast : (db.lists key).getLast? with
      | none => simp [exec, rpoplpush, Cmd.onList, Op.apply, List.getLast?_eq_none_iff.mp hlast]
      | some m => simp [exec, rpoplpush, Cmd.onList, Op.apply, hlast, hne]
    | lpoprpush source destination =>
      rcases List.mem_pair.mp hk with rfl | rfl
      · exact absurd (.inl rfl) h
      · exact absurd (.inr rfl) h
    | _ =>
      cases List.mem_singleton.mp hk
      rfl
  · rw [(exec_frame hk).lists, Cmd.onList_eq_none hk]
    rfl

theorem lists_execAll : ∀ {cmds : List Cmd} {db : Db}, (∀ c ∈ cmds, ¬c.Moves key) →
    (db.execAll lt cmds).lists key = (cmds.filterMap (Cmd.onList key)).foldl Op.apply (db.lists key)
  | [], _, _ => rfl
  | c :: cmds, db, h => by
    rw [execAll_cons, lists_execAll fun c' hc' => h c' (List.mem_cons_of_mem _ hc'),
      lists_exec (h c List.mem_cons_self)]
    cases hc : c.onList key <;> simp [hc]

end Db

end

namespace Queue

open RedisKeys Db Transition

section

variable {cron : CronParser} {lt : Text → Text → Bool} {config : String → ConsumerConfig}
variable {s s' : State} {a : Action} {q : TMessageQueue} {m : Message} {c : Cmd} {cmds : List Cmd}
variable {withPriority : Bool} {now : ℕ} {ids : List String}

/-! ## The commands of an action -/

theorem gives_of_type (h : ∀ k ∈ c.keys, k.type ≠ .keyQueue) : c.Gives q.keys.keyQueue :=
  .inr (.inr fun hk => h _ hk rfl)

/-- A message that a consumer settles goes to another list. -/
theorem gives_settle {id : String} {destination : RedisKey}
    (hc : IsMove ((config id).keyQueueProcessing id) destination c) (hd : destination.type ≠ .keyQueue) :
    c.Gives q.keys.keyQueue := by
  rcases hc with rfl | rfl <;> exact gives_of_type (by simp [Cmd.keys, hd, ConsumerConfig.keyQueueProcessing])

/-- A message is enqueued on top of its queue. -/
theorem gives_enqueueCmds {q' : TMessageQueue} :
    ∀ c ∈ EnqueueHandler.enqueueCmds q' m withPriority now, c.Gives q.keys.keyQueue := by
  intro c hc
  cases withPriority with
  | false =>
    cases List.mem_singleton.mp hc
    by_cases hq : q'.keys.keyQueue = q.keys.keyQueue
    · exact .inl ⟨_, congrArg (Cmd.rpush · _) hq⟩
    · exact .inr (.inr fun hk => hq (List.mem_singleton.mp hk).symm)
  | true =>
    rcases List.mem_pair.mp hc with rfl | rfl <;> exact gives_of_type (by simp [Cmd.keys])

theorem gives_storeCmds {r : ℕ × Message} : ∀ c ∈ ScheduleHandler.storeCmds r, c.Gives q.keys.keyQueue := by
  intro c hc
  unfold ScheduleHandler.storeCmds at hc
  split at hc
  · rcases List.mem_pair.mp hc with rfl | rfl <;> exact gives_of_type (by simp [Cmd.keys])
  · rcases List.mem_pair.mp hc with rfl | rfl <;> exact gives_of_type (by simp [Cmd.keys])

theorem gives_produceMessage {q' : TMessageQueue} {r : List Cmd × Bool}
    (hr : Producer.produceMessage cron q'.ns q'.name withPriority m now = .ok r) :
    ∀ c ∈ r.1, c.Gives q.keys.keyQueue := by
  intro c hc
  simp only [Producer.produceMessage] at hr
  split at hr
  · rw [← show ScheduleHandler.schedule cron (sent q' m) now = r from Except.ok.inj hr, schedule_eq] at hc
    dsimp only at hc
    split at hc
    · exact gives_storeCmds c hc
    · cases hc
  · apply @gives_enqueueCmds q (sent q' m) withPriority now q'
    cases withPriority <;> cases hr
    · exact hc
    · rcases List.mem_pair.mp hc with rfl | rfl
      · exact List.mem_cons_of_mem _ List.mem_cons_self
      · exact List.mem_cons_self

theorem gives_parallel {task : Message → Except String (List Cmd)} {ms : List Message}
    (h : ∀ i cs, task i = .ok cs → ∀ c ∈ cs, c.Gives q.keys.keyQueue) :
    ∀ c ∈ (parallel task ms).toOption.getD [], c.Gives q.keys.keyQueue := by
  intro c hc
  cases hcmds : parallel task ms with
  | error e =>
    rw [hcmds] at hc
    cases hc
  | ok cmds =>
    rw [hcmds] at hc
    obtain ⟨i, _, cs, hcs, hc⟩ := mem_parallel hcmds c hc
    exact h i cs hcs c hc

/-- The re-queue worker puts a message at the bottom of its queue. -/
theorem gives_requeueTask {cs : List Cmd} (hcs : RequeueWorker.requeueTask withPriority m = .ok cs) :
    ∀ c ∈ cs, c.Gives q.keys.keyQueue := by
  obtain ⟨q', _, rfl⟩ := requeueTask_ok hcs
  intro c hc
  rcases List.mem_cons.mp hc with rfl | hc
  · exact gives_of_type (by simp [Cmd.keys])
  · split at hc <;> cases List.mem_singleton.mp hc
    · exact gives_of_type (by simp [Cmd.keys])
    · by_cases hq : q'.keys.keyQueue = q.keys.keyQueue
      · exact .inr (.inl ⟨_, congrArg (Cmd.lpush · _) hq⟩)
      · exact .inr (.inr fun hk => hq (List.mem_singleton.mp hk).symm)

theorem gives_scheduleTask {cs : List Cmd} (hcs : DelayHandler.scheduleTask cron now m = .ok cs) :
    ∀ c ∈ cs, c.Gives q.keys.keyQueue := by
  obtain ⟨p, _, rfl⟩ := scheduleTask_ok hcs
  intro c hc
  rcases List.mem_cons.mp hc with rfl | hc
  · exact gives_of_type (by simp [Cmd.keys])
  · exact gives_storeCmds c hc

/-- A request of the message manager removes a message first. -/
theorem block_request {r : Request} (h : r.cmds now = .ok cmds) : Block q.keys.keyQueue cmds := by
  cases r with
  | requeue source q' withPriority priority msg =>
    obtain ⟨m', _, rfl⟩ := requeueListMessage_ok h
    exact .cons id gives_enqueueCmds
  | delete source q' msg =>
    cases h
    exact .cons id fun c hc => by cases hc

theorem block_singleton (h : ¬c.Moves q.keys.keyQueue) : Block q.keys.keyQueue [c] :=
  .cons h fun c hc => by cases hc

/-- **The commands of an action** are a block for the pending messages of any queue. -/
theorem block_requests (s : State) (a : Action) : Block q.keys.keyQueue (requests cron config s a) := by
  have hnil : Block q.keys.keyQueue [] := .of_gives fun c hc => by cases hc
  cases a with
  | produce q' withPriority m now =>
    simp only [requests]
    split
    · rename_i r hr
      exact .of_gives (gives_produceMessage hr)
    · exact hnil
  | dequeue id =>
    simp only [requests]
    split
    · refine .of_gives fun c hc => ?_
      unfold popCmds at hc
      split at hc
      · cases hc
      · rcases List.mem_cons.mp hc with rfl | hc
        · exact gives_of_type (by simp [Cmd.keys])
        · rcases List.mem_cons.mp hc with rfl | hc
          · exact gives_of_type (by simp [Cmd.keys])
          · obtain ⟨m, _, rfl⟩ := Option.mem_toList.mp hc |> Option.map_eq_some_iff.mp
            exact gives_of_type (by simp [Cmd.keys, ConsumerConfig.keyQueueProcessing])
    · exact block_singleton fun heq => by cases congrArg RedisKey.type heq
  | acknowledge id =>
    exact block_singleton (gives_settle (.inr rfl) (by simp)).not_moves
  | unacknowledge id cause now =>
    simp only [requests]
    split
    · rename_i m _
      rw [Broker.retry_eq]
      cases Broker.destination m cause now with
      | deadLetter _ => exact block_singleton (gives_settle (.inr rfl) (by simp)).not_moves
      | delay | requeue => exact block_singleton (gives_settle (.inl rfl) (by simp)).not_moves
    · exact hnil
  | delayExec =>
    simp only [requests]
    split
    · exact .of_gives (gives_parallel fun i cs hcs => gives_scheduleTask hcs)
    · exact hnil
  | requeueExec =>
    simp only [requests]
    split
    · exact .of_gives (gives_parallel fun i cs hcs => gives_requeueTask hcs)
    · exact hnil
  | scheduleExec =>
    simp only [requests]
    split
    · rename_i withPriority now m rest ht
      cases hcmds : ScheduleHandler.enqueueScheduledMessage cron m withPriority now with
      | error e => exact hnil
      | ok cmds =>
        obtain ⟨q', _, rfl⟩ := enqueueScheduledMessage_cases hcmds
        refine .of_gives fun c hc => ?_
        rcases List.mem_append.mp hc with hc | hc
        · exact gives_enqueueCmds c hc
        · exact gives_storeCmds c hc
    · exact hnil
  | requestExec index now =>
    simp only [requests]
    split
    · rename_i r hr
      cases hcmds : r.cmds now with
      | error e => exact hnil
      | ok cmds => exact block_request hcmds
    · exact hnil
  | deletePendingMessageWithPriority q' messageId =>
    refine .of_gives fun c hc => ?_
    rcases List.mem_pair.mp hc with rfl | rfl <;> exact gives_of_type (by simp [Cmd.keys])
  | deleteScheduled messageId =>
    refine .of_gives fun c hc => ?_
    rcases List.mem_pair.mp hc with rfl | rfl <;> exact gives_of_type (by simp [Cmd.keys])
  | purge | purgePriorityQueue | purgeScheduledMessagesQueue => exact block_singleton id
  | delayFetch | requeueFetch | scheduleFetchIds | scheduleFetchMessages | requeueMessageRead | deleteMessageRead =>
    exact hnil

/-! ## Runs -/

/-- The operations of a run on the pending messages of the queue. -/
def pendingOps (q : TMessageQueue) (cmds : List Cmd) : List (Deque.Op Message) :=
  cmds.filterMap (Cmd.onList q.keys.keyQueue)

/-- How high a message was put when it came to the queue for the last time. -/
def heights (q : TMessageQueue) (cmds : List Cmd) : String → ℤ := (stamps Message.uuid (pendingOps q cmds)).height

/-- The pending messages of a queue are sorted by their heights. -/
theorem sorted_reachable {s : State × List Cmd}
    (h : Reach ((system cron lt config).logged (requests cron config))
      (fun s a => ∀ id ∈ ids, identifies id s.1 a = true) s)
    (hp : ∀ r ∈ s.1.produced, r.message.uuid ∈ ids → r.message.isPeriodic = false) :
    Sorted Message.uuid (· ∈ ids) (stamps Message.uuid (pendingOps q s.2)) (s.1.db.lists q.keys.keyQueue) := by
  induction h with
  | init => exact .nil
  | @step s s' a hr hid hs ih =>
    obtain ⟨hstep, hlog⟩ := Machine.logged_step hs
    have hsorted := ih fun r hr => hp r (produced_subset hstep hr)
    have hblock : Block q.keys.keyQueue (requests cron config s.1 a) := block_requests s.1 a
    have hlists : s'.1.db.lists q.keys.keyQueue =
        (pendingOps q (requests cron config s.1 a)).foldl Op.apply (s.1.db.lists q.keys.keyQueue) := by
      rw [step_requests hstep]
      exact lists_execAll hblock.1
    have hrun : Reach (system cron lt config) (fun s a => ∀ id ∈ ids, identifies id s a = true) s'.1 :=
      .step (reach_logged hr) hid hstep
    rw [hlog, pendingOps, List.filterMap_append, stamps_append, hlists]
    refine hsorted.foldl hblock.pushed fun id hmem => ?_
    have htracked : Tracked id s'.1 := tracked_reachable (hrun.mono fun s a hall => hall id hmem)
      fun r hr huuid => hp r hr (huuid ▸ hmem)
    have hone := htracked.sole.le_one (.list q.keys.keyQueue)
    rw [copies, hlists] at hone
    exact hone

/-- A consumer gets the message on top. -/
theorem dequeue_top {id : String} (hq : (config id).queue = q) (hmode : (config id).priorityQueue = false)
    (hs : step cron lt config s (.dequeue id) = some s') :
    ∃ m, s'.consumers id = .holding m ∧ (s.db.lists q.keys.keyQueue).getLast? = some m := by
  subst hq
  simp only [step, dequeueMessage, hmode, Bool.false_eq_true, if_false] at hs
  split at hs
  · split at hs
    · cases hs
    · rename_i m hlast
      cases hs
      exact ⟨m, Function.update_self .., hlast⟩
  · cases hs

/-- **LIFO order**: in every run in which the identifiers stand for messages without CRON and repeat, the pending
messages of a queue are sorted by the heights of their last entries, and a consumer gets the highest one. -/
theorem lifoOrder_reachable {s : State × List Cmd}
    (h : Reach ((system cron lt config).logged (requests cron config))
      (fun s a => ∀ id ∈ ids, identifies id s.1 a = true) s)
    (hp : ∀ r ∈ s.1.produced, r.message.uuid ∈ ids → r.message.isPeriodic = false) (q : TMessageQueue) :
    (s.1.db.lists q.keys.keyQueue).Pairwise (fun m m' => m.uuid ∈ ids → m'.uuid ∈ ids →
        heights q s.2 m.uuid < heights q s.2 m'.uuid) ∧
      ∀ c s', (config c).queue = q → (config c).priorityQueue = false →
        step cron lt config s.1 (.dequeue c) = some s' →
        ∃ m ∈ s.1.db.lists q.keys.keyQueue, s'.consumers c = .holding m ∧
          (m.uuid ∈ ids → ∀ m' ∈ s.1.db.lists q.keys.keyQueue, m'.uuid ∈ ids →
            heights q s.2 m'.uuid ≤ heights q s.2 m.uuid) := by
  have hsorted := sorted_reachable (q := q) h hp
  refine ⟨hsorted.pairwise, fun c s' hq hmode hs => ?_⟩
  obtain ⟨m, hm, htop⟩ := dequeue_top hq hmode hs
  exact ⟨m, List.mem_of_getLast? htop, hm, fun hid m' hm' hid' => hsorted.le_top htop hm' hid hid'⟩

end

/-- Two messages are enqueued; the second one is taken, fails, and is put back at the bottom. -/
def putBackRun : Option (State × List Cmd) :=
  let m := Message.new { Message.defaultOpts with retryDelay := .none } "a" 0
  run ((system minuteParser (fun _ _ => false) lifoConsumer).logged (requests minuteParser lifoConsumer))
    (fun s a => ∀ id ∈ ["a", "b"], identifies id s.1 a = true) (init, [])
    [.produce ⟨"q", "ns"⟩ false m 1, .produce ⟨"q", "ns"⟩ false { m with uuid := "b" } 2, .dequeue "c",
      .unacknowledge "c" .timeout 3, .requeueFetch false, .requeueExec]

theorem lifoOrder_putBackRun : ∃ s, putBackRun = some s ∧
    heights ⟨"q", "ns"⟩ s.2 "a" = 1 ∧ heights ⟨"q", "ns"⟩ s.2 "b" = -3 ∧
    (s.1.db.lists (TMessageQueue.mk "q" "ns").keys.keyQueue).Pairwise (fun m m' => m.uuid ∈ ["a", "b"] →
      m'.uuid ∈ ["a", "b"] → heights ⟨"q", "ns"⟩ s.2 m.uuid < heights ⟨"q", "ns"⟩ s.2 m'.uuid) := by
  have hrun : putBackRun.map (fun s => (heights ⟨"q", "ns"⟩ s.2 "a", heights ⟨"q", "ns"⟩ s.2 "b",
      s.1.produced.all fun r => !r.message.isPeriodic)) = some (1, -3, true) := by decide
  obtain ⟨s, hs, heq⟩ := Option.map_eq_some_iff.mp hrun
  obtain ⟨ha, hb, hall⟩ : _ ∧ _ ∧ _ := by simpa using heq
  exact ⟨s, hs, ha, hb, (lifoOrder_reachable (reach_of_run _ hs) (fun r hr _ => hall r hr) _).1⟩

end Queue

end RedisSmq
