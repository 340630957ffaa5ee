import Mathlib.Logic.Relation
import RedisSmq.Queue.Steps

/-!
# The two stores

The pending messages of a priority queue and the scheduled messages are each kept in two keys: a sorted set of texts and a
hash of payloads. `StoreOp` lists what requests do to such a pair. `step_priorityOps` and `step_scheduledOps` say which
operations a step of the system makes on the pair of a queue and on the scheduled store, in their order; an invariant of
a store is then a case analysis over the operations (`StoreSteps.invariant`).
-/

namespace RedisSmq.Queue

open RedisKeys Db Relation

/-- A sorted set and a hash. -/
@[ext] structure TwoKeys where
  members : SortedSet Text
  payloads : Text → Option Message

/-- `put`: a message under its identifier; `add`: a member alone; `remove`: a member with its payload; `clear`: `DEL` of
the sorted set. -/
inductive StoreOp
  | put (score : ℕ) (m : Message)
  | add (score : ℕ) (t : Text)
  | remove (t : Text)
  | clear

def StoreOp.apply (lt : Text → Text → Bool) (s : TwoKeys) : StoreOp → TwoKeys
  | .put score m => ⟨s.members.zadd lt score (.id m.uuid), Function.update s.payloads (.id m.uuid) (some m)⟩
  | .add score t => ⟨s.members.zadd lt score t, s.payloads⟩
  | .remove t => ⟨s.members.zrem t, Function.update s.payloads t none⟩
  | .clear => ⟨.empty, s.payloads⟩

/-- Operations with a property, one after the other. -/
abbrev StoreSteps (lt : Text → Text → Bool) (P : StoreOp → Prop) : TwoKeys → TwoKeys → Prop :=
  ReflTransGen fun s s' => ∃ op, P op ∧ s' = op.apply lt s

/-- The two keys in a database. -/
def twoKeys (zk hk : RedisKey) (db : Db) : TwoKeys := ⟨db.zsets zk, db.hashes hk⟩

/-- The pending messages of a queue, in priority mode. -/
abbrev priorityKeys (q : TMessageQueue) : Db → TwoKeys :=
  twoKeys q.keys.keyQueuePriority q.keys.keyPendingMessagesWithPriority

/-- The scheduled messages. -/
abbrev scheduledKeys : Db → TwoKeys := twoKeys getGlobalKeys.keyQueueScheduled getGlobalKeys.keyScheduledMessages

/-- The operations of an action on the priority store of a queue. -/
inductive PriorityOp (q : TMessageQueue) (s : State) : Action → StoreOp → Prop
  | enqueue {a m now} : PriorityOp q s a (.put (m.priority.getD .normal).value (EnqueueHandler.enqueued m true now))
  | remove {a t} : PriorityOp q s a (.remove t)
  | requeue {b i n t} : s.requeueTick = .fetched b → b.withPriority = true → i ∈ b.messages → i.queue = some q →
    PriorityOp q s .requeueExec (.add n t)
  | purge : PriorityOp q s (.purgePriorityQueue q) .clear

/-- The operations of an action on the scheduled store. -/
inductive ScheduledOp : Action → StoreOp → Prop
  | schedule {a n m} : ScheduledOp a (.put n m)
  | remove {a t} : ScheduledOp a (.remove t)
  | purge : ScheduledOp .purgeScheduledMessagesQueue .clear

section

variable {cron : CronParser} {lt : Text → Text → Bool} {config : String → ConsumerConfig}
variable {db db' : Db} {zk hk : RedisKey} {s s' : State} {a : Action} {P : StoreOp → Prop} {x y : TwoKeys}
variable {q q' : TMessageQueue} {m : Message} {withPriority : Bool} {now : ℕ} {c : Cmd}

/-! ## Operations -/

theorem StoreSteps.single {op : StoreOp} (hop : P op) (h : y = op.apply lt x) : StoreSteps lt P x y :=
  ReflTransGen.single ⟨op, hop, h⟩

/-- What every operation keeps is kept by all of them. -/
theorem StoreSteps.invariant {I : TwoKeys → Prop} (h : StoreSteps lt P x y) (hI : I x)
    (hop : ∀ x op, P op → I x → I (op.apply lt x)) : I y := by
  induction h with
  | refl => exact hI
  | tail _ hs ih =>
    obtain ⟨op, hp, rfl⟩ := hs
    exact hop _ op hp ih

/-- Requests that name neither key make no operation. -/
theorem StoreSteps.frame (hz : SameAt db' db zk) (hh : SameAt db' db hk) :
    StoreSteps lt P (twoKeys zk hk db) (twoKeys zk hk db') := by
  rw [twoKeys, twoKeys, hz.zsets, hh.hashes]

theorem StoreSteps.exec_other (hz : zk ∉ c.keys) (hh : hk ∉ c.keys) :
    StoreSteps lt P (twoKeys zk hk db) (twoKeys zk hk (db.exec lt c)) := .frame (exec_frame hz) (exec_frame hh)

/-- Putting a message, in either order of the two commands. -/
theorem twoKeys_put (n : ℕ) (m : Message) : twoKeys zk hk (db.execAll lt [.zadd zk n (.id m.uuid), .hset hk (.id m.uuid) m]) =
    (StoreOp.put n m).apply lt (twoKeys zk hk db) := by
  simp [twoKeys, StoreOp.apply, Db.exec]

theorem twoKeys_put' (n : ℕ) (m : Message) : twoKeys zk hk (db.execAll lt [.hset hk (.id m.uuid) m, .zadd zk n (.id m.uuid)]) =
    (StoreOp.put n m).apply lt (twoKeys zk hk db) := by
  simp [twoKeys, StoreOp.apply, Db.exec]

theorem twoKeys_add {n : ℕ} {t : Text} : twoKeys zk hk (db.exec lt (.zadd zk n t)) =
    (StoreOp.add n t).apply lt (twoKeys zk hk db) := by
  simp [twoKeys, StoreOp.apply, Db.exec]

theorem twoKeys_remove {t : Text} : twoKeys zk hk (db.execAll lt [.zrem zk t, .hdel hk t]) =
    (StoreOp.remove t).apply lt (twoKeys zk hk db) := by
  simp [twoKeys, StoreOp.apply, Db.exec]

theorem twoKeys_remove' {t : Text} : twoKeys zk hk (db.execAll lt [.hdel hk t, .zrem zk t]) =
    (StoreOp.remove t).apply lt (twoKeys zk hk db) := by
  simp [twoKeys, StoreOp.apply, Db.exec]

theorem twoKeys_clear (h : hk ≠ zk) : twoKeys zk hk (db.exec lt (.del zk)) =
    StoreOp.clear.apply lt (twoKeys zk hk db) := by
  simp [twoKeys, StoreOp.apply, Db.exec, h]

/-- The script pops the first member with its payload. -/
theorem StoreSteps.zpophgetrpush {list : RedisKey} (hremove : ∀ t, P (.remove t)) :
    StoreSteps lt P (twoKeys zk hk db) (twoKeys zk hk (db.zpophgetrpush zk hk list).1) := by
  unfold Db.zpophgetrpush
  split
  · exact .refl
  · rename_i t _
    have hpop : StoreSteps lt P (twoKeys zk hk db) (twoKeys zk hk
        ((db.setZset zk ((db.zsets zk).zrem t)).setHash hk t none)) := by
      refine .single (hremove t) ?_
      simp [twoKeys, StoreOp.apply]
    cases db.hashes hk t with
    | none => exact hpop
    | some m => exact hpop

/-- Every member has a payload. -/
def TwoKeys.Linked (x : TwoKeys) : Prop := ∀ t ∈ x.members.members, ∃ m, x.payloads t = some m

/-- Only an operation that adds a member alone may leave a member without a payload. -/
theorem TwoKeys.Linked.apply {op : StoreOp} (h : x.Linked) (hop : ∀ n t, op ≠ .add n t) : (op.apply lt x).Linked := by
  cases op with
  | put score m =>
    intro t ht
    rcases SortedSet.mem_zadd.mp ht with rfl | ht
    · exact ⟨m, Function.update_self ..⟩
    · by_cases heq : t = .id m.uuid
      · exact ⟨m, by rw [heq]; exact Function.update_self ..⟩
      · obtain ⟨m', hm'⟩ := h t ht
        exact ⟨m', (Function.update_of_ne heq ..).trans hm'⟩
  | add n t => exact absurd rfl (hop n t)
  | remove t =>
    intro t' ht'
    obtain ⟨hne, ht'⟩ := SortedSet.mem_zrem.mp ht'
    obtain ⟨m, hm⟩ := h t' ht'
    exact ⟨m, (Function.update_of_ne hne ..).trans hm⟩
  | clear => exact fun t ht => absurd ht List.not_mem_nil

theorem StoreSteps.linked (h : StoreSteps lt P (twoKeys zk hk db) (twoKeys zk hk db'))
    (hP : ∀ op, P op → ∀ n t, op ≠ .add n t) (hl : Linked db zk hk) : Linked db' zk hk :=
  h.invariant (I := TwoKeys.Linked) hl fun _ op hop hx => hx.apply (hP op hop)

/-! ## The priority store of a queue -/

/-- The keys of two queues differ. -/
theorem priorityKeys_ne (h : q ≠ q') : q.keys.keyQueuePriority ≠ q'.keys.keyQueuePriority ∧
    q.keys.keyPendingMessagesWithPriority ≠ q'.keys.keyPendingMessagesWithPriority :=
  ⟨fun hk => h (TMessageQueue.eq_of_key hk), fun hk => h (TMessageQueue.eq_of_key hk)⟩

/-- Enqueueing puts the message into the store of its queue, in priority mode. -/
theorem priorityOps_enqueueCmds : StoreSteps lt (PriorityOp q s a) (priorityKeys q db)
    (priorityKeys q (db.execAll lt (EnqueueHandler.enqueueCmds q' m withPriority now))) := by
  cases withPriority with
  | false =>
    refine .frame (execAll_frame _ fun c hc => ?_) (execAll_frame _ fun c hc => ?_) <;>
      rcases List.mem_singleton.mp hc with rfl <;> simp [Cmd.keys, RedisKey.ext_iff]
  | true =>
    by_cases hq : q = q'
    · subst hq
      exact .single .enqueue (twoKeys_put' _ (EnqueueHandler.enqueued m true now))
    · obtain ⟨hz, hh⟩ := priorityKeys_ne hq
      refine .frame (execAll_frame _ fun c hc => ?_) (execAll_frame _ fun c hc => ?_) <;>
        rcases List.mem_pair.mp hc with rfl | rfl <;> simp [Cmd.keys, hz, hh] <;> simp [RedisKey.ext_iff]

/-- The scheduled store has other keys. -/
theorem priorityOps_storeCmds {r : ℕ × Message} : StoreSteps lt P (priorityKeys q db)
    (priorityKeys q (db.execAll lt (ScheduleHandler.storeCmds r))) := by
  refine .frame (storeCmds_frame ?_ ?_) (storeCmds_frame ?_ ?_) <;> simp [RedisKey.ext_iff]

theorem priorityOps_produceCmds : StoreSteps lt (PriorityOp q s a) (priorityKeys q db)
    (priorityKeys q (db.execAll lt (produceCmds cron q' withPriority m now))) := by
  unfold produceCmds
  split
  · rw [schedule_eq]
    dsimp only
    split
    · exact priorityOps_storeCmds
    · exact .refl
  · exact priorityOps_enqueueCmds

/-- The re-queue worker adds the texts of its messages, in priority mode. -/
theorem priorityOps_requeueCmds : ∀ {ms : List Message} {cmds : List Cmd} {db : Db},
    parallel (RequeueWorker.requeueTask withPriority) ms = .ok cmds →
    (∀ i ∈ ms, ∀ n t, withPriority = true → i.queue = some q → P (.add n t)) →
    StoreSteps lt P (priorityKeys q db) (priorityKeys q (db.execAll lt cmds))
  | [], _, _, h, _ => by cases h; exact .refl
  | i :: ms, _, db, h, hadd => by
    obtain ⟨c, cs, hc, hcs, rfl⟩ := parallel_cons h
    obtain ⟨q', hq', rfl⟩ := requeueTask_ok hc
    rw [execAll_append, execAll_cons]
    refine ReflTransGen.trans ?_ (priorityOps_requeueCmds hcs fun i' hi' => hadd i' (List.mem_cons_of_mem _ hi'))
    have hlrem : StoreSteps lt P (priorityKeys q db)
        (priorityKeys q (db.exec lt (.lrem getGlobalKeys.keyQueueRequeue i))) := by
      refine .exec_other ?_ ?_ <;> simp [Cmd.keys, RedisKey.ext_iff]
    refine hlrem.trans ?_
    generalize db.exec lt (.lrem getGlobalKeys.keyQueueRequeue i) = db
    cases withPriority with
    | false =>
      show StoreSteps lt P (priorityKeys q db) (priorityKeys q (db.exec lt (.lpush q'.keys.keyQueue i.incrAttempts)))
      refine .exec_other ?_ ?_ <;> simp [Cmd.keys, RedisKey.ext_iff]
    | true =>
      show StoreSteps lt P (priorityKeys q db) (priorityKeys q (db.exec lt (.zadd q'.keys.keyQueuePriority
        (i.priority.getD .normal).value (.json i.incrAttempts.getSetPriority.2))))
      by_cases hq : q = q'
      · subst hq
        exact .single (hadd i List.mem_cons_self _ _ rfl hq') twoKeys_add
      · refine .exec_other ?_ ?_
        · simpa [Cmd.keys] using (priorityKeys_ne hq).1
        · simp [Cmd.keys, RedisKey.ext_iff]

/-- What a step does to the priority store of a queue. -/
theorem step_priorityOps (hs : step cron lt config s a = some s') :
    StoreSteps lt (PriorityOp q s a) (priorityKeys q s.db) (priorityKeys q s'.db) := by
  have hlrem : ∀ (l : QueueList) (q' : TMessageQueue) (msg : Message),
      StoreSteps lt (PriorityOp q s a) (priorityKeys q s.db) (priorityKeys q (s.db.exec lt (.lrem (l.key q') msg))) := by
    intro l q' msg
    cases l <;> refine .exec_other ?_ ?_ <;> simp [Cmd.keys, QueueList.key, RedisKey.ext_iff]
  by_cases htypes : ERedisKey.keyQueuePriority ∈ a.types
  · have hdb := step_db hs
    generalize s'.db = db at hdb ⊢
    cases hdb with
    | reads => exact .refl
    | produce => exact priorityOps_produceCmds
    | @dequeuePriority id hmode =>
      by_cases hq : q = (config id).queue
      · subst hq
        exact .zpophgetrpush fun _ => .remove
      · obtain ⟨hz, hh⟩ := priorityKeys_ne hq
        refine .frame (zpophgetrpush_frame hz ?_ ?_) (zpophgetrpush_frame ?_ hh ?_) <;>
          simp [RedisKey.ext_iff, ConsumerConfig.keyQueueProcessing]
    | dequeue =>
      refine .exec_other ?_ ?_ <;> simp [Cmd.keys, ConsumerConfig.keyQueueProcessing, RedisKey.ext_iff]
    | requeueExec hb hcmds =>
      exact priorityOps_requeueCmds hcmds fun i hi _ _ hmode hq => .requeue hb hmode hi hq
    | scheduleExec => exact priorityOps_enqueueCmds.trans priorityOps_storeCmds
    | requeueRequest => exact (hlrem _ _ _).trans priorityOps_enqueueCmds
    | deleteRequest => exact hlrem _ _ _
    | @deletePendingMessageWithPriority q' messageId =>
      by_cases hq : q = q'
      · subst hq
        exact .single .remove twoKeys_remove'
      · obtain ⟨hz, hh⟩ := priorityKeys_ne hq
        refine .frame (execAll_frame _ fun c hc => ?_) (execAll_frame _ fun c hc => ?_) <;>
          rcases List.mem_pair.mp hc with rfl | rfl <;> simp [Cmd.keys, hz, hh] <;> simp [RedisKey.ext_iff]
    | @purgePriorityQueue q' =>
      by_cases hq : q = q'
      · subst hq
        exact .single .purge (twoKeys_clear (by simp [RedisKey.ext_iff]))
      · refine .exec_other ?_ ?_
        · simpa [QueueManager.purgePriorityQueue, Cmd.keys] using (priorityKeys_ne hq).1
        · simp [QueueManager.purgePriorityQueue, Cmd.keys, RedisKey.ext_iff]
    | _ => simp [Action.types] at htypes
  · by_cases hpayloads : ERedisKey.keyPendingMessagesWithPriority ∈ a.types
    · cases a <;> simp [Action.types] at htypes hpayloads
    · exact .frame (step_frame hs htypes) (step_frame hs hpayloads)

/-! ## The scheduled store -/

/-- A message with a timestamp is put, one without is removed. -/
theorem scheduledOps_storeCmds {r : ℕ × Message} : StoreSteps lt (ScheduledOp a) (scheduledKeys db)
    (scheduledKeys (db.execAll lt (ScheduleHandler.storeCmds r))) := by
  unfold ScheduleHandler.storeCmds
  split
  · exact .single .schedule (twoKeys_put r.1 r.2)
  · exact .single .remove twoKeys_remove

/-- The delay worker puts its messages. -/
theorem scheduledOps_delayCmds : ∀ {ms : List Message} {cmds : List Cmd} {db : Db},
    parallel (DelayHandler.scheduleTask cron now) ms = .ok cmds →
    StoreSteps lt (ScheduledOp a) (scheduledKeys db) (scheduledKeys (db.execAll lt cmds))
  | [], _, _, h => by cases h; exact .refl
  | i :: ms, _, db, h => by
    obtain ⟨c, cs, hc, hcs, rfl⟩ := parallel_cons h
    obtain ⟨p, _, rfl⟩ := scheduleTask_ok hc
    rw [execAll_append, execAll_cons]
    have hlrem : StoreSteps lt (ScheduledOp a) (scheduledKeys db)
        (scheduledKeys (db.exec lt (.lrem getGlobalKeys.keyQueueDelay i))) := by
      refine .exec_other ?_ ?_ <;> simp [Cmd.keys, RedisKey.ext_iff]
    exact (hlrem.trans scheduledOps_storeCmds).trans (scheduledOps_delayCmds hcs)

/-- Enqueueing is about other keys. -/
theorem scheduledOps_enqueueCmds : StoreSteps lt P (scheduledKeys db)
    (scheduledKeys (db.execAll lt (EnqueueHandler.enqueueCmds q m withPriority now))) :=
  .frame (enqueueCmds_frame (by simp) (by simp) (by simp)) (enqueueCmds_frame (by simp) (by simp) (by simp))

/-- What a step does to the scheduled store. -/
theorem step_scheduledOps (hs : step cron lt config s a = some s') :
    StoreSteps lt (ScheduledOp a) (scheduledKeys s.db) (scheduledKeys s'.db) := by
  by_cases htypes : ERedisKey.keyQueueScheduled ∈ a.types
  · have hdb := step_db hs
    generalize s'.db = db at hdb ⊢
    cases hdb with
    | reads => exact .refl
    | produce =>
      unfold produceCmds
      split
      · rw [schedule_eq]
        dsimp only
        split
        · exact scheduledOps_storeCmds
        · exact .refl
      · exact scheduledOps_enqueueCmds
    | delayExec _ hcmds => exact scheduledOps_delayCmds hcmds
    | scheduleExec => exact scheduledOps_enqueueCmds.trans scheduledOps_storeCmds
    | deleteScheduled => exact .single .remove twoKeys_remove'
    | purgeScheduledMessagesQueue => exact .single .purge (twoKeys_clear (by simp [RedisKey.ext_iff]))
    | _ => simp [Action.types] at htypes
  · by_cases hpayloads : ERedisKey.keyScheduledMessages ∈ a.types
    · cases a <;> simp [Action.types] at htypes hpayloads
    · exact .frame (step_frame hs htypes) (step_frame hs hpayloads)

end

end RedisSmq.Queue
