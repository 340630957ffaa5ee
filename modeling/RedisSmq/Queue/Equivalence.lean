import RedisSmq.Consumer.System
import RedisSmq.Lib.Bags
import RedisSmq.Queue.PriorityStore

/-!
# LIFO queues and priority queues

The operations on one queue: messages are enqueued by producers, by the schedule worker and by re-queues of the message
manager; consumers dequeue and acknowledge. The same operations can be executed in either mode.

In both modes the queue is a bag of identifiers (`Pending`): a list of copies in LIFO mode, a keyed bag in priority mode
(`Pending.run`). So LIFO mode returns every enqueued message, and priority mode does if and only if no message is
enqueued while it waits (`sameDeliveries_iff`).
-/

namespace RedisSmq.Queue

open RedisKeys Db

/-- The operations that enqueue: `produceMessage`, a message that the schedule worker has fetched, and a re-queue that
has read its message from a list of the queue. -/
inductive Enqueue
  | produce (m : Message) (now : ℕ)
  | schedule (m : Message) (now : ℕ)
  | requeue (source : QueueList) (priority : Option ℕ) (msg : Message) (now : ℕ)

inductive Op
  | enqueue (e : Enqueue)
  | dequeue (id : String)
  | acknowledge (id : String)

/-- The identifiers of messages. -/
def ids (ms : List Message) : Multiset String := (ms.map (·.uuid) : List String)

section Exec

variable (cron : CronParser) (lt : Text → Text → Bool) (q : TMessageQueue) (withPriority : Bool)

/-- The request of the operation. -/
def Enqueue.cmds : Enqueue → Except String (List Cmd)
  | .produce m now => (Producer.produceMessage cron q.ns q.name withPriority m now).map Prod.fst
  | .schedule m now => ScheduleHandler.enqueueScheduledMessage cron m withPriority now
  | .requeue source priority msg now =>
    RequeueHandler.requeueListMessage (source.key q) q.ns q.name withPriority priority msg now

/-- The operation is one on the queue `q`; pending messages are not re-queued. -/
def Enqueue.On : Enqueue → Prop
  | .produce _ _ => True
  | .schedule m _ => m.queue = some q
  | .requeue source _ _ _ => source ≠ .pending

/-- The identifier of the message that is enqueued; a message with a schedule is only stored by its producer. -/
def Enqueue.id? : Enqueue → Option String
  | .produce m _ => if (sent q m).isSchedulable then none else some m.uuid
  | .schedule m _ => some m.uuid
  | .requeue _ _ msg _ => some msg.uuid

def Op.id? : Op → Option String
  | .enqueue e => e.id? q
  | _ => none

/-- The identifiers of the enqueued messages. -/
def enqueuedIds (ops : List Op) : Multiset String := (ops.filterMap (Op.id? q) : List String)

/-- The operation is one on the queue, and it succeeds in both modes. -/
def Op.Succeeds : Op → Prop
  | .enqueue e => e.On q ∧ ∀ withPriority, ∃ cmds, e.cmds cron q withPriority = .ok cmds
  | _ => True

/-- The effect of an operation, and the message it returns; `none` when it fails. A consumer that finds no message goes
on waiting. -/
def execOp (db : Db) : Op → Option (Db × Option Message)
  | .enqueue e =>
    match e.cmds cron q withPriority with
    | .ok cmds => some (db.execAll lt cmds, none)
    | .error _ => none
  | .dequeue id =>
    match Consumer.pop lt ⟨q.ns, q.name, withPriority⟩ id db with
    | none => some (db, none)
    | some (_, none) => none
    | some (db', some m) => some (db', some m)
  | .acknowledge id =>
    let config : ConsumerConfig := ⟨q.ns, q.name, withPriority⟩
    some (db.exec lt (ProcessingHandler.acknowledge q.ns q.name (config.keyQueueProcessing id)), none)

/-- The effect of operations, and the messages they return. -/
def execOps (db : Db) : List Op → Option (Db × List Message)
  | [] => some (db, [])
  | op :: ops => (execOp cron lt q withPriority db op).bind fun r =>
    (execOps r.1 ops).map fun rs => (rs.1, r.2.toList ++ rs.2)

/-- No operation enqueues a message that waits in the priority queue. -/
def Fresh (db : Db) : List Op → Prop
  | [] => True
  | op :: ops => (∀ id ∈ op.id? q, .id id ∉ (db.zsets q.keys.keyQueuePriority).members) ∧
    ∀ r ∈ execOp cron lt q true db op, Fresh r.1 ops

instance decidableFresh : ∀ (ops : List Op) (db : Db), Decidable (Fresh cron lt q db ops)
  | [], _ => inferInstanceAs (Decidable True)
  | op :: ops, db =>
    have : DecidablePred fun r : Db × Option Message => Fresh cron lt q r.1 ops := fun r => decidableFresh ops r.1
    inferInstanceAs (Decidable ((∀ id ∈ op.id? q, .id id ∉ (db.zsets q.keys.keyQueuePriority).members) ∧
      ∀ r ∈ execOp cron lt q true db op, Fresh cron lt q r.1 ops))

/-- The messages that wait in the queue are those with the identifiers in the bag. -/
def Pending (db : Db) (b : Multiset String) : Bool → Prop
  | false => ids (db.lists q.keys.keyQueue) = b
  | true => ((db.zsets q.keys.keyQueuePriority).members : Multiset Text) = b.map .id ∧ PriorityStore db q

end Exec

/-- What an operation does to the bag, given the message that it enqueues and the message that it returns. -/
inductive OpBag (withPriority : Bool) (b : Multiset String) : Option String → Option Message → Multiset String → Prop
  | keeps : OpBag withPriority b none none b
  | puts {id} : OpBag withPriority b (some id) none (Bags.put withPriority b id)
  | takes {m} : m.uuid ∈ b → OpBag withPriority b none (some m) (b.erase m.uuid)

section

variable {cron : CronParser} {lt : Text → Text → Bool} {q : TMessageQueue} {withPriority : Bool} {db db' : Db}
variable {b b' : Multiset String} {m : Message} {now : ℕ} {id : String} {cmds : List Cmd}

theorem text_id_injective : Function.Injective Text.id := fun _ _ h => Text.id.inj h

@[simp] theorem ids_append (ms ms' : List Message) : ids (ms ++ ms') = ids ms + ids ms' := by
  simp [ids]

/-- The keys of the waiting messages decide what waits. -/
theorem Pending.frame (h : Pending q db b withPriority) (hl : SameAt db' db q.keys.keyQueue)
    (hz : SameAt db' db q.keys.keyQueuePriority) (hh : SameAt db' db q.keys.keyPendingMessagesWithPriority) :
    Pending q db' b withPriority := by
  cases withPriority with
  | false => exact (congrArg ids hl.lists).trans h
  | true => exact ⟨by rw [hz.zsets]; exact h.1, fun t ht => by rw [hz.zsets] at ht; rw [hh.hashes]; exact h.2 t ht⟩

/-- A command with other keys changes nothing of what waits. -/
theorem Pending.exec {c : Cmd} (h : Pending q db b withPriority) (hl : q.keys.keyQueue ∉ c.keys)
    (hz : q.keys.keyQueuePriority ∉ c.keys) (hh : q.keys.keyPendingMessagesWithPriority ∉ c.keys) :
    Pending q (db.exec lt c) b withPriority := h.frame (exec_frame hl) (exec_frame hz) (exec_frame hh)

theorem Pending.storeCmds {r : ℕ × Message} (h : Pending q db b withPriority) :
    Pending q (db.execAll lt (ScheduleHandler.storeCmds r)) b withPriority := by
  refine h.frame (storeCmds_frame ?_ ?_) (storeCmds_frame ?_ ?_) (storeCmds_frame ?_ ?_) <;> simp [RedisKey.ext_iff]

/-- Enqueueing a message puts its identifier into the bag. -/
theorem Pending.enqueueCmds (h : Pending q db b withPriority) :
    Pending q (db.execAll lt (EnqueueHandler.enqueueCmds q m withPriority now)) (Bags.put withPriority b m.uuid)
      withPriority := by
  cases withPriority with
  | false =>
    have hb : ids (db.lists q.keys.keyQueue) = b := h
    simp only [Pending, EnqueueHandler.enqueueCmds, Bool.false_eq_true, if_false, execAll_cons, execAll_nil, Db.exec,
      setList_lists, Function.update_self, ids_append, hb, Bags.put]
    rw [add_comm]
    rfl
  | true =>
    obtain ⟨hb, hstore⟩ := h
    refine ⟨?_, fun t ht => ?_⟩
    · have hperm := SortedSet.members_zadd_perm lt (db.zsets q.keys.keyQueuePriority)
        (m.priority.getD .normal).value (.id m.uuid)
      rw [SortedSet.members_zrem] at hperm
      simp only [EnqueueHandler.enqueueCmds, if_true, execAll_cons, execAll_nil, Db.exec, setHash_zsets,
        setZset_zsets, Function.update_self, Bags.put, Multiset.map_cons, Multiset.map_erase _ text_id_injective, ← hb]
      exact Multiset.coe_eq_coe.mpr hperm
    · simp only [EnqueueHandler.enqueueCmds, if_true, execAll_cons, execAll_nil, Db.exec, setHash_zsets,
        setZset_zsets, Function.update_self, SortedSet.mem_zadd] at ht
      simp only [EnqueueHandler.enqueueCmds, if_true, execAll_cons, execAll_nil, Db.exec, setHash_hashes,
        setZset_hashes, Function.update_self]
      by_cases heq : t = .id m.uuid
      · subst heq
        exact ⟨_, Function.update_self .., congrArg Text.id (sameMessage_enqueued m true now).uuid.symm⟩
      · rw [Function.update_of_ne heq]
        exact hstore t (ht.resolve_left heq)

/-- An operation that enqueues puts the identifier of its message into the bag, if it enqueues one. -/
theorem Pending.enqueue {e : Enqueue} (h : Pending q db b withPriority) (hon : e.On q)
    (hcmds : e.cmds cron q withPriority = .ok cmds) :
    Pending q (db.execAll lt cmds) ((e.id? q).elim b (Bags.put withPriority b)) withPriority := by
  cases e with
  | produce m now =>
    obtain ⟨r, hr, rfl⟩ : ∃ r, Producer.produceMessage cron q.ns q.name withPriority m now = .ok r ∧ r.1 = cmds := by
      simp only [Enqueue.cmds] at hcmds
      cases hr : Producer.produceMessage cron q.ns q.name withPriority m now with
      | error e => rw [hr] at hcmds; cases hcmds
      | ok r => rw [hr] at hcmds; exact ⟨r, rfl, Except.ok.inj hcmds⟩
    rw [produceMessage_exec hr]
    simp only [produceCmds, Enqueue.id?]
    split
    · rw [schedule_eq]
      dsimp only
      split
      · exact h.storeCmds
      · exact h
    · exact h.enqueueCmds
  | schedule m now =>
    obtain ⟨q', hq', rfl⟩ := enqueueScheduledMessage_cases hcmds
    obtain rfl : q' = q := Option.some.inj (hq'.symm.trans hon)
    rw [execAll_append]
    exact h.enqueueCmds.storeCmds
  | requeue source priority msg now =>
    obtain ⟨m', hm', rfl⟩ := requeueListMessage_ok hcmds
    have huuid : m'.uuid = msg.uuid := hm'.uuid
    have hlrem : Pending q (db.exec lt (.lrem (source.key q) msg)) b withPriority := by
      cases source with
      | pending => exact absurd rfl hon
      | acknowledged | deadLetter => refine h.exec ?_ ?_ ?_ <;> simp [Cmd.keys, QueueList.key, RedisKey.ext_iff]
    rw [execAll_cons, show (Enqueue.requeue source priority msg now).id? q = some m'.uuid from congrArg some huuid.symm]
    exact hlrem.enqueueCmds

/-- A consumer of the queue reads the keys of the queue. -/
theorem getKeys_eq_keys (q : TMessageQueue) : getKeys q.ns q.name none = q.keys := rfl

/-- The message that a LIFO consumer takes is taken from the bag. -/
theorem Pending.rpoplpush {list : RedisKey} (h : Pending q db b false) (hlist : q.keys.keyQueue ≠ list)
    (hm : (db.lists q.keys.keyQueue).getLast? = some m) :
    m.uuid ∈ b ∧ Pending q (db.rpoplpush q.keys.keyQueue list) (b.erase m.uuid) false := by
  have hb : m.uuid ::ₘ ids (db.lists q.keys.keyQueue).dropLast = b := by
    have hl : (db.lists q.keys.keyQueue).dropLast ++ [m] = db.lists q.keys.keyQueue :=
      List.dropLast_append_getLast? m hm
    have hids : ids (db.lists q.keys.keyQueue) = b := h
    rw [← hids, ← hl, ids_append, List.dropLast_concat, add_comm]
    rfl
  refine ⟨hb ▸ Multiset.mem_cons_self _ _, ?_⟩
  rw [← hb, Multiset.erase_cons_head]
  simp only [Pending, Db.rpoplpush, hm, setList_lists, Function.update_of_ne hlist, Function.update_self]

/-- The message that a priority consumer takes is taken from the bag. -/
theorem Pending.zpophgetrpush {t : Text} (list : RedisKey) (h : Pending q db b true)
    (ht : (db.zsets q.keys.keyQueuePriority).first = some t) :
    ∃ db' m, db.zpophgetrpush q.keys.keyQueuePriority q.keys.keyPendingMessagesWithPriority list = (db', .message m) ∧
      m.uuid ∈ b ∧ Pending q db' (b.erase m.uuid) true := by
  obtain ⟨hb, hstore⟩ := h
  obtain ⟨m, hm, rfl⟩ := hstore t (SortedSet.mem_of_first ht)
  refine ⟨_, m, by simp only [Db.zpophgetrpush, ht, hm]; rfl, ?_, ?_, fun t ht' => ?_⟩
  · have hmem : Text.id m.uuid ∈ b.map .id := hb ▸ SortedSet.mem_of_first ht
    exact (Multiset.mem_map_of_injective text_id_injective).mp hmem
  · simp only [setList_zsets, setHash_zsets, setZset_zsets, Function.update_self, SortedSet.members_zrem,
      Multiset.map_erase _ text_id_injective, ← hb, Multiset.coe_erase]
  · simp only [setList_zsets, setHash_zsets, setZset_zsets, Function.update_self, SortedSet.mem_zrem] at ht'
    simp only [setList_hashes, setHash_hashes, setZset_hashes, Function.update_self, Function.update_of_ne ht'.1]
    exact hstore t ht'.2

/-- A consumer takes a message from the bag when there is one, and never fails. -/
theorem Pending.dequeue (h : Pending q db b withPriority) (id : String) :
    (b = 0 ∧ execOp cron lt q withPriority db (.dequeue id) = some (db, none)) ∨
      ∃ db' m, execOp cron lt q withPriority db (.dequeue id) = some (db', some m) ∧ m.uuid ∈ b ∧
        Pending q db' (b.erase m.uuid) withPriority := by
  cases withPriority with
  | false =>
    simp only [execOp, Consumer.pop, getKeys_eq_keys, Bool.false_eq_true, if_false]
    cases hm : (db.lists q.keys.keyQueue).getLast? with
    | none =>
      have hb : ids (db.lists q.keys.keyQueue) = b := h
      rw [List.getLast?_eq_none_iff.mp hm] at hb
      exact .inl ⟨hb.symm, rfl⟩
    | some m => exact .inr ⟨_, m, rfl, h.rpoplpush (by simp [RedisKey.ext_iff, ConsumerConfig.keyQueueProcessing]) hm⟩
  | true =>
    simp only [execOp, Consumer.pop, getKeys_eq_keys, if_true]
    cases ht : (db.zsets q.keys.keyQueuePriority).first with
    | none =>
      have hb := h.1
      rw [show (db.zsets q.keys.keyQueuePriority).members = [] from List.head?_eq_none_iff.mp ht] at hb
      exact .inl ⟨Multiset.map_eq_zero.mp hb.symm, by simp only [Db.zpophgetrpush, ht]⟩
    | some t =>
      obtain ⟨db', m, hpop, hm⟩ := h.zpophgetrpush ((⟨q.ns, q.name, true⟩ : ConsumerConfig).keyQueueProcessing id) ht
      exact .inr ⟨db', m, by rw [hpop], hm⟩

theorem Pending.execOp {op : Op} (lt : Text → Text → Bool) (h : Pending q db b withPriority)
    (hop : op.Succeeds cron q) :
    ∃ r b', execOp cron lt q withPriority db op = some r ∧ OpBag withPriority b (op.id? q) r.2 b' ∧
      Pending q r.1 b' withPriority := by
  cases op with
  | enqueue e =>
    obtain ⟨hon, hcmds⟩ := hop
    obtain ⟨cmds, hcmds⟩ := hcmds withPriority
    refine ⟨(db.execAll lt cmds, none), _, by simp only [Queue.execOp, hcmds], ?_, h.enqueue hon hcmds⟩
    show OpBag withPriority b (e.id? q) none _
    cases e.id? q with
    | none => exact .keeps
    | some id => exact .puts
  | dequeue id =>
    rcases h.dequeue id with ⟨_, hexec⟩ | ⟨db', m, hexec, hm, hb⟩
    · exact ⟨_, b, hexec, .keeps, h⟩
    · exact ⟨_, _, hexec, .takes hm, hb⟩
  | acknowledge id =>
    refine ⟨_, b, rfl, .keeps, h.exec ?_ ?_ ?_⟩ <;>
      simp [Cmd.keys, ProcessingHandler.acknowledge, ConsumerConfig.keyQueueProcessing, RedisKey.ext_iff]

/-- A message waits in the priority queue when its identifier is in the bag. -/
theorem Pending.mem_members (h : Pending q db b true) (id : String) :
    Text.id id ∈ (db.zsets q.keys.keyQueuePriority).members ↔ id ∈ b := by
  rw [← Multiset.mem_map_of_injective text_id_injective, ← h.1, Multiset.mem_coe]

/-- **Operations are events of the bag**: it receives what is enqueued and hands out what is returned. -/
theorem Pending.execOps (cron : CronParser) (lt : Text → Text → Bool) : ∀ (ops : List Op) {db : Db}
    {b : Multiset String}, Pending q db b withPriority → (∀ op ∈ ops, op.Succeeds cron q) →
    ∃ r es b', execOps cron lt q withPriority db ops = some r ∧ Bags.Run withPriority b es b' ∧
      Pending q r.1 b' withPriority ∧ Bags.puts es = enqueuedIds q ops ∧ Bags.takes es = ids r.2 ∧
      (withPriority = true → (Bags.merged b es = 0 ↔ Fresh cron lt q db ops))
  | [], db, b, h, _ => ⟨(db, []), [], b, rfl, .nil, h, rfl, rfl, fun _ => by simp [Bags.merged, Fresh]⟩
  | op :: ops, db, b, h, hops => by
    obtain ⟨r, b₁, hexec, hbag, h₁⟩ := h.execOp lt (hops op List.mem_cons_self)
    obtain ⟨rs, es, b', hexecs, hrun, h', hputs, htakes, hfresh⟩ :=
      Pending.execOps cron lt ops h₁ (fun op hop => hops op (List.mem_cons_of_mem _ hop))
    have hall : Queue.execOps cron lt q withPriority db (op :: ops) = some (rs.1, r.2.toList ++ rs.2) := by
      simp only [Queue.execOps, hexec, Option.bind_some, hexecs, Option.map_some]
    have hrest : withPriority = true →
        ((∀ r ∈ Queue.execOp cron lt q true db op, Fresh cron lt q r.1 ops) ↔ Fresh cron lt q r.1 ops) := by
      rintro rfl
      rw [hexec]
      simp
    obtain ⟨db₁, reply⟩ := r
    have hids : enqueuedIds q (op :: ops) = ((op.id? q).toList : Multiset String) + enqueuedIds q ops := by
      unfold enqueuedIds
      cases hid : op.id? q <;> simp [hid]
    generalize hid : op.id? q = id? at hbag hids
    cases hbag with
    | keeps =>
      refine ⟨_, es, b', hall, hrun, h', by simp [hids, hputs], by simp [htakes], fun hp => ?_⟩
      rw [hfresh hp, Fresh, hrest hp, hid]
      simp
    | @puts id =>
      refine ⟨_, .put id :: es, b', hall, .put hrun, h', by simp [hids, Bags.puts, hputs], by simp [Bags.takes, htakes],
        fun hp => ?_⟩
      subst hp
      rw [Fresh, hrest rfl, hid, ← hfresh rfl, Bags.merged_put_eq_zero, ← h.mem_members]
      simp
    | @takes m hm =>
      refine ⟨_, .take m.uuid :: es, b', hall, .take hm hrun, h', by simp [hids, Bags.puts, hputs], ?_, fun hp => ?_⟩
      · rw [Bags.takes, htakes]
        rfl
      · rw [Fresh, hrest hp, hid, ← hfresh hp, Bags.merged]
        simp

theorem execOps_append : ∀ (ops ops' : List Op) {db : Db} {r r' : Db × List Message},
    execOps cron lt q withPriority db ops = some r → execOps cron lt q withPriority r.1 ops' = some r' →
    execOps cron lt q withPriority db (ops ++ ops') = some (r'.1, r.2 ++ r'.2)
  | [], ops', db, r, r', h, h' => by cases h; exact h'
  | op :: ops, ops', db, r, r', h, h' => by
    simp only [execOps, Option.bind_eq_some_iff, Option.map_eq_some_iff] at h
    obtain ⟨r₁, h1, rs, h2, rfl⟩ := h
    simp only [List.cons_append, execOps, h1, Option.bind_some, execOps_append ops ops' h2 h', Option.map_some,
      List.append_assoc]

/-- Dequeueing often enough returns what waits and empties the queue. -/
theorem Pending.drain (cron : CronParser) (lt : Text → Text → Bool) : ∀ (consumers : List String) {db : Db}
    {b : Multiset String}, Pending q db b withPriority → b.card ≤ consumers.length →
    ∃ r, Queue.execOps cron lt q withPriority db (consumers.map .dequeue) = some r ∧ Pending q r.1 0 withPriority ∧
      ids r.2 = b
  | [], db, b, h, hlen => by
    obtain rfl : b = 0 := Multiset.card_eq_zero.mp (Nat.le_zero.mp hlen)
    exact ⟨(db, []), rfl, h, rfl⟩
  | id :: consumers, db, b, h, hlen => by
    rcases @Pending.dequeue cron lt q withPriority db b h id with ⟨rfl, hexec⟩ | ⟨db', m, hexec, hm, h'⟩
    · obtain ⟨r, hr, h0, hids⟩ := Pending.drain cron lt consumers h (Nat.zero_le _)
      refine ⟨r, ?_, h0, hids⟩
      simp only [List.map_cons, Queue.execOps, hexec, Option.bind_some, hr, Option.map_some]
      rfl
    · have hcard : (b.erase m.uuid).card ≤ consumers.length := by
        rw [Multiset.card_erase_of_mem hm]
        exact Nat.pred_le_iff.mpr hlen
      obtain ⟨r, hr, h0, hids⟩ := Pending.drain cron lt consumers h' hcard
      refine ⟨(r.1, m :: r.2), ?_, h0, ?_⟩
      · simp only [List.map_cons, Queue.execOps, hexec, Option.bind_some, hr, Option.map_some]
        rfl
      · rw [← Multiset.cons_erase hm, ← hids]
        rfl

/-- Nothing waits in a queue that is empty. -/
theorem pending_zero : ∀ (withPriority : Bool), db.lists q.keys.keyQueue = [] →
    (db.zsets q.keys.keyQueuePriority).members = [] → Pending q db 0 withPriority
  | false, hl, _ => congrArg ids hl
  | true, _, hz => ⟨by rw [hz]; rfl, fun t ht => absurd (hz ▸ ht) List.not_mem_nil⟩

/-- Operations, and then as many dequeues as messages were enqueued: in LIFO mode every message is returned, in priority
mode those that were merged are missing. -/
theorem execOps_drain (lt : Text → Text → Bool) {ops : List Op} {consumers : List String}
    (h : Pending q db 0 withPriority) (hops : ∀ op ∈ ops, op.Succeeds cron q)
    (hlen : (enqueuedIds q ops).card ≤ consumers.length) :
    ∃ r merged, execOps cron lt q withPriority db (ops ++ consumers.map .dequeue) = some r ∧
      Pending q r.1 0 withPriority ∧ ids r.2 + merged = enqueuedIds q ops ∧
      (withPriority = false → merged = 0) ∧ (withPriority = true → (merged = 0 ↔ Fresh cron lt q db ops)) := by
  obtain ⟨r, es, b, hexec, hrun, hb, hputs, htakes, hfresh⟩ := h.execOps cron lt ops hops
  obtain ⟨merged, hids, hnone, hmerged⟩ : ∃ merged, ids r.2 + b + merged = enqueuedIds q ops ∧
      (withPriority = false → merged = 0) ∧ (withPriority = true → (merged = 0 ↔ Fresh cron lt q db ops)) := by
    cases withPriority with
    | false =>
      have hsum := hrun.accounts
      rw [htakes, hputs, zero_add] at hsum
      exact ⟨0, by rw [add_zero, hsum], fun _ => rfl, nofun⟩
    | true =>
      have hsum := hrun.accounts_keyed
      rw [htakes, hputs, zero_add] at hsum
      exact ⟨_, hsum, nofun, hfresh⟩
  have hcard : b.card ≤ consumers.length := by
    refine le_trans ?_ hlen
    rw [← hids, Multiset.card_add, Multiset.card_add]
    omega
  obtain ⟨r', hexec', hb', hids'⟩ := hb.drain cron lt consumers hcard
  refine ⟨_, merged, execOps_append _ _ hexec hexec', hb', ?_, hnone, hmerged⟩
  rw [ids_append, hids', hids]

/-- **The two modes deliver the same messages** if and only if no message is enqueued while it waits in the priority
queue. The operations are executed from a database in which the queue is empty, and then the queue is emptied. -/
theorem sameDeliveries_iff {ops : List Op} {consumers : List String} (hlist : db.lists q.keys.keyQueue = [])
    (hzset : (db.zsets q.keys.keyQueuePriority).members = []) (hops : ∀ op ∈ ops, op.Succeeds cron q)
    (hlen : (enqueuedIds q ops).card ≤ consumers.length) :
    ∃ lifo priority, execOps cron lt q false db (ops ++ consumers.map .dequeue) = some lifo ∧
      execOps cron lt q true db (ops ++ consumers.map .dequeue) = some priority ∧
      lifo.1.lists q.keys.keyQueue = [] ∧ (priority.1.zsets q.keys.keyQueuePriority).members = [] ∧
      ids lifo.2 = enqueuedIds q ops ∧ ids priority.2 ≤ enqueuedIds q ops ∧
      (ids priority.2 = ids lifo.2 ↔ Fresh cron lt q db ops) := by
  obtain ⟨lifo, _, hlifo, hb, hids, hnone, -⟩ := execOps_drain lt (pending_zero false hlist hzset) hops hlen
  obtain ⟨priority, merged, hpriority, hb', hids', -, hfresh⟩ :=
    execOps_drain lt (pending_zero true hlist hzset) hops hlen
  rw [hnone rfl, add_zero] at hids
  refine ⟨lifo, priority, hlifo, hpriority, ?_, ?_, hids, ?_, ?_⟩
  · have hempty : ((lifo.1.lists q.keys.keyQueue).map (·.uuid) : Multiset String) = 0 := hb
    exact List.map_eq_nil_iff.mp ((Multiset.coe_eq_zero _).mp hempty)
  · exact (Multiset.coe_eq_zero _).mp hb'.1
  · rw [← hids']
    exact Multiset.le_add_right _ _
  · rw [hids, ← hids', ← hfresh rfl]
    constructor
    · intro heq
      exact add_left_cancel (heq.symm.trans (add_zero _).symm)
    · intro heq
      rw [heq, add_zero]

end

/-! ## A message that is enqueued while it waits -/

/-- A message that is delivered, re-queued from the acknowledged list, delivered again and produced again. -/
def delivered : List Op :=
  let m := Message.new Message.defaultOpts "m" 0
  [.enqueue (.produce m 1), .dequeue "c", .acknowledge "c",
    .enqueue (.requeue .acknowledged none (sent ⟨"q", "ns"⟩ m) 2), .dequeue "c", .acknowledge "c",
    .enqueue (.produce m 3)]

/-- It never waits when it is enqueued, so both modes return it three times. -/
theorem sameDeliveries_delivered : ∃ lifo priority,
    execOps minuteParser (fun _ _ => false) ⟨"q", "ns"⟩ false .empty (delivered ++ ["c", "c", "c"].map .dequeue) =
      some lifo ∧
    execOps minuteParser (fun _ _ => false) ⟨"q", "ns"⟩ true .empty (delivered ++ ["c", "c", "c"].map .dequeue) =
      some priority ∧ ids lifo.2 = {"m", "m", "m"} ∧ ids priority.2 = ids lifo.2 := by
  have hops : ∀ op ∈ delivered, op.Succeeds minuteParser ⟨"q", "ns"⟩ := by
    intro op hop
    simp only [delivered, List.mem_cons, List.not_mem_nil, or_false] at hop
    rcases hop with rfl | rfl | rfl | rfl | rfl | rfl | rfl
    all_goals first
      | trivial
      | exact ⟨by simp [Enqueue.On], fun withPriority => by cases withPriority <;> exact ⟨_, rfl⟩⟩
  obtain ⟨lifo, priority, hlifo, hpriority, _, _, hids, _, hiff⟩ :=
    @sameDeliveries_iff minuteParser (fun _ _ => false) ⟨"q", "ns"⟩ .empty delivered ["c", "c", "c"] rfl rfl hops
      (by decide)
  exact ⟨lifo, priority, hlifo, hpriority, hids, hiff.mpr (by decide)⟩

/-- A message that is produced twice, as a producer may do with the same object. -/
def producedTwice : List Op := [.enqueue (.produce (Message.new Message.defaultOpts "m" 0) 1),
  .enqueue (.produce (Message.new Message.defaultOpts "m" 0) 2)]

/-- Then LIFO mode returns it twice, priority mode once. -/
theorem not_sameDeliveries_twice : ∃ lifo priority,
    execOps minuteParser (fun _ _ => false) ⟨"q", "ns"⟩ false .empty (producedTwice ++ ["c", "c"].map .dequeue) =
      some lifo ∧
    execOps minuteParser (fun _ _ => false) ⟨"q", "ns"⟩ true .empty (producedTwice ++ ["c", "c"].map .dequeue) =
      some priority ∧
    ids lifo.2 = {"m", "m"} ∧ ids priority.2 = {"m"} ∧ ids priority.2 ≠ ids lifo.2 := by
  have h : ∀ withPriority, ((execOps minuteParser (fun _ _ => false) ⟨"q", "ns"⟩ withPriority .empty
      (producedTwice ++ ["c", "c"].map .dequeue)).map fun r => r.2.map (·.uuid)) =
        some (if withPriority then ["m"] else ["m", "m"]) := by decide
  obtain ⟨lifo, hlifo, hids⟩ := Option.map_eq_some_iff.mp (h false)
  obtain ⟨priority, hpriority, hids'⟩ := Option.map_eq_some_iff.mp (h true)
  refine ⟨lifo, priority, hlifo, hpriority, congrArg _ hids, congrArg _ hids', ?_⟩
  unfold ids
  rw [hids, hids']
  decide

end RedisSmq.Queue
