import RedisSmq.Lib.Tokens
import RedisSmq.Queue.Hands
import RedisSmq.Queue.Origin
import RedisSmq.Queue.Requests
import RedisSmq.Queue.Scheduled

/-!
# Copies of a message

The copies of a message are the entries of the lists and the payloads of the hashes with its identifier (`copies`). In
either mode and with any requests of the message manager, a message without CRON and repeat has at most one copy in every
state, when its identifier is produced once and the re-queues of the message manager find it (`tracked_reachable`). The
message may get lost: a priority re-queue or a deletion drops its copy.

What the workers have read is bounded by what there is: the batches are parts of their lists (`Batches`), and a message
that the schedule worker has read lies in the scheduled store or nowhere (`Tracked.read`).
-/

namespace RedisSmq

open RedisKeys Db

/-- How many copies a command adds to a slot. -/
def Cmd.adds (db : Db) (id : String) : Cmd → Slot → ℕ
  | .rpush key m, slot | .lpush key m, slot => if slot = .list key ∧ m.uuid = id then 1 else 0
  | .hset key t _, slot => if slot = .field key t ∧ t = .id id then 1 else 0
  | .rpoplpush source destination, slot =>
    match (db.lists source).getLast? with
    | some m => if slot = .list destination ∧ m.uuid = id then 1 else 0
    | none => 0
  | .lpoprpush source destination, slot =>
    match (db.lists source).head? with
    | some m => if slot = .list destination ∧ m.uuid = id then 1 else 0
    | none => 0
  | _, _ => 0

/-- How many copies a command removes from a slot, at least. -/
def Cmd.removes (db : Db) (id : String) : Cmd → Slot → ℕ
  | .lrem key m, slot => if slot = .list key ∧ m.uuid = id ∧ m ∈ db.lists key then 1 else 0
  | .hdel key t, slot => if slot = .field key t ∧ t = .id id ∧ (db.hashes key t).isSome then 1 else 0
  | .rpoplpush source _, slot =>
    match (db.lists source).getLast? with
    | some m => if slot = .list source ∧ m.uuid = id then 1 else 0
    | none => 0
  | .lpoprpush source _, slot =>
    match (db.lists source).head? with
    | some m => if slot = .list source ∧ m.uuid = id then 1 else 0
    | none => 0
  | _, _ => 0

namespace Queue

open Tokens Transition

/-- The copies of a message in a slot. -/
def copies (db : Db) (id : String) : Slot → ℕ
  | .list key => (db.lists key).countP (·.uuid = id)
  | .field key t => if t = .id id ∧ (db.hashes key t).isSome then 1 else 0

section

variable {cron : CronParser} {lt : Text → Text → Bool} {config : String → ConsumerConfig}
variable {s s' : State} {a : Action} {id : String} {db db' : Db} {slot : Slot} {m : Message} {c : Cmd}
variable {key : RedisKey} {q : TMessageQueue} {withPriority : Bool} {now : ℕ}

/-! ## Commands -/

theorem copies_sameFor (h : SameFor db db' id) : copies db id = copies db' id := by
  funext slot
  cases slot with
  | list key => simp only [copies, List.countP_eq_length_filter, h.lists key]
  | field key t =>
    by_cases ht : t = .id id
    · subst ht
      simp only [copies, h.payloads key]
    · simp [copies, ht]

theorem copies_setList {l : List Message} : copies (db.setList key l) id slot =
    if slot = .list key then l.countP (·.uuid = id) else copies db id slot := by
  cases slot with
  | list key' =>
    by_cases hk : key' = key
    · subst hk; simp [copies]
    · simp [copies, hk]
  | field key' t => rfl

theorem copies_setHash {t : Text} {v : Option Message} : copies (db.setHash key t v) id slot =
    if slot = .field key t then (if t = .id id ∧ v.isSome then 1 else 0) else copies db id slot := by
  cases slot with
  | list key' => rfl
  | field key' t' =>
    by_cases hk : key' = key
    · subst hk
      by_cases ht : t' = t
      · subst ht; simp [copies]
      · simp [copies, ht]
    · simp [copies, hk]

theorem countP_cons_message {l : List Message} :
    (m :: l).countP (·.uuid = id) = l.countP (·.uuid = id) + if m.uuid = id then 1 else 0 := by
  rw [List.countP_cons]
  simp only [decide_eq_true_eq]

/-- A message that is taken out of one list and put into another. -/
theorem copies_move {source destination : RedisKey} {rest l : List Message} (hp : (db.lists source).Perm (m :: rest))
    (hl : l.Perm (m :: (db.setList source rest).lists destination)) :
    copies ((db.setList source rest).setList destination l) id slot +
        (if slot = .list source ∧ m.uuid = id then 1 else 0) ≤
      copies db id slot + if slot = .list destination ∧ m.uuid = id then 1 else 0 := by
  have hsource := hp.countP_eq (fun m => decide (m.uuid = id))
  have hdest := hl.countP_eq (fun m => decide (m.uuid = id))
  rw [countP_cons_message] at hsource hdest
  rw [copies_setList, copies_setList]
  by_cases hd : slot = .list destination
  · subst hd
    by_cases hs : destination = source
    · subst hs
      simp only [setList_lists, Function.update_self] at hdest
      simp only [if_true, true_and, copies]
      omega
    · simp only [setList_lists, Function.update_of_ne hs] at hdest
      simp only [Slot.list.injEq, hs, if_true, if_false, true_and, false_and, copies]
      omega
  · by_cases hs : slot = .list source
    · subst hs
      simp only [hd, if_true, if_false, true_and, false_and, copies]
      omega
    · simp [hd, hs]

/-- What a command does to the copies of a message. -/
theorem copies_exec : copies (db.exec lt c) id slot + c.removes db id slot ≤ copies db id slot + c.adds db id slot := by
  cases c with
  | rpush key m =>
    rw [Db.exec, copies_setList]
    by_cases hs : slot = .list key
    · subst hs
      simp [Cmd.removes, Cmd.adds, copies]
    · simp [Cmd.removes, Cmd.adds, hs]
  | lpush key m =>
    rw [Db.exec, copies_setList]
    by_cases hs : slot = .list key
    · subst hs
      simp [Cmd.removes, Cmd.adds, copies, countP_cons_message]
    · simp [Cmd.removes, Cmd.adds, hs]
  | lrem key m =>
    rw [Db.exec, copies_setList]
    by_cases hs : slot = .list key
    · subst hs
      by_cases hm : m.uuid = id ∧ m ∈ db.lists key
      · have hperm := (List.perm_cons_erase hm.2).countP_eq (fun m => decide (m.uuid = id))
        rw [List.countP_cons_of_pos (by simpa using hm.1)] at hperm
        simp [Cmd.removes, Cmd.adds, copies, hm, hperm]
      · have hle := (List.erase_sublist (a := m) (l := db.lists key)).countP_le (p := fun m => decide (m.uuid = id))
        simpa [Cmd.removes, Cmd.adds, copies, hm] using hle
    · simp [Cmd.removes, Cmd.adds, hs]
  | rpoplpush source destination =>
    simp only [Db.exec, Db.rpoplpush, Cmd.removes, Cmd.adds]
    cases hl : (db.lists source).getLast? with
    | none => exact Nat.le_refl _
    | some m =>
      obtain ⟨rest, hrest⟩ := List.getLast?_eq_some_iff.mp hl
      have hp : (db.lists source).Perm (m :: (db.lists source).dropLast) := by
        rw [hrest, List.dropLast_concat]
        exact List.perm_append_singleton _ _
      exact copies_move hp (.refl _)
  | lpoprpush source destination =>
    simp only [Db.exec, Db.lpoprpush, Cmd.removes, Cmd.adds]
    cases hl : db.lists source with
    | nil => exact Nat.le_refl _
    | cons m rest =>
      have hp : (db.lists source).Perm (m :: rest) := hl ▸ .refl _
      exact copies_move hp (List.perm_append_singleton _ _)
  | hset key t m =>
    rw [Db.exec, copies_setHash]
    by_cases hs : slot = .field key t
    · subst hs
      by_cases ht : t = .id id <;> simp [Cmd.removes, Cmd.adds, ht]
    · simp [Cmd.removes, Cmd.adds, hs]
  | hdel key t =>
    rw [Db.exec, copies_setHash]
    by_cases hs : slot = .field key t
    · subst hs
      simp [Cmd.removes, Cmd.adds, copies]
    · simp [Cmd.removes, Cmd.adds, hs]
  | del key =>
    cases slot with
    | list key' => by_cases hk : key' = key <;> simp [Cmd.removes, Cmd.adds, Db.exec, copies, hk]
    | field key' t => by_cases hk : key' = key <;> simp [Cmd.removes, Cmd.adds, Db.exec, copies, hk]
  | _ => exact Nat.le_refl _

/-- A copy is a held message. -/
theorem exists_of_copies (hf : Forall Filed db) (h : copies db id slot ≠ 0) : ∃ m, db.Holds slot m ∧ m.uuid = id := by
  cases slot with
  | list key =>
    obtain ⟨m, hm, hid⟩ := List.countP_pos_iff.mp (Nat.pos_of_ne_zero h)
    exact ⟨m, hm, of_decide_eq_true hid⟩
  | field key t =>
    simp only [copies, ne_eq, ite_eq_right_iff, Nat.one_ne_zero, imp_false, not_not] at h
    obtain ⟨rfl, hsome⟩ := h
    obtain ⟨m, hm⟩ := Option.isSome_iff_exists.mp hsome
    have hid : Text.id id = .id m.uuid := hf (.field key _) m hm
    exact ⟨m, hm, (Text.id.inj hid).symm⟩

/-- A held message is a copy. -/
theorem copies_of_holds (hf : Forall Filed db) (slot : Slot) (h : db.Holds slot m) (hid : m.uuid = id) :
    copies db id slot ≠ 0 := by
  cases slot with
  | list key => exact (List.countP_pos_iff.mpr ⟨m, h, by simpa using hid⟩).ne'
  | field key t =>
    have ht : t = .id m.uuid := hf (.field key t) m h
    have hsome : db.hashes key t = some m := h
    rw [hid] at ht
    subst ht
    simp [copies, hsome]

/-! ## Blocks -/

theorem copies_exec_le : copies (db.exec lt c) id slot ≤ copies db id slot + c.adds db id slot :=
  (Nat.le_add_right _ _).trans copies_exec

/-- Enqueueing adds one copy. -/
theorem copies_enqueueCmds : copies (db.execAll lt (EnqueueHandler.enqueueCmds q m withPriority now)) id slot ≤
    copies db id slot + if slot = enqueueSlot q m withPriority ∧ m.uuid = id then 1 else 0 := by
  cases withPriority with
  | false => exact @copies_exec_le lt id db slot (.rpush q.keys.keyQueue (EnqueueHandler.enqueued m false now))
  | true =>
    have hset := @copies_exec_le lt id db slot (.hset q.keys.keyPendingMessagesWithPriority (.id m.uuid)
      (EnqueueHandler.enqueued m true now))
    simp only [Cmd.adds, Text.id.injEq] at hset
    exact hset

/-- With a timestamp, the block adds one copy. -/
theorem copies_storeCmds {r : ℕ × Message} (hr : r.1 ≠ 0) : copies (db.execAll lt (ScheduleHandler.storeCmds r)) id slot ≤
    copies db id slot + if slot = scheduledSlot r.2 ∧ r.2.uuid = id then 1 else 0 := by
  rw [ScheduleHandler.storeCmds, if_pos hr]
  have hset := @copies_exec_le lt id (db.exec lt (.zadd getGlobalKeys.keyQueueScheduled r.1 (.id r.2.uuid))) slot
    (.hset getGlobalKeys.keyScheduledMessages (.id r.2.uuid) r.2)
  simp only [Cmd.adds, Text.id.injEq] at hset
  exact hset

/-- Without a timestamp, the block removes the copy. -/
theorem copies_storeCmds_zero {r : ℕ × Message} (hr : r.1 = 0) :
    copies (db.execAll lt (ScheduleHandler.storeCmds r)) id slot =
      if slot = scheduledSlot r.2 then 0 else copies db id slot := by
  simp only [ScheduleHandler.storeCmds, hr, ne_eq, not_true_eq_false, if_false, execAll_cons, execAll_nil, Db.exec,
    copies_setHash, Option.isSome_none, Bool.false_eq_true, and_false]
  rfl

/-- A move shifts the copies. -/
theorem shift_move {source destination : RedisKey} (hc : IsMove source destination c) :
    Shift (copies db id) (copies (db.exec lt c) id) := by
  have hle := fun slot => @copies_exec lt id db slot c
  have hmove : ∀ m, m ∈ db.lists source → (∀ slot, c.removes db id slot =
      if slot = .list source ∧ m.uuid = id then 1 else 0) → (∀ slot, c.adds db id slot =
        if slot = .list destination ∧ m.uuid = id then 1 else 0) → Shift (copies db id) (copies (db.exec lt c) id) := by
    intro m hm hremoves hadds
    by_cases hid : m.uuid = id
    · refine .move (.list source) (.list destination) (List.countP_pos_iff.mpr ⟨m, hm, by simpa using hid⟩) fun slot => ?_
      have := hle slot
      simpa only [hremoves, hadds, hid, and_true] using this
    · refine .drop fun slot => ?_
      have := hle slot
      rw [hremoves, hadds, if_neg (fun h => hid h.2), if_neg (fun h => hid h.2)] at this
      omega
  rcases hc with rfl | rfl
  · cases hl : (db.lists source).getLast? with
    | none => exact .drop fun slot => by simp [Db.exec, Db.rpoplpush, hl]
    | some m =>
      exact hmove m (List.mem_of_getLast? hl) (fun slot => by simp [Cmd.removes, hl])
        (fun slot => by simp [Cmd.adds, hl])
  · cases hl : (db.lists source).head? with
    | none =>
      have hnil := List.head?_eq_none_iff.mp hl
      exact .drop fun slot => by simp [Db.exec, Db.lpoprpush, hnil]
    | some m =>
      exact hmove m (List.mem_of_head? hl) (fun slot => by simp [Cmd.removes, hl])
        (fun slot => by simp [Cmd.adds, hl])

/-! ## What the workers have read -/

/-- The batches of the delay worker and of the re-queue worker are parts of their lists. -/
structure Batches (s : State) : Prop where
  delay : ∀ b, s.delayTick = .fetched b → b.messages.Sublist (s.db.lists getGlobalKeys.keyQueueDelay)
  requeue : ∀ b, s.requeueTick = .fetched b → b.messages.Sublist (s.db.lists getGlobalKeys.keyQueueRequeue)

/-- What the delay worker remembers after a step. -/
theorem step_delayTick (h : step cron lt config s a = some s') : s'.delayTick = s.delayTick ∧ a ≠ .delayExec ∨
    (∃ now, a = .delayFetch now ∧ s'.db = s.db ∧
      s'.delayTick = .fetched ⟨(s.db.lists getGlobalKeys.keyQueueDelay).take 100, now⟩) ∨
    (a = .delayExec ∧ ∀ b, s'.delayTick ≠ .fetched b) := by
  cases a with
  | delayFetch now =>
    simp only [step] at h
    split at h <;> cases h
    exact .inr (.inl ⟨now, rfl, rfl, rfl⟩)
  | delayExec =>
    simp only [step, delayExec] at h
    split at h
    · split at h <;> cases h <;> exact .inr (.inr ⟨rfl, fun _ hb => by cases hb⟩)
    · cases h
  | produce => rw [step_produce h]; exact .inl ⟨rfl, fun h => by cases h⟩
  | _ =>
    refine .inl ⟨?_, fun h => by cases h⟩
    simp only [step, dequeueMessage, settle, requeueExec, scheduleExec, requestExec] at h
    repeat' (split at h)
    all_goals cases h <;> rfl

/-- What the re-queue worker remembers after a step. -/
theorem step_requeueTick (h : step cron lt config s a = some s') : s'.requeueTick = s.requeueTick ∧ a ≠ .requeueExec ∨
    (∃ withPriority, a = .requeueFetch withPriority ∧ s'.db = s.db ∧
      s'.requeueTick = .fetched ⟨withPriority, (s.db.lists getGlobalKeys.keyQueueRequeue).take 100⟩) ∨
    (a = .requeueExec ∧ ∀ b, s'.requeueTick ≠ .fetched b) := by
  cases a with
  | requeueFetch withPriority =>
    simp only [step] at h
    split at h <;> cases h
    exact .inr (.inl ⟨withPriority, rfl, rfl, rfl⟩)
  | requeueExec =>
    simp only [step, requeueExec] at h
    split at h
    · split at h <;> cases h <;> exact .inr (.inr ⟨rfl, fun _ hb => by cases hb⟩)
    · cases h
  | produce => rw [step_produce h]; exact .inl ⟨rfl, fun h => by cases h⟩
  | _ =>
    refine .inl ⟨?_, fun h => by cases h⟩
    simp only [step, dequeueMessage, settle, delayExec, scheduleExec, requestExec] at h
    repeat' (split at h)
    all_goals cases h <;> rfl

/-- The lists of the two workers lose messages to their own worker only. -/
theorem step_workerList (h : step cron lt config s a = some s')
    (hk : key = getGlobalKeys.keyQueueDelay ∧ a ≠ .delayExec ∨ key = getGlobalKeys.keyQueueRequeue ∧ a ≠ .requeueExec) :
    (s.db.lists key).Sublist (s'.db.lists key) := by
  by_cases htypes : key.type ∈ a.types
  · have hdb := step_db h
    generalize s'.db = db at hdb ⊢
    cases hdb with
    | reads => exact .refl _
    | @unacknowledge id cause now m _ =>
      rw [← Broker.retry_eq]
      obtain ⟨destination, hmove, htype⟩ := @Broker.isMove_retry (config id).ns (config id).queueName
        ((config id).keyQueueProcessing id) m cause now
      refine move_sublist hmove (fun heq => htype (heq ▸ rfl)) ?_
      rcases hk with ⟨rfl, _⟩ | ⟨rfl, _⟩ <;> simp [RedisKey.ext_iff, ConsumerConfig.keyQueueProcessing]
    | delayExec | requeueExec => rcases hk with ⟨rfl, hne⟩ | ⟨rfl, hne⟩ <;> simp [Action.types] at htypes hne
    | _ => rcases hk with ⟨rfl, _⟩ | ⟨rfl, _⟩ <;> simp [Action.types] at htypes
  · rw [(step_frame h htypes).lists]

theorem Batches.step (hb : Batches s) (h : Queue.step cron lt config s a = some s') : Batches s' := by
  refine ⟨fun b hf => ?_, fun b hf => ?_⟩
  · rcases step_delayTick h with ⟨hsame, hne⟩ | ⟨now, rfl, hdb, hfetched⟩ | ⟨rfl, hnone⟩
    · exact (hb.delay b (hsame ▸ hf)).trans (step_workerList h (.inl ⟨rfl, hne⟩))
    · rw [hf] at hfetched
      cases hfetched
      rw [hdb]
      exact List.take_sublist _ _
    · exact absurd hf (hnone b)
  · rcases step_requeueTick h with ⟨hsame, hne⟩ | ⟨withPriority, rfl, hdb, hfetched⟩ | ⟨rfl, hnone⟩
    · exact (hb.requeue b (hsame ▸ hf)).trans (step_workerList h (.inr ⟨rfl, hne⟩))
    · rw [hf] at hfetched
      cases hfetched
      rw [hdb]
      exact List.take_sublist _ _
    · exact absurd hf (hnone b)

theorem batches_reachable {P : State → Action → Prop} (h : Reach (system cron lt config) P s) : Batches s :=
  h.invariant (I := Batches) ⟨fun _ hb => (by cases hb), fun _ hb => (by cases hb)⟩ (fun _ _ _ hb _ hs => hb.step hs)

/-- A message of the scheduled store that is not periodic has its delay behind it. -/
def Ripe : Slot → Message → Prop
  | .list _, _ => True
  | .field key _, m => key = getGlobalKeys.keyScheduledMessages → m.isPeriodic = false → m.delayed = true

/-- The messages of the scheduled store, and those that the schedule worker has read, are ripe. -/
structure AllRipe (s : State) : Prop where
  held : Forall Ripe s.db
  read : ∀ withPriority now rest, s.scheduleTick = .messages withPriority now rest → ∀ m, some m ∈ rest →
    m.isPeriodic = false → m.delayed = true

theorem stepPuts_ripe (h : StepPuts cron config s a slot m) : Ripe slot m := by
  have henqueue : ∀ {q m m' withPriority}, Ripe (enqueueSlot q m withPriority) m' := by
    intro q m m' withPriority
    cases withPriority
    · trivial
    · exact fun hk => by simp [RedisKey.ext_iff] at hk
  cases h with
  | @produceScheduled q withPriority m now _ hne =>
    intro _ hp
    have hsame := sameMessage_next cron now (sent q m)
    exact (delayed_of_next (hsame.isPeriodic.symm.trans hp) hne).1
  | delayed => exact fun _ _ => rfl
  | @rescheduled withPriority now m rest _ hne =>
    intro _ hp
    exact (delayed_of_next ((sameMessage_next cron now _).isPeriodic.symm.trans hp) hne).1
  | produceEnqueued | enqueueScheduled | requested => exact henqueue
  | _ => trivial

theorem allRipe_reachable {P : State → Action → Prop} (h : Reach (system cron lt config) P s) : AllRipe s := by
  refine h.invariant (I := AllRipe) ⟨Forall.empty, fun _ _ _ ht => by cases ht⟩ (fun s a s' hi _ hs => ?_)
  refine ⟨step_forall hs hi.held (fun _ _ => stepPuts_ripe), fun withPriority now rest ht m hm => ?_⟩
  have htick := step_tick hs
  generalize s'.scheduleTick = tick at htick ht
  cases htick with
  | other => exact hi.read _ _ _ ht m hm
  | fetchMessages _ =>
    cases ht
    obtain ⟨t, _, hpayload⟩ := List.mem_map.mp hm
    exact hi.held (.field _ t) m hpayload rfl
  | enqueued hold =>
    cases ht
    exact hi.read _ _ _ hold m (List.mem_cons_of_mem _ hm)
  | _ => cases ht

/-! ## At most one copy -/

/-- The transaction of the delay worker shifts the copies of its messages one after the other. -/
theorem atMostOne_delay (lt : Text → Text → Bool) : ∀ {ms : List Message} {cmds : List Cmd} {db : Db},
    parallel (DelayHandler.scheduleTask cron now) ms = .ok cmds → ms.Sublist (db.lists getGlobalKeys.keyQueueDelay) →
    AtMostOne (copies db id) → AtMostOne (copies (db.execAll lt cmds) id)
  | [], _, _, h, _, hone => by cases h; exact hone
  | i :: ms, _, db, h, hsub, hone => by
    obtain ⟨c, cs, h1, h2, rfl⟩ := parallel_cons h
    obtain ⟨p, _, rfl⟩ := scheduleTask_ok h1
    have hi : i ∈ db.lists getGlobalKeys.keyQueueDelay := hsub.subset List.mem_cons_self
    have hpos : now + p.ms ≠ 0 := by have := p.min; omega
    have hle : ∀ slot, copies (db.execAll lt (.lrem getGlobalKeys.keyQueueDelay i ::
        ScheduleHandler.storeCmds (now + p.ms, delayed i p now))) id slot +
        (if slot = .list getGlobalKeys.keyQueueDelay ∧ i.uuid = id then 1 else 0) ≤
        copies db id slot + if slot = scheduledSlot i ∧ i.uuid = id then 1 else 0 := by
      intro slot
      have hrem := @copies_exec lt id db slot (.lrem getGlobalKeys.keyQueueDelay i)
      have hstore := @copies_storeCmds lt id (db.exec lt (.lrem getGlobalKeys.keyQueueDelay i)) slot
        (now + p.ms, delayed i p now) hpos
      simp only [Cmd.removes, Cmd.adds, hi, and_true] at hrem
      rw [execAll_cons]
      have hslot : scheduledSlot (delayed i p now) = scheduledSlot i := rfl
      have huuid : (delayed i p now).uuid = i.uuid := rfl
      simp only [hslot, huuid] at hstore
      omega
    have hshift : Shift (copies db id) (copies (db.execAll lt (.lrem getGlobalKeys.keyQueueDelay i ::
        ScheduleHandler.storeCmds (now + p.ms, delayed i p now))) id) := by
      by_cases hid : i.uuid = id
      · refine .move (.list getGlobalKeys.keyQueueDelay) (scheduledSlot i)
          (List.countP_pos_iff.mpr ⟨i, hi, by simpa using hid⟩) fun slot => ?_
        simpa only [hid, and_true] using hle slot
      · exact .drop fun slot => by simpa only [hid, and_false, if_false, Nat.add_zero] using hle slot
    have hlist : (db.execAll lt (.lrem getGlobalKeys.keyQueueDelay i ::
        ScheduleHandler.storeCmds (now + p.ms, delayed i p now))).lists getGlobalKeys.keyQueueDelay =
        (db.lists getGlobalKeys.keyQueueDelay).erase i := by
      rw [execAll_cons, (storeCmds_frame (by simp [RedisKey.ext_iff]) (by simp [RedisKey.ext_iff])).lists]
      simp [Db.exec]
    have hrest : ms.Sublist ((db.lists getGlobalKeys.keyQueueDelay).erase i) := by
      have := hsub.erase i
      rwa [List.erase_cons_head] at this
    rw [execAll_append]
    exact atMostOne_delay lt h2 (hlist ▸ hrest) (hone.shift hshift)

/-- The transaction of the re-queue worker shifts the copies of its messages, and drops them in priority mode. -/
theorem atMostOne_requeue (lt : Text → Text → Bool) : ∀ {withPriority : Bool} {ms : List Message} {cmds : List Cmd}
    {db : Db}, parallel (RequeueWorker.requeueTask withPriority) ms = .ok cmds →
    ms.Sublist (db.lists getGlobalKeys.keyQueueRequeue) →
    AtMostOne (copies db id) → AtMostOne (copies (db.execAll lt cmds) id)
  | _, [], _, _, h, _, hone => by cases h; exact hone
  | withPriority, i :: ms, _, db, h, hsub, hone => by
    obtain ⟨c, cs, h1, h2, rfl⟩ := parallel_cons h
    obtain ⟨q, _, rfl⟩ := requeueTask_ok h1
    have hi : i ∈ db.lists getGlobalKeys.keyQueueRequeue := hsub.subset List.mem_cons_self
    have hrest : ms.Sublist ((db.lists getGlobalKeys.keyQueueRequeue).erase i) := by
      have := hsub.erase i
      rwa [List.erase_cons_head] at this
    have hrem := fun slot => @copies_exec lt id db slot (.lrem getGlobalKeys.keyQueueRequeue i)
    simp only [Cmd.removes, Cmd.adds, hi, and_true, Nat.add_zero] at hrem
    rw [execAll_append]
    cases withPriority with
    | true =>
      refine atMostOne_requeue lt h2 ?_ (hone.shift (.drop fun slot => ?_))
      · simpa [Db.exec] using hrest
      · exact (Nat.le_add_right _ _).trans (hrem slot)
    | false =>
      have hpush := fun slot => @copies_exec_le lt id (db.exec lt (.lrem getGlobalKeys.keyQueueRequeue i)) slot
        (.lpush q.keys.keyQueue i.incrAttempts)
      have huuid : i.incrAttempts.uuid = i.uuid := rfl
      simp only [Cmd.adds, huuid] at hpush
      refine atMostOne_requeue lt h2 ?_ (hone.shift ?_)
      · simpa [Db.exec, RedisKey.ext_iff] using hrest
      · by_cases hid : i.uuid = id
        · refine .move (.list getGlobalKeys.keyQueueRequeue) (.list q.keys.keyQueue)
            (List.countP_pos_iff.mpr ⟨i, hi, by simpa using hid⟩) fun slot => ?_
          have h1 := hrem slot
          have h2 := hpush slot
          simp only [hid, and_true] at h1 h2
          simp only [Bool.false_eq_true, if_false, execAll_cons, execAll_nil]
          omega
        · refine .drop fun slot => ?_
          have h1 := hrem slot
          have h2 := hpush slot
          simp only [hid, and_false, if_false, Nat.add_zero] at h1 h2
          exact h2.trans h1

/-- How often the schedule worker has read the message. -/
def ScheduleTick.reads (id : String) : ScheduleTick → ℕ
  | .ids _ texts => texts.count (.id id)
  | .messages _ _ rest => rest.countP fun reply => reply.any (·.uuid = id)
  | .idle | .dead => 0

/-- The identifier stands for one message: it is produced once, and the re-queues of the message manager find it. -/
def identifies (id : String) (s : State) : Action → Bool
  | .produce _ _ m _ => m.uuid ≠ id || s.produced.all (·.message.uuid ≠ id)
  | a => finds id s a

/-- An identifier that stands for one message is produced once. -/
theorem produced_unique (h : Reach (system cron lt config) (fun s a => identifies id s a = true) s) :
    ∀ r ∈ s.produced, r.message.uuid = id → ∀ r' ∈ s.produced, r'.message.uuid = id → r = r' := by
  induction h with
  | init => exact fun r hr => absurd hr List.not_mem_nil
  | @step s s' a _ hid hs ih =>
    rcases step_produced hs with heq | ⟨q, withPriority, m, now, rfl, heq⟩
    · rw [heq]
      exact ih
    · simp only [identifies, Bool.or_eq_true, List.all_eq_true, decide_eq_true_eq] at hid
      have hnew : m.uuid = id → ∀ r ∈ s.produced, r.message.uuid ≠ id := fun h => hid.resolve_left fun hne => hne h
      rw [heq]
      intro r hr huuid r' hr' huuid'
      rcases List.mem_cons.mp hr with rfl | hr <;> rcases List.mem_cons.mp hr' with rfl | hr'
      · rfl
      · exact absurd huuid' (hnew huuid r' hr')
      · exact absurd huuid (hnew huuid' r hr)
      · exact ih r hr huuid r' hr' huuid'

/-- There is at most one copy of the message, and if the schedule worker has read it, it is in the scheduled store. -/
structure Tracked (id : String) (s : State) : Prop where
  sole : AtMostOne (copies s.db id)
  once : s.scheduleTick.reads id ≤ 1
  read : s.scheduleTick.reads id ≠ 0 → ∀ slot, copies s.db id slot ≠ 0 →
    slot = .field getGlobalKeys.keyScheduledMessages (.id id)
  known : s.scheduleTick.reads id ≠ 0 → ∃ r ∈ s.produced, r.message.uuid = id

/-- What holds in every run and what the account of one message rests on. -/
structure Base (config : String → ConsumerConfig) (s : State) : Prop where
  store : StoreInv s
  batches : Batches s
  ripe : AllRipe s
  hands : Hands config s
  original : ∀ m, InStock s m → Original s.produced m

theorem base_reachable {P : State → Action → Prop} (h : Reach (system cron lt config) P s) : Base config s :=
  ⟨storeInv_reachable h, batches_reachable h, allRipe_reachable h, hands_reachable h, stock_reachable h⟩

/-- A message that was not produced has no copy. -/
theorem Base.copies_zero (hb : Base config s) (h : ∀ r ∈ s.produced, r.message.uuid ≠ id) (slot : Slot) :
    copies s.db id slot = 0 := by
  by_contra hne
  obtain ⟨m, hm, hid⟩ := exists_of_copies hb.store.filed hne
  obtain ⟨⟨r, hr, hc⟩, _⟩ := hb.original m (.inl ⟨slot, hm⟩)
  have huuid : r.message.uuid = m.uuid := congrArg Content.uuid hc
  exact h r hr (huuid.trans hid)

/-- The block of a producer is about its message. -/
theorem about_produceCmds (hc : c ∈ produceCmds cron q withPriority m now) (h : c.About id) : m.uuid = id := by
  unfold produceCmds at hc
  split at hc
  · rw [schedule_eq] at hc
    dsimp only at hc
    split at hc
    · have huuid : (ScheduleHandler.getNextScheduledTimestamp cron now (sent q m)).2.uuid = m.uuid :=
        (sameMessage_next cron now (sent q m)).uuid
      exact huuid.symm.trans (about_storeCmds (r := (_, Message.setScheduledAt _ now)) hc h)
    · cases hc
  · have hsent : (sent q m).uuid = id := about_enqueueCmds hc h
    exact hsent

/-- The block of a producer adds one copy at most. -/
theorem copies_produceCmds : ∃ j, ∀ slot, copies (db.execAll lt (produceCmds cron q withPriority m now)) id slot ≤
    copies db id slot + if slot = j then 1 else 0 := by
  have hle : ∀ {n : ℕ} {p r : Prop} [Decidable p] [Decidable r],
      n + (if p ∧ r then 1 else 0) ≤ n + if p then 1 else 0 := by
    intro n p r _ _
    split <;> split <;> simp_all
  unfold produceCmds
  split
  · rw [schedule_eq]
    dsimp only
    split
    · rename_i hr
      have hr' : ((ScheduleHandler.getNextScheduledTimestamp cron now (sent q m)).1,
        (ScheduleHandler.getNextScheduledTimestamp cron now (sent q m)).2.setScheduledAt now).1 ≠ 0 := hr
      exact ⟨_, fun slot => (copies_storeCmds hr').trans hle⟩
    · exact ⟨scheduledSlot m, fun slot => Nat.le_add_right _ _⟩
  · exact ⟨_, fun slot => copies_enqueueCmds.trans hle⟩

/-- The script `zpophgetrpush` shifts the copies. -/
theorem shift_zpophgetrpush (hf : Forall Filed db) {zk hk list : RedisKey} :
    Shift (copies db id) (copies (db.zpophgetrpush zk hk list).1 id) := by
  unfold Db.zpophgetrpush
  split
  · exact .drop fun _ => Nat.le_refl _
  · rename_i t ht
    have hzset : ∀ slot, copies (db.setZset zk ((db.zsets zk).zrem t)) id slot = copies db id slot := fun slot => by
      cases slot <;> rfl
    cases hm : db.hashes hk t with
    | none =>
      refine .drop fun slot => ?_
      simp only [copies_setHash, hzset, Option.isSome_none, Bool.false_eq_true, and_false, if_false]
      split <;> simp
    | some m =>
      have ht : t = .id m.uuid := hf (.field hk t) m hm
      have hlist : ((db.setZset zk ((db.zsets zk).zrem t)).setHash hk t none).lists list = db.lists list := rfl
      have hcount : (db.lists list ++ [m]).countP (·.uuid = id) =
          copies db id (.list list) + if m.uuid = id then 1 else 0 := by
        simp [copies, List.countP_append, List.countP_singleton]
      by_cases hid : m.uuid = id
      · refine .move (.field hk t) (.list list) (Nat.pos_of_ne_zero (copies_of_holds hf (.field hk t) hm hid))
          fun slot => ?_
        simp only [copies_setList, copies_setHash, hzset, hlist, hcount, hid, Option.isSome_none, Bool.false_eq_true,
          and_false, if_false, if_true]
        by_cases h1 : slot = .list list
        · subst h1; simp
        · by_cases h2 : slot = .field hk t
          · subst h2
            have : copies db id (.field hk t) ≠ 0 := copies_of_holds hf (.field hk t) hm hid
            simp; omega
          · simp [h1, h2]
      · refine .drop fun slot => ?_
        simp only [copies_setList, copies_setHash, hzset, hlist, hcount, hid, Option.isSome_none, Bool.false_eq_true,
          and_false, if_false, Nat.add_zero]
        by_cases h1 : slot = .list list
        · subst h1; simp
        · simp only [if_neg h1]
          split <;> simp

/-- A message that the schedule worker has read, and that is not periodic, is not scheduled again. -/
theorem Base.next_zero (cron : CronParser) (hb : Base config s) {rest : List (Option Message)}
    (htick : s.scheduleTick = .messages withPriority now (some m :: rest)) (hp : m.isPeriodic = false) :
    (ScheduleHandler.getNextScheduledTimestamp cron now (EnqueueHandler.enqueued m withPriority now)).1 = 0 := by
  by_contra hne
  have hsame := sameMessage_enqueued m withPriority now
  have hnot := (delayed_of_next (hsame.isPeriodic.trans hp) hne).2
  have hdelayed : (EnqueueHandler.enqueued m withPriority now).delayed = m.delayed := by cases withPriority <;> rfl
  rw [hdelayed, hb.ripe.read _ _ _ htick m List.mem_cons_self hp] at hnot
  cases hnot

/-- The schedule worker puts the message into its queue, the only place where it then is. -/
theorem Tracked.sole_scheduleExec {rest : List (Option Message)} (ht : Tracked id s) (hb : Base config s)
    (hp : ∀ r ∈ s.produced, r.message.uuid = id → r.message.isPeriodic = false)
    (htick : s.scheduleTick = .messages withPriority now (some m :: rest)) (huuid : m.uuid = id) :
    AtMostOne (copies ((s.db.execAll lt (EnqueueHandler.enqueueCmds q m withPriority now)).execAll lt
      (ScheduleHandler.storeCmds (ScheduleHandler.getNextScheduledTimestamp cron now
        (EnqueueHandler.enqueued m withPriority now)))) id) := by
  obtain ⟨⟨r, hr, hc⟩, _⟩ := hb.original m (.inr (.schedule htick List.mem_cons_self))
  have hrid : r.message.uuid = id := (congrArg Content.uuid hc : r.message.uuid = m.uuid).trans huuid
  have hperiodic : m.isPeriodic = false := (isPeriodic_eq hc).symm.trans (hp r hr hrid)
  have hreads : s.scheduleTick.reads id ≠ 0 := by
    rw [htick, ScheduleTick.reads, List.countP_cons_of_pos (by simpa using huuid)]
    omega
  have hzero := hb.next_zero cron htick hperiodic
  have hid' := (sameMessage_next cron now _).uuid.trans ((sameMessage_enqueued m withPriority now).uuid.trans huuid)
  have hle : ∀ slot, copies ((s.db.execAll lt (EnqueueHandler.enqueueCmds q m withPriority now)).execAll lt
      (ScheduleHandler.storeCmds (ScheduleHandler.getNextScheduledTimestamp cron now
        (EnqueueHandler.enqueued m withPriority now)))) id slot ≤
      if slot = enqueueSlot q m withPriority then 1 else 0 := by
    intro slot
    rw [copies_storeCmds_zero hzero]
    split
    · exact Nat.zero_le _
    · rename_i hne
      have h0 : copies s.db id slot = 0 := by
        by_contra hc
        exact hne (by rw [ht.read hreads slot hc, scheduledSlot, hid'])
      have := @copies_enqueueCmds lt id s.db slot m q withPriority now
      simpa only [h0, huuid, and_true, Nat.zero_add] using this
  refine ⟨enqueueSlot q m withPriority, ?_, fun slot hslot => ?_⟩
  · have := hle (enqueueSlot q m withPriority)
    rwa [if_pos rfl] at this
  · have := hle slot
    rw [if_neg hslot] at this
    exact Nat.le_zero.mp this

/-- A step keeps at most one copy of the message. -/
theorem Tracked.sole_step (ht : Tracked id s) (hb : Base config s)
    (hp : ∀ r ∈ s.produced, r.message.uuid = id → r.message.isPeriodic = false) (hid : identifies id s a = true)
    (hs : step cron lt config s a = some s') : AtMostOne (copies s'.db id) := by
  have hdrop : ∀ {db : Db}, (∀ slot, copies db id slot ≤ copies s.db id slot) → AtMostOne (copies db id) :=
    fun h => ht.sole.shift (.drop h)
  have hsame : ∀ {db : Db}, SameFor db s.db id → AtMostOne (copies db id) := fun h => copies_sameFor h ▸ ht.sole
  have hdb := step_db hs
  generalize s'.db = db at hdb ⊢
  cases hdb with
  | reads => exact ht.sole
  | @produce q withPriority m now =>
    by_cases huuid : m.uuid = id
    · simp only [identifies, huuid, ne_eq, not_true_eq_false, decide_false, Bool.false_or, List.all_eq_true,
        decide_eq_true_eq] at hid
      obtain ⟨j, hj⟩ := @copies_produceCmds cron lt id s.db m q withPriority now
      refine ht.sole.shift (.fresh j (hb.copies_zero hid) fun slot => ?_)
      have := hj slot
      rwa [hb.copies_zero hid, Nat.zero_add] at this
    · exact hsame (execAll_sameFor _ fun c hc ha => huuid (about_produceCmds hc ha))
  | dequeuePriority => exact ht.sole.shift (shift_zpophgetrpush hb.store.filed)
  | dequeue => exact ht.sole.shift (shift_move (.inl rfl))
  | acknowledge =>
    obtain ⟨_, hmove, _⟩ := Broker.isMove_acknowledge (config _).ns (config _).queueName ((config _).keyQueueProcessing _)
    exact ht.sole.shift (shift_move hmove)
  | unacknowledge =>
    rw [← Broker.retry_eq]
    obtain ⟨_, hmove, _⟩ := Broker.isMove_retry (config _).ns (config _).queueName ((config _).keyQueueProcessing _)
    exact ht.sole.shift (shift_move hmove)
  | delayExec hf hcmds => exact atMostOne_delay lt hcmds (hb.batches.delay _ hf) ht.sole
  | requeueExec hf hcmds => exact atMostOne_requeue lt hcmds (hb.batches.requeue _ hf) ht.sole
  | @scheduleExec withPriority now m rest q htick hq =>
    by_cases huuid : m.uuid = id
    · exact ht.sole_scheduleExec hb hp htick huuid
    · exact hsame (sameFor_scheduleExec huuid)
  | @requeueRequest index now source q withPriority priority msg m hr hsent =>
    have huuid : m.uuid = msg.uuid := hsent.uuid
    by_cases hmsg : msg.uuid = id
    · have hmem : msg ∈ s.db.lists (source.key q) := by simpa [identifies, finds, hr, hmsg] using hid
      refine ht.sole.shift (.move (.list (source.key q)) (enqueueSlot q m withPriority)
        (List.countP_pos_iff.mpr ⟨msg, hmem, by simpa using hmsg⟩) fun slot => ?_)
      have hrem := @copies_exec lt id s.db slot (.lrem (source.key q) msg)
      have henq := @copies_enqueueCmds lt id (s.db.exec lt (.lrem (source.key q) msg)) slot m q withPriority now
      simp only [Cmd.removes, Cmd.adds, hmem, hmsg, huuid, and_true] at hrem henq
      omega
    · refine hsame (SameFor.trans (execAll_sameFor _ fun c hc ha => ?_) (exec_sameFor hmsg))
      exact hmsg (huuid.symm.trans (about_enqueueCmds hc ha))
  | deleteRequest => exact hdrop fun slot => copies_exec_le
  | deletePendingMessageWithPriority | deleteScheduled =>
    refine hdrop fun slot => ?_
    simp only [EnqueueHandler.deletePendingMessageWithPriority, ScheduleHandler.deleteScheduled, execAll_cons,
      execAll_nil]
    exact copies_exec_le.trans copies_exec_le
  | purge | purgePriorityQueue | purgeScheduledMessagesQueue => exact hdrop fun slot => copies_exec_le

/-- While a message lies in the delay list or in the scheduled store, if anywhere, a step other than its transaction of
the schedule worker puts it into the scheduled store at most. -/
theorem Base.waiting_step (hb : Base config s) (hid : identifies id s a = true)
    (hs : step cron lt config s a = some s') (hknown : ∃ r ∈ s.produced, r.message.uuid = id)
    (hplaces : ∀ slot, copies s.db id slot ≠ 0 → slot = .list getGlobalKeys.keyQueueDelay ∨
      slot = .field getGlobalKeys.keyScheduledMessages (.id id))
    (ha : a = .scheduleExec → s.scheduleTick.reads id = 0) (hslot : copies s'.db id slot ≠ 0) :
    copies s.db id slot ≠ 0 ∨ slot = .field getGlobalKeys.keyScheduledMessages (.id id) := by
  have hplace : ∀ slot m, s.db.Holds slot m → m.uuid = id → slot = .list getGlobalKeys.keyQueueDelay ∨
      slot = .field getGlobalKeys.keyScheduledMessages (.id id) :=
    fun slot m hm hid => hplaces slot (copies_of_holds hb.store.filed slot hm hid)
  have hlist : ∀ {key m}, m ∈ s.db.lists key → key.type ≠ .keyQueueDelay → m.uuid ≠ id := fun {key m} hm hk hid => by
    rcases hplace (.list key) m hm hid with heq | heq <;> cases heq
    exact hk rfl
  have hnew : ∀ {q withPriority m now}, a = .produce q withPriority m now → m.uuid ≠ id := by
    rintro q withPriority m now rfl hm
    obtain ⟨r, hr, hrid⟩ := hknown
    simp only [identifies, hm, ne_eq, not_true_eq_false, decide_false, Bool.false_or, List.all_eq_true,
      decide_eq_true_eq] at hid
    exact hid r hr hrid
  have hread : ∀ {withPriority now m rest}, s.scheduleTick = .messages withPriority now (some m :: rest) →
      s.scheduleTick.reads id = 0 → m.uuid ≠ id := by
    rintro withPriority now m rest htick hzero hid
    rw [htick, ScheduleTick.reads, List.countP_cons_of_pos (by simpa using hid)] at hzero
    omega
  obtain ⟨m, hm, huuid⟩ := exists_of_copies (hb.store.step hs).filed hslot
  rcases step_holds hs hm with hold | hput
  · exact .inl (copies_of_holds hb.store.filed slot hold huuid)
  · cases hput with
    | @produceScheduled q withPriority m now _ _ =>
      have hid' : m.uuid = id := (sameMessage_next cron now (sent q m)).uuid.symm.trans huuid
      exact absurd hid' (hnew rfl)
    | @produceEnqueued q withPriority m now _ =>
      have hid' : m.uuid = id := (sameMessage_enqueued (sent q m) withPriority now).uuid.symm.trans huuid
      exact absurd hid' (hnew rfl)
    | @dequeuePriority c t m _ hm' =>
      rcases hplace (.field _ t) m hm' huuid with heq | heq
      · cases heq
      · simp [RedisKey.ext_iff] at heq
    | dequeue _ hm' => exact absurd huuid (hlist (List.mem_of_getLast? hm') (by simp))
    | acknowledge hm' =>
      exact absurd huuid (hlist (List.mem_of_head? hm') (by simp [ConsumerConfig.keyQueueProcessing]))
    | @unacknowledge c cause now m' m _ hm' =>
      have hmem : m ∈ s.db.lists ((config c).keyQueueProcessing c) := by
        cases hd : Broker.destination m' cause now <;> rw [hd] at hm'
        · exact List.mem_of_head? hm'
        · exact List.mem_of_getLast? hm'
        · exact List.mem_of_getLast? hm'
      exact absurd huuid (hlist hmem (by simp [ConsumerConfig.keyQueueProcessing]))
    | @delayed b i p hf hi _ =>
      have hid' : i.uuid = id := huuid
      exact .inr (by rw [scheduledSlot, hid'])
    | @requeued b i q hf _ hi _ =>
      have hid' : i.uuid = id := huuid
      exact absurd hid' (hlist ((hb.batches.requeue b hf).subset hi) (by simp))
    | @enqueueScheduled withPriority now m rest q htick _ =>
      exact absurd ((sameMessage_enqueued m withPriority now).uuid.symm.trans huuid) (hread htick (ha rfl))
    | @rescheduled withPriority now m rest htick _ =>
      have hsame := (sameMessage_next cron now _).trans (sameMessage_enqueued m withPriority now)
      exact absurd (hsame.uuid.symm.trans huuid) (hread htick (ha rfl))
    | @requested index now source q withPriority priority msg m hr hsent =>
      have hmsg : msg.uuid = id :=
        hsent.uuid.symm.trans ((sameMessage_enqueued m withPriority now).uuid.symm.trans huuid)
      have hmem : msg ∈ s.db.lists (source.key q) := by simpa [identifies, finds, hr, hmsg] using hid
      exact absurd hmsg (hlist hmem (by cases source <;> simp [QueueList.key]))

/-- A message that the schedule worker has read stays in the scheduled store until its transaction. -/
theorem Tracked.read_step (ht : Tracked id s) (hb : Base config s) (hid : identifies id s a = true)
    (hs : step cron lt config s a = some s') (ha : a ≠ .scheduleExec) (hr : s.scheduleTick.reads id ≠ 0)
    (hslot : copies s'.db id slot ≠ 0) : slot = .field getGlobalKeys.keyScheduledMessages (.id id) := by
  rcases hb.waiting_step hid hs (ht.known hr) (fun slot hslot => .inr (ht.read hr slot hslot))
    (fun h => absurd h ha) hslot with hslot | hslot
  · exact ht.read hr slot hslot
  · exact hslot

/-- The schedule worker finds a payload for an identifier as often as it has read the identifier, at most. -/
theorem reads_payloads (hf : Forall Filed db) (ids : List Text) :
    (ids.map (db.hashes getGlobalKeys.keyScheduledMessages)).countP (fun reply => reply.any (·.uuid = id)) ≤
      ids.count (.id id) := by
  rw [List.countP_map, List.count]
  refine List.countP_mono_left fun t _ h => ?_
  obtain ⟨m, hm, huuid⟩ : ∃ m, db.hashes getGlobalKeys.keyScheduledMessages t = some m ∧ m.uuid = id := by
    simpa [Option.any_eq_true] using h
  have ht : t = .id m.uuid := hf (.field _ t) m hm
  rw [ht, huuid]
  exact beq_self_eq_true _

/-- The messages that the schedule worker still has to enqueue. -/
theorem reads_cons {rest : List (Option Message)} : (ScheduleTick.messages withPriority now (some m :: rest)).reads id =
    (ScheduleTick.messages withPriority now rest).reads id + if m.uuid = id then 1 else 0 := by
  rw [ScheduleTick.reads, List.countP_cons]
  simp [ScheduleTick.reads]

/-- A step keeps the account of the message. -/
theorem Tracked.step (ht : Tracked id s) (hb : Base config s)
    (hp : ∀ r ∈ s.produced, r.message.uuid = id → r.message.isPeriodic = false) (hid : identifies id s a = true)
    (hs : Queue.step cron lt config s a = some s') : Tracked id s' := by
  have hsole := ht.sole_step hb hp hid hs
  have hreadStep : ∀ {slot}, a ≠ .scheduleExec → s.scheduleTick.reads id ≠ 0 → copies s'.db id slot ≠ 0 →
      slot = .field getGlobalKeys.keyScheduledMessages (.id id) := fun ha hr => ht.read_step hb hid hs ha hr
  have hknown : (∃ r ∈ s.produced, r.message.uuid = id) → ∃ r ∈ s'.produced, r.message.uuid = id :=
    fun ⟨r, hr, h⟩ => ⟨r, produced_subset hs hr, h⟩
  have htick := step_tick hs
  have hdb := step_db hs
  suffices h : s'.scheduleTick.reads id ≤ 1 ∧ (s'.scheduleTick.reads id ≠ 0 →
      (∃ r ∈ s.produced, r.message.uuid = id) ∧ ∀ slot, copies s'.db id slot ≠ 0 →
        slot = .field getGlobalKeys.keyScheduledMessages (.id id)) from
    ⟨hsole, h.1, fun hr => (h.2 hr).2, fun hr => hknown (h.2 hr).1⟩
  generalize s'.scheduleTick = tick at htick ⊢
  cases htick with
  | other ha => exact ⟨ht.once, fun hr => ⟨ht.known hr, fun slot => hreadStep ha hr⟩⟩
  | @fetchIds withPriority now _ =>
    have hsub := (s.db.zsets getGlobalKeys.keyQueueScheduled).zrangebyscore_sublist 0 now
    have hnodup := (SortedSet.nodup_members (s.db.zsets getGlobalKeys.keyQueueScheduled)).sublist hsub
    refine ⟨List.nodup_iff_count_le_one.mp hnodup _, fun hr => ?_⟩
    have hmem := hsub.subset (List.count_pos_iff.mp (Nat.pos_of_ne_zero hr))
    obtain ⟨m, hm⟩ := hb.store.linked _ hmem
    have huuid : m.uuid = id := (Text.id.inj (hb.store.filed (.field _ _) m hm)).symm
    obtain ⟨⟨r, hr, hc⟩, _⟩ := hb.original m (.inl ⟨.field _ _, hm⟩)
    refine ⟨⟨r, hr, (congrArg Content.uuid hc : r.message.uuid = m.uuid).trans huuid⟩, fun slot hslot => ?_⟩
    have hsame : s'.db = s.db := by
      generalize s'.db = db at hdb
      cases hdb
      rfl
    rw [hsame] at hslot
    exact ht.sole.place_unique hslot (copies_of_holds hb.store.filed (.field _ _) hm huuid)
  | @fetchMessages withPriority ids now hold =>
    have hle := @reads_payloads id s.db hb.store.filed ids
    have hreads : s.scheduleTick.reads id = ids.count (.id id) := by rw [hold]; rfl
    refine ⟨hle.trans (hreads ▸ ht.once), fun hr => ?_⟩
    have hr' : s.scheduleTick.reads id ≠ 0 := by
      rw [hreads]
      intro h0
      rw [h0] at hle
      exact hr (Nat.le_zero.mp hle)
    exact ⟨ht.known hr', fun slot => hreadStep (by simp) hr'⟩
  | @enqueued withPriority now m rest hold =>
    have hreads := hold ▸ @reads_cons id m withPriority now rest
    have honce := ht.once
    refine ⟨by omega, fun hr => ?_⟩
    -- the message was read once, so the worker enqueues another one
    have huuid : m.uuid ≠ id := by
      intro h
      rw [if_pos h] at hreads
      omega
    have hr' : s.scheduleTick.reads id ≠ 0 := by omega
    refine ⟨ht.known hr', fun slot hslot => ?_⟩
    have hsame : SameFor s'.db s.db id := by
      generalize s'.db = db at hdb
      cases hdb with
      | reads => exact .refl _ _
      | scheduleExec hold' _ =>
        rw [hold] at hold'
        cases hold'
        exact sameFor_scheduleExec huuid
    rw [copies_sameFor hsame] at hslot
    exact ht.read hr' slot hslot
  | _ => exact ⟨Nat.zero_le _, fun hr => absurd rfl hr⟩

/-- **At most one copy**: whatever the modes and the requests are, a message without CRON and repeat whose identifier
stands for it has one copy at most. -/
theorem tracked_reachable (h : Reach (system cron lt config) (fun s a => identifies id s a = true) s) :
    (∀ r ∈ s.produced, r.message.uuid = id → r.message.isPeriodic = false) → Tracked id s := by
  induction h with
  | init =>
    intro _
    have hzero : ∀ slot, copies init.db id slot = 0 := fun slot => by cases slot <;> simp [copies, init, Db.empty]
    exact ⟨⟨.list getGlobalKeys.keyQueueDelay, Nat.zero_le 1, fun slot _ => hzero slot⟩, Nat.zero_le _,
      fun hr => absurd rfl hr, fun hr => absurd rfl hr⟩
  | @step s s' a h hid hs ih =>
    intro hp
    have hp' : ∀ r ∈ s.produced, r.message.uuid = id → r.message.isPeriodic = false :=
      fun r hr => hp r (produced_subset hs hr)
    exact (ih hp').step (base_reachable h) hp' hid hs

end

end Queue

end RedisSmq
