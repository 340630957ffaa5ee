import RedisSmq.Queue.Board

/-!
# One copy of every message

In LIFO mode, every produced message without CRON and repeat lies in exactly one of the lists and the scheduled store,
in one copy, whatever the producers, the consumers and the workers do in between: `oneCopy_reachable`.

The tokens of these messages are issued when they are produced, and every step of the system is a path of the ledger
(`Ledger.Step`): takes and settlements move one token (`path_move`), the batches of the delay worker and of the re-queue
worker move one token after the other (`path_delay`, `path_requeue`), the schedule worker moves one token or copies one
that was never issued (`path_scheduleExec`). This needs an invariant, `Inv`: a batch that was read is still a part of its
list, the identifiers that were read are still in the scheduled store, and a message of the store that is not periodic
has its delay behind it.
-/

namespace RedisSmq.Queue

open RedisKeys Db Tokens Transition Relation

/-- The step is one of a producer, a consumer or a worker in LIFO mode, and produces every message under a new
identifier. -/
def lifo (config : String → ConsumerConfig) (s : State) : Action → Bool
  | .produce _ withPriority m _ => !withPriority && s.produced.all (fun r => r.message.uuid ≠ m.uuid)
  | .dequeue id => !(config id).priorityQueue
  | .requeueFetch withPriority | .scheduleFetchIds withPriority _ => !withPriority
  | .acknowledge _ | .unacknowledge .. | .delayFetch _ | .delayExec | .requeueExec | .scheduleFetchMessages _
  | .scheduleExec => true
  | _ => false

/-- Exactly one copy of the message lies in one of the containers, and in the scheduled store its identifier and its
payload are there together. -/
def OneCopy (db : Db) (uuid : String) : Prop :=
  (∃ p : Place, p.IsContainer ∧ (board db p).count uuid = 1 ∧ ∀ p', p' ≠ p → uuid ∉ board db p') ∧
    (.id uuid ∈ (db.zsets getGlobalKeys.keyQueueScheduled).members ↔
      ∃ m, db.hashes getGlobalKeys.keyScheduledMessages (.id uuid) = some m ∧ m.uuid = uuid)

/-- The identifiers of the messages without CRON and repeat. -/
def issued (produced : List Produced) : Set String :=
  {x | ∃ r ∈ produced, r.message.uuid = x ∧ r.message.isPeriodic = false}

/-- The ledger of a state. -/
abbrev ledger (s : State) : Ledger Place String := ⟨board s.db, issued s.produced⟩

section

variable {cron : CronParser} {lt : Text → Text → Bool} {config : String → ConsumerConfig}
variable {s s' : State} {a : Action} {q : TMessageQueue} {m : Message} {db db' : Db} {now : ℕ}
variable {produced : List Produced} {iss : Set String} {source destination k : RedisKey} {c : Cmd}

/-! ## Moves between lists -/

/-- A move is a path of the ledger. -/
theorem path_move (hc : IsMove source destination c) (hne : source ≠ destination) :
    ReflTransGen Ledger.Step (⟨board db, iss⟩ : Ledger Place String) ⟨board (db.exec lt c), iss⟩ := by
  rcases hc with rfl | rfl
  · cases h : (db.lists source).getLast? with
    | none => simp only [exec, Db.rpoplpush, h]; exact .refl
    | some m =>
      simp only [exec]
      rw [board_rpoplpush hne h]
      exact .single (.move _ _ _ (List.mem_map_of_mem (List.mem_of_getLast? h)))
  · cases h : (db.lists source).head? with
    | none =>
      rw [List.head?_eq_none_iff] at h
      simp only [exec, Db.lpoprpush, h]; exact .refl
    | some m =>
      simp only [exec]
      rw [board_lpoprpush hne h]
      exact .single (.move _ _ _ (List.mem_map_of_mem (List.mem_of_head? h)))

/-- A move leaves sorted sets and hashes alone. -/
theorem move_zsets_hashes (hc : IsMove source destination c) :
    (db.exec lt c).zsets = db.zsets ∧ (db.exec lt c).hashes = db.hashes := by
  rcases hc with rfl | rfl
  · simp only [exec, Db.rpoplpush]
    split <;> exact ⟨rfl, rfl⟩
  · simp only [exec, Db.lpoprpush]
    split <;> exact ⟨rfl, rfl⟩

/-! ## The invariant -/

/-- The message was produced. -/
def Known (produced : List Produced) (m : Message) : Prop :=
  ∃ r ∈ produced, r.message.uuid = m.uuid ∧ r.message.isPeriodic = m.isPeriodic

theorem Known.of_same {m' : Message} (h : Known produced m) (hm : SameMessage m' m) : Known produced m' := by
  obtain ⟨r, hr, h1, h2⟩ := h
  exact ⟨r, hr, h1.trans hm.uuid.symm, h2.trans hm.isPeriodic.symm⟩

/-- A held message was produced and lies in a container; in the scheduled store it lies under its identifier, and its
delay is behind it unless it is periodic. -/
def Stored (produced : List Produced) (slot : Slot) (m : Message) : Prop :=
  Known produced m ∧
    match slot with
    | .list key => key.type ∈ containerTypes
    | .field key t => key = getGlobalKeys.keyScheduledMessages →
      t = .id m.uuid ∧ (m.isPeriodic = false → m.delayed = true)

/-- The members of the scheduled set are the fields of its hash. -/
def StoreOk (db : Db) : Prop := ∀ t, t ∈ (db.zsets getGlobalKeys.keyQueueScheduled).members ↔
  ∃ m, db.hashes getGlobalKeys.keyScheduledMessages t = some m

/-- What the workers have read is still there. -/
structure Ticks (s : State) (db : Db) : Prop where
  delay : ∀ b, s.delayTick = .fetched b → b.messages.Sublist (db.lists getGlobalKeys.keyQueueDelay)
  requeue : ∀ b, s.requeueTick = .fetched b →
    b.withPriority = false ∧ b.messages.Sublist (db.lists getGlobalKeys.keyQueueRequeue)
  ids : ∀ withPriority ids, s.scheduleTick = .ids withPriority ids →
    withPriority = false ∧ ids.Nodup ∧ ∀ t ∈ ids, t ∈ (db.zsets getGlobalKeys.keyQueueScheduled).members
  messages : ∀ withPriority now rest, s.scheduleTick = .messages withPriority now rest →
    withPriority = false ∧ ∃ ms : List Message, rest = ms.map some ∧ (ms.map (·.uuid)).Nodup ∧
      ∀ m ∈ ms, .id m.uuid ∈ (db.zsets getGlobalKeys.keyQueueScheduled).members ∧
        (m.isPeriodic = false → m.delayed = true)

/-- The invariant of the system. -/
structure Inv (s : State) : Prop where
  distinct : ∀ r ∈ s.produced, ∀ r' ∈ s.produced, r.message.uuid = r'.message.uuid →
    r.message.isPeriodic = r'.message.isPeriodic
  held : Forall (Stored s.produced) s.db
  carried : ∀ m, Carries s m → Known s.produced m
  store : StoreOk s.db
  ticks : Ticks s s.db
  balanced : (ledger s).Balanced

/-- The identifier of a periodic message is not issued. -/
theorem Inv.not_issued (hi : Inv s) (h : Known s.produced m) (hp : m.isPeriodic = true) :
    m.uuid ∉ Queue.issued s.produced := by
  rintro ⟨r', hr', h1', h2'⟩
  obtain ⟨r, hr, h1, h2⟩ := h
  have := hi.distinct r hr r' hr' (h1.trans h1'.symm)
  rw [h2, h2', hp] at this
  cases this

/-- Every member of the scheduled set is the identifier of a message that was produced. -/
theorem Inv.scheduled (hi : Inv s) {t : Text} (ht : t ∈ (s.db.zsets getGlobalKeys.keyQueueScheduled).members) :
    ∃ m, s.db.hashes getGlobalKeys.keyScheduledMessages t = some m ∧ t = .id m.uuid ∧ Known s.produced m ∧
      (m.isPeriodic = false → m.delayed = true) := by
  obtain ⟨m, hm⟩ := (hi.store t).mp ht
  obtain ⟨hknown, hfield⟩ := hi.held (.field _ t) m hm
  exact ⟨m, hm, (hfield rfl).1, hknown, (hfield rfl).2⟩

/-- An identifier that was not produced lies nowhere. -/
theorem Inv.fresh (hi : Inv s) {x : String} (hx : ∀ r ∈ s.produced, r.message.uuid ≠ x) (p : Place) :
    x ∉ board s.db p := by
  intro hmem
  cases p with
  | list key =>
    obtain ⟨m, hm, rfl⟩ := List.mem_map.mp hmem
    obtain ⟨⟨r, hr, h1, _⟩, _⟩ := hi.held (.list key) m hm
    exact hx r hr h1
  | scheduled =>
    obtain ⟨m, _, heq, ⟨r, hr, h1, _⟩, _⟩ := hi.scheduled (mem_board_scheduled.mp hmem)
    cases heq
    exact hx r hr h1

/-- What was read stays there when the list of a worker that has a batch, and the scheduled set, only grow. -/
theorem Ticks.mono (h : Ticks s db)
    (hd : ∀ b, s.delayTick = .fetched b →
      (db.lists getGlobalKeys.keyQueueDelay).Sublist (db'.lists getGlobalKeys.keyQueueDelay))
    (hr : ∀ b, s.requeueTick = .fetched b →
      (db.lists getGlobalKeys.keyQueueRequeue).Sublist (db'.lists getGlobalKeys.keyQueueRequeue))
    (hz : ∀ t ∈ (db.zsets getGlobalKeys.keyQueueScheduled).members,
      t ∈ (db'.zsets getGlobalKeys.keyQueueScheduled).members) : Ticks s db' where
  delay b hb := (h.delay b hb).trans (hd b hb)
  requeue b hb := ⟨(h.requeue b hb).1, (h.requeue b hb).2.trans (hr b hb)⟩
  ids wp ids ht := ⟨(h.ids wp ids ht).1, (h.ids wp ids ht).2.1, fun t htm => hz t ((h.ids wp ids ht).2.2 t htm)⟩
  messages wp now rest ht := by
    obtain ⟨h1, ms, h2, h3, h4⟩ := h.messages wp now rest ht
    exact ⟨h1, ms, h2, h3, fun m hm => ⟨hz _ (h4 m hm).1, (h4 m hm).2⟩⟩

/-- A worker that remembers nothing asks for nothing. -/
theorem Ticks.setDelayTick (h : Ticks s db) {tick : Tick DelayBatch} (ht : ∀ b, tick ≠ .fetched b) :
    Ticks { s with db := db', delayTick := tick } db :=
  ⟨fun b hb => absurd hb (ht b), h.requeue, h.ids, h.messages⟩

theorem Ticks.setRequeueTick (h : Ticks s db) {tick : Tick RequeueBatch} (ht : ∀ b, tick ≠ .fetched b) :
    Ticks { s with db := db', requeueTick := tick } db :=
  ⟨h.delay, fun b hb => absurd hb (ht b), h.ids, h.messages⟩

theorem Ticks.setScheduleTick (h : Ticks s db) {tick : ScheduleTick} (hi : ∀ wp ids, tick ≠ .ids wp ids)
    (hm : ∀ wp now rest, tick ≠ .messages wp now rest) : Ticks { s with db := db', scheduleTick := tick } db :=
  ⟨h.delay, h.requeue, fun wp ids ht => absurd ht (hi wp ids), fun wp now rest ht => absurd ht (hm wp now rest)⟩

/-! ## The scheduled store -/

theorem StoreOk.frame (h : StoreOk db) (hz : SameAt db' db getGlobalKeys.keyQueueScheduled)
    (hh : SameAt db' db getGlobalKeys.keyScheduledMessages) : StoreOk db' := by
  intro t
  rw [hz.zsets, hh.hashes]
  exact h t

theorem StoreOk.enqueueCmds (h : StoreOk db) :
    StoreOk (db.execAll lt (EnqueueHandler.enqueueCmds q m false now)) :=
  h.frame (enqueueCmds_frame (by simp) (by simp) (by simp)) (enqueueCmds_frame (by simp) (by simp) (by simp))

/-- The blocks of the scheduled store change both keys. -/
theorem StoreOk.storeCmds {r : ℕ × Message} (h : StoreOk db) :
    StoreOk (db.execAll lt (ScheduleHandler.storeCmds r)) := by
  intro t
  unfold ScheduleHandler.storeCmds
  split
  · simp only [execAll_cons, execAll_nil, exec, setHash_zsets, setZset_zsets, setHash_hashes, setZset_hashes,
      Function.update_self, SortedSet.mem_zadd, h t]
    by_cases ht : t = .id r.2.uuid
    · subst ht; simp
    · simp [ht]
  · simp only [execAll_cons, execAll_nil, exec, setHash_zsets, setZset_zsets, setHash_hashes, setZset_hashes,
      Function.update_self, SortedSet.mem_zrem, h t]
    by_cases ht : t = .id r.2.uuid
    · subst ht; simp
    · simp [ht]

/-- Only the member of the block can be removed, and only without a timestamp. -/
theorem mem_storeCmds {r : ℕ × Message} {t : Text} (ht : t ∈ (db.zsets getGlobalKeys.keyQueueScheduled).members)
    (h : r.1 ≠ 0 ∨ t ≠ .id r.2.uuid) :
    t ∈ ((db.execAll lt (ScheduleHandler.storeCmds r)).zsets getGlobalKeys.keyQueueScheduled).members := by
  unfold ScheduleHandler.storeCmds
  split
  · simp only [execAll_cons, execAll_nil, exec, setHash_zsets, setZset_zsets, Function.update_self,
      SortedSet.mem_zadd]
    exact .inr ht
  · rename_i hr
    simp only [execAll_cons, execAll_nil, exec, setHash_zsets, setZset_zsets, Function.update_self,
      SortedSet.mem_zrem]
    exact ⟨h.resolve_left hr, ht⟩

/-- With a timestamp, the block puts a token that was not in the store, and changes none otherwise. -/
theorem board_storeCmds {r : ℕ × Message} (hr : r.1 ≠ 0) : board (db.execAll lt (ScheduleHandler.storeCmds r)) =
    if .id r.2.uuid ∈ (db.zsets getGlobalKeys.keyQueueScheduled).members then board db
    else put (board db) .scheduled r.2.uuid := by
  simp only [ScheduleHandler.storeCmds, if_pos hr, execAll_cons, execAll_nil]
  rw [board_hset]
  split
  · rename_i h; exact board_zadd_old h
  · rename_i h; exact board_zadd_new h

/-- Without a timestamp, the block takes the token. -/
theorem board_storeCmds_zero {r : ℕ × Message} (hr : r.1 = 0)
    (h : .id r.2.uuid ∈ (db.zsets getGlobalKeys.keyQueueScheduled).members) :
    board (db.execAll lt (ScheduleHandler.storeCmds r)) = take (board db) .scheduled r.2.uuid := by
  simp only [ScheduleHandler.storeCmds, hr, ne_eq, not_true_eq_false, if_false, execAll_cons, execAll_nil]
  rw [board_hdel]
  exact board_zrem h

/-! ## Held messages -/

/-- A schedulable message without a timestamp is periodic. -/
theorem isPeriodic_of_next (hs : m.isSchedulable = true) (hd : m.delayed = false)
    (h : (ScheduleHandler.getNextScheduledTimestamp cron now m).1 = 0) : m.isPeriodic = true := by
  cases hsd : m.scheduledDelay with
  | some d =>
    rw [ScheduleHandler.next_pending hsd hd] at h
    have := d.min
    simp only at h
    omega
  | none => simpa [Message.isSchedulable, Message.isPeriodic, hsd] using hs

theorem stored_list {key : RedisKey} (h : Known produced m) (hk : key.type ∈ containerTypes) :
    Stored produced (.list key) m := ⟨h, hk⟩

theorem stored_enqueueSlot {m' : Message} {withPriority : Bool} (h : Known produced m) :
    Stored produced (enqueueSlot q m' withPriority) m := by
  cases withPriority with
  | false => exact ⟨h, (by simp [containerTypes] : ERedisKey.keyQueue ∈ containerTypes)⟩
  | true => exact ⟨h, fun hk => absurd hk (by simp [RedisKey.ext_iff])⟩

theorem stored_scheduledSlot {m' : Message} (h : Known produced m) (hid : m'.uuid = m.uuid)
    (hd : m.isPeriodic = false → m.delayed = true) : Stored produced (scheduledSlot m') m :=
  ⟨h, fun _ => ⟨congrArg Text.id hid, hd⟩⟩

/-- What a step puts somewhere is stored well. -/
theorem stepPuts_stored {slot : Slot} (hi : Inv s) (hf : lifo config s a = true)
    (hs : step cron lt config s a = some s') (h : StepPuts cron config s a slot m) : Stored s'.produced slot m := by
  have hsub : s.produced ⊆ s'.produced := by
    rcases step_produced hs with h | ⟨_, _, _, _, _, h⟩ <;> rw [h]
    · exact List.Subset.refl _
    · exact List.subset_cons_self _ _
  have hmono : ∀ {m}, Known s.produced m → Known s'.produced m := fun ⟨r, hr, h⟩ => ⟨r, hsub hr, h⟩
  have hlist : ∀ {key m}, m ∈ s.db.lists key → Known s'.produced m := fun {key m} h =>
    hmono (hi.held (.list key) m h).1
  have hfield : ∀ {key t m}, s.db.hashes key t = some m → Known s'.produced m := fun {key t m} h =>
    hmono (hi.held (.field key t) m h).1
  cases h with
  | @produceScheduled q withPriority m now _ hne =>
    rw [step_produce hs]
    have hsame := sameMessage_next cron now (sent q m)
    refine stored_scheduledSlot ⟨_, List.mem_cons_self, hsame.uuid.symm, hsame.isPeriodic.symm⟩ hsame.uuid.symm ?_
    exact fun hp => (delayed_of_next (hsame.isPeriodic.symm.trans hp) hne).1
  | @produceEnqueued q withPriority m now _ =>
    rw [step_produce hs]
    have hsame := sameMessage_enqueued (sent q m) withPriority now
    exact stored_enqueueSlot ⟨_, List.mem_cons_self, hsame.uuid.symm, hsame.isPeriodic.symm⟩
  | dequeuePriority _ hm => exact stored_list (hfield hm) (by simp [containerTypes,
      ConsumerConfig.keyQueueProcessing])
  | dequeue _ hm => exact stored_list (hlist (List.mem_of_getLast? hm)) (by simp [containerTypes,
      ConsumerConfig.keyQueueProcessing])
  | acknowledge hm => exact stored_list (hlist (List.mem_of_head? hm)) (by simp [containerTypes])
  | @unacknowledge id cause now m' m'' _ hm =>
    cases hd : Broker.destination m' cause now <;> rw [hd] at hm
    · exact stored_list (hlist (List.mem_of_head? hm)) (by simp [containerTypes, Broker.Destination.key])
    · exact stored_list (hlist (List.mem_of_getLast? hm)) (by simp [containerTypes, Broker.Destination.key])
    · exact stored_list (hlist (List.mem_of_getLast? hm)) (by simp [containerTypes, Broker.Destination.key])
  | delayed hb hi' _ =>
    exact stored_scheduledSlot ((hmono (hi.carried _ (.delay hb hi'))).of_same sameMessage_delayed) rfl (fun _ => rfl)
  | requeued hb _ hi' _ =>
    exact stored_list ((hmono (hi.carried _ (.requeue hb hi'))).of_same ⟨rfl, rfl, rfl⟩) (by simp [containerTypes])
  | enqueueScheduled ht _ =>
    exact stored_enqueueSlot ((hmono (hi.carried _ (.schedule ht List.mem_cons_self))).of_same
      (sameMessage_enqueued ..))
  | @rescheduled withPriority now m rest ht hne =>
    have henq := sameMessage_enqueued m withPriority now
    have hsame := (sameMessage_next cron now _).trans henq
    refine stored_scheduledSlot ((hmono (hi.carried _ (.schedule ht List.mem_cons_self))).of_same hsame)
      hsame.uuid.symm (fun hp => ?_)
    exact (delayed_of_next ((henq.isPeriodic.trans hsame.isPeriodic.symm).trans hp) hne).1
  | requested => cases hf

/-! ## Paths of the batches -/

/-- Moving a message from the delay list into the scheduled store moves a token, or drops one that was not issued. -/
theorem path_delayTask (lt : Text → Text → Bool) (now : ℕ) {i : Message} (p : Period)
    (hi : i ∈ db.lists getGlobalKeys.keyQueueDelay)
    (hb : (⟨board db, iss⟩ : Ledger Place String).Balanced) :
    ReflTransGen Ledger.Step (⟨board db, iss⟩ : Ledger Place String) ⟨board (db.execAll lt
      (.lrem getGlobalKeys.keyQueueDelay i :: ScheduleHandler.storeCmds (now + p.ms, delayed i p now))), iss⟩ := by
  have hpos : now + p.ms ≠ 0 := by have := p.min; omega
  have hmem : i.uuid ∈ board db (.list getGlobalKeys.keyQueueDelay) := List.mem_map_of_mem hi
  rw [execAll_cons, board_storeCmds hpos, board_lrem hi]
  split
  · rename_i hz
    -- a token in two places is not an issued one
    refine .single (.drop _ _ (fun hx => ?_))
    have hz' : i.uuid ∈ board db .scheduled := mem_board_scheduled.mpr hz
    have hsingle : Single (board db) i.uuid := hb _ hx
    cases hsingle.place_unique hmem hz'
  · exact .single (.move _ _ _ hmem)

/-- The transaction of the delay worker is a path of the ledger. -/
theorem path_delay : ∀ {ms : List Message} {cmds : List Cmd} {db : Db},
    parallel (DelayHandler.scheduleTask cron now) ms = .ok cmds → ms.Sublist (db.lists getGlobalKeys.keyQueueDelay) →
    (⟨board db, iss⟩ : Ledger Place String).Balanced →
    ReflTransGen Ledger.Step (⟨board db, iss⟩ : Ledger Place String) ⟨board (db.execAll lt cmds), iss⟩
  | [], _, _, h, _, _ => by cases h; exact .refl
  | i :: ms, _, db, h, hsub, hb => by
    obtain ⟨c, cs, h1, h2, rfl⟩ := parallel_cons h
    obtain ⟨p, _, rfl⟩ := scheduleTask_ok h1
    have hpath := path_delayTask lt now p (hsub.subset List.mem_cons_self) hb
    have hlist : (db.execAll lt (.lrem getGlobalKeys.keyQueueDelay i ::
        ScheduleHandler.storeCmds (now + p.ms, delayed i p now))).lists getGlobalKeys.keyQueueDelay =
        (db.lists getGlobalKeys.keyQueueDelay).erase i := by
      rw [execAll_cons, (storeCmds_frame (by simp [RedisKey.ext_iff]) (by simp [RedisKey.ext_iff])).lists]
      simp [exec]
    have hrest : ms.Sublist ((db.lists getGlobalKeys.keyQueueDelay).erase i) := by
      have := hsub.erase i
      rwa [List.erase_cons_head] at this
    rw [execAll_append]
    exact hpath.trans (path_delay h2 (hlist ▸ hrest) (Ledger.path_balanced hpath hb))

/-- The transaction of the re-queue worker in LIFO mode is a path of the ledger. -/
theorem path_requeue : ∀ {ms : List Message} {cmds : List Cmd} {db : Db},
    parallel (RequeueWorker.requeueTask false) ms = .ok cmds → ms.Sublist (db.lists getGlobalKeys.keyQueueRequeue) →
    ReflTransGen Ledger.Step (⟨board db, iss⟩ : Ledger Place String) ⟨board (db.execAll lt cmds), iss⟩
  | [], _, _, h, _ => by cases h; exact .refl
  | i :: ms, _, db, h, hsub => by
    obtain ⟨c, cs, h1, h2, rfl⟩ := parallel_cons h
    obtain ⟨q, _, rfl⟩ := requeueTask_ok h1
    have hi : i ∈ db.lists getGlobalKeys.keyQueueRequeue := hsub.subset List.mem_cons_self
    have hboard : board (db.execAll lt [.lrem getGlobalKeys.keyQueueRequeue i, .lpush q.keys.keyQueue i.incrAttempts]) =
        move (board db) (.list getGlobalKeys.keyQueueRequeue) (.list q.keys.keyQueue) i.uuid := by
      rw [execAll_cons, execAll_cons, execAll_nil, board_lpush, board_lrem hi]
      rfl
    have hlist : (db.execAll lt [.lrem getGlobalKeys.keyQueueRequeue i,
        .lpush q.keys.keyQueue i.incrAttempts]).lists getGlobalKeys.keyQueueRequeue =
        (db.lists getGlobalKeys.keyQueueRequeue).erase i := by
      simp [exec, RedisKey.ext_iff]
    have hrest : ms.Sublist ((db.lists getGlobalKeys.keyQueueRequeue).erase i) := by
      have := hsub.erase i
      rwa [List.erase_cons_head] at this
    have hpath : ReflTransGen Ledger.Step (⟨board db, iss⟩ : Ledger Place String)
        ⟨board (db.execAll lt [.lrem getGlobalKeys.keyQueueRequeue i, .lpush q.keys.keyQueue i.incrAttempts]), iss⟩ :=
      hboard ▸ .single (.move _ _ _ (List.mem_map_of_mem hi))
    rw [execAll_append]
    exact hpath.trans (path_requeue h2 (hlist ▸ hrest))

/-- Enqueueing in LIFO mode puts a token into a pending list. -/
theorem board_enqueueCmds : board (db.execAll lt (EnqueueHandler.enqueueCmds q m false now)) =
    put (board db) (.list q.keys.keyQueue) m.uuid := by
  have h := (sameMessage_enqueued m false now).uuid
  rw [← h]
  exact @board_rpush lt db _ _

/-- The transaction of the schedule worker for a message of the store is a path of the ledger: it moves the token, or
copies one that was not issued. -/
theorem path_scheduleExec (hz : .id m.uuid ∈ (db.zsets getGlobalKeys.keyQueueScheduled).members)
    (hd : m.isPeriodic = false → m.delayed = true) (hiss : m.isPeriodic = true → m.uuid ∉ iss) :
    ReflTransGen Ledger.Step (⟨board db, iss⟩ : Ledger Place String)
      ⟨board ((db.execAll lt (EnqueueHandler.enqueueCmds q m false now)).execAll lt (ScheduleHandler.storeCmds
        (ScheduleHandler.getNextScheduledTimestamp cron now (EnqueueHandler.enqueued m false now)))), iss⟩ := by
  have henq := sameMessage_enqueued m false now
  cases hr : ScheduleHandler.getNextScheduledTimestamp cron now (EnqueueHandler.enqueued m false now) with
  | mk t m' =>
    have hid : m'.uuid = m.uuid := by
      have := (sameMessage_next cron now _).uuid.trans henq.uuid
      rwa [hr] at this
    have hz' : .id m'.uuid ∈ ((db.execAll lt (EnqueueHandler.enqueueCmds q m false now)).zsets
        getGlobalKeys.keyQueueScheduled).members := by
      rw [(enqueueCmds_frame (by simp) (by simp) (by simp)).zsets, hid]
      exact hz
    by_cases ht : t = 0
    · rw [board_storeCmds_zero ht hz', board_enqueueCmds, hid, take_put (by simp)]
      exact .single (.move _ _ _ (mem_board_scheduled.mpr hz))
    · have hp : m.isPeriodic = true := by
        by_contra hp
        rw [Bool.not_eq_true] at hp
        have hne : (ScheduleHandler.getNextScheduledTimestamp cron now (EnqueueHandler.enqueued m false now)).1 ≠ 0 := by
          rw [hr]; exact ht
        have hpend : m.delayed = false := (delayed_of_next (henq.isPeriodic.trans hp) hne).2
        rw [hd hp] at hpend
        cases hpend
      rw [board_storeCmds ht, if_pos hz', board_enqueueCmds]
      exact .single (.copy _ _ (hiss hp))

/-! ## Steps -/

/-- What a step does to the scheduled store, to what the workers have read, and to the ledger. -/
structure Kept (s s' : State) : Prop where
  store : StoreOk s'.db
  ticks : Ticks s' s'.db
  path : ReflTransGen Ledger.Step (ledger s) (ledger s')

/-- A step that leaves the scheduled store and the lists of the workers alone. -/
theorem Inv.kept_of_frame (hi : Inv s) (hz : s'.db.zsets = s.db.zsets) (hh : s'.db.hashes = s.db.hashes)
    (hd : (s.db.lists getGlobalKeys.keyQueueDelay).Sublist (s'.db.lists getGlobalKeys.keyQueueDelay))
    (hr : (s.db.lists getGlobalKeys.keyQueueRequeue).Sublist (s'.db.lists getGlobalKeys.keyQueueRequeue))
    (ht : Ticks s' s.db) (hpath : ReflTransGen Ledger.Step (ledger s) (ledger s')) : Kept s s' where
  store t := by rw [hz, hh]; exact hi.store t
  ticks := ht.mono (fun _ _ => hd) (fun _ _ => hr) (fun t h => by rwa [hz])
  path := hpath

/-- A new identifier is issued when its message is not periodic. -/
theorem issued_cons (q : TMessageQueue) (m : Message) (produced : List Produced) :
    Queue.issued (⟨sent q m, false⟩ :: produced) =
      if m.isPeriodic then Queue.issued produced else insert m.uuid (Queue.issued produced) := by
  ext x
  have hper : (sent q m).isPeriodic = m.isPeriodic := rfl
  cases hp : m.isPeriodic <;>
    simp only [Queue.issued, List.mem_cons, exists_eq_or_imp, hper, hp, Set.mem_ofPred_eq, Set.mem_insert_iff,
      Bool.false_eq_true, if_false, if_true, and_true, and_false, false_or, reduceCtorEq]
  exact ⟨fun h => h.imp_left Eq.symm, fun h => h.imp_left Eq.symm⟩

/-- Producing puts a new identifier into a place: it is issued there, or is a copy of a periodic message. -/
theorem path_produce {produced : List Produced} (hnew : ∀ r ∈ produced, r.message.uuid ≠ m.uuid)
    (hfresh : ∀ p, m.uuid ∉ board db p) (p : Place) :
    ReflTransGen Ledger.Step (⟨board db, Queue.issued produced⟩ : Ledger Place String)
      ⟨put (board db) p m.uuid, Queue.issued (⟨sent q m, false⟩ :: produced)⟩ := by
  rw [issued_cons]
  cases hp : m.isPeriodic with
  | false => exact .single (.issue _ _ hfresh)
  | true =>
    refine .single (.copy _ _ ?_)
    rintro ⟨r, hr, h1, _⟩
    exact hnew r hr h1

/-- Producing leaves alone what the workers have read. -/
theorem Inv.ticks_produce (hi : Inv s) (hd : SameAt db' s.db getGlobalKeys.keyQueueDelay)
    (hr : SameAt db' s.db getGlobalKeys.keyQueueRequeue)
    (hz : ∀ t ∈ (s.db.zsets getGlobalKeys.keyQueueScheduled).members,
      t ∈ (db'.zsets getGlobalKeys.keyQueueScheduled).members) {produced : List Produced} :
    Ticks { s with db := db', produced := produced } db' := by
  have ht : Ticks { s with db := db', produced := produced } s.db :=
    ⟨hi.ticks.delay, hi.ticks.requeue, hi.ticks.ids, hi.ticks.messages⟩
  exact ht.mono (fun _ _ => hd.lists ▸ .refl _) (fun _ _ => hr.lists ▸ .refl _) hz

theorem Inv.kept_produce {withPriority : Bool} (hi : Inv s) (hf : lifo config s (.produce q withPriority m now) = true)
    (hs : step cron lt config s (.produce q withPriority m now) = some s') : Kept s s' := by
  rw [step_produce hs]
  simp only [lifo, Bool.and_eq_true, Bool.not_eq_true', List.all_eq_true, decide_eq_true_eq] at hf
  obtain ⟨rfl, hnew⟩ := hf
  have hfresh : ∀ p, m.uuid ∉ board s.db p := hi.fresh hnew
  unfold produceCmds
  split
  · rw [schedule_eq]
    dsimp only
    split
    · rename_i hne
      have hid : (ScheduleHandler.getNextScheduledTimestamp cron now (sent q m)).2.uuid = m.uuid :=
        (sameMessage_next cron now (sent q m)).uuid
      refine ⟨hi.store.storeCmds, hi.ticks_produce ?_ ?_ ?_, ?_⟩
      · exact storeCmds_frame (by simp [RedisKey.ext_iff]) (by simp [RedisKey.ext_iff])
      · exact storeCmds_frame (by simp [RedisKey.ext_iff]) (by simp [RedisKey.ext_iff])
      · exact fun t ht => mem_storeCmds ht (.inl hne)
      have hnot : ¬.id m.uuid ∈ (s.db.zsets getGlobalKeys.keyQueueScheduled).members := fun h =>
        hfresh .scheduled (mem_board_scheduled.mpr h)
      have hboard : board (s.db.execAll lt (ScheduleHandler.storeCmds
          ((ScheduleHandler.getNextScheduledTimestamp cron now (sent q m)).1,
            (ScheduleHandler.getNextScheduledTimestamp cron now (sent q m)).2.setScheduledAt now))) =
          put (board s.db) .scheduled m.uuid := by
        refine (board_storeCmds ?_).trans ?_
        · exact hne
        rw [show ((ScheduleHandler.getNextScheduledTimestamp cron now (sent q m)).2.setScheduledAt now).uuid = m.uuid
          from hid, if_neg hnot]
      show ReflTransGen Ledger.Step _ (⟨board (s.db.execAll lt _), _⟩ : Ledger Place String)
      rw [hboard]
      exact path_produce hnew hfresh .scheduled
    · rename_i hs' hzero
      refine ⟨hi.store, hi.ticks_produce (.refl _ _) (.refl _ _) (fun _ h => h), ?_⟩
      -- without a timestamp the message is periodic
      have hp : m.isPeriodic = true := isPeriodic_of_next (m := sent q m) hs' rfl (not_not.mp hzero)
      show ReflTransGen Ledger.Step _ (⟨board s.db, _⟩ : Ledger Place String)
      rw [issued_cons, hp]
      exact .refl
  · have hstore : StoreOk (s.db.execAll lt (EnqueueHandler.enqueueCmds q (sent q m) false now)) :=
      hi.store.enqueueCmds
    refine ⟨hstore, hi.ticks_produce (enqueueCmds_frame (by simp) (by simp) (by simp))
      (enqueueCmds_frame (by simp) (by simp) (by simp))
      (fun t ht => by rwa [(enqueueCmds_frame (by simp) (by simp) (by simp)).zsets]), ?_⟩
    show ReflTransGen Ledger.Step _ (⟨board (s.db.execAll lt _), _⟩ : Ledger Place String)
    rw [board_enqueueCmds]
    exact path_produce hnew hfresh _

/-- A step whose database is the one after a move between lists, and that leaves the workers as they were. -/
theorem Inv.kept_move (hi : Inv s) (hc : IsMove source destination c) (hne : source ≠ destination)
    (hd : getGlobalKeys.keyQueueDelay ≠ source) (hr : getGlobalKeys.keyQueueRequeue ≠ source)
    {consumers : String → Phase} : Kept s { s with db := s.db.exec lt c, consumers := consumers } := by
  have hsame : (s.db.exec lt c).zsets = s.db.zsets ∧ (s.db.exec lt c).hashes = s.db.hashes := move_zsets_hashes hc
  obtain ⟨hz, hh⟩ := hsame
  exact hi.kept_of_frame hz hh (move_sublist hc hne hd) (move_sublist hc hne hr)
    ⟨hi.ticks.delay, hi.ticks.requeue, hi.ticks.ids, hi.ticks.messages⟩ (path_move hc hne)

theorem Inv.kept_dequeue {id : String} (hi : Inv s) (hf : lifo config s (.dequeue id) = true)
    (hs : step cron lt config s (.dequeue id) = some s') : Kept s s' := by
  have hmode : (config id).priorityQueue = false := by simpa [lifo] using hf
  simp only [step, dequeueMessage, hmode, Bool.false_eq_true, if_false] at hs
  split at hs
  · split at hs <;> cases hs
    refine hi.kept_move (.inl rfl) ?_ ?_ ?_ <;> simp [RedisKey.ext_iff, ConsumerConfig.keyQueueProcessing]
  · cases hs

theorem Inv.kept_settle {id : String} {cmd : Message → Cmd} (hi : Inv s)
    (hcmd : ∀ m, ∃ destination, IsMove ((config id).keyQueueProcessing id) destination (cmd m) ∧
      destination.type ≠ .keyQueueProcessing) (hs : settle lt s id cmd = some s') : Kept s s' := by
  unfold settle at hs
  split at hs
  · rename_i m _
    cases hs
    obtain ⟨destination, hc, htype⟩ := hcmd m
    refine hi.kept_move hc (fun h => htype (by rw [← h]; rfl)) ?_ ?_ <;>
      simp [RedisKey.ext_iff, ConsumerConfig.keyQueueProcessing]
  · cases hs

theorem Inv.kept_delayFetch (hi : Inv s) (hs : step cron lt config s (.delayFetch now) = some s') : Kept s s' := by
  simp only [step] at hs
  split at hs <;> cases hs
  refine hi.kept_of_frame rfl rfl (.refl _) (.refl _) ⟨?_, hi.ticks.requeue, hi.ticks.ids, hi.ticks.messages⟩ .refl
  intro b hb
  cases hb
  exact List.take_sublist _ _

theorem Inv.kept_requeueFetch {withPriority : Bool} (hi : Inv s)
    (hf : lifo config s (.requeueFetch withPriority) = true)
    (hs : step cron lt config s (.requeueFetch withPriority) = some s') : Kept s s' := by
  simp only [step] at hs
  split at hs <;> cases hs
  refine hi.kept_of_frame rfl rfl (.refl _) (.refl _) ⟨hi.ticks.delay, ?_, hi.ticks.ids, hi.ticks.messages⟩ .refl
  intro b hb
  cases hb
  exact ⟨by simpa [lifo] using hf, List.take_sublist _ _⟩

theorem Inv.kept_scheduleFetchIds {withPriority : Bool} (hi : Inv s)
    (hf : lifo config s (.scheduleFetchIds withPriority now) = true)
    (hs : step cron lt config s (.scheduleFetchIds withPriority now) = some s') : Kept s s' := by
  simp only [step] at hs
  split at hs <;> cases hs
  refine hi.kept_of_frame rfl rfl (.refl _) (.refl _)
    ⟨hi.ticks.delay, hi.ticks.requeue, ?_, fun _ _ _ ht => by cases ht⟩ .refl
  intro wp ids ht
  cases ht
  have hsub := (s.db.zsets getGlobalKeys.keyQueueScheduled).zrangebyscore_sublist 0 now
  exact ⟨by simpa [lifo] using hf, (SortedSet.nodup_members _).sublist hsub, fun t ht => hsub.subset ht⟩

theorem Inv.kept_scheduleFetchMessages (hi : Inv s)
    (hs : step cron lt config s (.scheduleFetchMessages now) = some s') : Kept s s' := by
  simp only [step] at hs
  split at hs
  · rename_i wp ids ht
    cases hs
    obtain ⟨hwp, hn, hmem⟩ := hi.ticks.ids wp ids ht
    have hstored : ∀ t ∈ ids, ∃ m, s.db.hashes getGlobalKeys.keyScheduledMessages t = some m ∧ t = .id m.uuid ∧
        (m.isPeriodic = false → m.delayed = true) := by
      intro t htm
      obtain ⟨m, hm, heq, _, hd⟩ := hi.scheduled (hmem t htm)
      exact ⟨m, hm, heq, hd⟩
    obtain ⟨ms, h1, rfl, h3⟩ := payloads_of_ids ids hstored
    refine hi.kept_of_frame rfl rfl (.refl _) (.refl _)
      ⟨hi.ticks.delay, hi.ticks.requeue, fun _ _ ht' => (by cases ht'), ?_⟩ .refl
    intro wp' now' rest ht'
    cases ht'
    exact ⟨hwp, ms, h1, nodup_uuid hn, fun m hm => ⟨hmem _ (List.mem_map_of_mem hm), (h3 m hm).2⟩⟩
  · cases hs

/-- The transaction of the delay worker only adds to the scheduled store. -/
theorem store_delay (lt : Text → Text → Bool) : ∀ {ms : List Message} {cmds : List Cmd} {db : Db},
    parallel (DelayHandler.scheduleTask cron now) ms = .ok cmds → StoreOk db → StoreOk (db.execAll lt cmds) ∧
      ∀ t ∈ (db.zsets getGlobalKeys.keyQueueScheduled).members,
        t ∈ ((db.execAll lt cmds).zsets getGlobalKeys.keyQueueScheduled).members
  | [], _, _, h, hok => by cases h; exact ⟨hok, fun _ h => h⟩
  | i :: ms, _, db, h, hok => by
    obtain ⟨c, cs, h1, h2, rfl⟩ := parallel_cons h
    obtain ⟨p, _, rfl⟩ := scheduleTask_ok h1
    have hpos : now + p.ms ≠ 0 := by have := p.min; omega
    have hlrem : StoreOk (db.exec lt (.lrem getGlobalKeys.keyQueueDelay i)) := hok
    rw [execAll_append, execAll_cons]
    have hstored : StoreOk ((db.exec lt (.lrem getGlobalKeys.keyQueueDelay i)).execAll lt
        (ScheduleHandler.storeCmds (now + p.ms, delayed i p now))) := hlrem.storeCmds
    obtain ⟨h3, h4⟩ := store_delay lt h2 hstored
    refine ⟨h3, fun t ht => h4 t ?_⟩
    have hkept : t ∈ ((db.exec lt (.lrem getGlobalKeys.keyQueueDelay i)).zsets
        getGlobalKeys.keyQueueScheduled).members := ht
    exact mem_storeCmds hkept (.inl hpos)

theorem Inv.kept_delayExec (hi : Inv s) (hs : step cron lt config s .delayExec = some s') : Kept s s' := by
  simp only [step, delayExec] at hs
  split at hs
  · rename_i b hb
    split at hs
    · rename_i cmds hcmds
      cases hs
      obtain ⟨hstore, hmem⟩ := store_delay lt hcmds hi.store
      have hframe : SameAt (s.db.execAll lt cmds) s.db getGlobalKeys.keyQueueRequeue :=
        delay_frame hcmds (by decide) (by decide) (by decide)
      refine ⟨hstore,
        (hi.ticks.setDelayTick (by simp)).mono (fun _ h => by cases h) (fun _ _ => hframe.lists ▸ .refl _) hmem,
        path_delay hcmds (hi.ticks.delay b hb) hi.balanced⟩
    · cases hs
      exact hi.kept_of_frame rfl rfl (.refl _) (.refl _) (hi.ticks.setDelayTick (by simp)) .refl
  · cases hs

theorem Inv.kept_requeueExec (hi : Inv s) (hs : step cron lt config s .requeueExec = some s') : Kept s s' := by
  simp only [step, requeueExec] at hs
  split at hs
  · rename_i b hb
    obtain ⟨hwp, hsub⟩ := hi.ticks.requeue b hb
    rw [hwp] at hs
    split at hs
    · rename_i cmds hcmds
      cases hs
      have hframe : ∀ k : RedisKey, k.type ≠ .keyQueueRequeue → k.type ≠ .keyQueue →
          SameAt (s.db.execAll lt cmds) s.db k := by
        intro k h1 h2
        refine requeue_frame hcmds (fun h => h1 (by rw [h]; rfl)) (fun i _ q _ h => h2 (by rw [h]; rfl))
      refine ⟨hi.store.frame (hframe _ (by simp) (by simp)) (hframe _ (by simp) (by simp)),
        (hi.ticks.setRequeueTick (by simp)).mono (fun _ _ => (hframe _ ?_ ?_).lists ▸ .refl _) (fun _ h => by cases h)
          (fun t ht => ?_), path_requeue hcmds hsub⟩
      · simp
      · simp
      · rwa [(hframe _ (by simp) (by simp)).zsets]
    · cases hs
      exact hi.kept_of_frame rfl rfl (.refl _) (.refl _) (hi.ticks.setRequeueTick (by simp)) .refl
  · cases hs

/-- The transaction of the schedule worker for one message leaves the identifiers of the others in the store. -/
theorem Inv.ticks_scheduleExec (hi : Inv s) {ms : List Message} {db' : Db} (hnot : m.uuid ∉ ms.map (·.uuid))
    (hn : (ms.map (·.uuid)).Nodup) (hmem : ∀ m' ∈ ms, .id m'.uuid ∈
      (s.db.zsets getGlobalKeys.keyQueueScheduled).members ∧ (m'.isPeriodic = false → m'.delayed = true)) :
    Ticks { s with db := db', scheduleTick := .messages false now (ms.map some) }
      ((s.db.execAll lt (EnqueueHandler.enqueueCmds q m false now)).execAll lt (ScheduleHandler.storeCmds
        (ScheduleHandler.getNextScheduledTimestamp cron now (EnqueueHandler.enqueued m false now)))) := by
  have hid : (ScheduleHandler.getNextScheduledTimestamp cron now (EnqueueHandler.enqueued m false now)).2.uuid =
      m.uuid := (sameMessage_next cron now _).uuid
  have hframe : ∀ k : RedisKey, k.type ≠ .keyQueue → k.type ≠ .keyQueuePriority →
      k.type ≠ .keyPendingMessagesWithPriority →
      SameAt (s.db.execAll lt (EnqueueHandler.enqueueCmds q m false now)) s.db k :=
    fun k h1 h2 h3 => enqueueCmds_frame h1 h2 h3
  refine ⟨fun b hb => ?_, fun b hb => ⟨(hi.ticks.requeue b hb).1, ?_⟩, fun _ _ ht => (by cases ht),
    fun wp now' rest ht => ?_⟩
  · rw [(storeCmds_frame (by decide) (by decide)).lists, (hframe _ (by decide) (by decide) (by decide)).lists]
    exact hi.ticks.delay b hb
  · rw [(storeCmds_frame (by decide) (by decide)).lists, (hframe _ (by decide) (by decide) (by decide)).lists]
    exact (hi.ticks.requeue b hb).2
  · cases ht
    refine ⟨rfl, ms, rfl, hn, fun m' hm' => ⟨mem_storeCmds ?_ (.inr ?_), (hmem m' hm').2⟩⟩
    · rw [(hframe _ (by decide) (by decide) (by decide)).zsets]
      exact (hmem m' hm').1
    · rw [hid]
      intro heq
      have huuid : m'.uuid = m.uuid := Text.id.inj heq
      exact hnot (huuid ▸ List.mem_map_of_mem hm')

theorem Inv.kept_scheduleExec (hi : Inv s) (hs : step cron lt config s .scheduleExec = some s') : Kept s s' := by
  simp only [step, scheduleExec] at hs
  split at hs
  · cases hs
    exact hi.kept_of_frame rfl rfl (.refl _) (.refl _) (hi.ticks.setScheduleTick (by simp) (by simp)) .refl
  · cases hs
    exact hi.kept_of_frame rfl rfl (.refl _) (.refl _) (hi.ticks.setScheduleTick (by simp) (by simp)) .refl
  · rename_i wp now m rest ht
    obtain ⟨rfl, ms, hms, hn, hmem⟩ := hi.ticks.messages _ _ _ ht
    split at hs
    · rename_i cmds hcmds
      cases hs
      obtain ⟨q, _, rfl⟩ := enqueueScheduledMessage_cases hcmds
      cases ms with
      | nil => cases hms
      | cons m' ms =>
        cases hms
        obtain ⟨hz, hd⟩ := hmem m List.mem_cons_self
        obtain ⟨hnot, hn'⟩ := List.nodup_cons.mp hn
        have hknown : Known s.produced m := hi.carried m (.schedule ht List.mem_cons_self)
        refine ⟨?_, ?_, ?_⟩
        · show StoreOk (s.db.execAll lt (_ ++ _))
          rw [execAll_append]
          exact hi.store.enqueueCmds.storeCmds
        · show Ticks _ (s.db.execAll lt (_ ++ _))
          rw [execAll_append]
          exact hi.ticks_scheduleExec hnot hn' (fun m' hm' => hmem m' (List.mem_cons_of_mem _ hm'))
        · show ReflTransGen Ledger.Step _ (⟨board (s.db.execAll lt (_ ++ _)), _⟩ : Ledger Place String)
          rw [execAll_append]
          exact path_scheduleExec hz hd (fun hp => hi.not_issued hknown hp)
    · cases hs
      exact hi.kept_of_frame rfl rfl (.refl _) (.refl _) (hi.ticks.setScheduleTick (by simp) (by simp)) .refl
  · cases hs

/-! ## Runs -/

/-- A step of the system in LIFO mode keeps the scheduled store and what was read, and is a path of the ledger. -/
theorem Inv.kept (hi : Inv s) (hf : lifo config s a = true) (hs : step cron lt config s a = some s') : Kept s s' := by
  cases a with
  | produce => exact hi.kept_produce hf hs
  | dequeue => exact hi.kept_dequeue hf hs
  | acknowledge id => exact hi.kept_settle (fun _ => Broker.isMove_acknowledge ..) hs
  | unacknowledge id cause now => exact hi.kept_settle (fun _ => Broker.isMove_retry ..) hs
  | delayFetch => exact hi.kept_delayFetch hs
  | delayExec => exact hi.kept_delayExec hs
  | requeueFetch => exact hi.kept_requeueFetch hf hs
  | requeueExec => exact hi.kept_requeueExec hs
  | scheduleFetchIds => exact hi.kept_scheduleFetchIds hf hs
  | scheduleFetchMessages => exact hi.kept_scheduleFetchMessages hs
  | scheduleExec => exact hi.kept_scheduleExec hs
  | requeueMessageRead | deleteMessageRead | requestExec | deletePendingMessageWithPriority | deleteScheduled | purge
  | purgePriorityQueue | purgeScheduledMessagesQueue => cases hf

/-- A step of the system in LIFO mode keeps the invariant. -/
theorem Inv.step (hi : Inv s) (hf : lifo config s a = true) (hs : Queue.step cron lt config s a = some s') :
    Inv s' := by
  have hkept := hi.kept hf hs
  have hmono : ∀ {m}, Known s.produced m → Known s'.produced m := by
    rintro m ⟨r, hr, h⟩
    rcases step_produced hs with heq | ⟨_, _, _, _, _, heq⟩
    · exact ⟨r, heq ▸ hr, h⟩
    · exact ⟨r, heq ▸ List.mem_cons_of_mem _ hr, h⟩
  refine ⟨?_, ?_, ?_, hkept.store, hkept.ticks, Ledger.path_balanced hkept.path hi.balanced⟩
  · rcases step_produced hs with heq | ⟨q, wp, m, now, rfl, heq⟩ <;> rw [heq]
    · exact hi.distinct
    · simp only [lifo, Bool.and_eq_true, List.all_eq_true, decide_eq_true_eq] at hf
      intro r hr r' hr' huuid
      rcases List.mem_cons.mp hr with rfl | hr <;> rcases List.mem_cons.mp hr' with rfl | hr'
      · rfl
      · exact absurd huuid.symm (hf.2 r' hr')
      · exact absurd huuid (hf.2 r hr)
      · exact hi.distinct r hr r' hr' huuid
  · refine step_forall hs (fun slot m hm => ?_) (fun slot m => stepPuts_stored hi hf hs)
    obtain ⟨h1, h2⟩ := hi.held slot m hm
    exact ⟨hmono h1, h2⟩
  · intro m hm
    rcases step_carries hs hm with hc | ⟨slot, hc⟩
    · exact hmono (hi.carried m hc)
    · exact hmono (hi.held slot m hc).1

theorem inv_init : Inv init where
  distinct r hr := absurd hr List.not_mem_nil
  held := Forall.empty
  carried m hm := by cases hm with
    | delay hb _ | requeue hb _ | schedule hb _ => cases hb
    | request hr => cases hr
  store t := by simp [init, Db.empty]
  ticks := by constructor <;> simp [init]
  balanced x hx := by
    obtain ⟨r, hr, _⟩ := hx
    exact absurd hr List.not_mem_nil

theorem inv_reachable (h : Reach (system cron lt config) (fun s a => lifo config s a = true) s) : Inv s :=
  h.invariant (I := Inv) inv_init (fun _ _ _ hi hf hs => hi.step hf hs)

/-- **No loss and no duplication**: in every state of every LIFO run, every produced message without CRON and repeat
lies in exactly one container, in one copy. -/
theorem oneCopy_reachable (h : Reach (system cron lt config) (fun s a => lifo config s a = true) s) {r : Produced}
    (hr : r ∈ s.produced) (hp : r.message.isPeriodic = false) : OneCopy s.db r.message.uuid := by
  have hi : Inv s := inv_reachable h
  constructor
  · obtain ⟨p, hcount, hne⟩ := hi.balanced r.message.uuid ⟨r, hr, rfl, hp⟩
    refine ⟨p, ?_, hcount, hne⟩
    have hmem : r.message.uuid ∈ board s.db p := Multiset.count_pos.mp (by
      show 0 < Multiset.count _ ((ledger s).board p)
      omega)
    cases p with
    | scheduled => trivial
    | list key =>
      obtain ⟨m, hm, _⟩ := List.mem_map.mp hmem
      exact (hi.held (.list key) m hm).2
  · rw [hi.store]
    constructor
    · rintro ⟨m, hm⟩
      have hid := ((hi.held (.field _ _) m hm).2 rfl).1
      exact ⟨m, hm, (Text.id.inj hid).symm⟩
    · rintro ⟨m, hm, _⟩
      exact ⟨m, hm⟩

end

/-- A message fails, waits for its retry delay, and is enqueued again while another one is taken. -/
def retryRun : Option State :=
  run (system minuteParser (fun _ _ => false) lifoConsumer) (fun s a => lifo lifoConsumer s a = true) init
    [.produce ⟨"q", "ns"⟩ false (Message.new Message.defaultOpts "m" 0) 1, .dequeue "c",
      .unacknowledge "c" .timeout 2, .produce ⟨"q", "ns"⟩ false (Message.new Message.defaultOpts "m2" 3) 3,
      .delayFetch 4, .dequeue "c", .delayExec, .scheduleFetchIds false 60004, .acknowledge "c",
      .scheduleFetchMessages 60005, .scheduleExec]

/-- There is one copy of it in the end. -/
theorem oneCopy_retryRun : ∃ s, retryRun = some s ∧ OneCopy s.db "m" := by
  have hproduced : retryRun.map (·.produced) =
      some [⟨sent ⟨"q", "ns"⟩ (Message.new Message.defaultOpts "m2" 3), false⟩,
        ⟨sent ⟨"q", "ns"⟩ (Message.new Message.defaultOpts "m" 0), false⟩] := by decide
  obtain ⟨s, hs, heq⟩ := Option.map_eq_some_iff.mp hproduced
  refine ⟨s, hs, oneCopy_reachable (reach_of_run _ hs) (r := ⟨sent ⟨"q", "ns"⟩
    (Message.new Message.defaultOpts "m" 0), false⟩) ?_ rfl⟩
  rw [heq]
  exact List.mem_cons_of_mem _ List.mem_cons_self

end RedisSmq.Queue
