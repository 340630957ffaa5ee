import RedisSmq.Queue.Origin
import RedisSmq.Queue.Scheduled

/-!
# A tick of the scheduler

`enqueueScheduledMessages` as a function of the database, with nobody else writing: the identifiers that are due are read,
then their messages, and then there is one transaction for each message. `Ticked` says what such a tick does: every due
message is enqueued once, and is stored under its next timestamp or removed; nothing else changes (`tick_exact`). The
ticks of the schedule worker in the whole system are this function when no other action comes in between (`tick_path`).
-/

namespace RedisSmq.ScheduleHandler

open RedisKeys Db Transition

section

variable (cron : CronParser) (lt : Text → Text → Bool) (withPriority : Bool) (now : ℕ)

/-- `enqueue`, for the messages that were fetched; a missing payload has become a message without a queue. -/
def enqueue (db : Db) : List (Option Message) → Except String Db
  | [] => .ok db
  | none :: _ => .error "Can not enqueue a message without a queue name"
  | some m :: ms => do
    let cmds ← enqueueScheduledMessage cron m withPriority now
    enqueue (db.execAll lt cmds) ms

/-- `enqueueScheduledMessages`: `fetchIds` at one clock value, `enqueue` at another one. -/
def enqueueScheduledMessages (fetchedAt : ℕ) (db : Db) : Except String Db :=
  let ids := (db.zsets getGlobalKeys.keyQueueScheduled).zrangebyscore 0 fetchedAt
  enqueue cron lt withPriority now db (ids.map (db.hashes getGlobalKeys.keyScheduledMessages))

/-- The next timestamp of a message that was enqueued, and the message with its counters updated. -/
abbrev next (m : Message) : ℕ × Message :=
  getNextScheduledTimestamp cron now (EnqueueHandler.enqueued m withPriority now)

end

/-- Every identifier in the sorted set has its payload in the hash, a message with this identifier and with a queue. -/
def WellStored (db : Db) : Prop := ∀ t ∈ (db.zsets getGlobalKeys.keyQueueScheduled).members,
  ∃ m, db.hashes getGlobalKeys.keyScheduledMessages t = some m ∧ t = .id m.uuid ∧ m.queue.isSome

/-- The message is stored under a timestamp that is not later than the clock value. -/
def Due (db : Db) (now : ℕ) (m : Message) : Prop :=
  (∃ score ≤ now, (db.zsets getGlobalKeys.keyQueueScheduled).score (.id m.uuid) = some score) ∧
    db.hashes getGlobalKeys.keyScheduledMessages (.id m.uuid) = some m

/-- The message is stored under its timestamp, and is not stored when it has none. -/
def Rescheduled (db : Db) (r : ℕ × Message) : Prop :=
  if r.1 ≠ 0 then
    (db.zsets getGlobalKeys.keyQueueScheduled).score (.id r.2.uuid) = some r.1 ∧
      db.hashes getGlobalKeys.keyScheduledMessages (.id r.2.uuid) = some r.2
  else
    (db.zsets getGlobalKeys.keyQueueScheduled).score (.id r.2.uuid) = none ∧
      db.hashes getGlobalKeys.keyScheduledMessages (.id r.2.uuid) = none

/-- What a tick does in LIFO mode. -/
structure Ticked (cron : CronParser) (fetchedAt now : ℕ) (db db' : Db) : Prop where
  enqueued : ∃ ms : List Message, (ms.map (·.uuid)).Nodup ∧ (∀ m, m ∈ ms ↔ Due db fetchedAt m) ∧
    ∀ q : TMessageQueue, db'.lists q.keys.keyQueue = db.lists q.keys.keyQueue ++
      (ms.filter (fun m => m.queue = some q)).map (EnqueueHandler.enqueued · false now)
  rescheduled : ∀ m, Due db fetchedAt m → Rescheduled db' (next cron false now m) ∧
    (next cron false now m).2.uuid = m.uuid ∧
    ((next cron false now m).1 ≠ 0 → now ≤ (next cron false now m).1)
  unchanged : ∀ id, (∀ m, Due db fetchedAt m → m.uuid ≠ id) →
    (db'.zsets getGlobalKeys.keyQueueScheduled).score (.id id) =
        (db.zsets getGlobalKeys.keyQueueScheduled).score (.id id) ∧
      db'.hashes getGlobalKeys.keyScheduledMessages (.id id) = db.hashes getGlobalKeys.keyScheduledMessages (.id id)
  stored : WellStored db'
  frame : ∀ k, k.type ≠ .keyQueue → k ≠ getGlobalKeys.keyQueueScheduled → k ≠ getGlobalKeys.keyScheduledMessages →
    SameAt db' db k

/-- What the transactions for some messages do, in LIFO mode. -/
structure Enqueues (cron : CronParser) (now : ℕ) (ms : List Message) (db db' : Db) : Prop where
  lists : ∀ q : TMessageQueue, db'.lists q.keys.keyQueue = db.lists q.keys.keyQueue ++
    (ms.filter (fun m => m.queue = some q)).map (EnqueueHandler.enqueued · false now)
  rescheduled : ∀ m ∈ ms, Rescheduled db' (next cron false now m)
  unchanged : ∀ id, (∀ m ∈ ms, m.uuid ≠ id) →
    (db'.zsets getGlobalKeys.keyQueueScheduled).score (.id id) =
        (db.zsets getGlobalKeys.keyQueueScheduled).score (.id id) ∧
      db'.hashes getGlobalKeys.keyScheduledMessages (.id id) = db.hashes getGlobalKeys.keyScheduledMessages (.id id)
  stored : WellStored db → WellStored db'
  frame : ∀ k, k.type ≠ .keyQueue → k ≠ getGlobalKeys.keyQueueScheduled → k ≠ getGlobalKeys.keyScheduledMessages →
    SameAt db' db k

section

variable {cron : CronParser} {lt : Text → Text → Bool} {db db' db'' : Db} {q : TMessageQueue} {m : Message}
variable {ms : List Message} {now fetchedAt : ℕ} {r : ℕ × Message}

/-! ## One message -/

/-- The next timestamp is one of the same message, and not before the clock value. -/
theorem next_same (cron : CronParser) (now : ℕ) (m : Message) : Queue.SameMessage (next cron false now m).2 m :=
  (Queue.sameMessage_next ..).trans (Queue.sameMessage_enqueued ..)

/-- The commands leave the message stored under its timestamp, or not stored. -/
theorem rescheduled_storeCmds : Rescheduled (db.execAll lt (storeCmds r)) r := by
  unfold Rescheduled
  split
  · rename_i hr
    exact Queue.storeCmds_stored hr
  · rename_i hr
    rw [storeCmds, if_neg hr]
    constructor
    · refine SortedSet.score_eq_none.mpr fun hmem => ?_
      simp only [execAll_cons, execAll_nil, Db.exec, setHash_zsets, setZset_zsets, Function.update_self,
        SortedSet.mem_zrem] at hmem
      exact hmem.1 rfl
    · simp [Db.exec]

/-- The commands keep the store well formed, when the message has a queue. -/
theorem wellStored_storeCmds (h : WellStored db) (hq : r.2.queue.isSome) :
    WellStored (db.execAll lt (storeCmds r)) := by
  intro t ht
  unfold storeCmds at ht ⊢
  split at ht
  · rename_i hr
    rw [if_pos hr]
    simp only [execAll_cons, execAll_nil, Db.exec, setHash_zsets, setZset_zsets, Function.update_self,
      SortedSet.mem_zadd] at ht
    simp only [execAll_cons, execAll_nil, Db.exec, setHash_hashes, setZset_hashes, Function.update_self]
    by_cases heq : t = .id r.2.uuid
    · subst heq
      exact ⟨r.2, by rw [Function.update_self], rfl, hq⟩
    · rw [Function.update_of_ne heq]
      exact h t (ht.resolve_left heq)
  · rename_i hr
    rw [if_neg hr]
    simp only [execAll_cons, execAll_nil, Db.exec, setHash_zsets, setZset_zsets, Function.update_self,
      SortedSet.mem_zrem] at ht
    simp only [execAll_cons, execAll_nil, Db.exec, setHash_hashes, setZset_hashes, Function.update_self]
    rw [Function.update_of_ne ht.1]
    exact h t ht.2

/-- Enqueueing is about other keys than the scheduled store. -/
theorem wellStored_enqueueCmds (h : WellStored db) :
    WellStored (db.execAll lt (EnqueueHandler.enqueueCmds q m false now)) := by
  have hz : SameAt (db.execAll lt (EnqueueHandler.enqueueCmds q m false now)) db getGlobalKeys.keyQueueScheduled :=
    Queue.enqueueCmds_frame (by simp) (by simp) (by simp)
  have hh : SameAt (db.execAll lt (EnqueueHandler.enqueueCmds q m false now)) db getGlobalKeys.keyScheduledMessages :=
    Queue.enqueueCmds_frame (by simp) (by simp) (by simp)
  intro t ht
  rw [hz.zsets] at ht
  rw [hh.hashes]
  exact h t ht

/-- A message is enqueued at the end of its own queue. -/
theorem lists_enqueueCmds (hq : m.queue = some q) (q' : TMessageQueue) :
    (db.execAll lt (EnqueueHandler.enqueueCmds q m false now)).lists q'.keys.keyQueue = db.lists q'.keys.keyQueue ++
      ([m].filter (fun m => m.queue = some q')).map (EnqueueHandler.enqueued · false now) := by
  by_cases heq : q' = q
  · subst heq
    simp [EnqueueHandler.enqueueCmds, Db.exec, hq]
  · have hkey : q'.keys.keyQueue ≠ q.keys.keyQueue := fun h => heq (TMessageQueue.eq_of_key h)
    have hne : ¬q = q' := fun h => heq h.symm
    simp [EnqueueHandler.enqueueCmds, Db.exec, hq, hkey, hne]

/-- The transaction for one message. -/
theorem enqueues_one (cron : CronParser) (lt : Text → Text → Bool) (db : Db) (now : ℕ) (hq : m.queue = some q) :
    Enqueues cron now [m] db ((db.execAll lt (EnqueueHandler.enqueueCmds q m false now)).execAll lt
      (storeCmds (next cron false now m))) where
  lists q' := by
    rw [(Queue.storeCmds_frame (by simp [RedisKey.ext_iff]) (by simp [RedisKey.ext_iff])).lists]
    exact lists_enqueueCmds hq q'
  rescheduled m' hm' := by
    rcases List.mem_singleton.mp hm' with rfl
    exact rescheduled_storeCmds
  unchanged id hid := by
    have hsame : SameFor ((db.execAll lt (EnqueueHandler.enqueueCmds q m false now)).execAll lt
        (storeCmds (next cron false now m))) db id := Queue.sameFor_scheduleExec (hid m List.mem_cons_self)
    exact ⟨hsame.scores _, hsame.payloads _⟩
  stored h := wellStored_storeCmds (wellStored_enqueueCmds h) (by rw [(next_same cron now m).queue, hq]; rfl)
  frame k hk hz hh := by
    refine (Queue.storeCmds_frame hz hh).trans ?_
    refine execAll_frame _ fun c hc => ?_
    rcases List.mem_singleton.mp hc with rfl
    intro hmem
    rcases List.mem_singleton.mp hmem with rfl
    exact hk rfl

/-! ## All messages -/

theorem Enqueues.nil : Enqueues cron now [] db db where
  lists _ := by simp
  rescheduled _ hm := absurd hm List.not_mem_nil
  unchanged _ _ := ⟨rfl, rfl⟩
  stored h := h
  frame _ _ _ _ := .refl _ _

/-- What the store keeps for an identifier decides whether its message is rescheduled. -/
theorem Rescheduled.congr (h : Rescheduled db r)
    (hz : (db'.zsets getGlobalKeys.keyQueueScheduled).score (.id r.2.uuid) =
      (db.zsets getGlobalKeys.keyQueueScheduled).score (.id r.2.uuid))
    (hh : db'.hashes getGlobalKeys.keyScheduledMessages (.id r.2.uuid) =
      db.hashes getGlobalKeys.keyScheduledMessages (.id r.2.uuid)) : Rescheduled db' r := by
  unfold Rescheduled at h ⊢
  rw [hz, hh]
  exact h

/-- A message before others that have other identifiers. -/
theorem Enqueues.cons (h : Enqueues cron now [m] db db') (h' : Enqueues cron now ms db' db'')
    (hne : ∀ m' ∈ ms, m'.uuid ≠ m.uuid) : Enqueues cron now (m :: ms) db db'' where
  lists q := by
    rw [h'.lists, h.lists, List.append_assoc, ← List.map_append, ← List.filter_append, List.singleton_append]
  rescheduled m' hm' := by
    rcases List.mem_cons.mp hm' with rfl | hm'
    · have hkept := h'.unchanged m'.uuid hne
      rw [← (next_same cron now m').uuid] at hkept
      exact (h.rescheduled m' List.mem_cons_self).congr hkept.1 hkept.2
    · exact h'.rescheduled m' hm'
  unchanged id hid := by
    have h1 := h.unchanged id (fun m' hm' => hid m' (List.mem_cons.mpr (.inl (List.mem_singleton.mp hm'))))
    have h2 := h'.unchanged id (fun m' hm' => hid m' (List.mem_cons_of_mem _ hm'))
    exact ⟨h2.1.trans h1.1, h2.2.trans h1.2⟩
  stored hs := h'.stored (h.stored hs)
  frame k hk hz hh := (h'.frame k hk hz hh).trans (h.frame k hk hz hh)

/-- The transactions for distinct messages that have queues. -/
theorem enqueue_ok (cron : CronParser) (lt : Text → Text → Bool) (now : ℕ) :
    ∀ {ms : List Message} {db : Db}, (ms.map (·.uuid)).Nodup → (∀ m ∈ ms, m.queue.isSome) →
    ∃ db', enqueue cron lt false now db (ms.map some) = .ok db' ∧ Enqueues cron now ms db db'
  | [], db, _, _ => ⟨db, rfl, .nil⟩
  | m :: ms, db, hn, hq => by
    obtain ⟨hm, hn⟩ := List.nodup_cons.mp hn
    obtain ⟨q, hmq⟩ := Option.isSome_iff_exists.mp (hq m List.mem_cons_self)
    have hone := enqueues_one cron lt db now hmq
    obtain ⟨db', hdb', h⟩ := enqueue_ok cron lt now hn (fun m' hm' => hq m' (List.mem_cons_of_mem _ hm'))
    refine ⟨db', ?_, hone.cons h fun m' hm' heq => hm ?_⟩
    · rw [List.map_cons, enqueue, enqueueScheduledMessage_ok cron hmq]
      show enqueue cron lt false now (db.execAll lt _) _ = _
      rw [execAll_append]
      exact hdb'
    · exact List.mem_map.mpr ⟨m', hm', heq⟩

/-! ## The messages that are due -/

/-- The messages that a tick fetches are those that are due, each once. -/
theorem fetched_due (h : WellStored db) (fetchedAt : ℕ) : ∃ ms : List Message,
    ((db.zsets getGlobalKeys.keyQueueScheduled).zrangebyscore 0 fetchedAt).map
      (db.hashes getGlobalKeys.keyScheduledMessages) = ms.map some ∧
    (ms.map (·.uuid)).Nodup ∧ (∀ m ∈ ms, m.queue.isSome) ∧ ∀ m, m ∈ ms ↔ Due db fetchedAt m := by
  have hsub := SortedSet.zrangebyscore_sublist (db.zsets getGlobalKeys.keyQueueScheduled) 0 fetchedAt
  obtain ⟨ms, hpayloads, hids, hms⟩ := payloads_of_ids _ (fun t ht => h t (hsub.subset ht))
  refine ⟨ms, hpayloads, ?_, fun m hm => (hms m hm).2, fun m => ⟨fun hm => ?_, fun hm => ?_⟩⟩
  · exact nodup_uuid (hids ▸ (SortedSet.nodup_members _).sublist hsub)
  · have hid : .id m.uuid ∈ (db.zsets getGlobalKeys.keyQueueScheduled).zrangebyscore 0 fetchedAt :=
      hids ▸ List.mem_map_of_mem hm
    obtain ⟨score, hscore, _, hle⟩ := SortedSet.mem_zrangebyscore.mp hid
    exact ⟨⟨score, hle, hscore⟩, (hms m hm).1⟩
  · obtain ⟨⟨score, hle, hscore⟩, hpayload⟩ := hm
    have hid : .id m.uuid ∈ ms.map (fun m => Text.id m.uuid) :=
      hids ▸ SortedSet.mem_zrangebyscore.mpr ⟨score, hscore, Nat.zero_le _, hle⟩
    obtain ⟨m', hm', heq⟩ := List.mem_map.mp hid
    have hsame : some m' = some m := by rw [← (hms m' hm').1, heq, hpayload]
    exact Option.some.inj hsame ▸ hm'

/-- A tick makes the transactions for the messages that are due. -/
theorem enqueueScheduledMessages_ok (cron : CronParser) (lt : Text → Text → Bool) (fetchedAt now : ℕ)
    (h : WellStored db) : ∃ db' ms, enqueueScheduledMessages cron lt false now fetchedAt db = .ok db' ∧
    (ms.map (·.uuid)).Nodup ∧ (∀ m, m ∈ ms ↔ Due db fetchedAt m) ∧ Enqueues cron now ms db db' := by
  obtain ⟨ms, hpayloads, hnodup, hqueues, hdue⟩ := fetched_due h fetchedAt
  obtain ⟨db', hdb', he⟩ := enqueue_ok cron lt now hnodup hqueues
  refine ⟨db', ms, ?_, hnodup, hdue, he⟩
  rw [enqueueScheduledMessages, hpayloads]
  exact hdb'

/-- What the transactions for the messages that are due do is what a tick does. -/
theorem Enqueues.ticked (he : Enqueues cron now ms db db') (h : WellStored db) (hnodup : (ms.map (·.uuid)).Nodup)
    (hdue : ∀ m, m ∈ ms ↔ Due db fetchedAt m) : Ticked cron fetchedAt now db db' where
  enqueued := ⟨ms, hnodup, hdue, he.lists⟩
  rescheduled m hm := ⟨he.rescheduled m ((hdue m).mpr hm), (next_same cron now m).uuid, le_next⟩
  unchanged id hid := he.unchanged id (fun m hm => hid m ((hdue m).mp hm))
  stored := he.stored h
  frame := he.frame

/-- **A tick does exactly what is due**, in LIFO mode. -/
theorem tick_exact (cron : CronParser) (lt : Text → Text → Bool) (fetchedAt now : ℕ) (h : WellStored db) :
    ∃ db', enqueueScheduledMessages cron lt false now fetchedAt db = .ok db' ∧ Ticked cron fetchedAt now db db' := by
  obtain ⟨db', ms, hdb', hnodup, hdue, he⟩ := enqueueScheduledMessages_ok cron lt fetchedAt now h
  exact ⟨db', hdb', he.ticked h hnodup hdue⟩

/-- A store with a delayed message, a repeated one, and one that is due later. -/
def mixedStore : Db :=
  let m := { Message.new Message.defaultOpts "delayed" 0 with queue := some ⟨"q", "ns"⟩ }
  let delayed := { m with scheduledDelay := some .tenSeconds, delayed := true }
  let repeated :=
    { m with uuid := "repeated", scheduledRepeat := 3, scheduledPeriod := some .tenSeconds, scheduledRepeatCount := 1 }
  let later := { m with uuid := "later", scheduledCron := some ⟨"* * * * *", by decide⟩, scheduledCronFired := true }
  ((Db.empty.execAll (fun _ _ => false) (storeCmds (10000, delayed))).execAll (fun _ _ => false)
    (storeCmds (12000, repeated))).execAll (fun _ _ => false) (storeCmds (60000, later))

theorem wellStored_mixedStore : WellStored mixedStore := by
  have hempty : WellStored Db.empty := fun t ht => absurd ht (by simp [Db.empty])
  exact wellStored_storeCmds (wellStored_storeCmds (wellStored_storeCmds hempty rfl) rfl) rfl

/-- A tick at `12500` enqueues two of the messages, and keeps the repeated one. -/
theorem tick_exact_mixedStore : ∃ db',
    enqueueScheduledMessages minuteParser (fun _ _ => false) false 12501 12500 mixedStore = .ok db' ∧
      Ticked minuteParser 12500 12501 mixedStore db' :=
  tick_exact minuteParser (fun _ _ => false) 12500 12501 wellStored_mixedStore

example : (enqueueScheduledMessages minuteParser (fun _ _ => false) false 12501 12500 mixedStore).toOption.map
    (fun db => ((db.lists (TMessageQueue.mk "q" "ns").keys.keyQueue).map (·.uuid),
      (db.zsets getGlobalKeys.keyQueueScheduled).entries)) =
    some (["delayed", "repeated"], [(.id "repeated", 22501), (.id "later", 60000)]) := by decide

end

/-! ## Ticks in any run -/

/-- The requests of one tick. -/
def tickActions (withPriority : Bool) (fetchedAt now : ℕ) : List Queue.Action :=
  [.scheduleFetchIds withPriority fetchedAt, .scheduleFetchMessages now, .scheduleExec]

section

variable {cron : CronParser} {lt : Text → Text → Bool} {config : String → Queue.ConsumerConfig}
variable {s t : Queue.State} {db' : Db} {withPriority : Bool} {now fetchedAt : ℕ} {P : Queue.State → Queue.Action → Prop}

/-- The transactions of a tick, one after the other, and its end. -/
theorem enqueue_path {ms : List (Option Message)}
    (hpath : Path (Queue.system cron lt config) (fun _ a => a ∈ tickActions withPriority fetchedAt now) s t)
    (ht : t.scheduleTick = .messages withPriority now ms)
    (h : enqueue cron lt withPriority now t.db ms = .ok db') :
    Path (Queue.system cron lt config) (fun _ a => a ∈ tickActions withPriority fetchedAt now) s
      { t with db := db', scheduleTick := .idle } := by
  induction ms generalizing t with
  | nil =>
    have hdb : t.db = db' := Except.ok.inj h
    refine hpath.step (a := .scheduleExec) (by simp [tickActions]) ?_
    show Queue.scheduleExec cron lt t = _
    rw [Queue.scheduleExec, ht, ← hdb]
  | cons m ms ih =>
    cases m with
    | none => cases h
    | some m =>
      cases hcmds : enqueueScheduledMessage cron m withPriority now with
      | error e => rw [enqueue, hcmds] at h; cases h
      | ok cmds =>
        rw [enqueue, hcmds] at h
        refine ih (t := { t with db := t.db.execAll lt cmds, scheduleTick := .messages withPriority now ms })
          (hpath.step (a := .scheduleExec) (by simp [tickActions]) ?_) rfl h
        show Queue.scheduleExec cron lt t = _
        rw [Queue.scheduleExec, ht]
        dsimp only
        rw [hcmds]

/-- **The tick of the schedule worker** in the system, with no action of others in between. -/
theorem tick_path (hidle : s.scheduleTick = .idle)
    (h : enqueueScheduledMessages cron lt withPriority now fetchedAt s.db = .ok db') :
    Path (Queue.system cron lt config) (fun _ a => a ∈ tickActions withPriority fetchedAt now) s
      { s with db := db' } := by
  have hids : Queue.step cron lt config s (.scheduleFetchIds withPriority fetchedAt) = some { s with
      scheduleTick :=
        .ids withPriority ((s.db.zsets getGlobalKeys.keyQueueScheduled).zrangebyscore 0 fetchedAt) } := by
    simp only [Queue.step, hidle]
  have hstart : Path (Queue.system cron lt config) (fun _ a => a ∈ tickActions withPriority fetchedAt now) s s := .refl
  have hmessages := (hstart.step List.mem_cons_self hids).step (a := .scheduleFetchMessages now)
    (by simp [tickActions]) rfl
  have hend := enqueue_path hmessages rfl h
  have hsame : { s with db := db', scheduleTick := .idle } = { s with db := db' } := by rw [← hidle]
  exact hsame ▸ hend

/-- The store is well formed in every run. -/
theorem wellStored_reachable (h : Reach (Queue.system cron lt config) P s) : WellStored s.db := by
  have hstore := Queue.storeInv_reachable h
  intro t ht
  obtain ⟨m, hm⟩ := hstore.linked t ht
  have horiginal := Queue.stock_reachable h m (.inl ⟨.field getGlobalKeys.keyScheduledMessages t, hm⟩)
  exact ⟨m, hm, hstore.filed (.field getGlobalKeys.keyScheduledMessages t) m hm, horiginal.queue⟩

/-- A tick does exactly what is due, from every reached state in which the schedule worker is idle. -/
theorem tick_reachable (h : Reach (Queue.system cron lt config) P s) (hidle : s.scheduleTick = .idle)
    (fetchedAt now : ℕ) : ∃ db', Path (Queue.system cron lt config)
      (fun _ a => a ∈ tickActions false fetchedAt now) s { s with db := db' } ∧ Ticked cron fetchedAt now s.db db' := by
  have hstored := wellStored_reachable h
  obtain ⟨db', ms, hdb', hnodup, hdue, he⟩ := enqueueScheduledMessages_ok cron lt fetchedAt now hstored
  exact ⟨db', tick_path hidle hdb', he.ticked hstored hnodup hdue⟩

end

end RedisSmq.ScheduleHandler
