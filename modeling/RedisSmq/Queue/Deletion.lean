import RedisSmq.Queue.Origin
import RedisSmq.Queue.Scheduled
import RedisSmq.Queue.Modes

/-!
# Deleting a scheduled message

`deleteScheduledMessage` removes the identifier and the payload of a message, `purgeScheduledMessagesQueue` removes all
identifiers and leaves the payloads. The schedule worker takes no notice: it works on what it has read before.

A removal is final when the worker has not read the message yet (`Unread`): whatever happens until the message is stored
anew, it is not in the store and no transaction of the worker changes anything for it (`removal_final`). When the worker
has read the payload before, the message is enqueued after it was deleted (`not_final_overtaken`).
-/

namespace RedisSmq.Queue

open RedisKeys Db Transition

/-- The request removes the message from the scheduled store. -/
inductive Removes (s : State) (id : String) : Action → Prop
  | delete : Removes s id (.deleteScheduled id)
  | purge : .id id ∈ (s.db.zsets getGlobalKeys.keyQueueScheduled).members → Removes s id .purgeScheduledMessagesQueue

/-- The schedule worker has read the identifier, and not yet the payload. -/
def IdRead (s : State) (id : String) : Prop :=
  ∃ withPriority ids, s.scheduleTick = .ids withPriority ids ∧ .id id ∈ ids

/-- The schedule worker has read the payload, and its transaction is still to come. -/
def PayloadRead (s : State) (id : String) : Prop :=
  ∃ withPriority now rest m, s.scheduleTick = .messages withPriority now rest ∧ some m ∈ rest ∧ m.uuid = id

/-- The schedule worker has not read the payload of the message and, before a purge, which leaves the payloads, not its
identifier either. -/
def Unread (s : State) (id : String) : Action → Prop
  | .purgeScheduledMessagesQueue => ¬PayloadRead s id ∧ ¬IdRead s id
  | _ => ¬PayloadRead s id

/-- The step stores the message anew: it is produced again, or delayed after another delivery of it failed. -/
def StoresAnew (id : String) (s : State) : Action → Prop
  | .produce _ _ m _ => m.uuid = id
  | .delayExec => ∃ b, s.delayTick = .fetched b ∧ ∃ i ∈ b.messages, i.uuid = id
  | _ => False

/-- After the request `a` led to the state `s`: until the message is stored anew, its identifier is not in the scheduled
set, its payload not in the hash if the request deletes it, and no transaction of the schedule worker changes anything
for it. -/
def Final (cron : CronParser) (lt : Text → Text → Bool) (config : String → ConsumerConfig) (id : String) (a : Action)
    (s : State) : Prop :=
  ∀ t, Path (system cron lt config) (fun s a => ¬StoresAnew id s a) s t →
    .id id ∉ (t.db.zsets getGlobalKeys.keyQueueScheduled).members ∧
      (a = .deleteScheduled id → t.db.hashes getGlobalKeys.keyScheduledMessages (.id id) = none) ∧
      ∀ t', step cron lt config t .scheduleExec = some t' → SameFor t'.db t.db id

section

variable {cron : CronParser} {lt : Text → Text → Bool} {config : String → ConsumerConfig}
variable {s s' : State} {a : Action} {id : String}

/-- Nothing of the message is in the scheduled set, and the schedule worker will not find it. -/
structure Gone (id : String) (s : State) : Prop where
  member : .id id ∉ (s.db.zsets getGlobalKeys.keyQueueScheduled).members
  payload : ¬PayloadRead s id
  ids : IdRead s id → s.db.hashes getGlobalKeys.keyScheduledMessages (.id id) = none

/-- Only a step that stores the message anew puts a payload under its identifier, when the worker has not read one. -/
theorem payload_none (hp : ¬PayloadRead s id) (ha : ¬StoresAnew id s a) (hs : step cron lt config s a = some s')
    (h : s.db.hashes getGlobalKeys.keyScheduledMessages (.id id) = none) :
    s'.db.hashes getGlobalKeys.keyScheduledMessages (.id id) = none := by
  by_contra hne
  obtain ⟨m, hm⟩ := Option.ne_none_iff_exists'.mp hne
  have hheld : s'.db.Holds (.field getGlobalKeys.keyScheduledMessages (.id id)) m := hm
  rcases step_holds hs hheld with hm | hm
  · rw [show s.db.hashes _ _ = some m from hm] at h
    cases h
  · generalize hslot : Slot.field getGlobalKeys.keyScheduledMessages (.id id) = slot at hm
    have henqueue : ∀ {q m' withPriority}, slot ≠ enqueueSlot q m' withPriority := by
      rintro q m' withPriority rfl
      cases withPriority <;> simp [enqueueSlot, RedisKey.ext_iff] at hslot
    cases hm with
    | produceScheduled => cases hslot; exact ha rfl
    | delayed hb hi _ => cases hslot; exact ha ⟨_, hb, _, hi, rfl⟩
    | rescheduled ht _ => cases hslot; exact hp ⟨_, _, _, _, ht, List.mem_cons_self, rfl⟩
    | produceEnqueued | enqueueScheduled | requested => exact henqueue rfl
    | _ => cases hslot

/-- An identifier that was read was a member of the scheduled set. -/
theorem idRead_step (hs : step cron lt config s a = some s') (h : IdRead s' id) :
    IdRead s id ∨ .id id ∈ (s.db.zsets getGlobalKeys.keyQueueScheduled).members := by
  obtain ⟨withPriority, ids, ht, hid⟩ := h
  have htick := step_tick hs
  generalize s'.scheduleTick = tick at htick ht
  cases htick with
  | other => exact .inl ⟨_, _, ht, hid⟩
  | fetchIds _ =>
    cases ht
    exact .inr ((SortedSet.zrangebyscore_sublist _ _ _).subset hid)
  | _ => cases ht

/-- A payload that was read was stored under an identifier that was read. -/
theorem payloadRead_step (hi : StoreInv s) (hs : step cron lt config s a = some s') (h : PayloadRead s' id) :
    PayloadRead s id ∨ (IdRead s id ∧ s.db.hashes getGlobalKeys.keyScheduledMessages (.id id) ≠ none) := by
  obtain ⟨withPriority, now, rest, m, ht, hm, huuid⟩ := h
  have htick := step_tick hs
  generalize s'.scheduleTick = tick at htick ht
  cases htick with
  | other => exact .inl ⟨_, _, _, _, ht, hm, huuid⟩
  | fetchMessages hids =>
    cases ht
    obtain ⟨t, hmem, hpayload⟩ := List.mem_map.mp hm
    have hfiled : t = .id m.uuid := hi.filed (.field _ t) m hpayload
    rw [hfiled, huuid] at hmem hpayload
    exact .inr ⟨⟨_, _, hids, hmem⟩, by simp [hpayload]⟩
  | enqueued hrest =>
    cases ht
    exact .inl ⟨_, _, _, _, hrest, List.mem_cons_of_mem _ hm, huuid⟩
  | _ => cases ht

/-- A step that does not store the message anew leaves it gone. -/
theorem Gone.step (hi : StoreInv s) (h : Gone id s) (ha : ¬StoresAnew id s a)
    (hs : Queue.step cron lt config s a = some s') : Gone id s' := by
  refine ⟨fun ht => ?_, fun hp => ?_, fun hr => ?_⟩
  · rcases step_mem_scheduled hs ht with ht | ⟨n, m, hm, hid⟩
    · exact h.member ht
    · cases hm with
      | @produce q withPriority m now _ =>
        have huuid : (ScheduleHandler.getNextScheduledTimestamp cron now (sent q m)).2.uuid = m.uuid :=
          (sameMessage_next cron now (sent q m)).uuid
        exact ha (huuid.symm.trans (Text.id.inj hid).symm)
      | delayed hb hi _ => exact ha ⟨_, hb, _, hi, (Text.id.inj hid).symm⟩
      | @rescheduled withPriority now m rest ht _ =>
        have huuid := ((sameMessage_next cron now _).trans (sameMessage_enqueued m withPriority now)).uuid
        exact h.payload ⟨_, _, _, _, ht, List.mem_cons_self, huuid.symm.trans (Text.id.inj hid).symm⟩
  · rcases payloadRead_step hi hs hp with hp | ⟨hr, hne⟩
    · exact h.payload hp
    · exact hne (h.ids hr)
  · rcases idRead_step hs hr with hr | hmem
    · exact payload_none h.payload ha hs (h.ids hr)
    · exact absurd hmem h.member

/-- The worker changes nothing for a message that is gone. -/
theorem Gone.sameFor (h : Gone id s) (hs : Queue.step cron lt config s .scheduleExec = some s') :
    SameFor s'.db s.db id := by
  have hdb := step_db hs
  generalize s'.db = db at hdb ⊢
  cases hdb with
  | reads => exact .refl _ _
  | scheduleExec ht _ => exact sameFor_scheduleExec (fun huuid => h.payload ⟨_, _, _, _, ht, List.mem_cons_self, huuid⟩)

/-- After a removal of a message that was not read, the message is gone. -/
theorem gone_of_removes (hr : Removes s id a) (hu : Unread s id a) (hs : step cron lt config s a = some s') :
    Gone id s' ∧ (a = .deleteScheduled id → s'.db.hashes getGlobalKeys.keyScheduledMessages (.id id) = none) := by
  cases hr with
  | delete =>
    cases hs
    have hnone : (s.db.execAll lt (ScheduleHandler.deleteScheduled id)).hashes getGlobalKeys.keyScheduledMessages
        (.id id) = none := by simp [ScheduleHandler.deleteScheduled, Db.exec]
    refine ⟨⟨?_, hu, fun _ => hnone⟩, fun _ => hnone⟩
    simp [ScheduleHandler.deleteScheduled, Db.exec, SortedSet.mem_zrem]
  | purge =>
    cases hs
    refine ⟨⟨?_, hu.1, fun hr => absurd hr hu.2⟩, fun h => by cases h⟩
    simp [QueueManager.purgeScheduledMessagesQueue, Db.exec]

/-- **Removing a scheduled message is final** when the schedule worker has not read it before the request. -/
theorem removal_final (h : Reach (system cron lt config) (fun _ _ => True) s) (hr : Removes s id a)
    (hu : Unread s id a) (hs : step cron lt config s a = some s') : Final cron lt config id a s' := by
  intro t hpath
  obtain ⟨hgone, hnone⟩ := gone_of_removes hr hu hs
  have hstore : StoreInv s' := storeInv_reachable (.step h trivial hs)
  obtain ⟨_, hgone', hnone'⟩ := hpath.invariant (I := fun t => StoreInv t ∧ Gone id t ∧
      (a = .deleteScheduled id → t.db.hashes getGlobalKeys.keyScheduledMessages (.id id) = none))
    ⟨hstore, hgone, hnone⟩ (fun _ _ _ ⟨hi, hg, hn⟩ ha hs =>
      ⟨hi.step hs, hg.step hi ha hs, fun heq => payload_none hg.payload ha hs (hn heq)⟩)
  exact ⟨hgone'.member, hnone', fun _ ht' => hgone'.sameFor ht'⟩

end

/-! ## A deleted message is enqueued -/

/-- The schedule worker has read the payload of a message that is due. -/
def overtakenRun : Option State :=
  run (system minuteParser (fun _ _ => false) twoModes) (fun _ _ => True) init
    [.produce ⟨"q", "ns"⟩ false tenSeconds 1, .scheduleFetchIds false 10001, .scheduleFetchMessages 10002]

/-- When the message is deleted then, the worker enqueues it after that. -/
theorem not_final_overtaken : ¬∀ s id a s', Reach (system minuteParser (fun _ _ => false) twoModes) (fun _ _ => True) s →
    Removes s id a → step minuteParser (fun _ _ => false) twoModes s a = some s' →
    Final minuteParser (fun _ _ => false) twoModes id a s' := by
  intro h
  have hrun : (overtakenRun.bind fun s =>
      (step minuteParser (fun _ _ => false) twoModes s (.deleteScheduled "m")).bind fun s' =>
        (step minuteParser (fun _ _ => false) twoModes s' .scheduleExec).map fun s'' =>
          ((s'.db.lists (getKeys "ns" "q" none).keyQueue).map (·.uuid),
            (s''.db.lists (getKeys "ns" "q" none).keyQueue).map (·.uuid))) = some ([], ["m"]) := by decide
  obtain ⟨s, hs, hrun⟩ := Option.bind_eq_some_iff.mp hrun
  obtain ⟨s', hs', hrun⟩ := Option.bind_eq_some_iff.mp hrun
  obtain ⟨s'', hs'', heq⟩ := Option.map_eq_some_iff.mp hrun
  obtain ⟨hempty, hone⟩ := Prod.mk.inj heq
  have hsame := (h s "m" _ s' (reach_of_run _ hs) .delete hs' s' .refl).2.2 s'' hs''
  have hlists := congrArg (List.map (·.uuid)) (hsame.lists (getKeys "ns" "q" none).keyQueue)
  rw [List.map_eq_nil_iff.mp hempty] at hlists
  obtain ⟨m, hm, huuid⟩ := List.mem_map.mp (hone ▸ List.mem_singleton_self "m")
  have hmem : m ∈ (s''.db.lists (getKeys "ns" "q" none).keyQueue).filter (·.uuid = "m") :=
    List.mem_filter.mpr ⟨hm, by simpa using huuid⟩
  rw [List.filter_nil, List.map_nil, List.map_eq_nil_iff] at hlists
  rw [hlists] at hmem
  cases hmem

def ScheduleTick.isIds : ScheduleTick → Bool
  | .ids _ _ => true
  | _ => false

/-- When the worker has only read the identifier, the deletion is final. -/
theorem final_idRead : ∃ s s', run (system minuteParser (fun _ _ => false) twoModes) (fun _ _ => True) init
    [.produce ⟨"q", "ns"⟩ false tenSeconds 1, .scheduleFetchIds false 10001] = some s ∧
      step minuteParser (fun _ _ => false) twoModes s (.deleteScheduled "m") = some s' ∧
      Final minuteParser (fun _ _ => false) twoModes "m" (.deleteScheduled "m") s' := by
  have hrun : ((run (system minuteParser (fun _ _ => false) twoModes) (fun _ _ => True) init
      [.produce ⟨"q", "ns"⟩ false tenSeconds 1, .scheduleFetchIds false 10001]).bind fun s =>
        (step minuteParser (fun _ _ => false) twoModes s (.deleteScheduled "m")).map fun _ =>
          s.scheduleTick.isIds) = some true := by decide
  obtain ⟨s, hs, hrun⟩ := Option.bind_eq_some_iff.mp hrun
  obtain ⟨s', hs', htick⟩ := Option.map_eq_some_iff.mp hrun
  refine ⟨s, s', hs, hs', removal_final (reach_of_run _ hs) .delete ?_ hs'⟩
  rintro ⟨withPriority, now, rest, m, ht, _⟩
  rw [ht] at htick
  cases htick

end RedisSmq.Queue
