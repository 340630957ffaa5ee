import RedisSmq.Queue.Stores

/-!
# Payloads without a member

A payload is reached through the member of the sorted set only. Every request that takes a member away deletes its payload
as well, but a purge deletes the sorted set alone: the payloads stay in the hash for ever, and no reader and no worker
ever sees them (`not_noOrphans_purged`). In the runs in which a purge finds its sorted set empty there are no such
payloads (`noOrphans_reachable`).
-/

namespace RedisSmq.Queue

open RedisKeys Db Transition

/-- Every field of the hash is a member of the sorted set. -/
def Covered (x : TwoKeys) : Prop := ∀ t, (x.payloads t).isSome → t ∈ x.members.members

/-- No payload of a priority queue or of the scheduled store lacks its member. -/
structure NoOrphans (db : Db) : Prop where
  priority : ∀ (q : TMessageQueue) t, (db.hashes q.keys.keyPendingMessagesWithPriority t).isSome →
    t ∈ (db.zsets q.keys.keyQueuePriority).members
  scheduled : ∀ t, (db.hashes getGlobalKeys.keyScheduledMessages t).isSome →
    t ∈ (db.zsets getGlobalKeys.keyQueueScheduled).members

/-- A purge of a store finds its sorted set empty. -/
def purgesEmpty (s : State) : Action → Bool
  | .purgePriorityQueue q => (s.db.zsets q.keys.keyQueuePriority).members.isEmpty
  | .purgeScheduledMessagesQueue => (s.db.zsets getGlobalKeys.keyQueueScheduled).members.isEmpty
  | _ => true

section

variable {cron : CronParser} {lt : Text → Text → Bool} {config : String → ConsumerConfig}
variable {s s' : State} {a : Action} {q : TMessageQueue} {x : TwoKeys}

/-- Every operation keeps the payloads covered, when the sorted set is not deleted. -/
theorem Covered.apply {op : StoreOp} (h : Covered x) (hop : op ≠ .clear) : Covered (op.apply lt x) := by
  intro t ht
  cases op with
  | put n m =>
    simp only [StoreOp.apply] at ht ⊢
    rw [SortedSet.mem_zadd]
    by_cases heq : t = .id m.uuid
    · exact .inl heq
    · rw [Function.update_of_ne heq] at ht
      exact .inr (h t ht)
  | add n t' => exact SortedSet.mem_zadd.mpr (.inr (h t ht))
  | remove t' =>
    simp only [StoreOp.apply] at ht ⊢
    rw [SortedSet.mem_zrem]
    by_cases heq : t = t'
    · rw [heq, Function.update_self] at ht
      cases ht
    · rw [Function.update_of_ne heq] at ht
      exact ⟨heq, h t ht⟩
  | clear => exact absurd rfl hop

/-- Deleting an empty sorted set leaves no payload behind, for there was none. -/
theorem Covered.clear (h : Covered x) (he : x.members.members = []) : Covered (StoreOp.clear.apply lt x) := by
  intro t ht
  have hmem := h t ht
  rw [he] at hmem
  cases hmem

/-- Every step that does not purge a priority queue with members keeps its payloads covered. -/
theorem Covered.priority_step (h : Covered (priorityKeys q s.db)) (hp : purgesEmpty s a = true)
    (hs : step cron lt config s a = some s') : Covered (priorityKeys q s'.db) := by
  by_cases ha : a = .purgePriorityQueue q
  · subst ha
    cases hs
    rw [QueueManager.purgePriorityQueue, priorityKeys, twoKeys_clear (by simp [RedisKey.ext_iff])]
    exact h.clear (List.isEmpty_iff.mp hp)
  · refine (step_priorityOps hs).invariant h fun x op hop hx => hx.apply ?_
    rintro rfl
    cases hop
    exact ha rfl

/-- Every step that does not purge a scheduled store with members keeps its payloads covered. -/
theorem Covered.scheduled_step (h : Covered (scheduledKeys s.db)) (hp : purgesEmpty s a = true)
    (hs : step cron lt config s a = some s') : Covered (scheduledKeys s'.db) := by
  by_cases ha : a = .purgeScheduledMessagesQueue
  · subst ha
    cases hs
    rw [QueueManager.purgeScheduledMessagesQueue, scheduledKeys, twoKeys_clear (by simp [RedisKey.ext_iff])]
    exact h.clear (List.isEmpty_iff.mp hp)
  · refine (step_scheduledOps hs).invariant h fun x op hop hx => hx.apply ?_
    rintro rfl
    cases hop
    exact ha rfl

/-- **No orphan payloads** in every run in which a purge finds its sorted set empty. -/
theorem noOrphans_reachable (h : Reach (system cron lt config) (fun s a => purgesEmpty s a = true) s) :
    NoOrphans s.db := by
  have hempty : ∀ {zk hk : RedisKey}, Covered (twoKeys zk hk Db.empty) := fun t ht => by cases ht
  have hinv : (∀ q, Covered (priorityKeys q s.db)) ∧ Covered (scheduledKeys s.db) :=
    h.invariant (I := fun s => (∀ q, Covered (priorityKeys q s.db)) ∧ Covered (scheduledKeys s.db))
      ⟨fun _ => hempty, hempty⟩
      (fun _ _ _ hi hp hs => ⟨fun q => (hi.1 q).priority_step hp hs, hi.2.scheduled_step hp hs⟩)
  exact ⟨fun q => hinv.1 q, hinv.2⟩

end

/-! ## A purge -/

/-- Consumers of the priority queue `q`. -/
def storeConsumer : String → ConsumerConfig := fun _ => ⟨"ns", "q", true⟩

def stored : Message := Message.new Message.defaultOpts "m" 0

/-- Messages are enqueued, scheduled, dequeued and deleted, and then both stores are purged. -/
def emptiedRun : List Action :=
  [.produce ⟨"q", "ns"⟩ true stored 1, .dequeue "c", .acknowledge "c",
    .produce ⟨"q", "ns"⟩ true { stored with uuid := "later", scheduledDelay := some .tenSeconds } 2,
    .deleteScheduled "later", .purgePriorityQueue ⟨"q", "ns"⟩, .purgeScheduledMessagesQueue]

theorem noOrphans_emptiedRun : ∃ s, run (system minuteParser (fun _ _ => false) storeConsumer)
    (fun s a => purgesEmpty s a = true) init emptiedRun = some s ∧ NoOrphans s.db :=
  exists_run (by decide) (fun _ => noOrphans_reachable)

/-- A message is pending when its queue is purged: its payload stays. -/
theorem not_noOrphans_purged : ∃ s, Reach (system minuteParser (fun _ _ => false) storeConsumer) (fun _ _ => True) s ∧
    ¬NoOrphans s.db := by
  have hrun : (run (system minuteParser (fun _ _ => false) storeConsumer) (fun _ _ => True) init
      [.produce ⟨"q", "ns"⟩ true stored 1, .purgePriorityQueue ⟨"q", "ns"⟩]).map (fun s =>
        ((s.db.hashes (TMessageQueue.mk "q" "ns").keys.keyPendingMessagesWithPriority (.id "m")).isSome,
          (s.db.zsets (TMessageQueue.mk "q" "ns").keys.keyQueuePriority).members)) = some (true, []) := by
    decide
  obtain ⟨s, hreach, hs⟩ := exists_reach_of_run hrun
  obtain ⟨hpayload, hmembers⟩ := Prod.mk.inj hs
  refine ⟨s, hreach, fun h => ?_⟩
  have hmem := h.priority _ _ hpayload
  rw [hmembers] at hmem
  cases hmem

end RedisSmq.Queue
