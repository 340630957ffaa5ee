import RedisSmq.Queue.PriorityStore
import RedisSmq.Queue.Stores

/-!
# The order of a priority queue

The order of a priority queue lives in the scores of its sorted set, the priority of a message in its payload. Both are
written by each enqueue, so in the runs in which no text of a message is added by the re-queue worker every score is the
priority of the stored payload (`Ranked`), and each consumer gets a message of the highest priority that is pending
(`priorityOrder_reachable`).
-/

namespace RedisSmq.Queue

open RedisKeys Db Transition

/-- Every score is the value of the priority of the payload, and payloads lie under their identifiers. -/
def Ranked (x : TwoKeys) : Prop := ∀ t n, x.members.score t = some n →
  ∃ m p, x.payloads t = some m ∧ t = .id m.uuid ∧ m.priority = some p ∧ n = p.value

/-- Of all pending messages of the queue, the message is one of the highest priority. -/
def Foremost (db : Db) (q : TMessageQueue) (m : Message) : Prop :=
  (∃ t ∈ (db.zsets q.keys.keyQueuePriority).members, db.hashes q.keys.keyPendingMessagesWithPriority t = some m) ∧
    ∀ t ∈ (db.zsets q.keys.keyQueuePriority).members, ∀ m',
      db.hashes q.keys.keyPendingMessagesWithPriority t = some m' →
      (m.priority.getD .normal).value ≤ (m'.priority.getD .normal).value

/-- What the priority queue `q` promises in a state: scores are priorities, a message that is produced is stored with its
priority, `NORMAL` when it has none, and a dequeue returns a foremost message. -/
structure PriorityOrder (cron : CronParser) (lt : Text → Text → Bool) (config : String → ConsumerConfig)
    (q : TMessageQueue) (s : State) : Prop where
  scores : ∀ t n, (s.db.zsets q.keys.keyQueuePriority).score t = some n →
    ∃ m p, s.db.hashes q.keys.keyPendingMessagesWithPriority t = some m ∧ m.priority = some p ∧ n = p.value
  produced : ∀ m now s', (sent q m).isSchedulable = false → step cron lt config s (.produce q true m now) = some s' →
    ∃ m', s'.db.hashes q.keys.keyPendingMessagesWithPriority (.id m.uuid) = some m' ∧
      m'.priority = some (m.priority.getD .normal)
  dequeued : ∀ id s', (config id).queue = q → (config id).priorityQueue = true →
    step cron lt config s (.dequeue id) = some s' → ∃ m, s'.consumers id = .holding m ∧ Foremost s.db q m

section

variable {cron : CronParser} {lt : Text → Text → Bool} {config : String → ConsumerConfig}
variable {s s' : State} {a : Action} {q : TMessageQueue} {m : Message} {x : TwoKeys} {now : ℕ}

/-- Every operation keeps the ranks, when it adds no member alone. -/
theorem Ranked.apply {op : StoreOp} (h : Ranked x) (hop : PriorityOp q s a op) (hadd : ∀ n t, op ≠ .add n t) :
    Ranked (op.apply lt x) := by
  intro t n hn
  cases hop with
  | @enqueue _ m now =>
    have huuid : (EnqueueHandler.enqueued m true now).uuid = m.uuid := (sameMessage_enqueued m true now).uuid
    simp only [StoreOp.apply] at hn ⊢
    by_cases ht : t = .id (EnqueueHandler.enqueued m true now).uuid
    · subst ht
      rw [SortedSet.score_zadd_self] at hn
      cases hn
      exact ⟨_, _, Function.update_self .., rfl, rfl, rfl⟩
    · rw [SortedSet.score_zadd_of_ne lt ht] at hn
      rw [Function.update_of_ne ht]
      exact h t n hn
  | @remove _ t' =>
    simp only [StoreOp.apply] at hn ⊢
    by_cases ht : t = t'
    · subst ht
      have hnone : (x.members.zrem t).score t = none :=
        SortedSet.score_eq_none.mpr fun hmem => (SortedSet.mem_zrem.mp hmem).1 rfl
      rw [hnone] at hn
      cases hn
    · rw [SortedSet.score_zrem_of_ne ht] at hn
      rw [Function.update_of_ne ht]
      exact h t n hn
  | requeue => exact absurd rfl (hadd _ _)
  | purge => cases hn

/-- Every step that does not re-queue a message of the queue in priority mode keeps the ranks. -/
theorem Ranked.step (h : Ranked (priorityKeys q s.db)) (hp : requeuesNot q s a = true)
    (hs : Queue.step cron lt config s a = some s') : Ranked (priorityKeys q s'.db) := by
  refine (step_priorityOps hs).invariant h fun x op hop hx => hx.apply hop ?_
  rintro n t rfl
  cases hop with
  | requeue hb hmode hi hq =>
    simp only [requeuesNot, hb, hmode, Bool.not_true, Bool.false_or, List.all_eq_true] at hp
    simpa [hq] using hp _ hi

/-- A consumer gets a foremost message. -/
theorem Ranked.dequeue {id : String} (h : Ranked (priorityKeys q s.db)) (hq : (config id).queue = q)
    (hmode : (config id).priorityQueue = true) (hs : Queue.step cron lt config s (.dequeue id) = some s') :
    ∃ m, s'.consumers id = .holding m ∧ Foremost s.db q m := by
  subst hq
  cases hfirst : (s.db.zsets (config id).keys.keyQueuePriority).first with
  | none =>
    have hnil : (s.db.zpophgetrpush (config id).keys.keyQueuePriority (config id).keys.keyPendingMessagesWithPriority
        ((config id).keyQueueProcessing id)).2 = .nil := by rw [Db.zpophgetrpush, hfirst]
    simp only [Queue.step, dequeueMessage, hmode, if_true, hnil] at hs
    split at hs <;> cases hs
  | some t =>
    have hmem := SortedSet.mem_of_first hfirst
    obtain ⟨n, hn⟩ := SortedSet.exists_score.mpr hmem
    obtain ⟨m, p, hm, _, hp, rfl⟩ := h t n hn
    obtain ⟨db', hpop, _⟩ := zpophgetrpush_some ((config id).keyQueueProcessing id) hfirst hm
    simp only [Queue.step, dequeueMessage, hmode, if_true] at hs
    split at hs
    · rw [show s.db.zpophgetrpush (getKeys (config id).ns (config id).queueName none).keyQueuePriority
        (getKeys (config id).ns (config id).queueName none).keyPendingMessagesWithPriority
        ((config id).keyQueueProcessing id) = (db', .message m) from hpop] at hs
      cases hs
      refine ⟨m, Function.update_self .., ⟨t, hmem, hm⟩, fun t' ht' m' hm' => ?_⟩
      obtain ⟨n', hn'⟩ := SortedSet.exists_score.mpr ht'
      obtain ⟨m'', p', hm'', _, hp', rfl⟩ := h t' n' hn'
      have hsame : m' = m'' := Option.some.inj (hm'.symm.trans hm'')
      rw [hsame, hp, hp']
      exact SortedSet.score_first_le hfirst hn hn'
    · cases hs

/-- A message that is produced waits with its priority. -/
theorem produce_priority (hs : step cron lt config s (.produce q true m now) = some s')
    (hschedulable : (sent q m).isSchedulable = false) :
    ∃ m', s'.db.hashes q.keys.keyPendingMessagesWithPriority (.id m.uuid) = some m' ∧
      m'.priority = some (m.priority.getD .normal) := by
  rw [step_produce hs]
  refine ⟨EnqueueHandler.enqueued (sent q m) true now, ?_, rfl⟩
  simp only [produceCmds, hschedulable, Bool.false_eq_true, if_false]
  simp [EnqueueHandler.enqueueCmds, Db.exec, Message.setQueue, Message.reset]

/-- **Priority order** in every run in which the re-queue worker adds no message to the priority queue. -/
theorem priorityOrder_reachable (h : Reach (system cron lt config) (fun s a => requeuesNot q s a = true) s) :
    PriorityOrder cron lt config q s := by
  have hranked : Ranked (priorityKeys q s.db) :=
    h.invariant (I := fun s => Ranked (priorityKeys q s.db)) (fun t n hn => by cases hn)
      (fun _ _ _ hi hp hs => hi.step hp hs)
  refine ⟨fun t n hn => ?_, fun m now s' hm hs => produce_priority hs hm, fun id s' hq hmode hs =>
    hranked.dequeue hq hmode hs⟩
  obtain ⟨m, p, hm, _, hp⟩ := hranked t n hn
  exact ⟨m, p, hm, hp⟩

end

/-- Messages of three priorities, one of them re-queued with another priority, and consumers that take them. -/
def orderedRun : List Action :=
  let m := Message.new Message.defaultOpts "m" 0
  [.produce ⟨"q", "ns"⟩ true m 1, .produce ⟨"q", "ns"⟩ true { m with uuid := "high", priority := some .high } 2,
    .produce ⟨"q", "ns"⟩ true { m with uuid := "low", priority := some .low } 3, .dequeue "c", .acknowledge "c",
    .requeueMessageRead .acknowledged ⟨"q", "ns"⟩ 0 "high" true (some 7), .requestExec 0 4, .dequeue "c"]

theorem priorityOrder_orderedRun : ∃ s, run (system minuteParser (fun _ _ => false) priorityConsumer)
    (fun s a => requeuesNot ⟨"q", "ns"⟩ s a = true) init orderedRun = some s ∧
    PriorityOrder minuteParser (fun _ _ => false) priorityConsumer ⟨"q", "ns"⟩ s :=
  exists_run (by decide) (fun _ => priorityOrder_reachable)

example : (run (system minuteParser (fun _ _ => false) priorityConsumer) (fun _ _ => True) init orderedRun).map
    (fun s => ((s.db.zsets (TMessageQueue.mk "q" "ns").keys.keyQueuePriority).entries.map Prod.snd,
      (s.db.lists ((priorityConsumer "c").keyQueueProcessing "c")).map (·.uuid))) = some ([5, 7], ["m"]) := by decide

end RedisSmq.Queue
