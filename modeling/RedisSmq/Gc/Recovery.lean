import Mathlib.Data.List.Perm.Basic
import RedisSmq.Gc.Worker

/-!
# What the garbage collector recovers

A consumer that died leaves its processing list behind. `Recovers` says what recovering it means: every message goes to
the list that its own fields choose, and nothing is left when the processing list is deleted.

- the worker moves one message (`collect_length`), the first one into the dead-letter queue, or the last one into the
  list that the first one chooses (`collect_deadLetter`, `collect_rpoplpush`);
- so it recovers exactly the lists of at most one message (`recovers_iff`).
-/

namespace RedisSmq.GCWorker

open RedisKeys Db

variable {lt : Text → Text → Bool} {w : GCWorker} {ns queueName id : String} {now : ℕ} {db : Db} {m : Message}
variable {l : List Message} {k : RedisKey}

/-- The messages of a list whose own fields choose the list `k`. -/
def destined (w : GCWorker) (queueName : String) (now : ℕ) (l : List Message) (k : RedisKey) : List Message :=
  l.filter (fun m => (Broker.destination m .recovery now).key w.ns queueName = k)

/-- The worker recovers a processing list: the three lists gain the messages destined for them, and the list that is
deleted is empty. -/
structure Recovers (lt : Text → Text → Bool) (w : GCWorker) (queueName : String) (processingQueue : RedisKey) (now : ℕ)
    (db : Db) : Prop where
  moved : ∀ k ∈ [(getKeys w.ns queueName none).keyQueueDL, getGlobalKeys.keyQueueDelay, getGlobalKeys.keyQueueRequeue],
    ((w.collect lt queueName processingQueue now db).lists k).Perm
      (destined w queueName now (db.lists processingQueue) k ++ db.lists k)
  emptied : (w.collect lt queueName processingQueue now db).lists processingQueue = []

/-- The destination of a message is none of the processing lists. -/
theorem destination_key_ne {d : Broker.Destination} :
    d.key w.ns queueName ≠ (getInstanceKeys ns queueName id).keyQueueProcessing := by
  cases d <;> simp [Broker.Destination.key, RedisKey.ext_iff]

/-- The first message goes into the dead-letter queue when it has to. -/
theorem collect_deadLetter {cause : EMessageDeadLetterCause}
    (hl : db.lists (getInstanceKeys ns queueName id).keyQueueProcessing = m :: l)
    (hd : Broker.destination m .recovery now = .deadLetter cause) :
    w.collect lt queueName (getInstanceKeys ns queueName id).keyQueueProcessing now db =
      (db.setList (getInstanceKeys ns queueName id).keyQueueProcessing l).setList
        (getKeys w.ns queueName none).keyQueueDL (db.lists (getKeys w.ns queueName none).keyQueueDL ++ [m]) := by
  have hne : (getKeys w.ns queueName none).keyQueueDL ≠ (getInstanceKeys ns queueName id).keyQueueProcessing := by
    simp [RedisKey.ext_iff]
  simp only [collect, hl, List.head?_cons, retryCmd_eq, hd, Broker.Destination.cmd,
    ProcessingHandler.deadLetterMessage, exec, Db.lpoprpush, setList_lists, Function.update_of_ne hne]

/-- Otherwise the last message goes where the first one is to go. -/
theorem collect_rpoplpush (hl : db.lists (getInstanceKeys ns queueName id).keyQueueProcessing = m :: l)
    (hd : ∀ cause, Broker.destination m .recovery now ≠ .deadLetter cause) :
    w.collect lt queueName (getInstanceKeys ns queueName id).keyQueueProcessing now db =
      (db.setList (getInstanceKeys ns queueName id).keyQueueProcessing (m :: l).dropLast).setList
        ((Broker.destination m .recovery now).key w.ns queueName)
        ((m :: l).getLast (by simp) :: db.lists ((Broker.destination m .recovery now).key w.ns queueName)) := by
  have hcmd : (Broker.destination m .recovery now).cmd w.ns queueName
      (getInstanceKeys ns queueName id).keyQueueProcessing =
        .rpoplpush (getInstanceKeys ns queueName id).keyQueueProcessing
          ((Broker.destination m .recovery now).key w.ns queueName) := by
    cases h : Broker.destination m .recovery now with
    | deadLetter cause => exact absurd h (hd cause)
    | delay => rfl
    | requeue => rfl
  simp only [collect, hl, List.head?_cons, retryCmd_eq, hcmd, exec, Db.rpoplpush,
    List.getLast?_eq_some_getLast (List.cons_ne_nil m l), setList_lists, Function.update_of_ne destination_key_ne]

/-- The worker takes one message out of the processing list. -/
theorem collect_length : ((w.collect lt queueName (getInstanceKeys ns queueName id).keyQueueProcessing now db).lists
    (getInstanceKeys ns queueName id).keyQueueProcessing).length =
      (db.lists (getInstanceKeys ns queueName id).keyQueueProcessing).length - 1 := by
  cases hl : db.lists (getInstanceKeys ns queueName id).keyQueueProcessing with
  | nil => simp [collect, hl]
  | cons m l =>
    cases hd : Broker.destination m .recovery now with
    | deadLetter cause =>
      rw [collect_deadLetter hl hd]
      simp [RedisKey.ext_iff]
    | delay | requeue =>
      rw [collect_rpoplpush hl (by simp [hd])]
      simp [Function.update_of_ne destination_key_ne.symm]

/-- The only message of a list goes to its own destination. -/
theorem collect_singleton (hl : db.lists (getInstanceKeys ns queueName id).keyQueueProcessing = [m]) :
    ∃ l, l.Perm (m :: db.lists ((Broker.destination m .recovery now).key w.ns queueName)) ∧
      w.collect lt queueName (getInstanceKeys ns queueName id).keyQueueProcessing now db =
        (db.setList (getInstanceKeys ns queueName id).keyQueueProcessing []).setList
          ((Broker.destination m .recovery now).key w.ns queueName) l := by
  cases hd : Broker.destination m .recovery now with
  | deadLetter cause => exact ⟨_, List.perm_append_singleton _ _, collect_deadLetter hl hd⟩
  | delay | requeue =>
    refine ⟨_, .refl _, ?_⟩
    rw [collect_rpoplpush hl (by simp [hd]), hd]
    rfl

/-- The three lists are not processing lists. -/
theorem recovered_ne
    (hk : k ∈ [(getKeys w.ns queueName none).keyQueueDL, getGlobalKeys.keyQueueDelay, getGlobalKeys.keyQueueRequeue]) :
    k ≠ (getInstanceKeys ns queueName id).keyQueueProcessing := by
  simp only [List.mem_cons, List.not_mem_nil, or_false] at hk
  rcases hk with rfl | rfl | rfl <;> simp [RedisKey.ext_iff]

/-- **Recovery is complete exactly for lists of at most one message.** -/
theorem recovers_iff (lt : Text → Text → Bool) (w : GCWorker) (ns queueName id : String) (now : ℕ) (db : Db) :
    Recovers lt w queueName (getInstanceKeys ns queueName id).keyQueueProcessing now db ↔
      (db.lists (getInstanceKeys ns queueName id).keyQueueProcessing).length ≤ 1 := by
  constructor
  · intro h
    have hlength : _ = _ := @collect_length lt w ns queueName id now db
    rw [h.emptied, List.length_nil] at hlength
    omega
  · intro h
    match hl : db.lists (getInstanceKeys ns queueName id).keyQueueProcessing with
    | [] =>
      have hsame : w.collect lt queueName (getInstanceKeys ns queueName id).keyQueueProcessing now db = db := by
        simp only [collect, hl, List.head?_nil]
      exact ⟨fun k _ => by rw [hsame, hl]; exact .refl _, by rw [hsame, hl]⟩
    | [m] =>
      obtain ⟨l, hperm, hcollect⟩ := @collect_singleton lt w ns queueName id now db m hl
      constructor
      · intro k hk
        rw [hcollect, hl, setList_lists]
        by_cases hkd : k = (Broker.destination m .recovery now).key w.ns queueName
        · subst hkd
          simpa [destined] using hperm
        · rw [Function.update_of_ne hkd, setList_lists, Function.update_of_ne (recovered_ne hk)]
          simp [destined, Ne.symm hkd]
      · rw [hcollect]
        simp [Function.update_of_ne destination_key_ne.symm]
    | m :: m' :: l => rw [hl] at h; simp at h

/-! ## A message is lost -/

/-- A list that a consumer left which was started twice: a message to retry, and a periodic one. -/
def twoLeft : Db :=
  Db.empty.setList (getInstanceKeys "ns" "q" "c").keyQueueProcessing
    [Message.new Message.defaultOpts "m1" 0, { Message.new Message.defaultOpts "m2" 0 with scheduledRepeat := 2 }]

/-- The worker delays the periodic message, which is to be dead-lettered, and deletes the one to retry. -/
theorem not_recovers_twoLeft :
    ¬Recovers (fun _ _ => false) ⟨"ns", "gc"⟩ "q" (getInstanceKeys "ns" "q" "c").keyQueueProcessing 1 twoLeft ∧
    (GCWorker.handleOfflineConsumer (fun _ _ => false) ⟨"ns", "gc"⟩ "q"
      (getInstanceKeys "ns" "q" "c").keyQueueProcessing 1 twoLeft).lists getGlobalKeys.keyQueueDelay =
        [{ Message.new Message.defaultOpts "m2" 0 with scheduledRepeat := 2 }] ∧
    ∀ k ∈ [(getInstanceKeys "ns" "q" "c").keyQueueProcessing, (getKeys "ns" "q" none).keyQueueDL,
        getGlobalKeys.keyQueueDelay, getGlobalKeys.keyQueueRequeue],
      Message.new Message.defaultOpts "m1" 0 ∉ (GCWorker.handleOfflineConsumer (fun _ _ => false) ⟨"ns", "gc"⟩ "q"
        (getInstanceKeys "ns" "q" "c").keyQueueProcessing 1 twoLeft).lists k := by
  refine ⟨fun h => ?_, by decide, by decide⟩
  have hlength : ((GCWorker.collect (fun _ _ => false) ⟨"ns", "gc"⟩ "q"
    (getInstanceKeys "ns" "q" "c").keyQueueProcessing 1 twoLeft).lists
      (getInstanceKeys "ns" "q" "c").keyQueueProcessing).length = 1 := by decide
  rw [h.emptied] at hlength
  cases hlength

end RedisSmq.GCWorker
