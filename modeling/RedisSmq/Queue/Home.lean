import RedisSmq.Queue.Hands
import RedisSmq.Queue.Modes

/-!
# The queue of a message

Producers, workers and manual re-queues compute the keys of a message from the queue that it names; consumers compute
theirs from their own configuration, and never look at the queue of a message. The two agree: a message that lies in a list
of a queue, in the hash of its priority queue or in the processing list of one of its consumers names this queue, in every
run, and no consumer is handed a message of another queue (`home_reachable`).
-/

namespace RedisSmq

open RedisKeys Db

/-- The key that a slot is under. -/
def Db.Slot.key : Slot → RedisKey
  | .list key => key
  | .field key _ => key

namespace Queue

open Transition

/-- The types of the keys that belong to one queue and hold messages. -/
def queueTypes : List ERedisKey :=
  [.keyQueue, .keyPendingMessagesWithPriority, .keyQueueProcessing, .keyQueueAcknowledgedMessages, .keyQueueDL]

/-- The key is one of the queue. -/
def KeyOf (q : TMessageQueue) (key : RedisKey) : Prop := key.ns = q.ns ∧ key.segments.head? = some q.name

/-- Under a key of a queue there are messages of this queue. -/
def AtHome (slot : Slot) (m : Message) : Prop :=
  slot.key.type ∈ queueTypes → ∃ q, m.queue = some q ∧ KeyOf q slot.key

/-- Messages lie under keys of their queue, and consumers have messages of their queue. -/
structure Home (config : String → ConsumerConfig) (s : State) : Prop where
  held : Forall AtHome s.db
  holding : ∀ id m, s.consumers id = .holding m → m.queue = some (config id).queue

section

variable {cron : CronParser} {lt : Text → Text → Bool} {config : String → ConsumerConfig}
variable {s s' : State} {a : Action} {id : String} {m m' : Message} {q q' : TMessageQueue} {slot : Slot} {key : RedisKey}

/-- A key belongs to one queue. -/
theorem KeyOf.unique (h : KeyOf q key) (h' : KeyOf q' key) : q = q' := by
  obtain ⟨hns, hname⟩ := h
  obtain ⟨hns', hname'⟩ := h'
  cases q
  cases q'
  cases hns.symm.trans hns'
  cases hname.symm.trans hname'
  rfl

/-- A message that is moved from one key of a queue to another one stays at home. -/
theorem AtHome.move (h : AtHome slot m) (htype : slot.key.type ∈ queueTypes) (hns : key.ns = slot.key.ns)
    (hname : key.segments.head? = slot.key.segments.head?) : ∃ q, m.queue = some q ∧ KeyOf q key := by
  obtain ⟨q, hq, h1, h2⟩ := h htype
  exact ⟨q, hq, hns.trans h1, hname.trans h2⟩

/-- A message is enqueued under a key of its queue. -/
theorem atHome_enqueueSlot {withPriority : Bool} (hq : m.queue = some q) : AtHome (enqueueSlot q m' withPriority) m := by
  refine fun _ => ⟨q, hq, ?_⟩
  cases withPriority <;> exact ⟨rfl, rfl⟩

/-- Global keys belong to no queue. -/
theorem atHome_scheduledSlot : AtHome (scheduledSlot m') m := fun h => by
  simp [Slot.key, queueTypes] at h

theorem stepPuts_atHome (hi : Forall AtHome s.db) (h : StepPuts cron config s a slot m) : AtHome slot m := by
  cases h with
  | produceScheduled | delayed | rescheduled => exact atHome_scheduledSlot
  | produceEnqueued => exact atHome_enqueueSlot (sameMessage_enqueued ..).queue
  | enqueueScheduled _ hq => exact atHome_enqueueSlot ((sameMessage_enqueued ..).queue.trans hq)
  | requested _ hsent => exact atHome_enqueueSlot ((sameMessage_enqueued ..).queue.trans hsent.queue)
  | @requeued b i q _ _ _ hq => exact fun _ => ⟨q, hq, rfl, rfl⟩
  | @dequeuePriority id t m _ hm =>
    exact fun _ => (hi (.field _ t) m hm).move (by simp [Slot.key, queueTypes]) rfl rfl
  | dequeue _ hm =>
    exact fun _ => (hi (.list _) _ (List.mem_of_getLast? hm)).move (by simp [Slot.key, queueTypes]) rfl rfl
  | acknowledge hm =>
    exact fun _ => (hi (.list _) _ (List.mem_of_head? hm)).move
      (by simp [Slot.key, queueTypes, ConsumerConfig.keyQueueProcessing]) rfl rfl
  | @unacknowledge id cause now m' m _ hm =>
    cases hd : Broker.destination m' cause now <;> rw [hd] at hm
    · exact fun _ => (hi (.list _) _ (List.mem_of_head? hm)).move
        (by simp [Slot.key, queueTypes, ConsumerConfig.keyQueueProcessing]) rfl rfl
    · exact fun h => by simp [Slot.key, queueTypes, Broker.Destination.key] at h
    · exact fun h => by simp [Slot.key, queueTypes, Broker.Destination.key] at h

/-- **Messages stay in their queue**: whatever the modes, the interleaving and the requests of the message manager are, a
message under a key of a queue names this queue, and a consumer is handed messages of its own queue only. -/
theorem home_reachable {P : State → Action → Prop} (h : Reach (system cron lt config) P s) : Home config s := by
  have hheld : Forall AtHome s.db := h.invariant (I := fun s => Forall AtHome s.db) Forall.empty
    fun _ _ _ hi _ hs => step_forall hs hi fun _ _ => stepPuts_atHome hi
  refine ⟨hheld, fun id m hc => ?_⟩
  have hmem : m ∈ s.db.lists ((config id).keyQueueProcessing id) := by
    rw [hands_reachable h id, hc]
    exact List.mem_singleton_self m
  obtain ⟨q, hq, hkey⟩ := hheld (.list _) m hmem (by simp [Slot.key, queueTypes, ConsumerConfig.keyQueueProcessing])
  have hown : KeyOf (config id).queue ((config id).keyQueueProcessing id) := ⟨rfl, rfl⟩
  rw [hq, hkey.unique hown]

/-- Two queues, each with a consumer; a message of each is taken, one is delayed, the other one acknowledged. -/
theorem home_twoModes : ∃ s, run (system minuteParser (fun _ _ => false) twoModes) (fun _ _ => True) init
    [.produce ⟨"q", "ns"⟩ false (Message.new Message.defaultOpts "m" 0) 1,
      .produce ⟨"r", "ns"⟩ true (Message.new Message.defaultOpts "n" 0) 2, .dequeue "c", .dequeue "p",
      .unacknowledge "c" .timeout 3, .acknowledge "p"] = some s ∧ Home twoModes s :=
  exists_run (by decide) fun _ h => home_reachable h

end

end Queue

end RedisSmq
