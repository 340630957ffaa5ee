import RedisSmq.Lib.Objects

/-!
# The statistics

The data of `StatsWorker`: queues by namespace and name, and under each its producers and consumers. Records are added
when something is known of them, and then changed.

`if (!this.data.queues[ns])` also finds what a plain object inherits: under the names of `objectPrototype` no record is
ever added, and what is assigned there goes to an object that is shared by all and not part of the data.

- a record is changed by `withQueue`, which adds it first; `queue?_withQueue` is what all readers see of it;
- a sum over the queues changes by what is put in place of the record (`listed_withQueue`), and depends only on the
  records (`listed_congr`).
-/

namespace RedisSmq.Stats

/-- The names of the functions that every object inherits. -/
def inheritedFunctions : List String :=
  ["constructor", "__defineGetter__", "__defineSetter__", "hasOwnProperty", "__lookupGetter__", "__lookupSetter__",
    "isPrototypeOf", "propertyIsEnumerable", "toString", "valueOf", "toLocaleString"]

/-- The names of the properties of `Object.prototype`; under `__proto__` stands `Object.prototype` itself. -/
def objectPrototype : List String := "__proto__" :: inheritedFunctions

/-- `TAggregatedStatsQueueProducer`; `rates` has this one field. -/
structure Producer where
  id : String
  ns : String
  queueName : String
  input : ℕ
deriving DecidableEq

structure ConsumerRates where
  processing : ℕ
  acknowledged : ℕ
  unacknowledged : ℕ
deriving DecidableEq

/-- `TAggregatedStatsQueueConsumer`; nothing is read of the resources. -/
structure Consumer (ρ : Type) where
  id : String
  ns : String
  queueName : String
  resources : Option ρ
  rates : Option ConsumerRates
deriving DecidableEq

/-- `TAggregatedStatsQueue`, with producers and consumers as `addQueueIfNotExists` makes it. -/
structure Queue (ρ : Type) where
  queueName : String
  ns : String
  deadLetteredMessages : ℕ
  acknowledgedMessages : ℕ
  pendingMessages : ℕ
  pendingMessagesWithPriority : ℕ
  consumers : Objects String (Consumer ρ)
  producers : Objects String Producer
deriving DecidableEq

abbrev Queues (ρ : Type) : Type := Objects String (Objects String (Queue ρ))

structure Rates where
  processing : ℕ
  acknowledged : ℕ
  unacknowledged : ℕ
  input : ℕ
deriving DecidableEq

/-- `TAggregatedStats`. -/
structure AggregatedStats (ρ : Type) where
  scheduledMessages : ℕ
  rates : Rates
  queues : Queues ρ
deriving DecidableEq

variable {ρ : Type}

/-! ## Adding and changing -/

/-- The record that is added. -/
def Queue.new (ρ : Type) (ns queueName : String) : Queue ρ := ⟨queueName, ns, 0, 0, 0, 0, ∅, ∅⟩

def addQueueIfNotExists (queues : Queues ρ) (ns queueName : String) : Queues ρ :=
  (queues.addIfNotExists objectPrototype ns ∅).assign ns fun byName =>
    byName.addIfNotExists objectPrototype queueName (Queue.new ρ ns queueName)

/-- Assignments to `this.data.queues[ns][queueName]`. -/
def assignQueue (queues : Queues ρ) (ns queueName : String) (change : Queue ρ → Queue ρ) : Queues ρ :=
  queues.assign ns fun byName => byName.assign queueName change

/-- Assignments to the record, added if there was none. -/
def withQueue (queues : Queues ρ) (ns queueName : String) (change : Queue ρ → Queue ρ) : Queues ρ :=
  assignQueue (addQueueIfNotExists queues ns queueName) ns queueName change

def Consumer.new (ρ : Type) (ns queueName consumerId : String) : Consumer ρ := ⟨consumerId, ns, queueName, none, none⟩

def addConsumerIfNotExists (queues : Queues ρ) (ns queueName consumerId : String) : Queues ρ :=
  assignQueue queues ns queueName fun queue =>
    { queue with
      consumers := queue.consumers.addIfNotExists objectPrototype consumerId (Consumer.new ρ ns queueName consumerId) }

/-- Assignments to the consumer that `addConsumerIfNotExists` returns. -/
def assignConsumer (queues : Queues ρ) (ns queueName consumerId : String) (change : Consumer ρ → Consumer ρ) :
    Queues ρ :=
  assignQueue queues ns queueName fun queue => { queue with consumers := queue.consumers.assign consumerId change }

def Producer.new (ns queueName producerId : String) : Producer := ⟨producerId, ns, queueName, 0⟩

def addProducerIfNotExists (queues : Queues ρ) (ns queueName producerId : String) : Queues ρ :=
  assignQueue queues ns queueName fun queue =>
    { queue with
      producers := queue.producers.addIfNotExists objectPrototype producerId (Producer.new ns queueName producerId) }

/-- Assignments to `producers[producerId]`. -/
def assignProducer (queues : Queues ρ) (ns queueName producerId : String) (change : Producer → Producer) : Queues ρ :=
  assignQueue queues ns queueName fun queue => { queue with producers := queue.producers.assign producerId change }

/-- Assignments to the consumer, both it and its queue added if they were not there. -/
def withConsumer (queues : Queues ρ) (ns queueName id : String) (change : Consumer ρ → Consumer ρ) : Queues ρ :=
  withQueue queues ns queueName fun queue =>
    { queue with consumers := queue.consumers.touch objectPrototype id (Consumer.new ρ ns queueName id) change }

/-- Assignments to the producer, both it and its queue added if they were not there. -/
def withProducer (queues : Queues ρ) (ns queueName id : String) (change : Producer → Producer) : Queues ρ :=
  withQueue queues ns queueName fun queue =>
    { queue with producers := queue.producers.touch objectPrototype id (Producer.new ns queueName id) change }

theorem assignQueue_assignQueue (queues : Queues ρ) (ns queueName : String) (f g : Queue ρ → Queue ρ) :
    assignQueue (assignQueue queues ns queueName f) ns queueName g =
      assignQueue queues ns queueName fun queue => g (f queue) := by
  simp only [assignQueue, Objects.assign_assign]

theorem assignConsumer_assignConsumer (queues : Queues ρ) (ns queueName id : String) (f g : Consumer ρ → Consumer ρ) :
    assignConsumer (assignConsumer queues ns queueName id f) ns queueName id g =
      assignConsumer queues ns queueName id fun consumer => g (f consumer) := by
  simp only [assignConsumer, assignQueue_assignQueue, Objects.assign_assign]

theorem withConsumer_eq (queues : Queues ρ) (ns queueName id : String) (change : Consumer ρ → Consumer ρ) :
    assignConsumer (addConsumerIfNotExists (addQueueIfNotExists queues ns queueName) ns queueName id) ns queueName id
      change = withConsumer queues ns queueName id change :=
  assignQueue_assignQueue _ _ _ _ _

theorem withProducer_eq (queues : Queues ρ) (ns queueName id : String) (change : Producer → Producer) :
    assignProducer (addProducerIfNotExists (addQueueIfNotExists queues ns queueName) ns queueName id) ns queueName id
      change = withProducer queues ns queueName id change :=
  assignQueue_assignQueue _ _ _ _ _

/-! ## The record of a queue -/

def queue? (queues : Queues ρ) (ns queueName : String) : Option (Queue ρ) :=
  ((queues.lookup ns).getD ∅).lookup queueName

/-- The queue has a record, or gets one when it is added. -/
def Reaches (queues : Queues ρ) (ns queueName : String) : Prop :=
  queues.Reaches objectPrototype ns ∧ ((queues.lookup ns).getD ∅).Reaches objectPrototype queueName

instance (queues : Queues ρ) (ns queueName : String) : Decidable (Reaches queues ns queueName) := by
  unfold Reaches
  infer_instance

variable {queues : Queues ρ} {ns ns' queueName queueName' : String} {change : Queue ρ → Queue ρ}

theorem withQueue_eq (queues : Queues ρ) (ns queueName : String) (change : Queue ρ → Queue ρ) :
    withQueue queues ns queueName change = queues.touch objectPrototype ns ∅ fun byName =>
      byName.touch objectPrototype queueName (Queue.new ρ ns queueName) change :=
  Objects.assign_assign _ _ _ _

/-- Changes of one record are made one after the other. -/
theorem withQueue_withQueue (queues : Queues ρ) (ns queueName : String) (f g : Queue ρ → Queue ρ) :
    withQueue (withQueue queues ns queueName f) ns queueName g =
      withQueue queues ns queueName fun queue => g (f queue) := by
  simp only [withQueue_eq, Objects.touch_touch]

theorem lookup_empty (k : String) : (∅ : Objects String (Queue ρ)).lookup k = none := AList.lookup_empty k

/-- The record is changed where it is reached, and no other is. -/
theorem queue?_withQueue : queue? (withQueue queues ns queueName change) ns' queueName' =
    if (ns', queueName') = (ns, queueName) ∧ Reaches queues ns queueName then
      some (change ((queue? queues ns queueName).getD (Queue.new ρ ns queueName)))
    else queue? queues ns' queueName' := by
  unfold queue?
  rw [withQueue_eq, Objects.lookup_touch]
  by_cases hns : ns' = ns ∧ queues.Reaches objectPrototype ns
  · rw [if_pos hns, Option.getD_some, Objects.lookup_touch]
    obtain ⟨rfl, hreach⟩ := hns
    simp only [Prod.mk.injEq, true_and, Reaches, hreach]
  · have hno : ¬((ns', queueName') = (ns, queueName) ∧ Reaches queues ns queueName) :=
      fun h => hns ⟨congrArg Prod.fst h.1, h.2.1⟩
    rw [if_neg hns, if_neg hno]

/-- A queue that is not reached has no record. -/
theorem queue?_eq_none (h : ¬Reaches queues ns queueName) : queue? queues ns queueName = none := by
  by_cases hns : queues.Reaches objectPrototype ns
  · exact Objects.lookup_eq_none fun hq => h ⟨hns, hq⟩
  · rw [queue?, Objects.lookup_eq_none hns]
    exact lookup_empty _

/-- Adding records does not change which queues are reached. -/
theorem reaches_withQueue : Reaches (withQueue queues ns queueName change) ns' queueName' ↔
    Reaches queues ns' queueName' := by
  unfold Reaches
  rw [withQueue_eq, Objects.reaches_touch, Objects.lookup_touch]
  by_cases hns : ns' = ns ∧ queues.Reaches objectPrototype ns
  · rw [if_pos hns, Option.getD_some, Objects.reaches_touch, hns.1]
  · rw [if_neg hns]

/-! ## Sums over the queues -/

/-- The sum over all records. -/
def listed (f : Queue ρ → ℕ) (queues : Queues ρ) : ℕ := queues.total (Objects.total f)

/-- What is put in the place of a record counts instead of it. -/
theorem listed_withQueue {f : Queue ρ → ℕ} (hnew : f (Queue.new ρ ns queueName) = 0) :
    listed f (withQueue queues ns queueName change) + f ((queue? queues ns queueName).getD (Queue.new ρ ns queueName)) =
      listed f queues + if Reaches queues ns queueName then
        f (change ((queue? queues ns queueName).getD (Queue.new ρ ns queueName))) else 0 := by
  have houter : listed f (withQueue queues ns queueName change) + Objects.total f ((queues.lookup ns).getD ∅) =
      listed f queues + if queues.Reaches objectPrototype ns then Objects.total f (Objects.touch objectPrototype
        ((queues.lookup ns).getD ∅) queueName (Queue.new ρ ns queueName) change) else 0 := by
    rw [withQueue_eq]
    exact Objects.total_touch _ _ _ _ _ (Objects.total_empty f)
  have hinner : Objects.total f (Objects.touch objectPrototype ((queues.lookup ns).getD ∅) queueName
        (Queue.new ρ ns queueName) change) + f ((queue? queues ns queueName).getD (Queue.new ρ ns queueName)) =
      Objects.total f ((queues.lookup ns).getD ∅) +
        if ((queues.lookup ns).getD ∅).Reaches objectPrototype queueName then
          f (change ((queue? queues ns queueName).getD (Queue.new ρ ns queueName))) else 0 :=
    Objects.total_touch _ _ _ _ _ hnew
  by_cases hreach : queues.Reaches objectPrototype ns
  · simp only [Reaches, hreach, true_and, if_true] at houter ⊢
    omega
  · have hempty : (queues.lookup ns).getD ∅ = ∅ := by rw [Objects.lookup_eq_none hreach, Option.getD_none]
    have hnone : queue? queues ns queueName = none := queue?_eq_none fun h => hreach h.1
    rw [if_neg hreach, hempty, Objects.total_empty] at houter
    rw [if_neg fun h => hreach h.1, hnone, Option.getD_none, hnew]
    exact houter

/-- The sums agree when they do over each record. -/
theorem listed_congr {f g : Queue ρ → ℕ} {queues' : Queues ρ} (hf : ∀ ns queueName,
    (queue? queues ns queueName).elim 0 f = (queue? queues' ns queueName).elim 0 g) :
    listed f queues = listed g queues' := by
  have hempty : ∀ (h : Queue ρ → ℕ) (o : Option (Objects String (Queue ρ))),
      o.elim 0 (Objects.total h) = Objects.total h (o.getD ∅) := by
    intro h o
    cases o <;> rfl
  refine Objects.total_congr fun ns => ?_
  rw [hempty, hempty]
  exact Objects.total_congr fun queueName => hf ns queueName

/-! ## Producers and consumers -/

section Members

variable {α : Type} {field : Queue ρ → Objects String α} {id id' : String} {new : α} {assigned : α → α}

/-- A producer or consumer of a queue. -/
def member? (field : Queue ρ → Objects String α) (queues : Queues ρ) (ns queueName id : String) : Option α :=
  (queue? queues ns queueName).bind fun queue => (field queue).lookup id

/-- The sum over all producers or consumers. -/
def listedBy (field : Queue ρ → Objects String α) (f : α → ℕ) (queues : Queues ρ) : ℕ :=
  listed (fun queue => (field queue).total f) queues

theorem member?_getD (hnew : field (Queue.new ρ ns queueName) = ∅) (id : String) :
    (field ((queue? queues ns queueName).getD (Queue.new ρ ns queueName))).lookup id =
      member? field queues ns queueName id := by
  unfold member?
  cases queue? queues ns queueName with
  | none => rw [Option.getD_none, hnew, Option.bind_none, AList.lookup_empty]
  | some queue => rfl

theorem member?_eq_none (h : ¬Reaches queues ns queueName) : member? field queues ns queueName id = none := by
  rw [member?, queue?_eq_none h, Option.bind_none]

theorem reaches_of_member? {a : α} (h : member? field queues ns queueName id = some a) : Reaches queues ns queueName := by
  by_contra hreach
  rw [member?_eq_none hreach] at h
  cases h

/-- Changes of other fields of a record leave its members. -/
theorem member?_frame (hnew : field (Queue.new ρ ns queueName) = ∅)
    (hchange : ∀ queue, field (change queue) = field queue) :
    member? field (withQueue queues ns queueName change) ns' queueName' id = member? field queues ns' queueName' id := by
  rw [member?, queue?_withQueue]
  split
  case isTrue h =>
    obtain ⟨rfl, rfl⟩ := Prod.mk.inj h.1
    rw [Option.bind_some, hchange, member?_getD hnew]
  case isFalse => rfl

/-- One member is added and changed. -/
theorem member?_touch (hnew : field (Queue.new ρ ns queueName) = ∅) (hid : id ∉ objectPrototype)
    (hchange : ∀ queue, field (change queue) = (field queue).touch objectPrototype id new assigned) :
    member? field (withQueue queues ns queueName change) ns' queueName' id' =
      if (ns', queueName', id') = (ns, queueName, id) ∧ Reaches queues ns queueName then
        some (assigned ((member? field queues ns queueName id).getD new))
      else member? field queues ns' queueName' id' := by
  have hreach : ∀ o : Objects String α, o.Reaches objectPrototype id := fun _ => Or.inr hid
  rw [member?, queue?_withQueue]
  by_cases h : (ns', queueName') = (ns, queueName) ∧ Reaches queues ns queueName
  · obtain ⟨heq, hreaches⟩ := h
    obtain ⟨rfl, rfl⟩ := Prod.mk.inj heq
    rw [if_pos ⟨rfl, hreaches⟩, Option.bind_some, hchange, Objects.lookup_touch, member?_getD hnew, member?_getD hnew]
    simp only [hreach, hreaches, and_true, Prod.mk.injEq, true_and]
  · have hno : ¬((ns', queueName', id') = (ns, queueName, id) ∧ Reaches queues ns queueName) := by
      simp only [Prod.mk.injEq] at h ⊢
      exact fun h' => h ⟨⟨h'.1.1, h'.1.2.1⟩, h'.2⟩
    rw [if_neg h, if_neg hno]
    rfl

/-- The sum changes with the member. -/
theorem listedBy_touch {f : α → ℕ} (hnew : field (Queue.new ρ ns queueName) = ∅) (hid : id ∉ objectPrototype)
    (hf : f new = 0)
    (hchange : ∀ queue, field (change queue) = (field queue).touch objectPrototype id new assigned) :
    listedBy field f (withQueue queues ns queueName change) + f ((member? field queues ns queueName id).getD new) =
      listedBy field f queues + if Reaches queues ns queueName then
        f (assigned ((member? field queues ns queueName id).getD new)) else 0 := by
  have hqueues : listedBy field f (withQueue queues ns queueName change) + _ = listedBy field f queues + _ :=
    listed_withQueue (f := fun queue => (field queue).total f) (by rw [hnew]; rfl)
  have hmembers := Objects.total_touch objectPrototype
    (field ((queue? queues ns queueName).getD (Queue.new ρ ns queueName))) id new assigned hf
  have hreach : (field ((queue? queues ns queueName).getD (Queue.new ρ ns queueName))).Reaches objectPrototype id :=
    Or.inr hid
  rw [if_pos hreach, member?_getD hnew, ← hchange] at hmembers
  by_cases hreaches : Reaches queues ns queueName
  · rw [if_pos hreaches] at hqueues ⊢
    omega
  · have hnone : queue? queues ns queueName = none := queue?_eq_none hreaches
    rw [if_neg hreaches, hnone, Option.getD_none, hnew, Objects.total_empty] at hqueues
    rw [if_neg hreaches, member?, hnone, Option.bind_none, Option.getD_none, hf]
    exact hqueues

/-- The sums agree when they do over each member. -/
theorem listedBy_congr {f g : α → ℕ} {queues' : Queues ρ} (hf : ∀ ns queueName id,
    (member? field queues ns queueName id).elim 0 f = (member? field queues' ns queueName id).elim 0 g) :
    listedBy field f queues = listedBy field g queues' := by
  have hempty : ∀ (h : α → ℕ) (o : Option (Queue ρ)),
      o.elim 0 (fun queue => (field queue).total h) = ((o.map field).getD ∅).total h := by
    intro h o
    cases o <;> rfl
  have hlookup : ∀ (o : Option (Queue ρ)) (id : String),
      ((o.map field).getD ∅).lookup id = o.bind fun queue => (field queue).lookup id := by
    intro o id
    cases o with
    | none => exact AList.lookup_empty id
    | some queue => rfl
  refine listed_congr fun ns queueName => ?_
  rw [hempty, hempty]
  refine Objects.total_congr fun id => ?_
  rw [hlookup, hlookup]
  exact hf ns queueName id

end Members

def producer? (queues : Queues ρ) (ns queueName id : String) : Option Producer :=
  member? Queue.producers queues ns queueName id

def consumer? (queues : Queues ρ) (ns queueName id : String) : Option (Consumer ρ) :=
  member? Queue.consumers queues ns queueName id

variable {id id' : String} {assigned : Producer → Producer} {assigned' : Consumer ρ → Consumer ρ}

theorem producer?_withProducer (hid : id ∉ objectPrototype) :
    producer? (withProducer queues ns queueName id assigned) ns' queueName' id' =
      if (ns', queueName', id') = (ns, queueName, id) ∧ Reaches queues ns queueName then
        some (assigned ((producer? queues ns queueName id).getD (Producer.new ns queueName id)))
      else producer? queues ns' queueName' id' :=
  member?_touch rfl hid fun _ => rfl

theorem consumer?_withConsumer (hid : id ∉ objectPrototype) :
    consumer? (withConsumer queues ns queueName id assigned') ns' queueName' id' =
      if (ns', queueName', id') = (ns, queueName, id) ∧ Reaches queues ns queueName then
        some (assigned' ((consumer? queues ns queueName id).getD (Consumer.new ρ ns queueName id)))
      else consumer? queues ns' queueName' id' :=
  member?_touch rfl hid fun _ => rfl

theorem listedBy_withProducer {f : Producer → ℕ} (queues : Queues ρ) (ns queueName : String)
    (assigned : Producer → Producer) (hid : id ∉ objectPrototype) (hf : f (Producer.new ns queueName id) = 0) :
    listedBy Queue.producers f (withProducer queues ns queueName id assigned) +
        f ((producer? queues ns queueName id).getD (Producer.new ns queueName id)) =
      listedBy Queue.producers f queues + if Reaches queues ns queueName then
        f (assigned ((producer? queues ns queueName id).getD (Producer.new ns queueName id))) else 0 :=
  listedBy_touch rfl hid hf fun _ => rfl

theorem listedBy_withConsumer {f : Consumer ρ → ℕ} (queues : Queues ρ) (ns queueName : String)
    (assigned' : Consumer ρ → Consumer ρ) (hid : id ∉ objectPrototype) (hf : f (Consumer.new ρ ns queueName id) = 0) :
    listedBy Queue.consumers f (withConsumer queues ns queueName id assigned') +
        f ((consumer? queues ns queueName id).getD (Consumer.new ρ ns queueName id)) =
      listedBy Queue.consumers f queues + if Reaches queues ns queueName then
        f (assigned' ((consumer? queues ns queueName id).getD (Consumer.new ρ ns queueName id))) else 0 :=
  listedBy_touch rfl hid hf fun _ => rfl

theorem consumer?_withProducer : consumer? (withProducer queues ns queueName id assigned) ns' queueName' id' =
    consumer? queues ns' queueName' id' :=
  member?_frame rfl fun _ => rfl

theorem producer?_withConsumer : producer? (withConsumer queues ns queueName id assigned') ns' queueName' id' =
    producer? queues ns' queueName' id' :=
  member?_frame rfl fun _ => rfl

/-- Something that holds of all consumers, where they are. -/
def ForConsumers (P : String → String → String → Consumer ρ → Prop) (queues : Queues ρ) : Prop :=
  ∀ ns queueName id c, consumer? queues ns queueName id = some c → P ns queueName id c

theorem ForConsumers.withConsumer {P : String → String → String → Consumer ρ → Prop} (h : ForConsumers P queues)
    (hid : id ∉ objectPrototype) (hnew : P ns queueName id (Consumer.new ρ ns queueName id))
    (hchange : ∀ c, P ns queueName id c → P ns queueName id (assigned' c)) :
    ForConsumers P (withConsumer queues ns queueName id assigned') := by
  intro ns' queueName' id' c hc
  rw [consumer?_withConsumer hid] at hc
  split at hc
  case isTrue hat =>
    obtain ⟨rfl, heq⟩ := Prod.mk.inj hat.1
    obtain ⟨rfl, rfl⟩ := Prod.mk.inj heq
    obtain rfl := Option.some.inj hc
    refine hchange _ ?_
    cases hold : consumer? queues ns' queueName' id' with
    | none => exact hnew
    | some old => exact h ns' queueName' id' old hold
  case isFalse => exact h ns' queueName' id' c hc

/-- The fields of each consumer say where it is. -/
def Located : Queues ρ → Prop := ForConsumers fun ns queueName id c => (c.ns, c.queueName, c.id) = (ns, queueName, id)

end RedisSmq.Stats
