import RedisSmq.Stats.Worker

/-!
# What the rates add up to

The entries of the hash of rates, one for each producer and three for each consumer, under distinct keys. The totals grow
with each entry that has not expired, and so does the sum over the producers or consumers, if the entry reaches one:
before its entry is read a rate is zero (`RatesInv`). `ratesInv_getRates` is the invariant for the whole hash.
-/

namespace RedisSmq.Stats

open KeyText

variable {ρ : Type}

/-! ## Entries -/

/-- A hexadecimal digit or a hyphen. -/
def isUuidChar (c : Char) : Bool := c.isDigit || ('a' ≤ c && c ≤ 'f') || c == '-'

/-- The identifier of a producer or consumer, `uuid()`: 36 characters. -/
structure Uuid where
  text : String
  length_eq : text.toList.length = 36
  chars : text.toList.all isUuidChar = true

theorem Uuid.separable (id : Uuid) : '|' ∉ id.text.toList := by
  intro h
  have hchar := List.all_eq_true.mp id.chars '|' h
  exact absurd hchar (by decide)

theorem Uuid.ne_empty (id : Uuid) : id.text ≠ "" := by
  intro h
  have hlength := id.length_eq
  rw [h] at hlength
  cases hlength

/-- No object inherits a property with the name of an identifier. -/
theorem Uuid.notMem_objectPrototype (id : Uuid) : id.text ∉ objectPrototype := by
  intro h
  have hlengths : ∀ name ∈ objectPrototype, name.toList.length ≠ 36 := by decide
  exact hlengths id.text h id.length_eq

def Uuid.instanceId (id : Uuid) : InstanceId := ⟨id.text, id.separable⟩

inductive ConsumerRate
  | processing
  | acknowledged
  | unacknowledged
deriving DecidableEq

inductive RateKind
  | input
  | consumer (rate : ConsumerRate)
deriving DecidableEq

def ConsumerRate.key : ConsumerRate → InstanceKey
  | .processing => .keyRateConsumerProcessing
  | .acknowledged => .keyRateConsumerAcknowledged
  | .unacknowledged => .keyRateConsumerUnacknowledged

theorem ConsumerRate.key_ne (k : ConsumerRate) : k.key ≠ .keyRateProducerInput := by
  cases k <;> decide

def RateKind.key : RateKind → InstanceKey
  | .input => .keyRateProducerInput
  | .consumer rate => rate.key

/-- An entry of the hash, as `MessageRate` writes it in the namespace of its process. -/
structure RateEntry where
  kind : RateKind
  ns : Namespace
  queueName : QueueName
  id : Uuid
  item : RateItem

def RateEntry.key (e : RateEntry) : String := getInstanceKeys e.ns.text e.queueName.text e.id.text (.inr e.kind.key)

/-- The entry is the rate of this kind of this producer or consumer. -/
def RateEntry.At (e : RateEntry) (kind : RateKind) (ns queueName id : String) : Prop :=
  e.kind = kind ∧ e.ns.text = ns ∧ e.queueName.text = queueName ∧ e.id.text = id

/-- No object inherits a property with the name of the namespace or the queue. -/
def RateEntry.Plain (e : RateEntry) : Prop := e.ns.text ∉ objectPrototype ∧ e.queueName.text ∉ objectPrototype

instance (e : RateEntry) : Decidable e.Plain := by
  unfold RateEntry.Plain
  infer_instance

/-- What an entry adds to the total of a kind. -/
def RateEntry.amount (now : String → ℕ) (kind : RateKind) (e : RateEntry) : ℕ :=
  if e.kind = kind ∧ hasExpired (now e.key) e.item.timestamp = false then e.item.rate else 0

theorem RateEntry.key_of_at {e e' : RateEntry} (h : e.At e'.kind e'.ns.text e'.queueName.text e'.id.text) :
    e.key = e'.key := by
  obtain ⟨hkind, hns, hqueueName, hid⟩ := h
  rw [RateEntry.key, hkind, hns, hqueueName, hid]
  rfl

/-! ## Rates of a consumer -/

def ConsumerRates.get (rates : ConsumerRates) : ConsumerRate → ℕ
  | .processing => rates.processing
  | .acknowledged => rates.acknowledged
  | .unacknowledged => rates.unacknowledged

def ConsumerRates.set (rates : ConsumerRates) (rate : ℕ) : ConsumerRate → ConsumerRates
  | .processing => { rates with processing := rate }
  | .acknowledged => { rates with acknowledged := rate }
  | .unacknowledged => { rates with unacknowledged := rate }

theorem ConsumerRates.get_set (rates : ConsumerRates) (rate : ℕ) (k k' : ConsumerRate) :
    (rates.set rate k).get k' = if k' = k then rate else rates.get k' := by
  cases k <;> cases k' <;> rfl

/-- The rate of a consumer; without rates it has none. -/
def Consumer.rate (k : ConsumerRate) (consumer : Consumer ρ) : ℕ := consumer.rates.elim 0 fun rates => rates.get k

def Consumer.setRate (k : ConsumerRate) (rate : ℕ) (consumer : Consumer ρ) : Consumer ρ :=
  { consumer with rates := some ((consumer.rates.getD ⟨0, 0, 0⟩).set rate k) }

theorem Consumer.rate_setRate (k k' : ConsumerRate) (rate : ℕ) (consumer : Consumer ρ) :
    (consumer.setRate k rate).rate k' = if k' = k then rate else consumer.rate k' := by
  have hget : (consumer.rates.getD ⟨0, 0, 0⟩).get k' = consumer.rate k' := by
    unfold Consumer.rate
    cases consumer.rates with
    | none => cases k' <;> rfl
    | some rates => rfl
  rw [← hget]
  exact ConsumerRates.get_set _ _ _ _

/-! ## Totals -/

def Rates.get (rates : Rates) : RateKind → ℕ
  | .input => rates.input
  | .consumer .processing => rates.processing
  | .consumer .acknowledged => rates.acknowledged
  | .consumer .unacknowledged => rates.unacknowledged

def Rates.add (rates : Rates) (rate : ℕ) : RateKind → Rates
  | .input => { rates with input := rates.input + rate }
  | .consumer .processing => { rates with processing := rates.processing + rate }
  | .consumer .acknowledged => { rates with acknowledged := rates.acknowledged + rate }
  | .consumer .unacknowledged => { rates with unacknowledged := rates.unacknowledged + rate }

theorem Rates.get_add (rates : Rates) (rate : ℕ) (k k' : RateKind) :
    (rates.add rate k).get k' = rates.get k' + if k = k' then rate else 0 := by
  rcases k with _ | k <;> rcases k' with _ | k'
  · rfl
  · cases k' <;> rfl
  · cases k <;> rfl
  · cases k <;> cases k' <;> rfl

/-! ## Reading one entry -/

/-- The data after an entry that has not expired. -/
def RateEntry.apply (e : RateEntry) (data : AggregatedStats ρ) : AggregatedStats ρ :=
  { data with
    rates := data.rates.add e.item.rate e.kind
    queues := match e.kind with
      | .input => withProducer data.queues e.ns.text e.queueName.text e.id.text fun producer =>
          { producer with input := e.item.rate }
      | .consumer k => withConsumer data.queues e.ns.text e.queueName.text e.id.text (Consumer.setRate k e.item.rate) }

theorem handleConsumerRate_key (data : AggregatedStats ρ) (ns queueName id : String) (k : ConsumerRate) (rate : ℕ) :
    handleConsumerRate data ns queueName k.key.type.number id rate =
      { data with
        rates := data.rates.add rate (.consumer k)
        queues := withConsumer data.queues ns queueName id (Consumer.setRate k rate) } := by
  have hqueues : assignConsumer (assignConsumer (addConsumerIfNotExists (addQueueIfNotExists data.queues ns queueName)
      ns queueName id) ns queueName id Consumer.initRates) ns queueName id
      (Consumer.assignRates fun rates => rates.set rate k) =
        withConsumer data.queues ns queueName id (Consumer.setRate k rate) := by
    rw [assignConsumer_assignConsumer, withConsumer_eq]
    rfl
  rw [← hqueues]
  cases k <;> rfl

theorem extractData_key (e : RateEntry) : extractData e.key = some (match e.kind with
    | .input => ⟨some e.ns.text, ERedisKey.keyRateProducerInput.number, some e.queueName.text, none, some e.id.text⟩
    | .consumer k => ⟨some e.ns.text, k.key.type.number, some e.queueName.text, some e.id.text, none⟩) := by
  obtain ⟨kind, ns, queueName, id, item⟩ := e
  cases kind with
  | input => exact decodes_producer ns queueName id.instanceId
  | consumer k => exact decodes_consumer ns queueName id.instanceId k.key_ne

theorem truthy_id (id : Uuid) : truthy (some id.text) = some id.text := by
  simp [truthy, Option.filter, id.ne_empty]

theorem handleItem_entry (now : String → ℕ) (s : AggregatedStats ρ × List String) (e : RateEntry) :
    (handleItem now s e.key e.item).1 =
      if hasExpired (now e.key) e.item.timestamp then s.1 else e.apply s.1 := by
  unfold handleItem
  split
  · rfl
  · obtain ⟨kind, ns, queueName, id, item⟩ := e
    rw [extractData_key]
    cases kind with
    | input =>
      simp only [Option.elim_some, handleExtracted, truthy_id, propertyName, Option.getD_some]
      simp only [handleProducerRate, withProducer_eq]
      rfl
    | consumer k =>
      simp only [Option.elim_some, handleExtracted, truthy_id, propertyName, Option.getD_some]
      exact handleConsumerRate_key _ _ _ _ _ _

/-! ## The sums -/

/-- The rate of one producer or consumer; zero where there is none. -/
def rateAt (queues : Queues ρ) (ns queueName id : String) : RateKind → ℕ
  | .input => (producer? queues ns queueName id).elim 0 Producer.input
  | .consumer k => (consumer? queues ns queueName id).elim 0 (Consumer.rate k)

/-- A choice of consumers, by namespace, queue and identifier. -/
abbrev Choice := String → String → String → Bool

/-- The rate of a consumer that is chosen. -/
def Consumer.chosenRate (chosen : Choice) (k : ConsumerRate) (consumer : Consumer ρ) : ℕ :=
  if chosen consumer.ns consumer.queueName consumer.id then consumer.rate k else 0

/-- The sum over all producers, or over the consumers that are chosen. -/
def sumOf (chosen : Choice) (queues : Queues ρ) : RateKind → ℕ
  | .input => listedBy Queue.producers Producer.input queues
  | .consumer k => listedBy Queue.consumers (Consumer.chosenRate chosen k) queues

/-- The producer or consumer of the entry has a record and is chosen. -/
def RateEntry.Counts (chosen : Choice) (e : RateEntry) : Prop :=
  e.Plain ∧ (e.kind = .input ∨ chosen e.ns.text e.queueName.text e.id.text)

instance (chosen : Choice) (e : RateEntry) : Decidable (e.Counts chosen) := by
  unfold RateEntry.Counts
  infer_instance

/-- After some entries: only what they are of has a rate, and the sums are what they add. -/
structure RatesInv (now : String → ℕ) (done : List RateEntry) (data : AggregatedStats ρ) : Prop where
  reaches : ∀ ns queueName, Reaches data.queues ns queueName ↔ ns ∉ objectPrototype ∧ queueName ∉ objectPrototype
  located : Located data.queues
  resources : ForConsumers (fun _ _ _ c => c.resources = none) data.queues
  seen : ∀ ns queueName id kind, rateAt data.queues ns queueName id kind ≠ 0 → ∃ e ∈ done, e.At kind ns queueName id
  totals : ∀ kind, data.rates.get kind = (done.map (RateEntry.amount now kind)).sum
  sums : ∀ chosen kind, sumOf chosen data.queues kind =
    (done.map fun e => if e.Counts chosen then e.amount now kind else 0).sum

variable {now : String → ℕ} {data : AggregatedStats ρ} {done : List RateEntry} {e : RateEntry}

/-! ## One entry -/

theorem rate_getD_new (queues : Queues ρ) (ns queueName id : String) (k : ConsumerRate) :
    ((consumer? queues ns queueName id).getD (Consumer.new ρ ns queueName id)).rate k =
      rateAt queues ns queueName id (.consumer k) := by
  unfold rateAt
  cases consumer? queues ns queueName id <;> rfl

theorem input_getD_new (queues : Queues ρ) (ns queueName id : String) :
    ((producer? queues ns queueName id).getD (Producer.new ns queueName id)).input =
      rateAt queues ns queueName id .input := by
  unfold rateAt
  cases producer? queues ns queueName id <;> rfl

/-- An entry sets one rate. -/
theorem rateAt_apply (h : ∀ ns q, Reaches data.queues ns q ↔ ns ∉ objectPrototype ∧ q ∉ objectPrototype)
    (ns queueName id : String) (kind : RateKind) : rateAt (e.apply data).queues ns queueName id kind =
      if (ns, queueName, id) = (e.ns.text, e.queueName.text, e.id.text) ∧ e.Plain ∧ kind = e.kind then e.item.rate
      else rateAt data.queues ns queueName id kind := by
  obtain ⟨kind', ns', queueName', id', item⟩ := e
  cases kind' with
  | input =>
    cases kind with
    | input =>
      simp only [rateAt, RateEntry.apply, producer?_withProducer id'.notMem_objectPrototype, h, RateEntry.Plain,
        and_true]
      split <;> rfl
    | consumer k =>
      simp only [rateAt, RateEntry.apply, consumer?_withProducer, reduceCtorEq, and_false, if_false]
  | consumer k' =>
    cases kind with
    | input => simp only [rateAt, RateEntry.apply, producer?_withConsumer, reduceCtorEq, and_false, if_false]
    | consumer k =>
      simp only [rateAt, RateEntry.apply, consumer?_withConsumer id'.notMem_objectPrototype, h, RateEntry.Plain,
        RateKind.consumer.injEq]
      by_cases hat : (ns, queueName, id) = (ns'.text, queueName'.text, id'.text) ∧
          ns'.text ∉ objectPrototype ∧ queueName'.text ∉ objectPrototype
      · obtain ⟨heq, hplain⟩ := hat
        simp only [Prod.mk.injEq] at heq
        obtain ⟨rfl, rfl, rfl⟩ := heq
        rw [if_pos ⟨rfl, hplain⟩, Option.elim_some, Consumer.rate_setRate, rate_getD_new]
        simp only [hplain, true_and, not_false_eq_true]
        rfl
      · rw [if_neg hat, if_neg fun hall => hat ⟨hall.1, hall.2.1⟩]

theorem reaches_apply {ns queueName : String} : Reaches (e.apply data).queues ns queueName ↔
    Reaches data.queues ns queueName := by
  unfold RateEntry.apply
  cases e.kind with
  | input => exact reaches_withQueue
  | consumer k => exact reaches_withQueue

/-- An entry changes nothing of a consumer but a rate. -/
theorem forConsumers_apply {P : String → String → String → Consumer ρ → Prop} (h : ForConsumers P data.queues)
    (hnew : P e.ns.text e.queueName.text e.id.text (Consumer.new ρ e.ns.text e.queueName.text e.id.text))
    (hchange : ∀ k rate c, P e.ns.text e.queueName.text e.id.text c →
      P e.ns.text e.queueName.text e.id.text (c.setRate k rate)) : ForConsumers P (e.apply data).queues := by
  obtain ⟨kind, ns, queueName, id, item⟩ := e
  cases kind with
  | input =>
    intro ns' queueName' id' c hc
    rw [RateEntry.apply, consumer?_withProducer] at hc
    exact h ns' queueName' id' c hc
  | consumer k => exact h.withConsumer id.notMem_objectPrototype hnew (hchange k item.rate)

theorem located_getD_new {queues : Queues ρ} (h : Located queues) (ns queueName id : String) :
    let old := (consumer? queues ns queueName id).getD (Consumer.new ρ ns queueName id)
    (old.ns, old.queueName, old.id) = (ns, queueName, id) := by
  cases hold : consumer? queues ns queueName id with
  | none => rfl
  | some c => exact h ns queueName id c hold

/-- One rate of a consumer is set in the place of the one it had. -/
theorem sumOf_withConsumer {queues : Queues ρ} (h : Located queues) (ns queueName : String) {id : String}
    (hid : id ∉ objectPrototype) (chosen : Choice) (k k' : ConsumerRate) (rate : ℕ) :
    sumOf chosen (withConsumer queues ns queueName id (Consumer.setRate k' rate)) (.consumer k) +
        (if chosen ns queueName id then rateAt queues ns queueName id (.consumer k) else 0) =
      sumOf chosen queues (.consumer k) + if Reaches queues ns queueName ∧ chosen ns queueName id then
        if k = k' then rate else rateAt queues ns queueName id (.consumer k) else 0 := by
  have hfields := located_getD_new h ns queueName id
  have hsum := listedBy_withConsumer (f := Consumer.chosenRate chosen k) queues ns queueName (Consumer.setRate k' rate)
    hid (ite_self _)
  rw [← rate_getD_new]
  generalize (consumer? queues ns queueName id).getD (Consumer.new ρ ns queueName id) = old at hfields hsum ⊢
  simp only [Prod.mk.injEq] at hfields
  obtain ⟨rfl, rfl, rfl⟩ := hfields
  have hset : Consumer.chosenRate chosen k (old.setRate k' rate) =
      if chosen old.ns old.queueName old.id then if k = k' then rate else old.rate k else 0 := by
    rw [← Consumer.rate_setRate]
    rfl
  rw [hset] at hsum
  rw [ite_and]
  exact hsum

/-- Where nothing is reached there is no rate. -/
theorem rateAt_eq_zero {queues : Queues ρ} {ns queueName : String} (h : ¬Reaches queues ns queueName) (id : String)
    (k : ConsumerRate) : rateAt queues ns queueName id (.consumer k) = 0 := by
  rw [rateAt, consumer?, member?_eq_none h, Option.elim_none]

/-- A rate that was zero is put into the sum. -/
theorem sumOf_apply (h : ∀ ns q, Reaches data.queues ns q ↔ ns ∉ objectPrototype ∧ q ∉ objectPrototype)
    (hlocated : Located data.queues) (hzero : rateAt data.queues e.ns.text e.queueName.text e.id.text e.kind = 0)
    (chosen : Choice) (kind : RateKind) : sumOf chosen (e.apply data).queues kind =
      sumOf chosen data.queues kind + if e.Counts chosen ∧ e.kind = kind then e.item.rate else 0 := by
  obtain ⟨kind', ns, queueName, id, item⟩ := e
  cases kind' with
  | input =>
    cases kind with
    | input =>
      have hsum := listedBy_withProducer (f := Producer.input) data.queues ns.text queueName.text
        (fun producer => { producer with input := item.rate }) id.notMem_objectPrototype rfl
      rw [input_getD_new, hzero, Nat.add_zero] at hsum
      simp only [sumOf, RateEntry.apply, hsum, h, RateEntry.Counts, RateEntry.Plain, true_or, and_true]
    | consumer k =>
      have hsame : sumOf chosen (withProducer data.queues ns.text queueName.text id.text fun producer =>
          { producer with input := item.rate }) (.consumer k) = sumOf chosen data.queues (.consumer k) :=
        listedBy_congr fun ns' queueName' id' => congrArg (Option.elim · 0 _) consumer?_withProducer
      simp only [RateEntry.apply, hsame, reduceCtorEq, and_false, if_false, Nat.add_zero]
  | consumer k' =>
    cases kind with
    | input =>
      have hsame : sumOf chosen (withConsumer data.queues ns.text queueName.text id.text
          (Consumer.setRate k' item.rate)) .input = sumOf chosen data.queues .input :=
        listedBy_congr fun ns' queueName' id' => congrArg (Option.elim · 0 _) producer?_withConsumer
      simp only [RateEntry.apply, hsame, reduceCtorEq, and_false, if_false, Nat.add_zero]
    | consumer k =>
      have hsum := sumOf_withConsumer hlocated ns.text queueName.text id.notMem_objectPrototype chosen k k' item.rate
      by_cases hk : k' = k
      · subst hk
        rw [hzero, ite_self, Nat.add_zero, if_pos rfl] at hsum
        simp only [RateEntry.apply, hsum, h, RateEntry.Counts, RateEntry.Plain, reduceCtorEq, false_or, and_true]
      · have hold : (if Reaches data.queues ns.text queueName.text ∧ chosen ns.text queueName.text id.text then
            rateAt data.queues ns.text queueName.text id.text (.consumer k) else 0) =
            if chosen ns.text queueName.text id.text then
              rateAt data.queues ns.text queueName.text id.text (.consumer k) else 0 := by
          by_cases hreach : Reaches data.queues ns.text queueName.text
          · simp only [hreach, true_and]
          · rw [rateAt_eq_zero hreach, ite_self, ite_self]
        have hne : k ≠ k' := fun heq => hk heq.symm
        rw [if_neg hne, hold] at hsum
        simp only [RateEntry.apply, RateKind.consumer.injEq, hk, and_false, if_false, Nat.add_zero]
        exact Nat.add_right_cancel hsum

/-! ## The whole hash -/

theorem ratesInv_reset (now : String → ℕ) (count : ℕ) :
    RatesInv now [] { (reset : AggregatedStats ρ) with scheduledMessages := count } where
  reaches ns queueName := by simp [Reaches, Objects.Reaches, reset]
  located _ _ _ _ hc := by cases hc
  resources _ _ _ _ hc := by cases hc
  seen _ _ _ kind h := by cases kind <;> exact absurd rfl h
  totals kind := by rcases kind with _ | _ | _ | _ <;> rfl
  sums _ kind := by cases kind <;> rfl

/-- An entry that has expired adds nothing. -/
theorem RatesInv.expired (inv : RatesInv now done data) (h : hasExpired (now e.key) e.item.timestamp) :
    RatesInv now (done ++ [e]) data where
  reaches := inv.reaches
  located := inv.located
  resources := inv.resources
  seen ns queueName id kind hrate := by
    obtain ⟨e', he', hat⟩ := inv.seen ns queueName id kind hrate
    exact ⟨e', List.mem_append_left _ he', hat⟩
  totals kind := by
    have hamount : e.amount now kind = 0 := by simp [RateEntry.amount, h]
    rw [inv.totals, List.map_append, List.sum_append, List.map_singleton, List.sum_singleton, hamount, Nat.add_zero]
  sums chosen kind := by
    have hamount : e.amount now kind = 0 := by simp [RateEntry.amount, h]
    rw [inv.sums, List.map_append, List.sum_append, List.map_singleton, List.sum_singleton, hamount, ite_self,
      Nat.add_zero]

/-- An entry that is fresh adds its rate to the total, and to the sum if it is listed and chosen. -/
theorem RatesInv.apply (inv : RatesInv now done data) (h : hasExpired (now e.key) e.item.timestamp = false)
    (hkey : e.key ∉ done.map RateEntry.key) : RatesInv now (done ++ [e]) (e.apply data) where
  reaches ns queueName := reaches_apply.trans (inv.reaches ns queueName)
  located := forConsumers_apply inv.located rfl fun _ _ _ hc => hc
  resources := forConsumers_apply inv.resources rfl fun _ _ _ hc => hc
  seen ns queueName id kind hrate := by
    rw [rateAt_apply inv.reaches] at hrate
    split at hrate
    case isTrue hat =>
      obtain ⟨heq, -, hkind⟩ := hat
      simp only [Prod.mk.injEq] at heq
      exact ⟨e, List.mem_append_right _ List.mem_cons_self, hkind.symm, heq.1.symm, heq.2.1.symm, heq.2.2.symm⟩
    case isFalse =>
      obtain ⟨e', he', hat⟩ := inv.seen ns queueName id kind hrate
      exact ⟨e', List.mem_append_left _ he', hat⟩
  totals kind := by
    have hamount : e.amount now kind = if e.kind = kind then e.item.rate else 0 := by simp [RateEntry.amount, h]
    rw [List.map_append, List.sum_append, List.map_singleton, List.sum_singleton, hamount, ← inv.totals]
    exact Rates.get_add _ _ _ _
  sums chosen kind := by
    have hzero : rateAt data.queues e.ns.text e.queueName.text e.id.text e.kind = 0 := by
      by_contra hrate
      obtain ⟨e', he', hat⟩ := inv.seen _ _ _ _ hrate
      exact hkey (RateEntry.key_of_at hat ▸ List.mem_map_of_mem he')
    have hamount : (if e.Counts chosen then e.amount now kind else 0) =
        if e.Counts chosen ∧ e.kind = kind then e.item.rate else 0 := by simp [RateEntry.amount, h, ite_and]
    rw [sumOf_apply inv.reaches inv.located hzero, List.map_append, List.sum_append, List.map_singleton,
      List.sum_singleton, hamount, ← inv.sums]

theorem ratesInv_foldl (done : List RateEntry) {l : List RateEntry} {s : AggregatedStats ρ × List String} (inv : RatesInv now done s.1)
    (hnodup : ((done ++ l).map RateEntry.key).Nodup) :
    RatesInv now (done ++ l) (l.foldl (fun s e => handleItem now s e.key e.item) s).1 := by
  induction l generalizing done s with
  | nil => rwa [List.append_nil]
  | cons e l ih =>
    have happend : done ++ e :: l = (done ++ [e]) ++ l := by rw [List.append_assoc, List.singleton_append]
    have hkey : e.key ∉ done.map RateEntry.key := by
      rw [List.map_append, List.nodup_append] at hnodup
      exact fun hmem => hnodup.2.2 _ hmem e.key (List.mem_map_of_mem List.mem_cons_self) rfl
    have hstep : RatesInv now (done ++ [e]) (handleItem now s e.key e.item).1 := by
      rw [handleItem_entry]
      split
      case isTrue h => exact inv.expired h
      case isFalse h => exact inv.apply (Bool.eq_false_iff.mpr h) hkey
    rw [happend] at hnodup ⊢
    exact ih _ hstep hnodup

/-- The hash as it is replied. -/
def rateItems (entries : List RateEntry) : List (String × RateItem) := entries.map fun e => (e.key, e.item)

theorem ratesInv_getRates {entries : List RateEntry} (hnodup : (entries.map RateEntry.key).Nodup) (now : String → ℕ)
    (count : ℕ) : RatesInv now entries
      (getRates now (rateItems entries) { (reset : AggregatedStats ρ) with scheduledMessages := count }).1 := by
  rw [getRates, rateItems, List.foldl_map]
  exact ratesInv_foldl [] (ratesInv_reset now count) hnodup

end RedisSmq.Stats
