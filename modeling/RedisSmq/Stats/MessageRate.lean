import RedisSmq.Lib.Js.Integers
import RedisSmq.Stats.Rates

/-!
# Message rates

`ProducerMessageRate` and `ConsumerMessageRate` count messages in one slot for each millisecond of a second; on every tick
the slots are summed up, cleared, and the sums are published as the rates of that second. A `Meter` is one of the two.

`Meter.pending_increment` and `Meter.pending_getRateFields` say what the two operations do to the messages of a kind that
were counted and not published, and `RateItem.parse_text` that the worker reads the item that was written.
-/

namespace RedisSmq.Stats

open Js

/-! ## Slots -/

/-- A counter for each millisecond of a second. -/
structure Slots where
  counts : List ℕ
  size : counts.length = 1000

namespace Slots

/-- `new Array(1000).fill(0)`. -/
def zero : Slots := ⟨List.replicate 1000 0, List.length_replicate⟩

/-- `slots[new Date().getMilliseconds()] += 1`. -/
def increment (slots : Slots) (now : ℕ) : Slots :=
  ⟨slots.counts.modify (now % 1000) (· + 1), by rw [List.length_modify, slots.size]⟩

/-- `slots.reduce((acc, cur) => acc + cur, 0)`. -/
def total (slots : Slots) : ℕ := slots.counts.foldl (· + ·) 0

theorem total_eq_sum (slots : Slots) : slots.total = slots.counts.sum := List.sum_eq_foldl.symm

@[simp] theorem total_zero : zero.total = 0 := by
  rw [total_eq_sum]
  show (List.replicate 1000 0).sum = 0
  rw [List.sum_replicate, Nat.nsmul_eq_mul, Nat.mul_zero]

/-- A counter that is there goes up by one. -/
theorem sum_modify {l : List ℕ} {i : ℕ} (h : i < l.length) : (l.modify i (· + 1)).sum = l.sum + 1 := by
  induction l generalizing i with
  | nil => cases h
  | cons n l ih =>
    cases i with
    | zero =>
      rw [List.modify_zero_cons, List.sum_cons, List.sum_cons]
      omega
    | succ i =>
      rw [List.modify_succ_cons, List.sum_cons, List.sum_cons, ih (by simpa using h)]
      omega

/-- No message is lost: every millisecond has a slot. -/
@[simp] theorem total_increment (slots : Slots) (now : ℕ) : (slots.increment now).total = slots.total + 1 := by
  have hlt : now % 1000 < slots.counts.length := by
    rw [slots.size]
    omega
  rw [total_eq_sum, total_eq_sum]
  exact sum_modify hlt

end Slots

/-! ## Items -/

/-- `${rate}|${now}`. -/
def RateItem.text (item : RateItem) : JsString := natText item.rate ++ unit '|' :: natText item.timestamp

/-- `const [rate, timestamp] = item.split('|')`, and both as numbers. -/
def RateItem.parse (text : JsString) : Option RateItem := do
  let parts := text.splitOn (unit '|')
  let rate ← parts[0]?.bind readNat
  let timestamp ← parts[1]?.bind readNat
  return ⟨rate, timestamp⟩

theorem RateItem.parse_text (item : RateItem) : RateItem.parse item.text = some item := by
  have hbar : ∀ n, unit '|' ∉ natText n := fun n => Numeral.notMem_text (by decide) (by decide) _
  have hsplit : item.text.splitOn (unit '|') = [natText item.rate, natText item.timestamp] := by
    have htext : item.text = [unit '|'].intercalate [natText item.rate, natText item.timestamp] := by
      simp [RateItem.text, List.intercalate, List.intersperse]
    rw [htext]
    refine List.splitOn_intercalate (unit '|') (fun part hpart => ?_) (List.cons_ne_nil _ _)
    rcases List.mem_pair.mp hpart with rfl | rfl
    · exact hbar _
    · exact hbar _
  simp only [RateItem.parse, hsplit, List.getElem?_cons_zero, List.getElem?_cons_succ, Option.bind_some, readNat_natText]
  rfl

/-! ## Producers -/

structure ProducerMessageRate where
  inputSlots : Slots
  inputRate : ℕ

namespace ProducerMessageRate

def new : ProducerMessageRate := ⟨.zero, 0⟩

/-- The rate is the field `inputRate` afterwards. -/
def getRateFields (r : ProducerMessageRate) : ProducerMessageRate :=
  { r with inputRate := r.inputSlots.total, inputSlots := .zero }

def formatRateFields (r : ProducerMessageRate) (keyProducerRateInput : String) (now : ℕ) : List (String × JsString) :=
  [(keyProducerRateInput, RateItem.text ⟨r.inputRate, now⟩)]

def incrementInputSlot (r : ProducerMessageRate) (now : ℕ) : ProducerMessageRate :=
  { r with inputSlots := r.inputSlots.increment now }

end ProducerMessageRate

/-! ## Consumers -/

structure ConsumerMessageRate where
  processingSlots : Slots
  acknowledgedSlots : Slots
  unacknowledgedSlots : Slots
  processingRate : ℕ
  acknowledgedRate : ℕ
  unacknowledgedRate : ℕ
  idleStack : List ℕ

namespace ConsumerMessageRate

def new : ConsumerMessageRate := ⟨.zero, .zero, .zero, 0, 0, 0, List.replicate 5 0⟩

/-- The consumer, and whether it has been inactive for the last five ticks. -/
def isIdle (r : ConsumerMessageRate) : ConsumerMessageRate × Bool :=
  let i := if r.processingRate = 0 ∧ r.acknowledgedRate = 0 ∧ r.unacknowledgedRate = 0 then 1 else 0
  let idleStack := (r.idleStack ++ [i]).tail
  ({ r with idleStack := idleStack }, (idleStack.find? (· = 0)).isNone)

/-- The rates are fields afterwards; `test` is `NODE_ENV === 'test'`, and the Boolean is whether `IDLE` is emitted. -/
def getRateFields (test : Bool) (r : ConsumerMessageRate) : ConsumerMessageRate × Bool :=
  let r := { r with processingRate := r.processingSlots.total, processingSlots := .zero }
  let r := { r with acknowledgedRate := r.acknowledgedSlots.total, acknowledgedSlots := .zero }
  let r := { r with unacknowledgedRate := r.unacknowledgedSlots.total, unacknowledgedSlots := .zero }
  if test then r.isIdle else (r, false)

def formatRateFields (r : ConsumerMessageRate)
    (keyConsumerRateProcessing keyConsumerRateAcknowledged keyConsumerRateUnacknowledged : String) (now : ℕ) :
    List (String × JsString) :=
  [(keyConsumerRateProcessing, RateItem.text ⟨r.processingRate, now⟩),
    (keyConsumerRateAcknowledged, RateItem.text ⟨r.acknowledgedRate, now⟩),
    (keyConsumerRateUnacknowledged, RateItem.text ⟨r.unacknowledgedRate, now⟩)]

def incrementProcessingSlot (r : ConsumerMessageRate) (now : ℕ) : ConsumerMessageRate :=
  { r with processingSlots := r.processingSlots.increment now }

def incrementAcknowledgedSlot (r : ConsumerMessageRate) (now : ℕ) : ConsumerMessageRate :=
  { r with acknowledgedSlots := r.acknowledgedSlots.increment now }

def incrementUnacknowledgedSlot (r : ConsumerMessageRate) (now : ℕ) : ConsumerMessageRate :=
  { r with unacknowledgedSlots := r.unacknowledgedSlots.increment now }

end ConsumerMessageRate

/-! ## Meters -/

/-- The `messageRate` of a producer or a consumer. -/
inductive Meter
  | producer (rate : ProducerMessageRate)
  | consumer (rate : ConsumerMessageRate)

namespace Meter

/-- `getMessageRate` of a consumer, or of a producer. -/
def new (isConsumer : Bool) : Meter := if isConsumer then .consumer .new else .producer .new

def isConsumer : Meter → Bool
  | .producer _ => false
  | .consumer _ => true

/-- The increment of a slot of this kind; the other class has no such method. -/
def increment : Meter → RateKind → ℕ → Option Meter
  | .producer r, .input, now => some (.producer (r.incrementInputSlot now))
  | .consumer r, .consumer .processing, now => some (.consumer (r.incrementProcessingSlot now))
  | .consumer r, .consumer .acknowledged, now => some (.consumer (r.incrementAcknowledgedSlot now))
  | .consumer r, .consumer .unacknowledged, now => some (.consumer (r.incrementUnacknowledgedSlot now))
  | _, _, _ => none

def getRateFields (test : Bool) : Meter → Meter × Bool
  | .producer r => (.producer r.getRateFields, false)
  | .consumer r => (.consumer (r.getRateFields test).1, (r.getRateFields test).2)

/-- The fields are written under the keys of their kinds. -/
def formatRateFields (key : RateKind → String) (now : ℕ) : Meter → List (String × JsString)
  | .producer r => r.formatRateFields (key .input) now
  | .consumer r =>
    r.formatRateFields (key (.consumer .processing)) (key (.consumer .acknowledged)) (key (.consumer .unacknowledged)) now

/-- What was counted and not published. -/
def pending : Meter → RateKind → ℕ
  | .producer r, .input => r.inputSlots.total
  | .consumer r, .consumer .processing => r.processingSlots.total
  | .consumer r, .consumer .acknowledged => r.acknowledgedSlots.total
  | .consumer r, .consumer .unacknowledged => r.unacknowledgedSlots.total
  | _, _ => 0

/-- The rates of the last tick. -/
def rates : Meter → RateKind → ℕ
  | .producer r, .input => r.inputRate
  | .consumer r, .consumer .processing => r.processingRate
  | .consumer r, .consumer .acknowledged => r.acknowledgedRate
  | .consumer r, .consumer .unacknowledged => r.unacknowledgedRate
  | _, _ => 0

/-- The idle stack; a producer has none. -/
def idleStack : Meter → List ℕ
  | .producer _ => []
  | .consumer r => r.idleStack

variable {m m' : Meter} {kind k : RateKind} {now : ℕ} {test : Bool}

theorem pending_increment (h : m.increment kind now = some m') (k : RateKind) :
    m'.pending k = m.pending k + if k = kind then 1 else 0 := by
  unfold increment at h
  split at h <;> cases h <;> rcases k with _ | _ | _ | _ <;>
    simp [pending, ProducerMessageRate.incrementInputSlot, ConsumerMessageRate.incrementProcessingSlot,
      ConsumerMessageRate.incrementAcknowledgedSlot, ConsumerMessageRate.incrementUnacknowledgedSlot]

theorem idleStack_increment (h : m.increment kind now = some m') :
    m'.idleStack = m.idleStack ∧ m'.isConsumer = m.isConsumer := by
  unfold increment at h
  split at h <;> cases h <;> exact ⟨rfl, rfl⟩

theorem pending_new (isConsumer : Bool) (k : RateKind) : (new isConsumer).pending k = 0 := by
  cases isConsumer with
  | false =>
    cases k with
    | input => exact Slots.total_zero
    | consumer k => rfl
  | true =>
    cases k with
    | input => rfl
    | consumer k => cases k <;> exact Slots.total_zero

/-- What was pending becomes the rate. -/
theorem rates_getRateFields (test : Bool) (m : Meter) (k : RateKind) :
    (m.getRateFields test).1.rates k = m.pending k ∧ (m.getRateFields test).1.pending k = 0 := by
  cases m with
  | producer r =>
    cases k with
    | input => exact ⟨rfl, Slots.total_zero⟩
    | consumer k => exact ⟨rfl, rfl⟩
  | consumer r =>
    cases test <;> cases k with
    | input => exact ⟨rfl, rfl⟩
    | consumer k => cases k <;> exact ⟨rfl, Slots.total_zero⟩

theorem isConsumer_getRateFields (test : Bool) (m : Meter) : (m.getRateFields test).1.isConsumer = m.isConsumer := by
  cases m <;> rfl

/-- What the idle stack notes of a second. -/
def idleFlag (rates : RateKind → ℕ) : ℕ :=
  if rates (.consumer .processing) = 0 ∧ rates (.consumer .acknowledged) = 0 ∧ rates (.consumer .unacknowledged) = 0 then 1
  else 0

theorem idleFlag_ne_zero (rates : RateKind → ℕ) : idleFlag rates ≠ 0 ↔ ∀ k, rates (.consumer k) = 0 := by
  unfold idleFlag
  constructor
  · intro h k
    split at h
    · rename_i hzero
      cases k
      · exact hzero.1
      · exact hzero.2.1
      · exact hzero.2.2
    · exact absurd rfl h
  · intro h
    rw [if_pos ⟨h _, h _, h _⟩]
    exact one_ne_zero

/-- Under test a consumer notes every tick, and is idle when no zero is left. -/
theorem idle_getRateFields (hm : m.isConsumer = true) :
    (m.getRateFields true).1.idleStack = (m.idleStack ++ [idleFlag (m.getRateFields true).1.rates]).tail ∧
      ((m.getRateFields true).2 = true ↔ ∀ i ∈ (m.getRateFields true).1.idleStack, i ≠ 0) := by
  cases m with
  | producer r => cases hm
  | consumer r =>
    refine ⟨rfl, ?_⟩
    show (List.find? _ _).isNone = true ↔ _
    rw [Option.isNone_iff_eq_none, List.find?_eq_none]
    simp only [decide_eq_true_eq]
    rfl

/-- Nobody is idle otherwise. -/
theorem not_idle_getRateFields (h : (m.getRateFields test).2 = true) : test = true ∧ m.isConsumer = true := by
  cases m with
  | producer r => cases h
  | consumer r =>
    cases test with
    | false => cases h
    | true => exact ⟨rfl, rfl⟩

/-- What is written is the rate of a kind, under its key. -/
theorem mem_formatRateFields {key : RateKind → String} {p : String × JsString} (h : p ∈ m.formatRateFields key now) :
    ∃ k, p = (key k, RateItem.text ⟨m.rates k, now⟩) := by
  cases m with
  | producer r => exact ⟨.input, List.mem_singleton.mp h⟩
  | consumer r =>
    rcases List.mem_cons.mp h with rfl | h
    · exact ⟨.consumer .processing, rfl⟩
    · rcases List.mem_pair.mp h with rfl | rfl
      · exact ⟨.consumer .acknowledged, rfl⟩
      · exact ⟨.consumer .unacknowledged, rfl⟩

end Meter

end RedisSmq.Stats
