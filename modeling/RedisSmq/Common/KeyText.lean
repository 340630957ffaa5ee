import Mathlib.Data.List.Basic
import RedisSmq.Common.Names

/-!
# The texts of keys

`redis-keys.ts` builds keys by joining segments with `|`, in two passes, and decodes them by splitting. All thirty types
of keys are listed here, each under the field that `getGlobalKeys`, `getKeys` or `getInstanceKeys` gives it.

- splitting undoes joining when no segment has the separator in it (`split_joinSegments`);
- the text of a key determines its parts (`text_injective`), and `extractData` of the text is what it is of the parts
  (`extractData_text`);
- accepted names and identifiers without the separator: `extractData` gives back what a key was made of, and different
  keys have different texts (`keyCodec`).
-/

namespace RedisSmq

/-- The number of a type: `KEY_QUEUE = 58`, and so on in order. -/
def ERedisKey.number (type : ERedisKey) : ℕ := 58 + type.ctorIdx

namespace KeyText

open RedisKeys (globalNamespace validateRedisKey setNamespace)

def nsPrefix : String := "redis-smq"

/-! ## Segments -/

def joinSegments (segments : List String) : String := "|".intercalate segments

/-- `key.split('|')`. -/
def split (key : String) : List String := (key.toList.splitOn '|').map String.ofList

/-- `Number(text)` of decimal digits, the only numerals in keys; `none` stands for all that is not the number of a
type. -/
def number (text : String) : Option ℕ :=
  if text.toList.all Char.isDigit then some (Nat.ofDigitChars 10 text.toList 0) else none

structure Segments where
  ns : Option String
  type : Option ℕ
  segments : List String
deriving DecidableEq

def getSegments (key : String) : Segments :=
  let parts := split key
  ⟨parts[1]?, parts[2]?.bind number, parts.drop 3⟩

/-! ## Building keys -/

/-- The fields of `getGlobalKeys`. -/
inductive GlobalKey
  | keyIndexQueue | keyIndexRates | keyIndexProcessingQueues | keyIndexHeartbeats | keyLockMessageManager
  | keyLockQueueManager | keyLockConsumerWorkersRunner | keyLockWorkerStats | keyQueueDelay | keyQueueRequeue
  | keyQueueScheduled | keyLockDeleteAcknowledgedMessage | keyLockDeleteDeadLetterMessage
  | keyLockDeleteScheduledMessage | keyLockDeletePendingMessage | keyLockDeletePendingMessageWithPriority
  | keyScheduledMessages
deriving DecidableEq

def GlobalKey.type : GlobalKey → ERedisKey
  | .keyIndexQueue => .keyIndexQueues
  | .keyIndexRates => .keyIndexRates
  | .keyIndexProcessingQueues => .keyIndexProcessingQueues
  | .keyIndexHeartbeats => .keyIndexHeartbeats
  | .keyLockMessageManager => .keyLockMessageManager
  | .keyLockQueueManager => .keyLockQueueManager
  | .keyLockConsumerWorkersRunner => .keyLockConsumerWorkersRunner
  | .keyLockWorkerStats => .keyLockWorkerStats
  | .keyQueueDelay => .keyQueueDelay
  | .keyQueueRequeue => .keyQueueRequeue
  | .keyQueueScheduled => .keyQueueScheduled
  | .keyLockDeleteAcknowledgedMessage => .keyLockDeleteAcknowledgedMessage
  | .keyLockDeleteDeadLetterMessage => .keyLockDeleteDeadLetterMessage
  | .keyLockDeleteScheduledMessage => .keyLockDeleteScheduledMessage
  | .keyLockDeletePendingMessage => .keyLockDeletePendingMessage
  | .keyLockDeletePendingMessageWithPriority => .keyLockDeletePendingMessageWithPriority
  | .keyScheduledMessages => .keyScheduledMessages

/-- The fields of `getKeys` that are not global. -/
inductive QueueKey
  | keyQueue | keyQueueDL | keyIndexQueueMessageProcessingQueues | keyQueuePriority | keyQueueAcknowledgedMessages
  | keyQueueUnacknowledgedMessages | keyPendingMessagesWithPriority
deriving DecidableEq

def QueueKey.type : QueueKey → ERedisKey
  | .keyQueue => .keyQueue
  | .keyQueueDL => .keyQueueDL
  | .keyIndexQueueMessageProcessingQueues => .keyIndexQueueMessageProcessingQueues
  | .keyQueuePriority => .keyQueuePriority
  | .keyQueueAcknowledgedMessages => .keyQueueAcknowledgedMessages
  | .keyQueueUnacknowledgedMessages => .keyQueueUnacknowledgedMessages
  | .keyPendingMessagesWithPriority => .keyPendingMessagesWithPriority

/-- The fields of `getInstanceKeys` that `getKeys` does not have. -/
inductive InstanceKey
  | keyQueueProcessing | keyRateConsumerUnacknowledged | keyHeartbeat | keyRateConsumerProcessing
  | keyRateConsumerAcknowledged | keyRateProducerInput
deriving DecidableEq

def InstanceKey.type : InstanceKey → ERedisKey
  | .keyQueueProcessing => .keyQueueProcessing
  | .keyRateConsumerUnacknowledged => .keyRateConsumerUnacknowledged
  | .keyHeartbeat => .keyHeartbeat
  | .keyRateConsumerProcessing => .keyRateConsumerProcessing
  | .keyRateConsumerAcknowledged => .keyRateConsumerAcknowledged
  | .keyRateProducerInput => .keyRateProducerInput

/-- The segment of a type. -/
def segment (type : ERedisKey) : String := toString type.number

def makeNamespacedKeys {κ : Type} (keys : κ → String) (ns : String) : κ → String :=
  fun k => joinSegments [nsPrefix, ns, keys k]

def getGlobalKeys : GlobalKey → String := makeNamespacedKeys (fun k => segment k.type) globalNamespace

/-- `processNs`: what the module variable `namespace` holds. -/
def getKeys (processNs queueName : String) (ns : Option String) : GlobalKey ⊕ QueueKey → String :=
  let keys (k : QueueKey) := joinSegments [segment k.type, queueName]
  Sum.elim getGlobalKeys (makeNamespacedKeys keys (ns.getD processNs))

def getInstanceKeys (processNs queueName instanceId : String) : (GlobalKey ⊕ QueueKey) ⊕ InstanceKey → String :=
  let keys (k : InstanceKey) := joinSegments [segment k.type, queueName, instanceId]
  Sum.elim (getKeys processNs queueName none) (makeNamespacedKeys keys processNs)

/-! ## Decoding keys -/

structure KeyData where
  ns : Option String
  type : ℕ
  queueName : Option String
  consumerId : Option String
  producerId : Option String
deriving DecidableEq

def extractData (key : String) : Option KeyData :=
  let ⟨ns, type, segments⟩ := getSegments key
  let queueName := segments[0]?
  match type with
  | none => none
  | some type =>
    if type = ERedisKey.keyQueue.number ∨ type = ERedisKey.keyQueuePriority.number ∨
        type = ERedisKey.keyQueueAcknowledgedMessages.number ∨ type = ERedisKey.keyQueueDL.number then
      some ⟨ns, type, queueName, none, none⟩
    else if type = ERedisKey.keyQueueProcessing.number ∨ type = ERedisKey.keyRateConsumerProcessing.number ∨
        type = ERedisKey.keyRateConsumerAcknowledged.number ∨ type = ERedisKey.keyRateConsumerUnacknowledged.number ∨
        type = ERedisKey.keyHeartbeat.number then
      some ⟨ns, type, queueName, segments[1]?, none⟩
    else if type = ERedisKey.keyRateProducerInput.number then
      some ⟨ns, type, queueName, none, segments[1]?⟩
    else none

/-! ## Splitting -/

/-- Splitting undoes joining when no segment has the separator in it. -/
theorem split_joinSegments {l : List String} (h : ∀ s ∈ l, '|' ∉ s.toList) (hne : l ≠ []) :
    split (joinSegments l) = l := by
  have hsep : "|".toList = ['|'] := rfl
  have hmem : ∀ cs ∈ l.map String.toList, '|' ∉ cs := by
    intro cs hcs
    obtain ⟨s, hs, rfl⟩ := List.mem_map.mp hcs
    exact h s hs
  rw [split, joinSegments, String.toList_intercalate, hsep,
    List.splitOn_intercalate '|' hmem (by simpa using hne), List.map_map]
  simp [Function.comp_def]

/-- Joining in two passes is joining. -/
theorem joinSegments_join (a b c : String) (l : List String) :
    joinSegments [a, b, joinSegments (c :: l)] = joinSegments (a :: b :: c :: l) := by
  simp only [joinSegments, String.intercalate_cons_cons, String.intercalate_singleton]

theorem segment_toList (type : ERedisKey) : (segment type).toList = Nat.toDigits 10 type.number :=
  Nat.toList_repr

/-- The number of a type is read back. -/
theorem number_segment (type : ERedisKey) : number (segment type) = some type.number := by
  have hall : (Nat.toDigits 10 type.number).all Char.isDigit := by
    rw [List.all_eq_true]
    exact fun c hc => Nat.isDigit_of_mem_toDigits (by decide) (by decide) hc
  rw [number, segment_toList, if_pos hall, Nat.ofDigitChars_ten_toDigits]

theorem separator_not_mem_segment (type : ERedisKey) : '|' ∉ (segment type).toList := by
  intro h
  rw [segment_toList] at h
  exact absurd (Nat.isDigit_of_mem_toDigits (by decide) (by decide) h) (by decide)

theorem number_injective : Function.Injective ERedisKey.number := by
  intro a b h
  rw [← ERedisKey.ofNat_ctorIdx a, ← ERedisKey.ofNat_ctorIdx b, Nat.add_left_cancel h]

/-! ## Texts and parts -/

/-- The text of a key. -/
def text (key : RedisKey) : String := joinSegments (nsPrefix :: key.ns :: segment key.type :: key.segments)

/-- No part has the separator in it. -/
def Separable (key : RedisKey) : Prop := '|' ∉ key.ns.toList ∧ ∀ s ∈ key.segments, '|' ∉ s.toList

variable {key key' : RedisKey}

theorem split_text (h : Separable key) :
    split (text key) = nsPrefix :: key.ns :: segment key.type :: key.segments := by
  refine split_joinSegments ?_ (List.cons_ne_nil _ _)
  intro s hs
  rcases List.mem_cons.mp hs with rfl | hs
  · decide
  · rcases List.mem_cons.mp hs with rfl | hs
    · exact h.1
    · rcases List.mem_cons.mp hs with rfl | hs
      · exact separator_not_mem_segment _
      · exact h.2 s hs

theorem getSegments_text (h : Separable key) :
    getSegments (text key) = ⟨some key.ns, some key.type.number, key.segments⟩ := by
  rw [getSegments, split_text h]
  simp [number_segment]

/-- The text of a key determines its parts. -/
theorem text_injective (h : Separable key) (h' : Separable key') (heq : text key = text key') : key = key' := by
  have hseg : getSegments (text key) = getSegments (text key') := congrArg getSegments heq
  rw [getSegments_text h, getSegments_text h'] at hseg
  obtain ⟨hns, htype, hsegments⟩ := Segments.mk.inj hseg
  exact RedisKey.ext (Option.some.inj hns) (number_injective (Option.some.inj htype)) hsegments

/-- What is decoded from the parts of a key, with its type as a number. -/
def KeyData.ofParts (data : RedisKeys.ExtractedData) : KeyData :=
  ⟨some data.ns, data.type.number, some data.queueName, data.consumerId, data.producerId⟩

/-- `extractData` of a text is `extractData` of the parts. -/
theorem extractData_text (h : Separable key) (hne : key.segments ≠ []) :
    extractData (text key) = (RedisKeys.extractData key).map KeyData.ofParts := by
  obtain ⟨s, l, hs⟩ := List.exists_cons_of_ne_nil hne
  rw [extractData, getSegments_text h, RedisKeys.extractData, hs]
  cases key.type <;> rfl

/-- The keys of a queue are the texts of their parts. -/
theorem getKeys_inr (processNs queueName : String) (ns : Option String) (kind : QueueKey) :
    getKeys processNs queueName ns (.inr kind) = text ⟨ns.getD processNs, kind.type, [queueName]⟩ :=
  joinSegments_join _ _ _ _

theorem getInstanceKeys_inr (processNs queueName id : String) (kind : InstanceKey) :
    getInstanceKeys processNs queueName id (.inr kind) = text ⟨processNs, kind.type, [queueName, id]⟩ :=
  joinSegments_join _ _ _ _

/-- The keys by their parts stand for these texts. -/
theorem text_getKeys (processNs queueName : String) (ns : Option String) :
    getKeys processNs queueName ns (.inr .keyQueue) = text (RedisKeys.getKeys processNs queueName ns).keyQueue ∧
    getKeys processNs queueName ns (.inr .keyQueueDL) = text (RedisKeys.getKeys processNs queueName ns).keyQueueDL ∧
    getKeys processNs queueName ns (.inr .keyQueuePriority) =
      text (RedisKeys.getKeys processNs queueName ns).keyQueuePriority ∧
    getKeys processNs queueName ns (.inr .keyQueueAcknowledgedMessages) =
      text (RedisKeys.getKeys processNs queueName ns).keyQueueAcknowledgedMessages ∧
    getKeys processNs queueName ns (.inr .keyPendingMessagesWithPriority) =
      text (RedisKeys.getKeys processNs queueName ns).keyPendingMessagesWithPriority ∧
    getKeys processNs queueName ns (.inr .keyIndexQueueMessageProcessingQueues) =
      text (RedisKeys.getKeys processNs queueName ns).keyIndexQueueMessageProcessingQueues :=
  ⟨getKeys_inr _ _ _ _, getKeys_inr _ _ _ _, getKeys_inr _ _ _ _, getKeys_inr _ _ _ _, getKeys_inr _ _ _ _,
    getKeys_inr _ _ _ _⟩

example : getKeys "ns" "q" none (.inr .keyQueue) = "redis-smq|ns|58|q" := by decide

/-! ## Accepted names -/

/-- A namespace that `setNamespace` accepts; it need not be in lower case. -/
@[ext] structure Namespace where
  text : String
  accepted : ∃ ns, setNamespace text = .ok ns

/-- A name of a queue that `validateRedisKey` accepts. -/
@[ext] structure QueueName where
  text : String
  accepted : ∃ name, validateRedisKey text = .ok name

/-- An identifier of a consumer or producer. -/
@[ext] structure InstanceId where
  text : String
  separable : '|' ∉ text.toList

theorem Namespace.separable (ns : Namespace) : '|' ∉ ns.text.toList := by
  obtain ⟨_, hns⟩ := ns.accepted
  exact RedisKeys.separator_not_mem (RedisKeys.setNamespace_eq_ok.mp hns).1

theorem Namespace.ne_global (ns : Namespace) : ns.text ≠ globalNamespace := by
  obtain ⟨_, hns⟩ := ns.accepted
  exact RedisKeys.ne_globalNamespace hns

theorem QueueName.separable (q : QueueName) : '|' ∉ q.text.toList := by
  obtain ⟨_, hq⟩ := q.accepted
  exact RedisKeys.separator_not_mem hq

/-! ## The keys that are built -/

/-- A key by its kind and what it is made of. -/
inductive KeyName
  | global (kind : GlobalKey)
  | queue (kind : QueueKey) (ns : Namespace) (queueName : QueueName)
  | ofInstance (kind : InstanceKey) (ns : Namespace) (queueName : QueueName) (id : InstanceId)

/-- The field of the kind, of the function that builds keys of this kind. A key of an instance is in the namespace of the
process, and so is a key of a queue without a namespace of its own (`getKeys_none`). -/
def KeyName.build : KeyName → String
  | .global kind => getGlobalKeys kind
  | .queue kind ns q => getKeys RedisKeys.defaultNamespace q.text (some ns.text) (.inr kind)
  | .ofInstance kind ns q id => getInstanceKeys ns.text q.text id.text (.inr kind)

/-- The parts of a key. -/
def KeyName.parts : KeyName → RedisKey
  | .global kind => ⟨globalNamespace, kind.type, []⟩
  | .queue kind ns q => ⟨ns.text, kind.type, [q.text]⟩
  | .ofInstance kind ns q id => ⟨ns.text, kind.type, [q.text, id.text]⟩

/-- Without a namespace a key is in that of the process. -/
theorem getKeys_none (processNs queueName : String) : getKeys processNs queueName none =
    getKeys RedisKeys.defaultNamespace queueName (some processNs) := rfl

/-- The keys of an instance have the global keys and the keys of its queue among them. -/
theorem getInstanceKeys_inl (processNs queueName id : String) (k : GlobalKey ⊕ QueueKey) :
    getInstanceKeys processNs queueName id (.inl k) = getKeys processNs queueName none k := rfl

/-- A key is the text of its parts. -/
theorem build_eq_text (k : KeyName) : k.build = text k.parts := by
  cases k with
  | global kind => rfl
  | queue kind ns q => exact getKeys_inr _ _ _ _
  | ofInstance kind ns q id => exact getInstanceKeys_inr _ _ _ _

theorem parts_separable (k : KeyName) : Separable k.parts := by
  cases k with
  | global kind =>
    have hns : '|' ∉ globalNamespace.toList := by decide
    exact ⟨hns, fun s hs => absurd hs List.not_mem_nil⟩
  | queue kind ns q =>
    refine ⟨ns.separable, ?_⟩
    simpa [KeyName.parts] using q.separable
  | ofInstance kind ns q id =>
    refine ⟨ns.separable, ?_⟩
    simpa [KeyName.parts] using And.intro q.separable id.separable

theorem GlobalKey.type_injective : Function.Injective GlobalKey.type := by
  intro a b h
  cases a <;> cases b <;> first | rfl | cases h

theorem QueueKey.type_injective : Function.Injective QueueKey.type := by
  intro a b h
  cases a <;> cases b <;> first | rfl | cases h

theorem InstanceKey.type_injective : Function.Injective InstanceKey.type := by
  intro a b h
  cases a <;> cases b <;> first | rfl | cases h

/-- Different keys have different parts: only a global key is in the reserved namespace, and a key of an instance has one
segment more than that of a queue. -/
theorem parts_injective : Function.Injective KeyName.parts := by
  intro a b h
  obtain ⟨hns, htype, hsegments⟩ := RedisKey.ext_iff.mp h
  cases a with
  | global kind =>
    cases b with
    | global kind' => rw [GlobalKey.type_injective htype]
    | queue kind' ns' q' => exact absurd hns.symm ns'.ne_global
    | ofInstance kind' ns' q' id' => exact absurd hns.symm ns'.ne_global
  | queue kind ns q =>
    cases b with
    | global kind' => exact absurd hns ns.ne_global
    | queue kind' ns' q' =>
      obtain ⟨hq, -⟩ := List.cons.inj hsegments
      rw [QueueKey.type_injective htype, Namespace.ext hns, QueueName.ext hq]
    | ofInstance kind' ns' q' id' => cases (List.cons.inj hsegments).2
  | ofInstance kind ns q id =>
    cases b with
    | global kind' => exact absurd hns ns.ne_global
    | queue kind' ns' q' => cases (List.cons.inj hsegments).2
    | ofInstance kind' ns' q' id' =>
      obtain ⟨hq, hsegments⟩ := List.cons.inj hsegments
      obtain ⟨hid, -⟩ := List.cons.inj hsegments
      rw [InstanceKey.type_injective htype, Namespace.ext hns, QueueName.ext hq, InstanceId.ext hid]

/-- Different keys have different texts. -/
theorem build_injective : Function.Injective KeyName.build := by
  intro a b h
  rw [build_eq_text, build_eq_text] at h
  exact parts_injective (text_injective (parts_separable a) (parts_separable b) h)

/-- What is decoded from a key is what is decoded from its parts. -/
theorem extractData_build (k : KeyName) (hne : k.parts.segments ≠ []) :
    extractData k.build = (RedisKeys.extractData k.parts).map KeyData.ofParts := by
  rw [build_eq_text]
  exact extractData_text (parts_separable k) hne

/-- The keys of a queue that can be decoded. -/
def QueueKey.Decodable (kind : QueueKey) : Prop :=
  kind = .keyQueue ∨ kind = .keyQueuePriority ∨ kind = .keyQueueDL ∨ kind = .keyQueueAcknowledgedMessages

/-- What `extractData` gives back: the namespace, the type and the queue, and the identifier of the consumer or the
producer. -/
structure Decodes (ns : Namespace) (q : QueueName) (id : InstanceId) : Prop where
  queue : ∀ processNs kind, QueueKey.Decodable kind →
    extractData (getKeys processNs q.text (some ns.text) (.inr kind)) =
      some ⟨some ns.text, kind.type.number, some q.text, none, none⟩
  queueOfProcess : ∀ kind, QueueKey.Decodable kind →
    extractData (getKeys ns.text q.text none (.inr kind)) =
      some ⟨some ns.text, kind.type.number, some q.text, none, none⟩
  consumer : ∀ kind : InstanceKey, kind ≠ .keyRateProducerInput →
    extractData (getInstanceKeys ns.text q.text id.text (.inr kind)) =
      some ⟨some ns.text, kind.type.number, some q.text, some id.text, none⟩
  producer : extractData (getInstanceKeys ns.text q.text id.text (.inr .keyRateProducerInput)) =
    some ⟨some ns.text, ERedisKey.keyRateProducerInput.number, some q.text, none, some id.text⟩

theorem decodes_queue (ns : Namespace) (q : QueueName) {kind : QueueKey} (h : kind.Decodable) :
    extractData (KeyName.queue kind ns q).build = some ⟨some ns.text, kind.type.number, some q.text, none, none⟩ := by
  have hne : (KeyName.queue kind ns q).parts.segments ≠ [] := List.cons_ne_nil _ _
  rw [extractData_build _ hne]
  rcases h with rfl | rfl | rfl | rfl <;> rfl

theorem decodes_consumer (ns : Namespace) (q : QueueName) (id : InstanceId) {kind : InstanceKey}
    (h : kind ≠ .keyRateProducerInput) : extractData (KeyName.ofInstance kind ns q id).build =
      some ⟨some ns.text, kind.type.number, some q.text, some id.text, none⟩ := by
  have hne : (KeyName.ofInstance kind ns q id).parts.segments ≠ [] := List.cons_ne_nil _ _
  rw [extractData_build _ hne]
  cases kind with
  | keyRateProducerInput => exact absurd rfl h
  | _ => rfl

theorem decodes_producer (ns : Namespace) (q : QueueName) (id : InstanceId) :
    extractData (KeyName.ofInstance .keyRateProducerInput ns q id).build =
      some ⟨some ns.text, ERedisKey.keyRateProducerInput.number, some q.text, none, some id.text⟩ := by
  have hne : (KeyName.ofInstance .keyRateProducerInput ns q id).parts.segments ≠ [] := List.cons_ne_nil _ _
  rw [extractData_build _ hne]
  rfl

/-- Accepted names and identifiers without the separator are decoded from the keys, and different keys differ. -/
theorem keyCodec : (∀ ns q id, Decodes ns q id) ∧ Function.Injective KeyName.build := by
  refine ⟨fun ns q id => ?_, build_injective⟩
  constructor
  · exact fun _ _ h => decodes_queue ns q h
  · exact fun _ h => decodes_queue ns q h
  · exact fun _ h => decodes_consumer ns q id h
  · exact decodes_producer ns q id

end KeyText

end RedisSmq
