import RedisSmq.Common.KeyText
import RedisSmq.Process.System

/-!
# Entry points

A queue is named by two kinds of callers. The constructor of `Base` takes the name through `validateRedisKey` and the
configured namespace through `setNamespace`, so a producer or consumer uses the keys of the names in lower case. The
operations of the managers build their keys from the names as they are given.

For names that are accepted both use the same keys exactly when both names are in lower case already, or the namespace is
the reserved one and there is no producer or consumer (`alike_iff`).
-/

namespace RedisSmq.EntryPoints

open KeyText (GlobalKey QueueKey InstanceKey)
open RedisKeys (validateRedisKey setNamespace globalNamespace)

/-! ## Producers and consumers -/

/-- The queue of a producer or consumer: its name, and the module variable after its constructor. -/
def baseQueue (processNs : String) (config : Process.Config) (queueName : String) : Except String TMessageQueue := do
  let ns ← Process.configure processNs config
  let name ← validateRedisKey queueName
  return ⟨name, ns⟩

/-- The keys that the constructor of `Base` computes. -/
def redisKeys (q : TMessageQueue) (id : String) : (GlobalKey ⊕ QueueKey) ⊕ InstanceKey → String :=
  KeyText.getInstanceKeys q.ns q.name id

/-! ## Managers -/

/-- The operations of the managers that take a queue name and a namespace. -/
inductive Operation
  | getAcknowledgedMessages | getDeadLetteredMessages | getPendingMessages | getPendingMessagesWithPriority
  | deletePendingMessage | deletePendingMessageWithPriority | deleteDeadLetterMessage | deleteAcknowledgedMessage
  | requeueMessageFromDLQueue (withPriority : Bool) | requeueMessageFromAcknowledgedQueue (withPriority : Bool)
  | purgeDeadLetterQueue | purgeAcknowledgedMessagesQueue | purgeQueue | purgePriorityQueue | getQueueMetrics
deriving DecidableEq

/-- The fields of `getKeys` that a message is enqueued to. -/
def enqueueFields (withPriority : Bool) : List (GlobalKey ⊕ QueueKey) :=
  if withPriority then [.inr .keyQueuePriority, .inr .keyPendingMessagesWithPriority] else [.inr .keyQueue]

/-- The fields of `getKeys` that an operation uses. -/
def Operation.fields : Operation → List (GlobalKey ⊕ QueueKey)
  | .getAcknowledgedMessages => [.inr .keyQueueAcknowledgedMessages]
  | .getDeadLetteredMessages => [.inr .keyQueueDL]
  | .getPendingMessages => [.inr .keyQueue]
  | .getPendingMessagesWithPriority => [.inr .keyQueuePriority, .inr .keyPendingMessagesWithPriority]
  | .deletePendingMessage => [.inr .keyQueue, .inl .keyLockDeletePendingMessage]
  | .deletePendingMessageWithPriority =>
    [.inr .keyQueuePriority, .inr .keyPendingMessagesWithPriority, .inl .keyLockDeletePendingMessageWithPriority]
  | .deleteDeadLetterMessage => [.inr .keyQueueDL, .inl .keyLockDeleteDeadLetterMessage]
  | .deleteAcknowledgedMessage => [.inr .keyQueueAcknowledgedMessages, .inl .keyLockDeleteAcknowledgedMessage]
  | .requeueMessageFromDLQueue withPriority => .inr .keyQueueDL :: enqueueFields withPriority
  | .requeueMessageFromAcknowledgedQueue withPriority =>
    .inr .keyQueueAcknowledgedMessages :: enqueueFields withPriority
  | .purgeDeadLetterQueue => [.inr .keyQueueDL]
  | .purgeAcknowledgedMessagesQueue => [.inr .keyQueueAcknowledgedMessages]
  | .purgeQueue => [.inr .keyQueue]
  | .purgePriorityQueue => [.inr .keyQueuePriority]
  | .getQueueMetrics =>
    [.inr .keyQueue, .inr .keyQueuePriority, .inr .keyQueueDL, .inr .keyQueueAcknowledgedMessages]

/-- The key of a field in an operation on the queue `queueName` of the namespace `ns`. -/
def managerKey (processNs queueName ns : String) : GlobalKey ⊕ QueueKey → String :=
  KeyText.getKeys processNs queueName (some ns)

/-! ## Agreement -/

/-- What a name and a namespace stand for is the same for a producer or consumer and for the managers: the keys, that what
is produced is found, and that what is deleted is gone. -/
structure Alike (lt : Text → Text → Bool) (queueName ns : String) : Prop where
  keys : ∀ {processNs processNs' id : String} {withPriority : Bool} {q : TMessageQueue},
    baseQueue processNs ⟨some ns, withPriority⟩ queueName = .ok q → ∀ op : Operation, ∀ k ∈ op.fields,
    managerKey processNs' queueName ns k = redisKeys q id (.inl k)
  visible : ∀ {processNs processNs' : String} {q : TMessageQueue},
    baseQueue processNs ⟨some ns, false⟩ queueName = .ok q → ∀ (db : Db) (m : Message) (now : ℕ),
    EnqueueHandler.enqueued m false now ∈ (db.execAll lt (EnqueueHandler.enqueueCmds q m false now)).lists
      (RedisKeys.getKeys processNs' queueName (some ns)).keyQueue
  visibleWithPriority : ∀ {processNs processNs' : String} {q : TMessageQueue},
    baseQueue processNs ⟨some ns, true⟩ queueName = .ok q → ∀ (db : Db) (m : Message) (now : ℕ),
    (db.execAll lt (EnqueueHandler.enqueueCmds q m true now)).hashes
      (RedisKeys.getKeys processNs' queueName (some ns)).keyPendingMessagesWithPriority (.id m.uuid) =
        some (EnqueueHandler.enqueued m true now)
  removable : ∀ {processNs processNs' : String} {q : TMessageQueue},
    baseQueue processNs ⟨some ns, false⟩ queueName = .ok q → ∀ (db : Db) (m : Message),
    (db.exec lt (.lrem (RedisKeys.getKeys processNs' queueName (some ns)).keyQueue m)).lists q.keys.keyQueue =
      (db.lists q.keys.keyQueue).erase m
  removableWithPriority : ∀ {processNs : String} {q : TMessageQueue},
    baseQueue processNs ⟨some ns, true⟩ queueName = .ok q → ∀ (db : Db) (id : String),
    Text.id id ∉ ((db.execAll lt (EnqueueHandler.deletePendingMessageWithPriority ⟨queueName, ns⟩ id)).zsets
      q.keys.keyQueuePriority).members

variable {lt : Text → Text → Bool} {queueName name ns ns' processNs : String} {q : TMessageQueue} {withPriority : Bool}

/-- The queue of an instance has the names in lower case. -/
theorem baseQueue_ok (hq : validateRedisKey queueName = .ok name) (hn : validateRedisKey ns = .ok ns')
    (hg : ns' ≠ globalNamespace) : baseQueue processNs ⟨some ns, withPriority⟩ queueName = .ok ⟨name, ns'⟩ := by
  have hempty : ns.isEmpty = false := by simpa using (RedisKeys.validateRedisKey_eq_ok.mp hn).1
  have hset : setNamespace ns = .ok ns' := RedisKeys.setNamespace_eq_ok.mpr ⟨hn, hg⟩
  simp [baseQueue, Process.configure, hempty, hset, hq, bind, Except.bind, pure, Except.pure]

/-- In the reserved namespace there is no instance. -/
theorem baseQueue_global (hn : validateRedisKey ns = .ok globalNamespace) :
    baseQueue processNs ⟨some ns, withPriority⟩ queueName ≠ .ok q := by
  have hempty : ns.isEmpty = false := by simpa using (RedisKeys.validateRedisKey_eq_ok.mp hn).1
  simp [baseQueue, Process.configure, hempty, setNamespace, hn, bind, Except.bind]

/-- No instance, nothing to agree on. -/
theorem alike_global (hn : validateRedisKey ns = .ok globalNamespace) : Alike lt queueName ns where
  keys h := absurd h (baseQueue_global hn)
  visible h := absurd h (baseQueue_global hn)
  visibleWithPriority h := absurd h (baseQueue_global hn)
  removable h := absurd h (baseQueue_global hn)
  removableWithPriority h := absurd h (baseQueue_global hn)

/-- Names in lower case: all use the same keys. -/
theorem alike_of_normal (hq : validateRedisKey queueName = .ok queueName) (hn : validateRedisKey ns = .ok ns)
    (hg : ns ≠ globalNamespace) : Alike lt queueName ns := by
  have hbase : ∀ {processNs : String} {withPriority : Bool} {q : TMessageQueue},
      baseQueue processNs ⟨some ns, withPriority⟩ queueName = .ok q → q = ⟨queueName, ns⟩ := by
    intro processNs withPriority q h
    rw [baseQueue_ok hq hn hg] at h
    exact (Except.ok.inj h).symm
  have hkeys : ∀ processNs' : String,
      RedisKeys.getKeys processNs' queueName (some ns) = TMessageQueue.keys ⟨queueName, ns⟩ := fun _ => rfl
  constructor
  · intro processNs processNs' id withPriority q h op k _
    rw [hbase h, redisKeys, KeyText.getInstanceKeys_inl]
    rfl
  · intro processNs processNs' q h db m now
    rw [hbase h, hkeys]
    simp [EnqueueHandler.enqueueCmds, Db.exec]
  · intro processNs processNs' q h db m now
    rw [hbase h, hkeys]
    simp [EnqueueHandler.enqueueCmds, Db.exec]
  · intro processNs processNs' q h db m
    rw [hbase h, hkeys]
    simp [Db.exec]
  · intro processNs q h db id
    rw [hbase h]
    simp [EnqueueHandler.deletePendingMessageWithPriority, Db.exec, SortedSet.mem_zrem]

/-- When the keys of the pending messages agree, the names are in lower case. -/
theorem normal_of_keys (hq : validateRedisKey queueName = .ok name) (hn : validateRedisKey ns = .ok ns')
    (h : managerKey processNs queueName ns (.inr .keyQueue) = redisKeys ⟨name, ns'⟩ "" (.inl (.inr .keyQueue))) :
    queueName = name ∧ ns = ns' := by
  rw [managerKey, redisKeys, KeyText.getInstanceKeys_inl, KeyText.getKeys_inr, KeyText.getKeys_inr] at h
  have hq' : '|' ∉ name.toList := RedisKeys.separator_not_mem (RedisKeys.validateRedisKey_idem hq)
  have hn' : '|' ∉ ns'.toList := RedisKeys.separator_not_mem (RedisKeys.validateRedisKey_idem hn)
  have hparts := KeyText.text_injective
    ⟨RedisKeys.separator_not_mem hn, by simpa using RedisKeys.separator_not_mem hq⟩ ⟨hn', by simpa using hq'⟩ h
  obtain ⟨hns, -, hsegments⟩ := RedisKey.mk.inj hparts
  exact ⟨(List.cons.inj hsegments).1, hns⟩

/-- For accepted names, producers and consumers agree with the managers exactly when both names are in lower case, or the
namespace is reserved. -/
theorem alike_iff (hq : validateRedisKey queueName = .ok name) (hn : validateRedisKey ns = .ok ns') :
    Alike lt queueName ns ↔ (queueName = name ∧ ns = ns') ∨ ns' = globalNamespace := by
  by_cases hg : ns' = globalNamespace
  · subst hg
    exact iff_of_true (alike_global hn) (.inr rfl)
  · constructor
    · intro h
      have hbase : baseQueue ns' ⟨some ns, false⟩ queueName = .ok ⟨name, ns'⟩ := baseQueue_ok hq hn hg
      have hkeys : managerKey ns' queueName ns (.inr .keyQueue) = redisKeys ⟨name, ns'⟩ "" (.inl (.inr .keyQueue)) :=
        h.keys hbase .purgeQueue _ (List.mem_singleton_self _)
      exact .inl (normal_of_keys hq hn hkeys)
    · rintro (⟨rfl, rfl⟩ | h)
      · exact alike_of_normal hq hn hg
      · exact absurd h hg

/-- The queue `orders` of the namespace `shop`. -/
theorem alike_orders : Alike (fun _ _ => false) "orders" "shop" ↔
    ("orders" = "orders" ∧ "shop" = "shop") ∨ "shop" = globalNamespace :=
  alike_iff (by decide) (by decide)

/-- The queue `Orders`: a producer uses the keys of `orders`, and the managers do not. -/
theorem not_alike_upper : ¬Alike (fun _ _ => false) "Orders" "shop" := by
  intro h
  have hq : validateRedisKey "Orders" = .ok "orders" := by decide
  have hn : validateRedisKey "shop" = .ok "shop" := by decide
  have hbase : baseQueue "default" ⟨some "shop", false⟩ "Orders" = .ok ⟨"orders", "shop"⟩ :=
    baseQueue_ok hq hn (by decide)
  have hkeys : managerKey "default" "Orders" "shop" (.inr .keyQueue) =
      redisKeys ⟨"orders", "shop"⟩ "" (.inl (.inr .keyQueue)) :=
    h.keys hbase .purgeQueue _ (List.mem_singleton_self _)
  exact absurd (normal_of_keys hq hn hkeys).1 (by decide)

end RedisSmq.EntryPoints
