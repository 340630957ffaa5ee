import RedisSmq.Common.KeyText
import RedisSmq.Stats.Data

/-!
# The sizes of the queues

`getQueueSize` asks for four sizes of each queue in one `MULTI`, and gathers the keys beside it. The replies are told
apart by their positions: the key at the same position is decoded to a namespace, a queue and a type, and the size goes
to the field of that type, all other types being taken for acknowledged messages.

- the replies and the keys are aligned (`foldlM_aligned`), and the keys of a queue decode to it (`handleSize_key`), so
  that the sizes of a queue are assigned to its record and to no other (`getQueueSize_eq`);
- the records of all registered queues hold their sizes exactly when all of them are reached (`sizes_exact_iff`).

A queue named as a property of `Object.prototype` has no record and gets none. Two of these names are keys that
`validateRedisKey` returns, `constructor` and `__proto__`.
-/

namespace RedisSmq.Stats

open KeyText

/-- `TMessageQueue`. -/
@[ext] structure MessageQueue where
  ns : Namespace
  name : QueueName

inductive Command
  | llen (key : String)
  | zcard (key : String)
deriving DecidableEq

/-- What `EXEC` replies. -/
structure Store where
  llen : String → ℕ
  zcard : String → ℕ

def Store.reply (store : Store) : Command → ℕ
  | .llen key => store.llen key
  | .zcard key => store.zcard key

/-- `multi` and `keys`, as they are filled. -/
structure Batch where
  multi : List Command
  keys : List String

/-- The key of a kind, `redisKeys.getKeys(queue.name, queue.ns)`. -/
def MessageQueue.key (processNs : String) (queue : MessageQueue) (kind : QueueKey) : String :=
  getKeys processNs queue.name.text (some queue.ns.text) (.inr kind)

def Batch.addQueue (processNs : String) (batch : Batch) (queue : MessageQueue) : Batch :=
  let keyQueue := queue.key processNs .keyQueue
  let keyQueuePriority := queue.key processNs .keyQueuePriority
  let keyQueueDL := queue.key processNs .keyQueueDL
  let keyQueueAcknowledgedMessages := queue.key processNs .keyQueueAcknowledgedMessages
  { multi := batch.multi ++
      [.llen keyQueue, .zcard keyQueuePriority, .llen keyQueueDL, .llen keyQueueAcknowledgedMessages]
    keys := batch.keys ++ [keyQueue, keyQueuePriority, keyQueueDL, keyQueueAcknowledgedMessages] }

variable {ρ : Type}

/-- The assignment to the field of a type. -/
def Queue.setSize (type size : ℕ) (queue : Queue ρ) : Queue ρ :=
  if type = ERedisKey.keyQueueDL.number then { queue with deadLetteredMessages := size }
  else if type = ERedisKey.keyQueue.number then { queue with pendingMessages := size }
  else if type = ERedisKey.keyQueuePriority.number then { queue with pendingMessagesWithPriority := size }
  else { queue with acknowledgedMessages := size }

/-- A part that a key lacks is `undefined`, and so is the property of that name. -/
def propertyName (part : Option String) : String := part.getD "undefined"

def handleSize (queues : Queues ρ) (key : String) (size : ℕ) : Queues ρ :=
  match extractData key with
  | none => queues
  | some data => withQueue queues (propertyName data.ns) (propertyName data.queueName) (Queue.setSize data.type size)

/-- The reply at each position with the key at that position; without one `extractData` throws. -/
def handleResult (keys : List String) (res : List ℕ) (queues : Queues ρ) : Option (Queues ρ) :=
  res.zipIdx.foldlM (fun queues p => keys[p.2]?.map fun key => handleSize queues key p.1) queues

def getQueueSize (processNs : String) (store : Store) (registered : List MessageQueue) (queues : Queues ρ) :
    Option (Queues ρ) :=
  if registered.isEmpty then some queues
  else
    let batch := registered.foldl (Batch.addQueue processNs) ⟨[], []⟩
    handleResult batch.keys (batch.multi.map store.reply) queues

/-! ## What is meant -/

/-- The four sizes of a queue, each in its field. -/
def Queue.withSizes (processNs : String) (store : Store) (q : MessageQueue) (queue : Queue ρ) : Queue ρ :=
  { queue with
    pendingMessages := store.llen (q.key processNs .keyQueue)
    pendingMessagesWithPriority := store.zcard (q.key processNs .keyQueuePriority)
    deadLetteredMessages := store.llen (q.key processNs .keyQueueDL)
    acknowledgedMessages := store.llen (q.key processNs .keyQueueAcknowledgedMessages) }

/-- Each registered queue has a record with its own four sizes, and otherwise as it was; no other record changes. -/
structure SizesExact (processNs : String) (store : Store) (registered : List MessageQueue)
    (before after : Queues ρ) : Prop where
  recorded : ∀ q ∈ registered, queue? after q.ns.text q.name.text = some (Queue.withSizes processNs store q
    ((queue? before q.ns.text q.name.text).getD (Queue.new ρ q.ns.text q.name.text)))
  others : ∀ ns queueName, (∀ q ∈ registered, (q.ns.text, q.name.text) ≠ (ns, queueName)) →
    queue? after ns queueName = queue? before ns queueName

variable {processNs : String} {store : Store} {registered : List MessageQueue} {q q' : MessageQueue}
  {queues before after : Queues ρ} {ns queueName : String}

/-! ## Positions -/

/-- Items that are matched by their positions in two lists made of one. -/
theorem foldlM_aligned {α β γ σ : Type} (f : α → β) (g : α → γ) (h : σ → γ → β → σ) (l : List α) (pre : List γ)
    (s : σ) : ((l.map f).zipIdx pre.length).foldlM (fun s p => (pre ++ l.map g)[p.2]?.map fun c => h s c p.1) s =
      some (l.foldl (fun s a => h s (g a) (f a)) s) := by
  induction l generalizing pre s with
  | nil => rfl
  | cons a l ih =>
    have hhead : (pre ++ (a :: l).map g)[pre.length]? = some (g a) := by simp
    have hpre : pre ++ (a :: l).map g = (pre ++ [g a]) ++ l.map g := by simp
    have hlen : pre.length + 1 = (pre ++ [g a]).length := by simp
    have hitems : ((a :: l).map f).zipIdx pre.length = (f a, pre.length) :: (l.map f).zipIdx (pre ++ [g a]).length := by
      rw [List.map_cons, List.zipIdx_cons, hlen]
    rw [hitems, List.foldlM_cons, hhead, Option.map_some, Option.bind_eq_bind, Option.bind_some, hpre, ih]
    rfl

/-- The key of a command. -/
def Command.key : Command → String
  | .llen key => key
  | .zcard key => key

theorem keys_addQueue (processNs : String) (registered : List MessageQueue) (batch : Batch) (h : batch.keys = batch.multi.map Command.key) :
    (registered.foldl (Batch.addQueue processNs) batch).keys =
      (registered.foldl (Batch.addQueue processNs) batch).multi.map Command.key := by
  induction registered generalizing batch with
  | nil => exact h
  | cons q registered ih =>
    refine ih _ ?_
    rw [Batch.addQueue, h, List.map_append]
    rfl

/-- The commands of one queue. -/
def MessageQueue.commands (processNs : String) (queue : MessageQueue) : List Command :=
  [.llen (queue.key processNs .keyQueue), .zcard (queue.key processNs .keyQueuePriority),
    .llen (queue.key processNs .keyQueueDL), .llen (queue.key processNs .keyQueueAcknowledgedMessages)]

theorem multi_addQueue (processNs : String) (registered : List MessageQueue) (batch : Batch) :
    (registered.foldl (Batch.addQueue processNs) batch).multi =
      batch.multi ++ registered.flatMap (MessageQueue.commands processNs) := by
  induction registered generalizing batch with
  | nil => exact (List.append_nil _).symm
  | cons q registered ih =>
    rw [List.foldl_cons, ih, List.flatMap_cons, ← List.append_assoc]
    rfl

/-! ## The record of a queue -/

/-- A key of the four is decoded to the queue and its type. -/
theorem handleSize_key {kind : QueueKey} (h : kind.Decodable) (queues : Queues ρ) (size : ℕ) :
    handleSize queues (q.key processNs kind) size =
      withQueue queues q.ns.text q.name.text (Queue.setSize kind.type.number size) := by
  have hkey : q.key processNs kind = (KeyName.queue kind q.ns q.name).build := rfl
  rw [handleSize, hkey, decodes_queue q.ns q.name h]
  rfl

/-- The replies of one queue are its four sizes. -/
theorem foldl_commands (queues : Queues ρ) :
    (q.commands processNs).foldl (fun queues c => handleSize queues c.key (store.reply c)) queues =
      withQueue queues q.ns.text q.name.text (Queue.withSizes processNs store q) := by
  simp only [MessageQueue.commands, List.foldl_cons, List.foldl_nil, Command.key, Store.reply]
  rw [handleSize_key (Or.inl rfl), handleSize_key (Or.inr (Or.inl rfl)), handleSize_key (Or.inr (Or.inr (Or.inl rfl))),
    handleSize_key (Or.inr (Or.inr (Or.inr rfl))), withQueue_withQueue, withQueue_withQueue, withQueue_withQueue]
  rfl

/-- All that is assigned: to each registered queue its sizes. -/
def recordSizes (processNs : String) (store : Store) (registered : List MessageQueue) (queues : Queues ρ) : Queues ρ :=
  registered.foldl (fun queues q => withQueue queues q.ns.text q.name.text (Queue.withSizes processNs store q)) queues

theorem foldl_flatMap_commands (registered : List MessageQueue) (queues : Queues ρ) :
    (registered.flatMap (MessageQueue.commands processNs)).foldl
      (fun queues c => handleSize queues c.key (store.reply c)) queues = recordSizes processNs store registered queues := by
  induction registered generalizing queues with
  | nil => rfl
  | cons q registered ih =>
    rw [List.flatMap_cons, List.foldl_append, foldl_commands, ih]
    rfl

theorem getQueueSize_eq (registered : List MessageQueue) (queues : Queues ρ) :
    getQueueSize processNs store registered queues = some (recordSizes processNs store registered queues) := by
  unfold getQueueSize
  cases registered with
  | nil => rfl
  | cons q registered =>
    have hmulti := multi_addQueue processNs (q :: registered) ⟨[], []⟩
    have hkeys := keys_addQueue processNs (q :: registered) ⟨[], []⟩ rfl
    rw [List.nil_append] at hmulti
    have haligned := foldlM_aligned store.reply Command.key (handleSize (ρ := ρ))
      ((q :: registered).flatMap (MessageQueue.commands processNs)) [] queues
    rw [foldl_flatMap_commands] at haligned
    rw [List.isEmpty_cons, if_neg Bool.false_ne_true]
    dsimp only
    rw [handleResult, hkeys, hmulti]
    exact haligned

/-! ## All queues -/

theorem queue?_recordSizes_of_ne (h : ∀ q ∈ registered, (q.ns.text, q.name.text) ≠ (ns, queueName)) :
    queue? (recordSizes processNs store registered queues) ns queueName = queue? queues ns queueName := by
  induction registered generalizing queues with
  | nil => rfl
  | cons q registered ih =>
    have hq := h q List.mem_cons_self
    refine (ih fun q' hq' => h q' (List.mem_cons_of_mem q hq')).trans ?_
    rw [queue?_withQueue, if_neg fun hand => hq hand.1.symm]

theorem reaches_recordSizes : Reaches (recordSizes processNs store registered queues) ns queueName ↔
    Reaches queues ns queueName := by
  induction registered generalizing queues with
  | nil => exact Iff.rfl
  | cons q registered ih => exact ih.trans reaches_withQueue

theorem eq_of_texts (h : (q.ns.text, q.name.text) = (q'.ns.text, q'.name.text)) : q = q' :=
  MessageQueue.ext (Namespace.ext (congrArg Prod.fst h)) (QueueName.ext (congrArg Prod.snd h))

theorem queue?_recordSizes (hq : q ∈ registered) (hreach : Reaches queues q.ns.text q.name.text) :
    queue? (recordSizes processNs store registered queues) q.ns.text q.name.text =
      some (Queue.withSizes processNs store q
        ((queue? queues q.ns.text q.name.text).getD (Queue.new ρ q.ns.text q.name.text))) := by
  induction registered generalizing queues with
  | nil => cases hq
  | cons q₀ registered ih =>
    have hstep : queue? (withQueue queues q₀.ns.text q₀.name.text (Queue.withSizes processNs store q₀))
      q.ns.text q.name.text = _ := queue?_withQueue
    by_cases hmem : q ∈ registered
    · refine (ih hmem (reaches_withQueue.mpr hreach)).trans ?_
      rw [hstep]
      split
      case isTrue h =>
        obtain rfl := eq_of_texts h.1
        rfl
      case isFalse => rfl
    · obtain rfl : q = q₀ := (List.mem_cons.mp hq).resolve_right hmem
      rw [if_pos ⟨rfl, hreach⟩] at hstep
      have hrest : ∀ q' ∈ registered, (q'.ns.text, q'.name.text) ≠ (q.ns.text, q.name.text) := by
        intro q' hq' heq
        rw [eq_of_texts heq] at hq'
        exact hmem hq'
      exact (queue?_recordSizes_of_ne hrest).trans hstep

/-- The sizes of all registered queues are recorded, and no others, exactly when the record of each is reached: it is
there, or its names are not those of properties that objects inherit. -/
theorem sizes_exact_iff (processNs : String) (store : Store) (registered : List MessageQueue) (before : Queues ρ) :
    (∃ after, getQueueSize processNs store registered before = some after ∧
      SizesExact processNs store registered before after) ↔
    ∀ q ∈ registered, Reaches before q.ns.text q.name.text := by
  constructor
  · rintro ⟨after, hafter, hexact⟩ q hq
    obtain rfl := Option.some.inj ((getQueueSize_eq registered before).symm.trans hafter)
    by_contra hreach
    have hrecorded := hexact.recorded q hq
    rw [queue?_eq_none fun h => hreach (reaches_recordSizes.mp h)] at hrecorded
    cases hrecorded
  · intro hreach
    refine ⟨_, getQueueSize_eq registered before, ?_, ?_⟩
    · exact fun q hq => queue?_recordSizes hq (hreach q hq)
    · exact fun ns queueName h => queue?_recordSizes_of_ne h

/-! ## Names of inherited properties -/

/-- Two names of inherited properties are keys that `validateRedisKey` returns. -/
theorem mem_objectPrototype_iff {key name : String} (h : RedisKeys.validateRedisKey key = .ok name) :
    name ∈ objectPrototype ↔ name = "constructor" ∨ name = "__proto__" := by
  have hself : RedisKeys.validateRedisKey name = .ok name := RedisKeys.validateRedisKey_idem h
  have hnames : ∀ name ∈ objectPrototype, RedisKeys.validateRedisKey name = .ok name →
      name = "constructor" ∨ name = "__proto__" := by decide
  refine ⟨fun hname => hnames name hname hself, ?_⟩
  rintro (rfl | rfl) <;> decide

def testing : Namespace := ⟨"testing", "testing", by decide⟩

/-- A queue with the name of an inherited property. -/
def constructorQueue : MessageQueue := ⟨testing, "constructor", "constructor", by decide⟩

/-- Each of its lists has three messages, and nothing is recorded. -/
theorem not_sizesExact_constructor : ¬∃ after : Queues Unit,
    getQueueSize "testing" ⟨fun _ => 3, fun _ => 3⟩ [constructorQueue] ∅ = some after ∧
      SizesExact "testing" ⟨fun _ => 3, fun _ => 3⟩ [constructorQueue] ∅ after := by
  rintro ⟨after, hafter, hexact⟩
  obtain rfl := Option.some.inj ((getQueueSize_eq _ _).symm.trans hafter)
  have hrecorded := hexact.recorded constructorQueue List.mem_cons_self
  rw [queue?_eq_none (by rw [reaches_recordSizes]; decide)] at hrecorded
  cases hrecorded

end RedisSmq.Stats
