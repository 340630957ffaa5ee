import RedisSmq.Queue.Origin
import RedisSmq.Queue.Scheduled
import RedisSmq.Queue.Modes

/-!
# Reading identifiers, then payloads

`getPaginatedSortedSetMessages` asks for the size of a sorted set, then for the identifiers of a page, then for their
payloads; the schedule worker asks for the due identifiers, then for their payloads. `HMGET` replies `null` for an
identifier whose payload is gone, and `Message.createFromMessage(null)` is a new message with an identifier of its own and
without a queue: the reader returns it, and the schedule worker dies of it.

The machine of this file has any number of readers next to the other actors. In the runs in which every `HMGET` finds the
payloads of all the identifiers it asks for (`found`), readers return exactly the messages whose identifiers they have
read, all of them produced by someone, and the schedule worker does not die (`readsStored_reachable`).
-/

namespace RedisSmq

/-- `createFromMessage` of a reply of `HMGET`: `null` has no fields to assign to the new message. -/
def Message.createFromReply (opts : TMessageDefaultOptions) (uuid : String) (now : ℕ) : Option Message → Message
  | some m => m
  | none => Message.new opts uuid now

namespace Reader

open RedisKeys Transition Queue

/-- A sorted set of identifiers with a hash of payloads. -/
inductive Store
  | scheduled
  | pendingWithPriority (q : TMessageQueue)

def Store.keySortedSet : Store → RedisKey
  | .scheduled => getGlobalKeys.keyQueueScheduled
  | .pendingWithPriority q => q.keys.keyQueuePriority

def Store.keyMessages : Store → RedisKey
  | .scheduled => getGlobalKeys.keyScheduledMessages
  | .pendingWithPriority q => q.keys.keyPendingMessagesWithPriority

/-- A call of `getPaginatedSortedSetMessages`, between two of its round trips; `items` are the identifiers it has read. -/
inductive Call
  | idle
  | total (store : Store) (skip take : ℤ) (total : ℕ)
  | ids (store : Store) (total : ℕ) (items : List Text)
  | done (total : ℕ) (items : List Text) (messages : List Message)

structure State where
  queue : Queue.State
  calls : String → Call

inductive Action
  | queue (a : Queue.Action)
  | getTotalItems (caller : String) (store : Store) (skip take : ℤ)
  | getMessageIds (caller : String)
  | getMessages (caller : String) (uuid : ℕ → String) (now : ℕ)

section Step

variable (cron : CronParser) (lt : Text → Text → Bool) (config : String → ConsumerConfig) (opts : TMessageDefaultOptions)

/-- `getTotalItems`. -/
def getTotalItems (db : Db) (store : Store) (skip take : ℤ) : Call :=
  let total := (db.zsets store.keySortedSet).zcard
  if total = 0 then .done 0 [] [] else .total store skip take total

/-- `getMessageIds`. -/
def getMessageIds (db : Db) (store : Store) (skip take : ℤ) (total : ℕ) : Call :=
  let items := (db.zsets store.keySortedSet).zrange skip (skip + take - 1)
  if items = [] then .done total [] [] else .ids store total items

/-- `getMessages`; every message is constructed with an identifier of its own first. -/
def getMessages (db : Db) (store : Store) (items : List Text) (uuid : ℕ → String) (now : ℕ) : List Message :=
  (items.map (db.hashes store.keyMessages)).mapIdx fun i reply => Message.createFromReply opts (uuid i) now reply

def step (s : State) : Action → Option State
  | .queue a => (Queue.step cron lt config s.queue a).map fun queue => { s with queue := queue }
  | .getTotalItems caller store skip take =>
    match s.calls caller with
    | .idle | .done .. =>
      some { s with calls := Function.update s.calls caller (getTotalItems s.queue.db store skip take) }
    | _ => none
  | .getMessageIds caller =>
    match s.calls caller with
    | .total store skip take total =>
      some { s with calls := Function.update s.calls caller (getMessageIds s.queue.db store skip take total) }
    | _ => none
  | .getMessages caller uuid now =>
    match s.calls caller with
    | .ids store total items =>
      some { s with
        calls := Function.update s.calls caller
          (.done total items (getMessages opts s.queue.db store items uuid now)) }
    | _ => none

/-- The machine of the readers and the other actors. -/
def system : Machine State Action where
  init := ⟨Queue.init, fun _ => .idle⟩
  step := step cron lt config opts

end Step

/-- The hash has a payload for all identifiers that an `HMGET` asks for. -/
def found (s : State) : Action → Bool
  | .getMessages caller _ _ =>
    match s.calls caller with
    | .ids store _ items => items.all fun t => (s.queue.db.hashes store.keyMessages t).isSome
    | _ => true
  | .queue (.scheduleFetchMessages _) =>
    match s.queue.scheduleTick with
    | .ids _ ids => ids.all fun t => (s.queue.db.hashes getGlobalKeys.keyScheduledMessages t).isSome
    | _ => true
  | _ => true

/-- The message was produced. -/
def WasProduced (produced : List Produced) (m : Message) : Prop := ∃ r ∈ produced, content r.message = content m

/-- The messages are those with the identifiers, and were produced. -/
def Answers (produced : List Produced) (items : List Text) (messages : List Message) : Prop :=
  messages.map (fun m => Text.id m.uuid) = items ∧ ∀ m ∈ messages, WasProduced produced m

/-- Readers return the messages whose identifiers they have read, the schedule worker works on messages that were
produced, and it does not die. -/
structure ReadsStored (s : State) : Prop where
  calls : ∀ caller total items messages, s.calls caller = .done total items messages →
    Answers s.queue.produced items messages
  tick : ∀ withPriority now rest, s.queue.scheduleTick = .messages withPriority now rest →
    ∀ reply ∈ rest, ∃ m, reply = some m ∧ WasProduced s.queue.produced m
  alive : s.queue.scheduleTick ≠ .dead

section

variable {cron : CronParser} {lt : Text → Text → Bool} {config : String → ConsumerConfig}
variable {opts : TMessageDefaultOptions} {s s' : State} {a : Action}

/-! ## One read -/

/-- A message that is built from a payload is the payload. -/
theorem getMessages_eq {db : Db} {store : Store} {items : List Text} {uuid : ℕ → String} {now : ℕ} :
    ∀ {ms : List Message}, items.map (db.hashes store.keyMessages) = ms.map some →
    getMessages opts db store items uuid now = ms := by
  intro ms h
  rw [getMessages, h]
  refine List.ext_getElem (by simp) (fun i h1 h2 => ?_)
  simp [Message.createFromReply]

/-- **A missing payload** makes the reader return a message that it has not read the identifier of. -/
theorem getMessages_missing {db : Db} {store : Store} {items : List Text} {uuid : ℕ → String} {now : ℕ} {t : Text}
    (ht : t ∈ items) (hnone : db.hashes store.keyMessages t = none) :
    ∃ i, Message.new opts (uuid i) now ∈ getMessages opts db store items uuid now := by
  obtain ⟨i, hi, rfl⟩ := List.mem_iff_getElem.mp ht
  refine ⟨i, List.mem_iff_getElem.mpr ⟨i, by simpa [getMessages] using hi, ?_⟩⟩
  simp [getMessages, hnone, Message.createFromReply]

/-! ## Runs -/

/-- The other actors take their own steps. -/
theorem queue_reach {P : State → Action → Prop} (h : Reach (system cron lt config opts) P s) :
    Reach (Queue.system cron lt config) (fun _ _ => True) s.queue := by
  induction h with
  | init => exact .init
  | @step _ _ a _ _ hs ih =>
    cases a with
    | queue a =>
      obtain ⟨queue, hq, rfl⟩ := Option.map_eq_some_iff.mp hs
      exact .step ih trivial hq
    | getTotalItems | getMessageIds | getMessages =>
      simp only [system, step] at hs
      split at hs <;> cases hs <;> exact ih

/-- In any run, the payloads of both stores lie under their identifiers. -/
theorem payload_id {q : Queue.State} (h : Reach (Queue.system cron lt config) (fun _ _ => True) q) (store : Store)
    {t : Text} {m : Message} (hm : q.db.hashes store.keyMessages t = some m) : t = .id m.uuid := by
  cases store with
  | scheduled => exact (storeInv_reachable h).filed (.field _ t) m hm
  | pendingWithPriority r =>
    have hinv : Db.Forall UnderId q.db := h.invariant (I := fun q => Db.Forall UnderId q.db) Db.Forall.empty
      (fun _ _ _ hi _ hs => step_forall hs hi (fun _ _ => stepPuts_underId))
    exact hinv (.field _ t) m hm rfl

/-- What an `HMGET` finds was produced. -/
theorem payloads_produced {q : Queue.State} (h : Reach (Queue.system cron lt config) (fun _ _ => True) q) {store : Store}
    {items : List Text} (hfound : ∀ t ∈ items, (q.db.hashes store.keyMessages t).isSome) :
    ∃ ms : List Message, items.map (q.db.hashes store.keyMessages) = ms.map some ∧ Answers q.produced items ms := by
  have hstored : ∀ t ∈ items, ∃ m, q.db.hashes store.keyMessages t = some m ∧ t = .id m.uuid ∧
      WasProduced q.produced m := by
    intro t ht
    obtain ⟨m, hm⟩ := Option.isSome_iff_exists.mp (hfound t ht)
    exact ⟨m, hm, payload_id h store hm, (stock_reachable h m (.inl ⟨.field _ t, hm⟩)).produced⟩
  obtain ⟨ms, hpayloads, hids, hms⟩ := Db.payloads_of_ids items hstored
  exact ⟨ms, hpayloads, hids.symm, fun m hm => (hms m hm).2⟩

theorem Answers.nil {produced : List Produced} : Answers produced [] [] := ⟨rfl, fun _ hm => absurd hm List.not_mem_nil⟩

/-- A step of the other actors that finds its payloads keeps the reads as they should be. -/
theorem ReadsStored.queue_step (hi : ReadsStored s)
    (hr : Reach (Queue.system cron lt config) (fun _ _ => True) s.queue) {a : Queue.Action} {q : Queue.State}
    (hf : found s (.queue a) = true) (hs : Queue.step cron lt config s.queue a = some q) :
    ReadsStored { s with queue := q } := by
  have hmono : ∀ {m}, WasProduced s.queue.produced m → WasProduced q.produced m :=
    fun ⟨r, hr, h⟩ => ⟨r, produced_subset hs hr, h⟩
  have htick := step_tick hs
  refine ⟨fun caller total items messages hc => ?_, fun withPriority now rest ht reply hreply => ?_, fun hd => ?_⟩
  · obtain ⟨h1, h2⟩ := hi.calls caller total items messages hc
    exact ⟨h1, fun m hm => hmono (h2 m hm)⟩
  · have ht' : q.scheduleTick = .messages withPriority now rest := ht
    generalize q.scheduleTick = tick at htick ht'
    cases htick with
    | other =>
      obtain ⟨m, hm, hp⟩ := hi.tick _ _ _ ht' reply hreply
      exact ⟨m, hm, hmono hp⟩
    | @fetchMessages _ ids _ hids =>
      cases ht'
      simp only [found, hids, List.all_eq_true] at hf
      have hfound : ∀ t ∈ ids, (s.queue.db.hashes (Store.keyMessages .scheduled) t).isSome := hf
      obtain ⟨ms, h1, _, h3⟩ := payloads_produced hr hfound
      have hreply' : reply ∈ ms.map some := h1 ▸ hreply
      obtain ⟨m, hm, rfl⟩ := List.mem_map.mp hreply'
      exact ⟨m, rfl, hmono (h3 m hm)⟩
    | enqueued hold =>
      cases ht'
      obtain ⟨m, hm, hp⟩ := hi.tick _ _ _ hold reply (List.mem_cons_of_mem _ hreply)
      exact ⟨m, hm, hmono hp⟩
    | _ => cases ht'
  · have hd' : q.scheduleTick = .dead := hd
    generalize q.scheduleTick = tick at htick hd'
    cases htick with
    | other => exact hi.alive hd'
    | missing hold =>
      obtain ⟨m, hm, _⟩ := hi.tick _ _ _ hold none List.mem_cons_self
      cases hm
    | noQueue hold hq =>
      have hsome := (stock_reachable hr _ (.inr (.schedule hold List.mem_cons_self))).queue
      rw [hq] at hsome
      cases hsome
    | _ => cases hd'

/-- A call that only returns what it should keeps the reads as they should be. -/
theorem ReadsStored.setCall (hi : ReadsStored s) {caller : String} {call : Call}
    (hdone : ∀ total items messages, call = .done total items messages → Answers s.queue.produced items messages) :
    ReadsStored { s with calls := Function.update s.calls caller call } := by
  refine ⟨fun caller' total items messages hc => ?_, hi.tick, hi.alive⟩
  have hc' : Function.update s.calls caller call caller' = .done total items messages := hc
  by_cases heq : caller' = caller
  · subst heq
    rw [Function.update_self] at hc'
    exact hdone total items messages hc'
  · rw [Function.update_of_ne heq] at hc'
    exact hi.calls caller' total items messages hc'

/-- A step that finds its payloads keeps the reads as they should be. -/
theorem ReadsStored.step (hi : ReadsStored s) (hr : Reach (Queue.system cron lt config) (fun _ _ => True) s.queue)
    (hf : found s a = true) (hs : Reader.step cron lt config opts s a = some s') : ReadsStored s' := by
  cases a with
  | queue a =>
    obtain ⟨queue, hq, rfl⟩ := Option.map_eq_some_iff.mp hs
    exact hi.queue_step hr hf hq
  | getTotalItems caller store skip take =>
    have hdone : ∀ total items messages, getTotalItems s.queue.db store skip take = .done total items messages →
        Answers s.queue.produced items messages := by
      intro total items messages hc
      unfold getTotalItems at hc
      dsimp only at hc
      split at hc <;> cases hc
      exact .nil
    simp only [Reader.step] at hs
    split at hs <;> cases hs <;> exact hi.setCall hdone
  | getMessageIds caller =>
    simp only [Reader.step] at hs
    split at hs <;> cases hs
    refine hi.setCall (fun total items messages hc => ?_)
    unfold getMessageIds at hc
    dsimp only at hc
    split at hc <;> cases hc
    exact .nil
  | getMessages caller uuid now =>
    simp only [Reader.step] at hs
    split at hs <;> cases hs
    rename_i store total items hc
    simp only [found, hc, List.all_eq_true] at hf
    obtain ⟨ms, h1, hanswers⟩ := payloads_produced hr hf
    refine hi.setCall (fun total' items' messages hd => ?_)
    cases hd
    rwa [getMessages_eq h1]

/-- **Reads see stored messages only** in every run in which every `HMGET` finds the payloads it asks for. -/
theorem readsStored_reachable (h : Reach (system cron lt config opts) (fun s a => found s a = true) s) :
    ReadsStored s := by
  induction h with
  | init => exact ⟨fun _ _ _ _ hc => (by cases hc), fun _ _ _ ht => (by cases ht), fun ht => (by cases ht)⟩
  | step hr hf hs ih => exact ih.step (queue_reach hr) hf hs

end

/-! ## A message that nobody produced -/

/-- A message is deleted after its identifier was read, by a caller of `getScheduledMessages` and by the schedule
worker, and before its payload is. -/
def deletedRun : Option State :=
  run (system minuteParser (fun _ _ => false) twoModes Message.defaultOpts) (fun _ _ => True)
    ⟨Queue.init, fun _ => .idle⟩
    [.queue (.produce ⟨"q", "ns"⟩ false tenSeconds 1), .getTotalItems "r" .scheduled 0 10, .getMessageIds "r",
      .queue (.scheduleFetchIds false 10001), .queue (.deleteScheduled "m"), .getMessages "r" (fun _ => "new") 10002,
      .queue (.scheduleFetchMessages 10003), .queue .scheduleExec]

/-- The messages that a call returned, and whether the schedule worker is dead. -/
def observe (s : State) (caller : String) : List Message × Bool :=
  (match s.calls caller with
    | .done _ _ messages => messages
    | _ => [],
   match s.queue.scheduleTick with
    | .dead => true
    | _ => false)

/-- The caller gets a message that nobody produced, and the schedule worker dies. -/
theorem not_readsStored_deleted :
    (∃ s, Reach (system minuteParser (fun _ _ => false) twoModes Message.defaultOpts) (fun _ _ => True) s ∧
      observe s "r" = ([Message.new Message.defaultOpts "new" 10002], true)) ∧
    ¬∀ s, Reach (system minuteParser (fun _ _ => false) twoModes Message.defaultOpts) (fun _ _ => True) s →
      ReadsStored s := by
  have hrun : deletedRun.map (observe · "r") = some ([Message.new Message.defaultOpts "new" 10002], true) := by decide
  obtain ⟨s, hreach, heq⟩ := exists_reach_of_run hrun
  refine ⟨⟨s, hreach, heq⟩, fun h => ?_⟩
  have hdead : (observe s "r").2 = true := by rw [heq]
  have halive := (h s hreach).alive
  cases ht : s.queue.scheduleTick with
  | dead => exact halive ht
  | _ => simp [observe, ht] at hdead

/-- A run with both kinds of reads, of a page and of a tick, while another message is deleted. -/
theorem readsStored_otherDeleted : ∃ s, run (system minuteParser (fun _ _ => false) twoModes Message.defaultOpts)
    (fun s a => found s a = true) ⟨Queue.init, fun _ => .idle⟩
    [.queue (.produce ⟨"q", "ns"⟩ false tenSeconds 1), .getTotalItems "r" .scheduled 0 10, .getMessageIds "r",
      .queue (.scheduleFetchIds false 10001), .queue (.deleteScheduled "m2"), .getMessages "r" (fun _ => "new") 10002,
      .queue (.scheduleFetchMessages 10003), .queue .scheduleExec] = some s ∧ ReadsStored s :=
  exists_run (by decide) (fun _ h => readsStored_reachable h)

end Reader

end RedisSmq
