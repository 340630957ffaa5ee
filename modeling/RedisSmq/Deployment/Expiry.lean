import Mathlib.Data.List.Chain
import RedisSmq.Deployment.System

/-!
# Time to live

A consumer asks an arriving message whether it has expired and calls its handler only if not, so a handler never gets an
expired message (`Event.dequeued`, first part of `ttl_reachable`). An expired message is settled at once, into the
dead-letter queue; so is one that a GC worker finds in the list of a consumer that went down in between.

A settlement moves whatever message lies at the end of the processing list. When an earlier delivery is settled twice,
its second settlement moves the expired message, and may delay it (`not_deadLettered_twice`). When every delivery is
settled at most once, an expired message goes nowhere but into the dead-letter queue (second part).
-/

namespace RedisSmq.Deployment

open RedisKeys Db Transition

/-- What happens to the messages of a consumer: one arrives, and its handler is called or not; one is moved out of the
processing list. -/
inductive Event
  | dequeued (m : Message) (now : ℕ) (consumed : Bool)
  | moved (m : Message) (destination : RedisKey)
deriving DecidableEq

/-- What a request moves. -/
def movedBy (db : Db) : Cmd → List Event
  | .lpoprpush source destination => (db.lists source).head?.toList.map (.moved · destination)
  | .rpoplpush source destination => (db.lists source).getLast?.toList.map (.moved · destination)
  | _ => []

/-- What a consumer does; the handler of an arriving message is called when its delivery starts in the call. -/
def consumerEvents (lt : Text → Text → Bool) (config : Queue.ConsumerConfig) (id : String) (s : Consumer.State) :
    Consumer.Action → List Event
  | .dequeue now =>
    match Consumer.step lt config id s (.dequeue now) with
    | some s' => (s'.entries.drop s.entries.length).map fun entry =>
      .dequeued entry.delivery.message now entry.delivery.inCall
    | none => []
  | .exec =>
    match s.requests with
    | r :: _ => movedBy s.db r.cmd
    | [] => []
  | _ => []

/-- What a step does to the messages of the consumer `id`. -/
def events (lt : Text → Text → Bool) (config : String → Queue.ConsumerConfig) (id : String) (s : State) :
    Action → List Event
  | .consumer id' a => if id' = id then consumerEvents lt (config id) id (s.view id) a else []
  | .recover id' w msg now => if id' = id then movedBy s.queue.db (recoverCmd config id w msg now) else []
  | _ => []

/-- The TTL of the message has passed. -/
def Overdue (m : Message) (now : ℕ) : Prop := m.ttl.ms ≠ 0 ∧ m.createdAt + m.ttl.ms ≤ now

/-- What arrives overdue goes into a dead-letter queue next. -/
def Event.followedBy (queueName : String) : Event → Event → Prop
  | .dequeued m now _, e => Overdue m now → ∃ ns, e = .moved m (getKeys ns queueName none).keyQueueDL
  | .moved _ _, _ => True

/-- Actions read the clock value at which they happen. -/
def onTime (t : ℕ) : Action → Bool
  | .consumer _ (.dequeue now) | .consumer _ (.event _ _ now) | .recover _ _ _ now => decide (now = t)
  | _ => true

/-- The consumer settles every delivery at most once and starts with an empty processing list; GC workers recover and
destroy its list while it is down, the message that is there. -/
def regular (config : String → Queue.ConsumerConfig) (id : String) (s : State) : Action → Bool
  | .consumer id' a => decide (id' ≠ id) || Consumer.orderly ((config id).keyQueueProcessing id) (s.view id) a
  | .recover id' _ msg _ => decide (id' ≠ id) || (decide ((s.consumers id).power = .down) &&
    decide ((s.queue.db.lists ((config id).keyQueueProcessing id)).head? = some msg))
  | .destroy id' _ => decide (id' ≠ id) || (decide ((s.consumers id).power = .down) &&
    (s.queue.db.lists ((config id).keyQueueProcessing id)).isEmpty)
  | .queue _ => true

/-- The handler of every consumed message was called before its TTL had passed, from the creation of the message on. -/
def InTime (produced : List Queue.Produced) (log : List Event) : Prop :=
  ∀ m now, .dequeued m now true ∈ log → ∃ r ∈ produced, Queue.content r.message = Queue.content m ∧
    (r.message.ttl.ms ≠ 0 → now < r.message.createdAt + r.message.ttl.ms)

/-- The request that dead-letters a message of the consumer. -/
def deadLetterCmd (config : Queue.ConsumerConfig) (id : String) : Cmd :=
  ProcessingHandler.deadLetterMessage config.ns config.queueName (config.keyQueueProcessing id)

/-- Every message that arrives overdue goes into a dead-letter queue next; until then it is the message of the processing
list, its handler is not called, and the request that moves it is underway unless the consumer went down. -/
structure DeadLettered (config : Queue.ConsumerConfig) (id : String) (s : Consumer.State) (log : List Event) : Prop where
  next : log.IsChain (Event.followedBy config.queueName)
  underway : ∀ m now consumed, log.getLast? = some (.dequeued m now consumed) → Overdue m now → consumed = false ∧
    s.db.lists (config.keyQueueProcessing id) = [m] ∧
    (s.power = .down ∨ ∃ index, s.requests = [⟨index, deadLetterCmd config id⟩])

variable {cron : CronParser} {lt : Text → Text → Bool} {config : String → Queue.ConsumerConfig}
variable {s s' : State} {a : Action} {id : String} {m : Message} {now t : ℕ} {log : List Event}

/-! ## Expiry -/

theorem hasExpired_of_overdue (h : Overdue m now) : m.hasExpired now = true := by
  simp [Message.hasExpired, h.1, h.2]

/-- An overdue message stays overdue. -/
theorem Overdue.mono {now' : ℕ} (h : Overdue m now) (hle : now ≤ now') : Overdue m now' := ⟨h.1, h.2.trans hle⟩

/-- A message that has not expired is in time. -/
theorem lt_of_not_hasExpired (h : m.hasExpired now = false) (httl : m.ttl.ms ≠ 0) : now < m.createdAt + m.ttl.ms := by
  simp only [Message.hasExpired, Bool.or_eq_false_iff, Bool.and_eq_false_iff, bne_eq_false_iff_eq,
    decide_eq_false_iff_not] at h
  have := h.2.resolve_left httl
  omega

/-- An overdue message is dead-lettered, whatever the cause. -/
theorem retry_overdue {ns queueName : String} {key : RedisKey} {cause : EMessageUnacknowledgedCause}
    (h : Overdue m now) :
    Broker.retry ns queueName key m cause now = ProcessingHandler.deadLetterMessage ns queueName key := by
  rw [Broker.retry, if_pos (.inr (hasExpired_of_overdue h))]

/-! ## Arriving messages -/

/-- A message that arrives is one that the database held, and its handler is called unless it has expired. -/
theorem consumerEvents_dequeue {s : Consumer.State} {e : Event}
    (h : e ∈ consumerEvents lt (config id) id s (.dequeue now)) :
    ∃ m, (∃ slot, s.db.Holds slot m) ∧ e = .dequeued m now (!m.hasExpired now) := by
  simp only [consumerEvents, Consumer.step] at h
  split at h
  · rename_i hstep
    split at hstep
    · split at hstep <;> rename_i hpop <;> cases hstep
      · simp at h
      · rename_i m
        refine ⟨m, (pop_cases hpop).2.1 m rfl, ?_⟩
        unfold Consumer.handleReceivedMessage at h
        split at h <;> rename_i hexp
        · simpa [Consumer.Delivery.expired, hexp] using h
        · simpa [Consumer.Delivery.start, hexp] using h
    · cases hstep
  · cases h

/-- A move is no arrival. -/
theorem mem_movedBy {db : Db} {c : Cmd} {e : Event} (h : e ∈ movedBy db c) :
    ∃ m destination, e = .moved m destination := by
  cases c with
  | rpoplpush | lpoprpush =>
    obtain ⟨m, _, rfl⟩ := List.mem_map.mp h
    exact ⟨m, _, rfl⟩
  | _ => cases h

/-- An arriving message was in stock, and its handler is called unless it has expired. -/
theorem mem_events {consumed : Bool} (h : .dequeued m now consumed ∈ events lt config id s a) :
    a = .consumer id (.dequeue now) ∧ Queue.InStock s.queue m ∧ consumed = !m.hasExpired now := by
  have hmoved : ∀ {db c}, .dequeued m now consumed ∉ movedBy db c := fun h => by
    obtain ⟨_, _, h⟩ := mem_movedBy h
    cases h
  cases a with
  | queue | destroy => cases h
  | recover =>
    simp only [events] at h
    split at h
    · exact absurd h hmoved
    · cases h
  | consumer id' a =>
    simp only [events] at h
    split at h
    · rename_i hid
      subst hid
      cases a with
      | dequeue now' =>
        obtain ⟨m', hm', he⟩ := consumerEvents_dequeue h
        cases he
        exact ⟨rfl, .inl hm', rfl⟩
      | exec =>
        simp only [consumerEvents] at h
        split at h
        · exact absurd h hmoved
        · cases h
      | _ => cases h
    · cases h

theorem inTime_append {produced produced' : List Queue.Produced} {es : List Event} (h : InTime produced log)
    (hsub : produced ⊆ produced') (hes : ∀ m now, .dequeued m now true ∈ es →
      Queue.Original produced' m ∧ m.hasExpired now = false) : InTime produced' (log ++ es) := by
  intro m now hmem
  rcases List.mem_append.mp hmem with hmem | hmem
  · obtain ⟨r, hr, hcontent⟩ := h m now hmem
    exact ⟨r, hsub hr, hcontent⟩
  · obtain ⟨⟨⟨r, hr, hcontent⟩, _⟩, hexp⟩ := hes m now hmem
    refine ⟨r, hr, hcontent, fun httl => ?_⟩
    have hsame : r.message.ttl = m.ttl := congrArg Queue.Content.ttl hcontent
    have hcreated : r.message.createdAt = m.createdAt := congrArg Queue.Content.createdAt hcontent
    rw [hsame] at httl
    rw [hsame, hcreated]
    exact lt_of_not_hasExpired hexp httl

theorem produced_subset (hs : step cron lt config s a = some s') : s.queue.produced ⊆ s'.queue.produced := by
  cases a with
  | queue a =>
    simp only [step] at hs
    split at hs
    · obtain ⟨q, hq, rfl⟩ := Option.map_eq_some_iff.mp hs
      exact Queue.produced_subset hq
    · cases hs
  | consumer =>
    simp only [step] at hs
    split at hs
    · obtain ⟨t, _, rfl⟩ := Option.map_eq_some_iff.mp hs
      exact List.Subset.refl _
    · cases hs
  | recover | destroy =>
    cases hs
    exact List.Subset.refl _

/-- The deployment with its clock, and the log of one consumer. -/
abbrev logged (cron : CronParser) (lt : Text → Text → Bool) (config : String → Queue.ConsumerConfig) (id : String) :
    Machine ((State × ℕ) × List Event) (ℕ × Action) :=
  (system cron lt config).timed.logged fun s a => events lt config id s.1 a.2

theorem reach_system {P : (State × ℕ) × List Event → ℕ × Action → Prop} {s : (State × ℕ) × List Event}
    (h : Reach (logged cron lt config id) P s) : Reach (system cron lt config) (fun _ _ => True) s.1.1 :=
  reach_timed (reach_logged (h.mono fun _ _ _ => trivial))

/-- No handler is called for an expired message, in any run. -/
theorem inTime_reachable {P : (State × ℕ) × List Event → ℕ × Action → Prop} {s : (State × ℕ) × List Event}
    (h : Reach (logged cron lt config id) P s) : InTime s.1.1.queue.produced s.2 := by
  induction h with
  | init => exact fun _ _ h => by cases h
  | @step s s' a h _ hs ih =>
    obtain ⟨htimed, hlog⟩ := Machine.logged_step hs
    obtain ⟨hstep, _, _⟩ := Machine.timed_step htimed
    have hsub := produced_subset hstep
    rw [hlog]
    refine inTime_append ih hsub fun m now hmem => ?_
    obtain ⟨_, hstock, hconsumed⟩ := mem_events hmem
    exact ⟨((stocked_reachable (reach_system h)).2 m hstock).mono hsub, by simpa using hconsumed⟩

/-! ## Regular runs -/

/-- A GC worker that recovers the only message of a list empties it. -/
theorem recover_lists {w : GCWorker} {db : Db} (hl : db.lists ((config id).keyQueueProcessing id) = [m]) :
    (db.exec lt (recoverCmd config id w m now)).lists ((config id).keyQueueProcessing id) = [] := by
  obtain ⟨destination, hmove, htype⟩ := @settles_recoverCmd config id w m now
  exact (move_singleton hmove (Consumer.ne_keyQueueProcessing htype) hl).1

/-- The list of a consumer that is down holds one message at most. -/
theorem singleton_of_head {key : RedisKey} {t : Consumer.State} (hi : Consumer.Inv key t)
    (h : (t.db.lists key).head? = some m) : t.db.lists key = [m] := by
  have hle := hi.stage.length_le
  match hl : t.db.lists key with
  | [] => rw [hl] at h; cases h
  | [_] => rw [hl] at h; cases h; rfl
  | _ :: _ :: _ => rw [hl] at hle; simp at hle

/-- What others do to the database leaves the list of the consumer alone, or the consumer is down and its list emptied. -/
theorem inv_other {t : Consumer.State} {db : Db} (hi : Consumer.Inv ((config id).keyQueueProcessing id) t)
    (h : db.lists ((config id).keyQueueProcessing id) = t.db.lists ((config id).keyQueueProcessing id) ∨
      t.power = .down ∧ db.lists ((config id).keyQueueProcessing id) = []) :
    Consumer.Inv ((config id).keyQueueProcessing id) { t with db := db } := by
  have hs : Consumer.step (fun _ _ => false) (config id) id t (.other db) = some { t with db := db } := by
    refine if_pos ?_
    rcases h with h | ⟨hdown, hnil⟩
    · exact .inl h
    · exact .inr ⟨.inl hdown, hnil⟩
  exact hi.step_other hs

/-- A regular step keeps the invariant of the consumer. -/
theorem View.inv {t : Consumer.State} (hv : View config lt id s a t) (hreg : regular config id s a = true)
    (hi : Consumer.Inv ((config id).keyQueueProcessing id) (s.view id)) :
    Consumer.Inv ((config id).keyQueueProcessing id) t := by
  cases hv with
  | own ha hs =>
    simp only [regular, ne_eq, not_true_eq_false, decide_false, Bool.false_or] at hreg
    exact hi.step hreg hs
  | other _ hl => exact inv_other hi (.inl hl)
  | recover =>
    simp only [regular, ne_eq, not_true_eq_false, decide_false, Bool.false_or, Bool.and_eq_true, decide_eq_true_eq]
      at hreg
    exact inv_other hi (.inr ⟨hreg.1, recover_lists (singleton_of_head hi hreg.2)⟩)
  | destroy =>
    simp only [regular, ne_eq, not_true_eq_false, decide_false, Bool.false_or, Bool.and_eq_true, decide_eq_true_eq]
      at hreg
    refine inv_other hi (.inr ⟨hreg.1, ?_⟩)
    simp [destroyCmds, GCWorker.destroyProcessingQueue, QueueManager.deleteProcessingQueue, Db.exec]

/-- The log of a consumer tells what is in its processing list. -/
structure Kept (config : Queue.ConsumerConfig) (id : String) (t : Consumer.State) (clock : ℕ) (log : List Event) :
    Prop where
  pending : ∀ m, t.db.lists (config.keyQueueProcessing id) = [m] → ∃ now consumed,
    log.getLast? = some (.dequeued m now consumed) ∧ (Overdue m now → consumed = false ∧
      (t.power = .down ∨ ∃ index, t.requests = [⟨index, deadLetterCmd config id⟩]))
  empty : t.db.lists (config.keyQueueProcessing id) = [] → ∀ m now consumed,
    log.getLast? ≠ some (.dequeued m now consumed)
  past : ∀ m now consumed, .dequeued m now consumed ∈ log → now ≤ clock
  chain : log.IsChain (Event.followedBy config.queueName)

section

variable {config : Queue.ConsumerConfig} {t t' : Consumer.State} {clock clock' : ℕ} {a : Consumer.Action}

/-- A step that moves nothing, and leaves the requests of an expired message underway. -/
theorem Kept.quiet (hk : Kept config id t clock log) (hle : clock ≤ clock')
    (hl : t'.db.lists (config.keyQueueProcessing id) = t.db.lists (config.keyQueueProcessing id))
    (hreq : (∃ index, t.requests = [⟨index, deadLetterCmd config id⟩]) → t'.power = .down ∨ t'.requests = t.requests)
    (hdown : t.power = .down → t'.power = .down ∨ t'.db.lists (config.keyQueueProcessing id) = []) :
    Kept config id t' clock' log := by
  refine ⟨fun m hm => ?_, fun hnil => hk.empty (hl ▸ hnil),
    fun m now consumed hmem => (hk.past m now consumed hmem).trans hle, hk.chain⟩
  obtain ⟨now, consumed, hlast, hover⟩ := hk.pending m (hl ▸ hm)
  refine ⟨now, consumed, hlast, fun ho => ?_⟩
  obtain ⟨hconsumed, hway⟩ := hover ho
  refine ⟨hconsumed, ?_⟩
  rcases hway with hd | ⟨index, hrequests⟩
  · exact .inl ((hdown hd).resolve_right fun hnil => by rw [hm] at hnil; cases hnil)
  · rcases hreq ⟨index, hrequests⟩ with hd | hsame
    · exact .inl hd
    · exact .inr ⟨index, hsame.trans hrequests⟩

/-- The message of the list is moved. -/
theorem Kept.moved (hk : Kept config id t clock log) (hle : clock ≤ clock')
    (hl : t.db.lists (config.keyQueueProcessing id) = [m]) (hl' : t'.db.lists (config.keyQueueProcessing id) = [])
    {destination : RedisKey} (hd : ∀ now, now ≤ clock → Overdue m now →
      (t.power = .down ∨ ∃ index, t.requests = [⟨index, deadLetterCmd config id⟩]) →
      ∃ ns, destination = (getKeys ns config.queueName none).keyQueueDL) :
    Kept config id t' clock' (log ++ [.moved m destination]) := by
  obtain ⟨now, consumed, hlast, hover⟩ := hk.pending m hl
  refine ⟨fun m' hm' => ?_, fun _ m' now' consumed' h => ?_, fun m' now' consumed' hmem => ?_, ?_⟩
  · rw [hl'] at hm'
    cases hm'
  · rw [List.getLast?_concat] at h
    cases h
  · rcases List.mem_append.mp hmem with hmem | hmem
    · exact (hk.past m' now' consumed' hmem).trans hle
    · cases List.mem_singleton.mp hmem
  · refine List.isChain_append.mpr ⟨hk.chain, List.isChain_singleton _, fun e he e' he' => ?_⟩
    rw [hlast] at he
    cases he
    cases he'
    intro ho
    obtain ⟨ns, rfl⟩ := hd now (hk.past m now consumed (List.mem_of_getLast? hlast)) ho (hover ho).2
    exact ⟨ns, rfl⟩

/-- A message arrives. -/
theorem Kept.arrived (hk : Kept config id t clock log) (hle : clock ≤ now)
    (hl : t.db.lists (config.keyQueueProcessing id) = []) (hl' : t'.db.lists (config.keyQueueProcessing id) = [m])
    {consumed : Bool} (ho : Overdue m now → consumed = false ∧
      ∃ index, t'.requests = [⟨index, deadLetterCmd config id⟩]) :
    Kept config id t' now (log ++ [.dequeued m now consumed]) := by
  refine ⟨fun m' hm' => ?_, fun hnil => ?_, fun m' now' consumed' hmem => ?_, ?_⟩
  · rw [hl'] at hm'
    cases hm'
    exact ⟨now, consumed, List.getLast?_concat .., fun h => ⟨(ho h).1, .inr (ho h).2⟩⟩
  · rw [hl'] at hnil
    cases hnil
  · rcases List.mem_append.mp hmem with hmem | hmem
    · exact (hk.past m' now' consumed' hmem).trans hle
    · cases List.mem_singleton.mp hmem
      exact Nat.le_refl _
  · refine List.isChain_append.mpr ⟨hk.chain, List.isChain_singleton _, fun e he e' _ => ?_⟩
    cases e with
    | dequeued m' now' consumed' => exact absurd he (hk.empty hl m' now' consumed')
    | moved => trivial

/-- A consumer that receives a message logs it, and dead-letters it when it is overdue. -/
theorem Kept.received (hk : Kept config id t clock log) (hle : clock ≤ now)
    (hl : t.db.lists (config.keyQueueProcessing id) = []) (ht : t'.db.lists (config.keyQueueProcessing id) = [m])
    (hreq : t'.requests = []) (hbroker : t'.power.moment.broker = true) (hentries : t'.entries = t.entries) :
    Kept config id (Consumer.handleReceivedMessage config id t' m now) now (log ++
      ((Consumer.handleReceivedMessage config id t' m now).entries.drop t.entries.length).map fun entry =>
        .dequeued entry.delivery.message now entry.delivery.inCall) := by
  unfold Consumer.handleReceivedMessage
  split
  · rename_i hexp
    simp only [hentries, List.drop_left, List.map_cons, List.map_nil]
    refine hk.arrived hle hl ?_ fun ho => ⟨rfl, t.entries.length, ?_⟩
    · exact ht
    simp only [Consumer.Moment.settle, hbroker, if_true, List.map_cons, List.map_nil, hreq, List.nil_append]
    have hoverdue : Overdue m now := ho
    rw [Consumer.settlementCmd, retry_overdue hoverdue]
    rfl
  · rename_i hexp
    simp only [hentries, List.drop_left, List.map_cons, List.map_nil]
    refine hk.arrived hle hl ?_ fun ho => absurd (hasExpired_of_overdue ho) hexp
    exact ht

/-- A message that the consumer asks for. -/
theorem Kept.dequeue {now' : ℕ} (hk : Kept config id t clock log)
    (hi : Consumer.Inv (config.keyQueueProcessing id) t) (hle : clock ≤ now')
    (hs : Consumer.step lt config id t (.dequeue now') = some t') :
    Kept config id t' now' (log ++ consumerEvents lt config id t (.dequeue now')) := by
  have hevents : consumerEvents lt config id t (.dequeue now') = (t'.entries.drop t.entries.length).map fun entry =>
      .dequeued entry.delivery.message now' entry.delivery.inCall := by simp only [consumerEvents, hs]
  rw [hevents]
  simp only [Consumer.step] at hs
  split at hs
  · rename_i hpos
    have hup : t.Awake := hi.awake (.inr (by omega))
    cases hi.stage with
    | down h => exact absurd h hup.1
    | processing _ h | settling _ h => omega
    | waiting hreq _ hnil _ =>
      split at hs <;> rename_i hpop <;> cases hs
      · rw [List.drop_length, List.map_nil, List.append_nil]
        exact hk.quiet hle ((Consumer.pop_lists hpop hnil).trans hnil.symm) (fun _ => .inr rfl)
          fun hdown => absurd hdown hup.1
      · have hbroker : t.power.moment.broker = true := by
          cases hp : t.power with
          | down => exact absurd hp hup.1
          | goingUp | up | goingDown => rfl
        exact hk.received hle hnil (Consumer.pop_lists hpop hnil) hreq hbroker rfl
  · cases hs

/-- An event of a delivery: while a request is under way every delivery of the run has been settled, so that no other request
is made. -/
theorem Kept.event {index : ℕ} {e : Consumer.Event} {now' : ℕ} (hk : Kept config id t clock log)
    (hi : Consumer.Inv (config.keyQueueProcessing id) t) (hle : clock ≤ now)
    (ho : Consumer.orderly (config.keyQueueProcessing id) t (.event index e now') = true)
    (hs : Consumer.step lt config id t (.event index e now') = some t') : Kept config id t' now log := by
  simp only [Consumer.step, bind, Option.bind_eq_some_iff] at hs
  obtain ⟨entry, hentry, ⟨d, l⟩, hhandle, hs⟩ := hs
  cases hs
  refine hk.quiet hle rfl (fun hway => .inr ?_) .inl
  obtain ⟨index', hreq⟩ := hway
  cases hi.stage with
  | down h => rw [(hi.idle h).1] at hreq; cases hreq
  | waiting h | processing h => rw [h] at hreq; cases hreq
  | settling _ _ _ _ _ _ hsettled =>
    obtain ⟨hlength, _⟩ := Consumer.Delivery.handle_eq hhandle
    simp only [Consumer.orderly, hentry] at ho
    cases hsettles : entry.delivery.settles t.power.moment e with
    | false =>
      rw [hsettles] at hlength
      rw [List.eq_nil_of_length_eq_zero hlength]
      exact List.append_nil _
    | true =>
      rw [hsettles] at ho
      simp only [Bool.not_true, Bool.false_or, Bool.and_eq_true, decide_eq_true_eq] at ho
      have hrecord : entry.record ∈ t.records := List.mem_map_of_mem (List.mem_of_getElem? hentry)
      have hone : entry.calls = 1 := hsettled _ hrecord ho.2
      omega

/-- A request that Redis carries out moves the message. -/
theorem Kept.exec (hk : Kept config id t clock log) (hi : Consumer.Inv (config.keyQueueProcessing id) t)
    (hle : clock ≤ now) (hs : Consumer.step lt config id t .exec = some t') :
    Kept config id t' now (log ++ consumerEvents lt config id t .exec) := by
  have hi' := hi.step_exec hs
  simp only [Consumer.step] at hs
  split at hs <;> rename_i hrequests <;> cases hs
  rename_i r requests
  have hup : t.Awake := hi.awake (.inl (by simp [hrequests]))
  cases hi.stage with
  | down h => exact absurd h hup.1
  | waiting h | processing h => rw [h] at hrequests; cases hrequests
  | @settling index run m cmd destination hreq _ _ hl hmove hne _ =>
    have hevents : consumerEvents lt config id t .exec = [.moved m destination] := by
      rw [hreq] at hrequests
      cases hrequests
      simp only [consumerEvents, hreq]
      rcases hmove with rfl | rfl <;> simp [movedBy, hl]
    rw [hevents]
    rw [hreq, List.cons.injEq] at hrequests
    obtain ⟨rfl, rfl⟩ := hrequests
    have hlist : (t.db.exec lt cmd).lists (config.keyQueueProcessing id) = [] := (move_singleton hmove hne hl).1
    refine hk.moved hle hl hlist fun now _ _ hway => ?_
    obtain ⟨index', hreq'⟩ := hway.resolve_left hup.1
    rw [hreq] at hreq'
    cases hreq'
    rcases hmove with hcmd | hcmd <;> cases hcmd
    exact ⟨_, rfl⟩

/-- An orderly step of the consumer keeps the account. -/
theorem Kept.own (hk : Kept config id t clock log) (hi : Consumer.Inv (config.keyQueueProcessing id) t)
    (hle : clock ≤ now) (ha : ofConsumer a = true) (ho : Consumer.orderly (config.keyQueueProcessing id) t a = true)
    (hnow : onTime now (.consumer id a) = true) (hs : Consumer.step lt config id t a = some t') :
    Kept config id t' now (log ++ consumerEvents lt config id t a) := by
  cases a with
  | other => cases ha
  | goUp =>
    simp only [Consumer.step] at hs
    split at hs <;> cases hs
    rw [show consumerEvents lt config id t _ = [] from rfl, List.append_nil]
    exact hk.quiet hle rfl (fun _ => .inr rfl) fun _ => .inr (List.isEmpty_iff.mp ho)
  | up | goDown =>
    simp only [Consumer.step] at hs
    split at hs <;> rename_i hpower <;> cases hs
    rw [show consumerEvents lt config id t _ = [] from rfl, List.append_nil]
    exact hk.quiet hle rfl (fun _ => .inr rfl) fun hdown => by rw [hpower] at hdown; cases hdown
  | halt =>
    simp only [Consumer.step] at hs
    split at hs <;> cases hs
    rw [show consumerEvents lt config id t _ = [] from rfl, List.append_nil]
    exact hk.quiet hle rfl (fun _ => .inl rfl) fun _ => .inl rfl
  | dequeue now' =>
    obtain rfl : now' = now := of_decide_eq_true hnow
    exact hk.dequeue hi hle hs
  | event index e now' =>
    rw [show consumerEvents lt config id t _ = [] from rfl, List.append_nil]
    exact hk.event hi hle ho hs
  | exec => exact hk.exec hi hle hs

end

/-- Only actions about the consumer show in its log. -/
theorem events_other (h : a.target ≠ some id) : events lt config id s a = [] := by
  cases a with
  | queue | destroy => rfl
  | consumer id' a | recover id' => exact if_neg fun heq => h (congrArg some heq)

/-- A regular step keeps the account of the consumer. -/
theorem View.kept {u : Consumer.State} {clock : ℕ} (hv : View config lt id s a u)
    (hreg : regular config id s a = true) (hnow : onTime now a = true)
    (hi : Consumer.Inv ((config id).keyQueueProcessing id) (s.view id))
    (hk : Kept (config id) id (s.view id) clock log) (hle : clock ≤ now) :
    Kept (config id) id u now (log ++ events lt config id s a) := by
  cases hv with
  | own ha hs =>
    simp only [regular, ne_eq, not_true_eq_false, decide_false, Bool.false_or] at hreg
    simp only [events, if_true]
    exact hk.own hi hle ha hreg hnow hs
  | other hother hl =>
    rw [events_other hother, List.append_nil]
    exact hk.quiet hle hl (fun _ => .inr rfl) .inl
  | @recover w msg now' =>
    obtain rfl : now' = now := of_decide_eq_true hnow
    simp only [regular, ne_eq, not_true_eq_false, decide_false, Bool.false_or, Bool.and_eq_true, decide_eq_true_eq]
      at hreg
    have hl := singleton_of_head hi hreg.2
    obtain ⟨destination, hmove, _⟩ := @settles_recoverCmd config id w msg now'
    have hevents : events lt config id s (.recover id w msg now') = [.moved msg destination] := by
      have hl' : s.queue.db.lists ((config id).keyQueueProcessing id) = [msg] := hl
      simp only [events, if_true]
      rcases hmove with hc | hc <;> rw [hc] <;> simp [movedBy, hl']
    rw [hevents]
    refine hk.moved hle hl (recover_lists hl) fun now hpast ho _ => ?_
    -- what was overdue when it arrived is overdue when it is recovered
    have hcmd : recoverCmd config id w msg now' =
        ProcessingHandler.deadLetterMessage w.ns (config id).queueName ((config id).keyQueueProcessing id) :=
      retry_overdue (ho.mono (hpast.trans hle))
    rw [hcmd] at hmove
    rcases hmove with hc | hc <;> cases hc
    exact ⟨w.ns, rfl⟩
  | destroy =>
    simp only [regular, ne_eq, not_true_eq_false, decide_false, Bool.false_or, Bool.and_eq_true, decide_eq_true_eq]
      at hreg
    rw [show events lt config id s (.destroy id _) = [] from rfl, List.append_nil]
    have hnil : s.queue.db.lists ((config id).keyQueueProcessing id) = [] := List.isEmpty_iff.mp hreg.2
    refine hk.quiet hle ?_ (fun _ => .inr rfl) .inl
    rw [show (s.view id).db.lists ((config id).keyQueueProcessing id) = [] from hnil]
    simp [destroyCmds, GCWorker.destroyProcessingQueue, QueueManager.deleteProcessingQueue, Db.exec]

/-- Before anything happens. -/
theorem kept_init : Kept (config id) id (init.view id) 0 [] := by
  refine ⟨fun m hm => ?_, fun _ _ _ _ h => ?_, fun _ _ _ h => ?_, .nil⟩
  · cases hm
  · cases h
  · cases h

theorem kept_reachable {s : (State × ℕ) × List Event} (h : Reach (logged cron lt config id)
    (fun s a => onTime a.1 a.2 = true ∧ regular config id s.1.1 a.2 = true) s) :
    Consumer.Inv ((config id).keyQueueProcessing id) (s.1.1.view id) ∧
      Kept (config id) id (s.1.1.view id) s.1.2 s.2 := by
  induction h with
  | init => exact ⟨Consumer.inv_init, kept_init⟩
  | @step s s' a h hp hs ih =>
    obtain ⟨htimed, hlog⟩ := Machine.logged_step hs
    obtain ⟨hstep, hle, hclock⟩ := Machine.timed_step htimed
    have hview : View config lt id s.1.1 a.2 (s'.1.1.view id) := step_view (stocked_reachable (reach_system h)).1 hstep
    rw [hlog, hclock]
    exact ⟨hview.inv hp.2 ih.1, hview.kept hp.2 hp.1 ih.1 ih.2 hle⟩

/-- **TTL is kept.** In every run no handler is called for a message whose TTL has passed since its creation. In every
run that is regular for a consumer, each message that reaches it overdue goes into a dead-letter queue and nowhere else. -/
theorem ttl_reachable {P : (State × ℕ) × List Event → ℕ × Action → Prop} {s : (State × ℕ) × List Event}
    (h : Reach (logged cron lt config id) P s) : InTime s.1.1.queue.produced s.2 ∧
      ((∀ s a, P s a → onTime a.1 a.2 = true ∧ regular config id s.1.1 a.2 = true) →
        DeadLettered (config id) id (s.1.1.view id) s.2) := by
  refine ⟨inTime_reachable h, fun hP => ?_⟩
  obtain ⟨hi, hk⟩ := kept_reachable (h.mono hP)
  refine ⟨hk.chain, fun m now consumed hlast ho => ?_⟩
  match hl : (s.1.1.view id).db.lists ((config id).keyQueueProcessing id) with
  | [] => exact absurd hlast (hk.empty hl m now consumed)
  | [m'] =>
    obtain ⟨now', consumed', hlast', hover⟩ := hk.pending m' hl
    rw [hlast] at hlast'
    cases hlast'
    exact ⟨(hover ho).1, rfl, (hover ho).2⟩
  | _ :: _ :: _ =>
    have hle := hi.stage.length_le
    rw [hl] at hle
    simp at hle

/-! ## A delivery that is settled twice, and a message that is recovered -/

/-- The actions of a run, at their clock values, with the log of the LIFO consumer `c`. -/
def loggedRun (allowed : State × ℕ → ℕ × Action → Bool) (actions : List (ℕ × Action)) :
    Option ((State × ℕ) × List Event) :=
  run (logged minuteParser (fun _ _ => false) Queue.lifoConsumer "c") (fun s a => allowed s.1 a = true)
    ((init, 0), []) actions

/-- A message that expires after one second. -/
def oneSecond : Message := { Message.new Message.defaultOpts "m2" 0 with ttl := ⟨1000, .inr (Nat.le_refl _)⟩ }

/-- The message in its queue, produced at the clock value `now`. -/
def pending (m : Message) (now : ℕ) : Message := EnqueueHandler.enqueued (Queue.sent ⟨"q", "ns"⟩ m) false now

/-- The handler of `m1` calls back with an error, and again when `m1` has been delayed. Before the second settlement
reaches Redis the consumer takes `m2`, which has expired: the second settlement of `m1` delays it. -/
theorem not_deadLettered_twice :
    ¬∀ s, Reach (logged minuteParser (fun _ _ => false) Queue.lifoConsumer "c") (fun _ a => onTime a.1 a.2 = true) s →
      s.2.IsChain (Event.followedBy "q") := by
  intro h
  have hrun : (loggedRun (fun _ a => onTime a.1 a.2)
      [(1, .queue (.produce ⟨"q", "ns"⟩ false oneSecond 1)),
        (2, .queue (.produce ⟨"q", "ns"⟩ false (Message.new Message.defaultOpts "m1" 0) 2)), (3, .consumer "c" .goUp),
        (4, .consumer "c" .up), (5, .consumer "c" (.dequeue 5)), (6, .consumer "c" (.event 0 .returns 6)),
        (7, .consumer "c" (.event 0 (.callback true) 7)), (8, .consumer "c" .exec),
        (9, .consumer "c" (.event 0 (.callback true) 9)), (2000, .consumer "c" (.dequeue 2000)),
        (2001, .consumer "c" .exec)]).map (·.2) =
      some [.dequeued (pending (Message.new Message.defaultOpts "m1" 0) 2) 5 true,
        .moved (pending (Message.new Message.defaultOpts "m1" 0) 2) getGlobalKeys.keyQueueDelay,
        .dequeued (pending oneSecond 1) 2000 false, .moved (pending oneSecond 1) getGlobalKeys.keyQueueDelay] := by
    decide
  obtain ⟨s, hreach, hlog⟩ := exists_reach_of_run hrun
  have hchain := h s hreach
  rw [hlog] at hchain
  have hlast := (List.isChain_cons_cons.mp (List.isChain_cons_cons.mp (List.isChain_cons_cons.mp hchain).2).2).1
  obtain ⟨ns, hmoved⟩ := hlast ⟨by decide, by decide⟩
  have htype := congrArg RedisKey.type (Event.moved.inj hmoved).2
  cases htype

/-- The list that a message is moved to. -/
def Event.destination : Event → Option ERedisKey
  | .dequeued _ _ _ => none
  | .moved _ destination => some destination.type

/-- A message fails in time and is delayed. When it arrives again it has expired; the consumer goes down before its
request is sent, and a GC worker dead-letters the message. -/
def recoveredRun : Option ((State × ℕ) × List Event) :=
  loggedRun (fun s a => onTime a.1 a.2 && regular Queue.lifoConsumer "c" s.1 a.2)
    [(1, .queue (.produce ⟨"q", "ns"⟩ false oneSecond 1)), (2, .consumer "c" .goUp), (3, .consumer "c" .up),
      (500, .consumer "c" (.dequeue 500)), (501, .consumer "c" (.event 0 .returns 501)),
      (600, .consumer "c" (.event 0 (.callback true) 600)), (601, .consumer "c" .exec), (602, .queue (.delayFetch 602)),
      (603, .queue .delayExec), (60602, .queue (.scheduleFetchIds false 60602)),
      (60603, .queue (.scheduleFetchMessages 60603)), (60604, .queue .scheduleExec),
      (60605, .consumer "c" (.dequeue 60605)), (60606, .consumer "c" .goDown), (60607, .consumer "c" .halt),
      (80000, .recover "c" ⟨"ns", "d"⟩
        { pending oneSecond 60603 with
          scheduledDelay := some ⟨60000, by decide⟩, delayed := true, scheduledAt := some 602, attempts := 1 } 80000),
      (80001, .destroy "c" ⟨"ns", "d"⟩)]

theorem ttl_recoveredRun : ∃ s, recoveredRun = some s ∧
    s.2.map Event.destination = [none, some .keyQueueDelay, none, some .keyQueueDL] ∧
    InTime s.1.1.queue.produced s.2 ∧ DeadLettered (Queue.lifoConsumer "c") "c" (s.1.1.view "c") s.2 := by
  have hrun : recoveredRun.map (fun s => s.2.map Event.destination) =
      some [none, some .keyQueueDelay, none, some .keyQueueDL] := by decide
  obtain ⟨s, hs, heq⟩ := Option.map_eq_some_iff.mp hrun
  obtain ⟨hin, hdead⟩ := ttl_reachable (reach_of_run _ hs)
  exact ⟨s, hs, heq, hin, hdead fun s a h => Bool.and_eq_true_iff.mp h⟩

end RedisSmq.Deployment
