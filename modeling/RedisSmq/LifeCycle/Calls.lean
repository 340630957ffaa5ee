import RedisSmq.LifeCycle.StartUp
import RedisSmq.Queue.Steps

/-!
# The books of the calls that produce a message

Every call of `produceMessage` is in one place: it waits for `UP`, it has a request, or it has an answer. And what its
callback was called with is true.

- `Stored`: what the transaction of a call does (`produceMessage_cases`);
- `Book`: the books, also while calls are on their way; they are kept by calls that go on (`book_handOver`,
  `book_proceedAll`), by the server (`book_execute`) and by replies (`book_answer`).
-/

namespace RedisSmq.LifeCycle

open Transition RedisKeys Db

variable {cron : CronParser} {lt : Text → Text → Bool} {config : Config} {now : ℕ} {s s' : State} {a : Action}
variable {c : Call}

/-! ## What the transaction of a call does -/

def Config.queue (config : Config) : TMessageQueue := ⟨config.queueName, config.ns⟩

/-- The message is put into a sorted set, and its payload into a hash; nothing else changes. -/
structure Put (before after : Db) (set hash : RedisKey) (m : Message) : Prop where
  member : ∃ n, (after.zsets set).score (.id m.uuid) = some n
  others : ∀ t, t ≠ .id m.uuid → (after.zsets set).score t = (before.zsets set).score t
  payload : after.hashes hash = Function.update (before.hashes hash) (.id m.uuid) (some m)
  frame : ∀ k, k ≠ set → k ≠ hash → SameAt after before k

/-- The message is stored in the pending queue of the producer or in the scheduled store, and nowhere else. -/
inductive Stored (config : Config) (c : Call) (before after : Db) : Prop
  | pending (m : Message) (id : m.uuid = c.message.uuid)
    (list : after.lists config.queue.keys.keyQueue = before.lists config.queue.keys.keyQueue ++ [m])
    (frame : ∀ k, k ≠ config.queue.keys.keyQueue → SameAt after before k)
  | pendingWithPriority (m : Message) (id : m.uuid = c.message.uuid)
    (put : Put before after config.queue.keys.keyQueuePriority config.queue.keys.keyPendingMessagesWithPriority m)
  | scheduled (m : Message) (id : m.uuid = c.message.uuid)
    (put : Put before after getGlobalKeys.keyQueueScheduled getGlobalKeys.keyScheduledMessages m)

theorem put_execAll {db : Db} {set hash : RedisKey} {m : Message} {n : ℕ} :
    Put db (db.execAll lt [.zadd set n (.id m.uuid), .hset hash (.id m.uuid) m]) set hash m where
  member := ⟨n, by simp [Db.exec, SortedSet.score_zadd_self]⟩
  others t ht := by simp [Db.exec, SortedSet.score_zadd_of_ne lt ht]
  payload := by simp [Db.exec]
  frame k hset hhash := by
    refine execAll_frame _ fun c hc => ?_
    simp only [List.mem_cons, List.not_mem_nil, or_false] at hc
    rcases hc with rfl | rfl
    · simpa [Cmd.keys] using hset
    · simpa [Cmd.keys] using hhash

/-- The broker never refuses a message, and its transaction stores the message. -/
theorem produceMessage_cases (cron : CronParser) (lt : Text → Text → Bool) (now : ℕ) (config : Config) (c : Call) :
    (∃ cmds, Producer.produceMessage cron config.ns config.queueName config.priorityQueue c.message now =
      .ok (cmds, true) ∧ ∀ db, Stored config c db (db.execAll lt cmds)) ∨
    ∃ cmds, Producer.produceMessage cron config.ns config.queueName config.priorityQueue c.message now =
      .ok (cmds, false) := by
  unfold Producer.produceMessage
  dsimp only
  split
  · -- a message to be scheduled
    unfold ScheduleHandler.schedule
    dsimp only
    split
    · refine .inl ⟨_, rfl, fun db => ?_⟩
      have hid := (Queue.sameMessage_next cron now (c.message.reset.setQueue config.ns config.queueName)).uuid
      exact .scheduled (Message.setScheduledAt _ now) hid put_execAll
    · exact .inr ⟨_, rfl⟩
  · left
    cases hp : config.priorityQueue with
    | true =>
      refine ⟨_, rfl, fun db => ?_⟩
      exact .pendingWithPriority
        ((c.message.reset.setQueue config.ns config.queueName).setPublishedAt now).getSetPriority.2 rfl put_execAll
    | false =>
      refine ⟨_, rfl, fun db => ?_⟩
      refine .pending ((c.message.reset.setQueue config.ns config.queueName).setPublishedAt now) rfl ?_ fun k hk => ?_
      · simp [Db.exec, Config.queue]
      · exact execAll_frame _ (by simpa [Cmd.keys, Config.queue] using hk)

/-! ## Books -/

/-- The calls whose requests were executed. -/
def executed (s : State) : List ℕ := s.executions.map fun x => x.call.id

/-- How often a call is in some place; `floating` are calls that are on their way from one to another. -/
def places (floating : List Call) (s : State) (i : ℕ) : ℕ :=
  (floating.map Call.id).count i + (s.waiting.map Call.id).count i + (s.requests.map (·.call.id)).count i +
    (s.answers.map Prod.fst).count i

/-- What a callback was called with is true. -/
def TrueAnswer (s : State) : ℕ × Except String Bool → Prop
  | (i, .ok true) => i ∈ executed s
  | (i, .ok false) => i ∈ s.handed ∧ i ∉ executed s
  | (_, .error _) => True

theorem TrueAnswer.mono {p : ℕ × Except String Bool} (h : TrueAnswer s p) (hexecuted : executed s' = executed s)
    (hhanded : ∀ i ∈ s.handed, i ∈ s'.handed) : TrueAnswer s' p := by
  obtain ⟨i, _ | b⟩ := p
  · exact trivial
  · cases b with
    | true =>
      unfold TrueAnswer
      rw [hexecuted]
      exact h
    | false =>
      unfold TrueAnswer
      rw [hexecuted]
      exact ⟨hhanded _ h.1, h.2⟩

/-- The request of another call is executed. -/
theorem TrueAnswer.execute {p : ℕ × Except String Bool} (h : TrueAnswer s p)
    (hexecuted : ∀ j, j ∈ executed s' ↔ j ∈ executed s ∨ j = c.id) (hhanded : s'.handed = s.handed)
    (hne : p.1 ≠ c.id) : TrueAnswer s' p := by
  obtain ⟨i, _ | b⟩ := p
  · exact trivial
  · cases b with
    | true => exact (hexecuted i).mpr (.inl h)
    | false => exact ⟨hhanded ▸ h.1, fun hi => ((hexecuted i).mp hi).elim h.2 hne⟩

/-- The books of the calls. -/
structure Book (config : Config) (lt : Text → Text → Bool) (floating : List Call) (s : State) : Prop where
  places : ∀ i, places floating s i = if i < s.issued then 1 else 0
  notHanded : ∀ c, c ∈ floating ∨ c ∈ s.waiting → c.id ∉ s.handed
  requestHanded : ∀ r ∈ s.requests, r.call.id ∈ s.handed
  requestExecuted : ∀ r ∈ s.requests, r.executed = true ↔ r.call.id ∈ executed s
  requestCmds : ∀ r ∈ s.requests, ∀ db, Stored config r.call db (db.execAll lt r.cmds)
  answer : ∀ p ∈ s.answers, TrueAnswer s p
  nodup : (executed s).Nodup
  stored : ∀ x ∈ s.executions, Stored config x.call x.before x.after
  executedHanded : ∀ i ∈ executed s, i ∈ s.handed
  handedIssued : ∀ i ∈ s.handed, i < s.issued

variable {floating : List Call}

theorem places_le_one (h : Book config lt floating s) (i : ℕ) : places floating s i ≤ 1 := by
  rw [h.places]
  split <;> omega

/-- A call that is waited for was issued, and nothing is known of it yet. -/
theorem Book.floating_lt (h : Book config lt floating s) (hc : c ∈ floating) : c.id < s.issued := by
  by_contra hlt
  have hplaces := h.places c.id
  rw [if_neg hlt] at hplaces
  have hcount : 0 < (floating.map Call.id).count c.id := List.count_pos_iff.mpr (List.mem_map_of_mem hc)
  unfold LifeCycle.places at hplaces
  omega

/-- A call is in one place. -/
theorem Book.waiting_ne (h : Book config lt floating s) {c' : Call} (hc : c ∈ floating) (hc' : c' ∈ s.waiting) :
    c'.id ≠ c.id := by
  intro heq
  have hle := places_le_one h c.id
  have hfloating : 0 < (floating.map Call.id).count c.id := List.count_pos_iff.mpr (List.mem_map_of_mem hc)
  have hwaiting : 0 < (s.waiting.map Call.id).count c.id :=
    List.count_pos_iff.mpr (heq ▸ List.mem_map_of_mem hc')
  unfold LifeCycle.places at hle
  omega

/-- The books are about the calls and their requests. -/
structure SameCalls (s s' : State) : Prop where
  issued : s'.issued = s.issued
  waiting : s'.waiting = s.waiting
  requests : s'.requests = s.requests
  answers : s'.answers = s.answers
  handed : s'.handed = s.handed
  executions : s'.executions = s.executions

theorem Book.same (h : Book config lt floating s) (hs : SameCalls s s') : Book config lt floating s' := by
  cases s
  cases s'
  obtain ⟨rfl, rfl, rfl, rfl, rfl, rfl⟩ := hs
  exact ⟨h.places, h.notHanded, h.requestHanded, h.requestExecuted, h.requestCmds, h.answer, h.nodup, h.stored,
    h.executedHanded, h.handedIssued⟩

/-! ## Calls that go on -/

/-- The broker is handed the message and the callback of a call that was on its way. -/
theorem book_handOver (cron : CronParser) (now : ℕ) (h : Book config lt [c] s) :
    ∃ s', s.handOver cron config now c = .ok s' ∧ Book config lt [] s' ∧ s'.waiting = s.waiting := by
  have hfree : c.id ∉ s.handed := h.notHanded c (.inl List.mem_cons_self)
  have hissued : c.id < s.issued := h.floating_lt List.mem_cons_self
  have hexecuted : c.id ∉ executed s := fun hc => hfree (h.executedHanded _ hc)
  have hhanded : ∀ i ∈ s.handed ++ [c.id], i < s.issued := by
    intro i hi
    rcases List.mem_append.mp hi with hi | hi
    · exact h.handedIssued i hi
    · rwa [List.mem_singleton.mp hi]
  have hnotHanded : ∀ c', c' ∈ [] ∨ c' ∈ s.waiting → c'.id ∉ s.handed ++ [c.id] := by
    rintro c' (hc' | hc') hmem
    · cases hc'
    · rcases List.mem_append.mp hmem with hmem | hmem
      · exact h.notHanded c' (.inr hc') hmem
      · exact h.waiting_ne List.mem_cons_self hc' (List.mem_singleton.mp hmem)
  have hkept : ∀ i, i ∈ s.handed → i ∈ s.handed ++ [c.id] := fun i hi => List.mem_append_left _ hi
  unfold State.handOver
  rcases produceMessage_cases cron lt now config c with ⟨cmds, hr, hstored⟩ | ⟨cmds, hr⟩
  · rw [hr]
    refine ⟨_, rfl, ?_, rfl⟩
    have hrequest : ∀ r ∈ s.requests ++ [⟨c, cmds, false⟩], r ∈ s.requests ∨ r = ⟨c, cmds, false⟩ := by
      intro r hr
      simpa using List.mem_append.mp hr
    constructor
    · intro i
      have hplaces := h.places i
      simp only [LifeCycle.places, List.map_append, List.count_append, List.map_nil, List.map_cons, List.count_nil]
        at hplaces ⊢
      omega
    · exact hnotHanded
    · intro r hr
      rcases hrequest r hr with hr | rfl
      · exact hkept _ (h.requestHanded r hr)
      · exact List.mem_append_right _ (List.mem_singleton_self _)
    · intro r hr
      rcases hrequest r hr with hr | rfl
      · exact h.requestExecuted r hr
      · exact iff_of_false Bool.false_ne_true hexecuted
    · intro r hr
      rcases hrequest r hr with hr | rfl
      · exact h.requestCmds r hr
      · exact hstored
    · exact fun p hp => (h.answer p hp).mono rfl hkept
    · exact h.nodup
    · exact h.stored
    · exact fun i hi => hkept _ (h.executedHanded i hi)
    · exact hhanded
  · rw [hr]
    refine ⟨_, rfl, ?_, rfl⟩
    constructor
    · intro i
      have hplaces := h.places i
      simp only [LifeCycle.places, List.map_append, List.count_append, List.map_nil, List.map_cons, List.count_nil]
        at hplaces ⊢
      omega
    · exact hnotHanded
    · exact fun r hr => hkept _ (h.requestHanded r hr)
    · exact h.requestExecuted
    · exact h.requestCmds
    · intro p hp
      rcases List.mem_append.mp hp with hp | hp
      · exact (h.answer p hp).mono rfl hkept
      · rw [List.mem_singleton.mp hp]
        exact ⟨List.mem_append_right _ (List.mem_singleton_self _), hexecuted⟩
    · exact h.nodup
    · exact h.stored
    · exact fun i hi => hkept _ (h.executedHanded i hi)
    · exact hhanded

/-- With a broker, a call goes on to it. -/
theorem book_proceed (cron : CronParser) (now : ℕ) (h : Book config lt [c] s) (hb : s.fields.broker = true) :
    ∃ s', s.proceed cron config now c = .ok s' ∧ Book config lt [] s' ∧ s'.waiting = s.waiting := by
  unfold State.proceed State.getBroker
  rw [if_pos hb]
  exact book_handOver cron now h

/-- Calls move, and no request does; an answer that is new is an error. -/
theorem Book.move {floating' : List Call} (h : Book config lt floating s) (hrequests : s'.requests = s.requests)
    (hhanded : s'.handed = s.handed) (hexecutions : s'.executions = s.executions) (hissued : s.issued ≤ s'.issued)
    (hplaces : ∀ i, LifeCycle.places floating' s' i = if i < s'.issued then 1 else 0)
    (hnotHanded : ∀ c, c ∈ floating' ∨ c ∈ s'.waiting → c.id ∉ s.handed)
    (hanswers : ∀ p ∈ s'.answers, p ∈ s.answers ∨ ∃ e, p.2 = .error e) : Book config lt floating' s' := by
  have hexecuted : executed s' = executed s := congrArg (List.map _) hexecutions
  constructor
  · exact hplaces
  · rw [hhanded]
    exact hnotHanded
  · rw [hrequests, hhanded]
    exact h.requestHanded
  · rw [hrequests, hexecuted]
    exact h.requestExecuted
  · rw [hrequests]
    exact h.requestCmds
  · intro p hp
    rcases hanswers p hp with hp | ⟨e, he⟩
    · exact (h.answer p hp).mono hexecuted fun _ hi => hhanded ▸ hi
    · obtain ⟨i, r⟩ := p
      subst he
      exact trivial
  · rw [hexecuted]
    exact h.nodup
  · rw [hexecutions]
    exact h.stored
  · rw [hexecuted, hhanded]
    exact h.executedHanded
  · rw [hhanded]
    exact fun i hi => Nat.lt_of_lt_of_le (h.handedIssued i hi) hissued

/-- A call that waits is taken out of the list. -/
theorem Book.take {cs : List Call} (h : Book config lt [] s) (hw : s.waiting = c :: cs) :
    Book config lt [c] { s with waiting := cs } := by
  refine h.move rfl rfl rfl (Nat.le_refl _) (fun i => ?_) ?_ fun p hp => .inl hp
  · have hplaces := h.places i
    simp only [LifeCycle.places, hw, List.map_cons, List.map_nil, List.count_cons, List.count_nil] at hplaces ⊢
    omega
  · rintro c' (hc' | hc')
    · exact h.notHanded c' (.inr (hw ▸ List.mem_cons.mpr (.inl (List.mem_singleton.mp hc'))))
    · exact h.notHanded c' (.inr (hw ▸ List.mem_cons_of_mem _ hc'))

/-- With a broker, all calls that wait for `UP` go on to it. -/
theorem book_proceedAll (cron : CronParser) (now : ℕ) {cs : List Call} (h : Book config lt [] s) (hw : s.waiting = cs)
    (hb : s.fields.broker = true) :
    Book config lt [] (s.proceedAll cron config now cs).1 ∧ (s.proceedAll cron config now cs).1.waiting = [] := by
  induction cs generalizing s with
  | nil => exact ⟨h.same ⟨rfl, hw.symm, rfl, rfl, rfl, rfl⟩, rfl⟩
  | cons c cs ih =>
    obtain ⟨s', hs', hbook, hwaiting⟩ := book_proceed cron now (h.take hw) hb
    rw [State.proceedAll, hs']
    exact ih hbook hwaiting ((frame_proceed hs').1.broker.trans hb)

/-- A new call. -/
theorem Book.issue (h : Book config lt [] s) (m : Message) :
    Book config lt [⟨s.issued, m⟩] { s with issued := s.issued + 1 } := by
  refine h.move rfl rfl rfl (Nat.le_succ _) (fun i => ?_) ?_ fun p hp => .inl hp
  · have hplaces := h.places i
    simp only [LifeCycle.places, List.map_cons, List.map_nil, List.count_cons, List.count_nil, beq_iff_eq] at hplaces ⊢
    split_ifs at hplaces ⊢ <;> omega
  · rintro c (hc | hc)
    · rw [List.mem_singleton.mp hc]
      exact fun hi => Nat.lt_irrefl _ (h.handedIssued _ hi)
    · exact h.notHanded c (.inr hc)

/-- A call that waits. -/
theorem Book.wait (h : Book config lt [c] s) : Book config lt [] { s with waiting := s.waiting ++ [c] } := by
  refine h.move rfl rfl rfl (Nat.le_refl _) (fun i => ?_) ?_ fun p hp => .inl hp
  · have hplaces := h.places i
    simp only [LifeCycle.places, List.map_append, List.count_append, List.map_nil, List.map_cons, List.count_nil]
      at hplaces ⊢
    omega
  · rintro c' (hc' | hc')
    · cases hc'
    · rcases List.mem_append.mp hc' with hc' | hc'
      · exact h.notHanded c' (.inr hc')
      · exact h.notHanded c' (.inl hc')

/-- A call that is refused. -/
theorem Book.refuse (h : Book config lt [c] s) (e : String) :
    Book config lt [] { s with answers := s.answers ++ [(c.id, .error e)] } := by
  refine h.move rfl rfl rfl (Nat.le_refl _) (fun i => ?_) ?_ fun p hp => ?_
  · have hplaces := h.places i
    simp only [LifeCycle.places, List.map_append, List.count_append, List.map_nil, List.map_cons, List.count_nil]
      at hplaces ⊢
    omega
  · rintro c' (hc' | hc')
    · cases hc'
    · exact h.notHanded c' (.inr hc')
  · rcases List.mem_append.mp hp with hp | hp
    · exact .inl hp
    · rw [List.mem_singleton.mp hp]
      exact .inr ⟨e, rfl⟩

/-! ## Requests -/

/-- Two requests are not of the same call. -/
theorem Book.requests_nodup (h : Book config lt floating s) : (s.requests.map (·.call.id)).Nodup := by
  refine List.nodup_iff_count_le_one.mpr fun i => ?_
  have hle := places_le_one h i
  unfold LifeCycle.places at hle
  omega

/-- A request among the others. -/
theorem requests_split {l : List Request} {r : Request} {i : ℕ} (h : l[i]? = some r) :
    ∃ l₁ l₂, l = l₁ ++ r :: l₂ ∧ (∀ r', l.set i r' = l₁ ++ r' :: l₂) ∧ l.eraseIdx i = l₁ ++ l₂ := by
  obtain ⟨hlt, rfl⟩ := List.getElem?_eq_some_iff.mp h
  refine ⟨l.take i, l.drop (i + 1), by simp, fun r' => List.set_eq_take_append_cons_drop.trans (if_pos hlt), ?_⟩
  exact List.eraseIdx_eq_take_drop_succ l i

/-- The other requests are of other calls. -/
theorem Book.other_requests {l₁ l₂ : List Request} {r r' : Request} (h : Book config lt floating s)
    (hsplit : s.requests = l₁ ++ r :: l₂) (hr' : r' ∈ l₁ ∨ r' ∈ l₂) : r'.call.id ≠ r.call.id := by
  have hnodup := h.requests_nodup
  rw [hsplit, List.map_append, List.map_cons] at hnodup
  have hnotMem := (List.nodup_middle.mp hnodup).notMem
  rintro heq
  refine hnotMem (heq ▸ ?_)
  rcases hr' with hr' | hr'
  · exact List.mem_append_left _ (List.mem_map_of_mem hr')
  · exact List.mem_append_right _ (List.mem_map_of_mem hr')

/-- A call with a request has no answer yet. -/
theorem Book.not_answered (h : Book config lt floating s) {r : Request} (hr : r ∈ s.requests) :
    r.call.id ∉ s.answers.map Prod.fst := by
  intro hmem
  have hle := places_le_one h r.call.id
  have hrequests : 0 < (s.requests.map (·.call.id)).count r.call.id :=
    List.count_pos_iff.mpr (List.mem_map_of_mem (f := (·.call.id)) hr)
  have hanswers : 0 < (s.answers.map Prod.fst).count r.call.id := List.count_pos_iff.mpr hmem
  unfold LifeCycle.places at hle
  omega

/-- The server executes a request. -/
theorem book_execute {i : ℕ} (h : Book config lt [] s) (hs : s.execute lt i = some s') : Book config lt [] s' := by
  unfold State.execute at hs
  split at hs
  · rename_i c cmds hi
    cases hs
    obtain ⟨l₁, l₂, hsplit, hset, -⟩ := requests_split hi
    have hmem : (⟨c, cmds, false⟩ : Request) ∈ s.requests := List.mem_of_getElem? hi
    have hnew : c.id ∉ executed s := fun hc => Bool.false_ne_true ((h.requestExecuted _ hmem).mpr hc)
    have hhanded : c.id ∈ s.handed := h.requestHanded _ hmem
    have hcmds : ∀ db, Stored config c db (db.execAll lt cmds) := h.requestCmds _ hmem
    have hexecuted : ∀ {j : ℕ}, j ∈ (s.executions ++ [(⟨c, s.db, s.db.execAll lt cmds⟩ : Execution)]).map
        (fun x => x.call.id) ↔ j ∈ executed s ∨ j = c.id := by
      intro j
      rw [List.map_append, List.mem_append]
      exact or_congr_right List.mem_singleton
    have hcases : ∀ r ∈ s.requests.set i ⟨c, cmds, true⟩,
        r = ⟨c, cmds, true⟩ ∨ (r ∈ s.requests ∧ r.call.id ≠ c.id) := by
      intro r hr
      rw [hset] at hr
      rcases List.mem_append.mp hr with hr | hr
      · exact .inr ⟨hsplit ▸ List.mem_append_left _ hr, h.other_requests hsplit (.inl hr)⟩
      · rcases List.mem_cons.mp hr with rfl | hr
        · exact .inl rfl
        · exact .inr ⟨hsplit ▸ List.mem_append_right _ (List.mem_cons_of_mem _ hr), h.other_requests hsplit (.inr hr)⟩
    have hids : (s.requests.set i ⟨c, cmds, true⟩).map (·.call.id) = s.requests.map (·.call.id) := by
      rw [hset, hsplit, List.map_append, List.map_append]
      rfl
    constructor
    · intro j
      have hplaces := h.places j
      unfold LifeCycle.places at hplaces ⊢
      rwa [hids]
    · exact h.notHanded
    · intro r hr
      rcases hcases r hr with rfl | ⟨hr, -⟩
      · exact hhanded
      · exact h.requestHanded r hr
    · intro r hr
      refine Iff.trans ?_ hexecuted.symm
      rcases hcases r hr with rfl | ⟨hr, hne⟩
      · exact iff_of_true rfl (.inr rfl)
      · rw [h.requestExecuted r hr]
        exact ⟨.inl, fun hor => hor.resolve_right hne⟩
    · intro r hr
      rcases hcases r hr with rfl | ⟨hr, -⟩
      · exact hcmds
      · exact h.requestCmds r hr
    · exact fun p hp => (h.answer p hp).execute (fun j => hexecuted) rfl
        fun heq => h.not_answered hmem (heq ▸ List.mem_map_of_mem hp)
    · rw [executed, List.map_append, List.nodup_append]
      refine ⟨h.nodup, List.nodup_singleton _, fun a ha b hb => ?_⟩
      rw [List.mem_singleton.mp hb]
      rintro rfl
      exact hnew ha
    · intro x hx
      rcases List.mem_append.mp hx with hx | hx
      · exact h.stored x hx
      · rw [List.mem_singleton.mp hx]
        exact hcmds s.db
    · intro j hj
      rcases hexecuted.mp hj with hj | rfl
      · exact h.executedHanded j hj
      · exact hhanded
    · exact h.handedIssued
  · cases hs

/-- A request has an answer that is true. -/
theorem Book.reply {i : ℕ} {r : Request} {a : Except String Bool} (h : Book config lt [] s)
    (hi : s.requests[i]? = some r) (ha : TrueAnswer s (r.call.id, a)) : Book config lt []
      { s with requests := s.requests.eraseIdx i, answers := s.answers ++ [(r.call.id, a)] } := by
  obtain ⟨l₁, l₂, hsplit, -, herase⟩ := requests_split hi
  have hmem : ∀ r' ∈ s.requests.eraseIdx i, r' ∈ s.requests := fun r' hr' => List.mem_of_mem_eraseIdx hr'
  constructor
  · intro j
    have hplaces := h.places j
    rw [LifeCycle.places, hsplit] at hplaces
    simp only [LifeCycle.places, herase, List.map_append, List.map_cons, List.map_nil, List.count_append,
      List.count_cons, List.count_nil] at hplaces ⊢
    omega
  · exact h.notHanded
  · exact fun r' hr' => h.requestHanded r' (hmem r' hr')
  · exact fun r' hr' => h.requestExecuted r' (hmem r' hr')
  · exact fun r' hr' => h.requestCmds r' (hmem r' hr')
  · intro p hp
    rcases List.mem_append.mp hp with hp | hp
    · exact (h.answer p hp).mono rfl fun _ hi => hi
    · rw [List.mem_singleton.mp hp]
      exact ha.mono rfl fun _ hi => hi
  · exact h.nodup
  · exact h.stored
  · exact h.executedHanded
  · exact h.handedIssued

/-- A request is replied. -/
theorem book_answer {i : ℕ} {err : Option String} (h : Book config lt [] s) (hs : s.answer i err = some s') :
    Book config lt [] s' := by
  unfold State.answer at hs
  split at hs
  · rename_i r e hi
    cases hs
    exact h.reply hi trivial
  · rename_i r hi
    split at hs <;> cases hs
    rename_i hexecuted
    exact h.reply hi ((h.requestExecuted r (List.mem_of_getElem? hi)).mp hexecuted)
  · cases hs

end RedisSmq.LifeCycle
