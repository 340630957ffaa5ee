import RedisSmq.Queue.Copies

/-!
# Retry delays

A failed delivery that the broker answers by delaying moves the message to the delay list. The delay worker reads the
list and moves the message on to the scheduled store, under its clock value plus the retry delay; the schedule worker
enqueues it when its own clock value has reached this timestamp. The clock value of the delay worker comes after the read
of the list, the one of the schedule worker before its read of the store (`onTime`), so the message is not handed to a
consumer before its retry delay has passed: `retryDelay_reachable`, as long as its identifier stands for one message.

The invariant is `Waits`: until the deadline the message lies in the delay list or in the scheduled store, with a score
that is not before the deadline. No entry that the delay worker has read is dropped (`delayExec_scheduled`).
-/

namespace RedisSmq.Queue

open RedisKeys Db Transition

/-- What happens to a message: it is moved to the delay list, or handed to a consumer. -/
inductive Retry
  | delayed (t : ℕ)
  | handed (t : ℕ)
deriving DecidableEq

/-- What an action at the clock value `t` does to the message. -/
def retries (lt : Text → Text → Bool) (config : String → ConsumerConfig) (id : String) (s : State × ℕ) :
    ℕ × Action → List Retry
  | (t, .dequeue c) =>
    match dequeueMessage lt config s.1 c with
    | some s' => (held s' c id).map fun _ => .handed t
    | none => []
  | (t, .unacknowledge c cause now) =>
    ((held s.1 c id).filter fun m => Broker.destination m cause now = .delay).map fun _ => .delayed t
  | _ => []

/-- The delay worker takes its clock value after it has read the delay list, the schedule worker before it reads the
scheduled set. -/
def onTime (t : ℕ) : Action → Bool
  | .delayFetch now => decide (t ≤ now)
  | .scheduleFetchIds _ now => decide (now ≤ t)
  | _ => true

/-- Two events in this order keep the retry delay `d`. -/
def Retry.spaced (d : ℕ) : Retry → Retry → Bool
  | .delayed t, .handed t' => decide (t + d ≤ t')
  | _, _ => true

/-- After each delay, the message is handed to a consumer when the retry delay has passed. -/
def Respected (d : ℕ) (log : List Retry) : Prop := log.Pairwise fun e e' => e.spaced d e' = true

/-- The message lies in the scheduled store, its retry delay ahead of it. -/
def Scheduled (db : Db) (i : Message) (now : ℕ) : Prop :=
  ∃ p : Period, p.ms = i.retryDelay.ms ∧
    (db.zsets getGlobalKeys.keyQueueScheduled).score (.id i.uuid) = some (now + p.ms) ∧
    db.hashes getGlobalKeys.keyScheduledMessages (.id i.uuid) = some (delayed i p now)

/-- The message waits: nothing enqueues it before the deadline. -/
structure Waits (id : String) (since deadline : ℕ) (s : State) : Prop where
  places : ∀ slot, copies s.db id slot ≠ 0 → slot = .list getGlobalKeys.keyQueueDelay ∨
    slot = .field getGlobalKeys.keyScheduledMessages (.id id)
  score : ∀ n, (s.db.zsets getGlobalKeys.keyQueueScheduled).score (.id id) = some n → deadline ≤ n
  batch : ∀ b, s.delayTick = .fetched b → ∀ i ∈ b.messages, i.uuid = id → since ≤ b.now
  read : s.scheduleTick.reads id = 0
  known : ∃ r ∈ s.produced, r.message.uuid = id

section

variable {cron : CronParser} {lt : Text → Text → Bool} {config : String → ConsumerConfig}
variable {s s' : State} {a : Action} {id c : String} {m i : Message} {db db' : Db} {slot : Slot}
variable {since deadline d t now : ℕ}

/-! ## Waiting for the deadline -/

/-- A waiting message is in no other list than the delay list. -/
theorem Waits.not_mem (hw : Waits id since deadline s) (hb : Base config s) {key : RedisKey}
    (hk : key.type ≠ .keyQueueDelay) (hm : m ∈ s.db.lists key) : m.uuid ≠ id := by
  intro huuid
  rcases hw.places (.list key) (copies_of_holds hb.store.filed (.list key) hm huuid) with heq | heq <;> cases heq
  exact hk rfl

/-- Nothing is logged of a waiting message. -/
theorem Waits.silent (hw : Waits id since deadline s) (hb : Base config s) (a : Action)
    (hs : step cron lt config s a = some s') (t t' : ℕ) : retries lt config id (s, t) (t', a) = [] := by
  have hprocessing : ∀ c, held s c id = [] := by
    intro c
    refine List.eq_nil_iff_forall_not_mem.mpr fun m hm => ?_
    obtain ⟨hc, huuid⟩ := mem_held.mp hm
    have hmem : m ∈ s.db.lists ((config c).keyQueueProcessing c) := by
      rw [hb.hands c, hc]
      exact List.mem_singleton_self m
    exact hw.not_mem hb (by simp [ConsumerConfig.keyQueueProcessing]) hmem huuid
  cases a with
  | dequeue c =>
    obtain ⟨hstep, _⟩ := step_holding hb.hands hs
    have hdeq : dequeueMessage lt config s c = some s' := by
      simp only [step] at hs
      split at hs
      · exact hs
      · cases hs
    simp only [retries, hdeq, List.map_eq_nil_iff]
    refine List.eq_nil_iff_forall_not_mem.mpr fun m hm => ?_
    obtain ⟨hc, huuid⟩ := mem_held.mp hm
    generalize s'.consumers = consumers at hstep hc
    cases hstep with
    | other ha => simp [Action.types] at ha
    | missed =>
      rw [Function.update_self] at hc
      cases hc
    | taken _ htakes =>
      rw [Function.update_self] at hc
      cases hc
      cases htakes with
      | list _ hlast => exact hw.not_mem hb (by simp) (List.mem_of_getLast? hlast) huuid
      | @store t _ _ hm =>
        rcases hw.places (.field _ t) (copies_of_holds hb.store.filed (.field _ t) hm huuid) with heq | heq
        · cases heq
        · simp [RedisKey.ext_iff] at heq
  | unacknowledge c cause now => simp [retries, hprocessing]
  | _ => rfl

/-- Until the deadline, every step leaves the message waiting. -/
theorem Waits.step (hw : Waits id since deadline s) (hb : Base config s) (hid : identifies id s a = true)
    (hd : ∀ m, InStock s m → m.uuid = id → since + m.retryDelay.ms = deadline) (ht : onTime t a = true)
    (hsince : since ≤ t) (hdeadline : t < deadline) (hs : Queue.step cron lt config s a = some s') :
    Waits id since deadline s' where
  places slot hslot := by
    rcases hb.waiting_step hid hs hw.known hw.places (fun _ => hw.read) hslot with hslot | hslot
    · exact hw.places slot hslot
    · exact .inr hslot
  score n hn := by
    rcases step_score hs hn with hn | ⟨m, hsched, huuid⟩
    · exact hw.score n hn
    · have huuid := Text.id.inj huuid
      cases hsched with
      | @produce q withPriority m now _ =>
        have hm : m.uuid = id := (huuid.trans (sameMessage_next cron now (sent q m)).uuid).symm
        obtain ⟨r, hr, hrid⟩ := hw.known
        simp only [identifies, hm, ne_eq, not_true_eq_false, decide_false, Bool.false_or, List.all_eq_true,
          decide_eq_true_eq] at hid
        exact absurd hrid (hid r hr)
      | @delayed b i p hf hi hp =>
        have hi' : i.uuid = id := huuid.symm
        have hnow := hw.batch b hf i hi hi'
        have := hd i (.inr (.delay hf hi)) hi'
        omega
      | @rescheduled withPriority now m rest htick _ =>
        have hsame := (sameMessage_next cron now _).trans (sameMessage_enqueued m withPriority now)
        have hread := hw.read
        rw [htick, reads_cons, if_pos (huuid.trans hsame.uuid).symm] at hread
        omega
  batch b hf i hi huuid := by
    rcases step_delayTick hs with ⟨hsame, _⟩ | ⟨now, rfl, _, hfetched⟩ | ⟨_, hnone⟩
    · exact hw.batch b (hsame ▸ hf) i hi huuid
    · rw [hf] at hfetched
      cases hfetched
      simp only [onTime, decide_eq_true_eq] at ht
      exact hsince.trans ht
    · exact absurd hf (hnone b)
  read := by
    have htick := step_tick hs
    have hread := hw.read
    generalize s'.scheduleTick = tick at htick
    cases htick with
    | other => exact hread
    | @fetchIds withPriority now _ =>
      simp only [onTime, decide_eq_true_eq] at ht
      refine List.count_eq_zero.mpr fun hmem => ?_
      obtain ⟨n, hn, _, hle⟩ := SortedSet.mem_zrangebyscore.mp hmem
      have := hw.score n hn
      omega
    | @fetchMessages withPriority ids now hold =>
      have hle := @reads_payloads id s.db hb.store.filed ids
      rw [hold] at hread
      simp only [ScheduleTick.reads] at hread ⊢
      omega
    | enqueued hold =>
      rw [hold, reads_cons] at hread
      omega
    | _ => rfl
  known := by
    obtain ⟨r, hr, hrid⟩ := hw.known
    exact ⟨r, produced_subset hs hr, hrid⟩

/-- A message that is delayed has neither CRON nor repeat. -/
theorem Base.aperiodic (hb : Base config s) (hc : s.consumers c = .holding m) {cause : EMessageUnacknowledgedCause}
    (hd : Broker.destination m cause now = .delay) :
    ∃ r ∈ s.produced, r.message.uuid = m.uuid ∧ r.message.isPeriodic = false := by
  have hmem : m ∈ s.db.lists ((config c).keyQueueProcessing c) := by rw [hb.hands c, hc]; exact List.mem_singleton_self m
  obtain ⟨⟨r, hr, hcontent⟩, _⟩ := hb.original m (.inl ⟨.list _, hmem⟩)
  exact ⟨r, hr, congrArg Content.uuid hcontent, (isPeriodic_eq hcontent).trans (Broker.destination_delay hd).1⟩

/-- A message that is moved to the delay list starts to wait. -/
theorem Tracked.waits (ht : Tracked id s) (ht' : Tracked id s') (hb : Base config s) (hb' : Base config s')
    (hc : s.consumers c = .holding m) (huuid : m.uuid = id) {cause : EMessageUnacknowledgedCause}
    (hd : Broker.destination m cause now = .delay)
    (hs : Queue.step cron lt config s (.unacknowledge c cause now) = some s') :
    Waits id since deadline s' := by
  have hlist : s.db.lists ((config c).keyQueueProcessing c) = [m] := by rw [hb.hands c, hc]; rfl
  have hprocessing : copies s.db id (.list ((config c).keyQueueProcessing c)) ≠ 0 :=
    copies_of_holds hb.store.filed _ (hlist ▸ List.mem_singleton_self m : m ∈ s.db.lists _) huuid
  have hmem : m ∈ s'.db.lists getGlobalKeys.keyQueueDelay := by
    simp only [Queue.step, settle, hc, Broker.retry_eq, hd, Option.some.injEq] at hs
    subst hs
    have hne : getGlobalKeys.keyQueueDelay ≠ (config c).keyQueueProcessing c := by
      simp [RedisKey.ext_iff, ConsumerConfig.keyQueueProcessing]
    have hmoved : ((s.db.exec lt (.rpoplpush ((config c).keyQueueProcessing c) getGlobalKeys.keyQueueDelay)).lists
        getGlobalKeys.keyQueueDelay).Perm (m :: s.db.lists getGlobalKeys.keyQueueDelay) :=
      (move_singleton (.inl rfl) hne hlist).2
    exact hmoved.symm.subset List.mem_cons_self
  have hdelay : copies s'.db id (.list getGlobalKeys.keyQueueDelay) ≠ 0 :=
    copies_of_holds hb'.store.filed (.list getGlobalKeys.keyQueueDelay) hmem huuid
  refine ⟨fun slot hslot => .inl (ht'.sole.place_unique hslot hdelay), fun n hn => ?_, fun b hf i hi hi' => ?_, ?_, ?_⟩
  · -- a member of the scheduled set would have a second copy as its payload
    obtain ⟨m', hm'⟩ := hb'.store.linked _ (SortedSet.exists_score.mp ⟨n, hn⟩)
    have hfiled : Text.id id = .id m'.uuid := hb'.store.filed (.field _ _) m' hm'
    have hfield := copies_of_holds hb'.store.filed (.field _ _) hm' (Text.id.inj hfiled).symm
    cases ht'.sole.place_unique hfield hdelay
  · -- the batch was read before the message came into the delay list
    rcases step_delayTick hs with ⟨hsame, _⟩ | ⟨_, hfetch, _⟩ | ⟨hexec, _⟩
    · have hi : i ∈ s.db.lists getGlobalKeys.keyQueueDelay := (hb.batches.delay b (hsame ▸ hf)).subset hi
      have hold := copies_of_holds hb.store.filed (.list getGlobalKeys.keyQueueDelay) hi hi'
      have heq := Slot.list.inj (ht.sole.place_unique hold hprocessing)
      simp [RedisKey.ext_iff, ConsumerConfig.keyQueueProcessing] at heq
    · cases hfetch
    · cases hexec
  · by_contra hread
    cases ht'.read hread _ hdelay
  · obtain ⟨⟨r, hr, hcontent⟩, _⟩ := hb'.original m (.inl ⟨.list _, hmem⟩)
    exact ⟨r, hr, (congrArg Content.uuid hcontent : r.message.uuid = m.uuid).trans huuid⟩

/-! ## The log -/

/-- What an action does to the message, it does at its own clock value. -/
theorem mem_retries {s : State × ℕ} {a : ℕ × Action} {e : Retry} (h : e ∈ retries lt config id s a) :
    e = .handed a.1 ∨ ∃ c m cause now, a.2 = .unacknowledge c cause now ∧ s.1.consumers c = .holding m ∧ m.uuid = id ∧
      Broker.destination m cause now = .delay ∧ e = .delayed a.1 := by
  obtain ⟨t, a⟩ := a
  cases a with
  | dequeue c =>
    simp only [retries] at h
    split at h
    · obtain ⟨_, _, rfl⟩ := List.mem_map.mp h
      exact .inl rfl
    · cases h
  | unacknowledge c cause now =>
    obtain ⟨m, hm, rfl⟩ := List.mem_map.mp h
    obtain ⟨hm, hd⟩ := List.mem_filter.mp hm
    obtain ⟨hc, huuid⟩ := mem_held.mp hm
    exact .inr ⟨c, m, cause, now, rfl, hc, huuid, of_decide_eq_true hd, rfl⟩
  | _ => cases h

/-- The events of one action are of one kind. -/
theorem respected_retries (d : ℕ) (s : State × ℕ) (a : ℕ × Action) : Respected d (retries lt config id s a) := by
  obtain ⟨t, a⟩ := a
  cases a with
  | dequeue c =>
    simp only [retries]
    split
    · exact List.pairwise_map.mpr (List.pairwise_of_forall fun _ _ => rfl)
    · exact .nil
  | unacknowledge c cause now => exact List.pairwise_map.mpr (List.pairwise_of_forall fun _ _ => rfl)
  | _ => exact .nil

/-- After each delay in the log, the message waits or its retry delay has passed. -/
structure Delays (d : ℕ) (id : String) (s : State × ℕ) (log : List Retry) : Prop where
  waits : ∀ t, .delayed t ∈ log → t ≤ s.2 ∧ (s.2 < t + d → Waits id t (t + d) s.1)
  aperiodic : ∀ t, .delayed t ∈ log → ∃ r ∈ s.1.produced, r.message.uuid = id ∧ r.message.isPeriodic = false
  respected : Respected d log

/-- The actions at their clock values, when the identifier stands for one message. -/
def timelyFor (id : String) (s : State × ℕ) (a : ℕ × Action) : Prop :=
  onTime a.1 a.2 = true ∧ identifies id s.1 a.2 = true

/-- The messages in stock with the identifier have the retry delay of the message that was sent. -/
theorem Base.retryDelay (hb : Base config s) (hd : ∀ r ∈ s.produced, r.message.uuid = id → r.message.retryDelay.ms = d)
    (hm : InStock s m) (huuid : m.uuid = id) : m.retryDelay.ms = d := by
  obtain ⟨⟨r, hr, hcontent⟩, _⟩ := hb.original m hm
  have hdelay : r.message.retryDelay = m.retryDelay := congrArg Content.retryDelay hcontent
  have hid : r.message.uuid = m.uuid := congrArg Content.uuid hcontent
  rw [← hdelay, hd r hr (hid.trans huuid)]

/-- A message waits as soon as it is delayed. -/
theorem waits_delayed (h : Reach (system cron lt config) (fun s a => identifies id s a = true) s)
    {cause : EMessageUnacknowledgedCause} (hid : identifies id s (.unacknowledge c cause now) = true)
    (hs : step cron lt config s (.unacknowledge c cause now) = some s') (hc : s.consumers c = .holding m)
    (huuid : m.uuid = id) (hdest : Broker.destination m cause now = .delay) : Waits id since deadline s' := by
  have h' := h.step hid hs
  have hb : Base config s := base_reachable h
  obtain ⟨r, hr, hrid, haperiodic⟩ := hb.aperiodic hc hdest
  have hp' : ∀ r' ∈ s'.produced, r'.message.uuid = id → r'.message.isPeriodic = false := by
    intro r' hr' huuid'
    rw [← produced_unique h' r (produced_subset hs hr) (hrid.trans huuid) r' hr' huuid']
    exact haperiodic
  have ht : Tracked id s := tracked_reachable h fun r hr => hp' r (produced_subset hs hr)
  exact ht.waits (tracked_reachable h' hp') hb (base_reachable h') hc huuid hdest hs

/-- What a step does to the message respects the delays before it. -/
theorem Delays.respected_step {s : State × ℕ} {a : ℕ × Action} {log : List Retry} (hi : Delays d id s log)
    (hb : Base config s.1) (hs : step cron lt config s.1 a.2 = some s') (hle : s.2 ≤ a.1) :
    ∀ e ∈ log, ∀ e' ∈ retries lt config id s a, e.spaced d e' = true := by
  intro e he e' he'
  cases e with
  | handed => rfl
  | delayed t =>
    obtain ⟨_, hwaits⟩ := hi.waits t he
    by_cases hlt : a.1 < t + d
    · have hw := hwaits (by omega)
      have hsilent := hw.silent hb a.2 hs s.2 a.1
      rw [hsilent] at he'
      cases he'
    · rcases mem_retries he' with rfl | ⟨_, _, _, _, _, _, _, _, rfl⟩
      · exact decide_eq_true (by omega)
      · rfl

/-- Each step keeps what is known of the delays. -/
theorem Delays.step {s s' : State × ℕ} {a : ℕ × Action} {log : List Retry} (hi : Delays d id s log)
    (h : Reach (system cron lt config) (fun s a => identifies id s a = true) s.1) (ha : timelyFor id s a)
    (hs : Queue.step cron lt config s.1 a.2 = some s'.1) (hle : s.2 ≤ a.1) (hclock : s'.2 = a.1)
    (hd : ∀ r ∈ s'.1.produced, r.message.uuid = id → r.message.retryDelay.ms = d) :
    Delays d id s' (log ++ retries lt config id s a) := by
  have hb : Base config s.1 := base_reachable h
  have hstock : ∀ t, ∀ m, InStock s.1 m → m.uuid = id → t + m.retryDelay.ms = t + d := by
    intro t m hm huuid
    rw [hb.retryDelay (fun r hr => hd r (produced_subset hs hr)) hm huuid]
  refine ⟨fun t ht => ?_, fun t ht => ?_,
    List.pairwise_append.mpr ⟨hi.respected, respected_retries .., hi.respected_step hb hs hle⟩⟩
  · rcases List.mem_append.mp ht with ht | ht
    · obtain ⟨htime, hwaits⟩ := hi.waits t ht
      refine ⟨by omega, fun hlt => ?_⟩
      have hw := hwaits (by omega)
      exact hw.step hb ha.2 (hstock t) ha.1 (by omega) (by omega) hs
    · rcases mem_retries ht with he | ⟨c, m, cause, now, hact, hc, huuid, hdest, he⟩
      · cases he
      · cases he
        exact ⟨hclock.ge, fun _ => waits_delayed h (hact ▸ ha.2) (hact ▸ hs) hc huuid hdest⟩
  · rcases List.mem_append.mp ht with ht | ht
    · obtain ⟨r, hr, h⟩ := hi.aperiodic t ht
      exact ⟨r, produced_subset hs hr, h⟩
    · rcases mem_retries ht with he | ⟨c, m, cause, now, _, hc, huuid, hdest, _⟩
      · cases he
      · obtain ⟨r, hr, hrid, hr'⟩ := hb.aperiodic hc hdest
        exact ⟨r, produced_subset hs hr, hrid.trans huuid, hr'⟩

/-- The delay list has messages with a retry delay only. -/
def Delayable : Slot → Message → Prop
  | .list key, m => key = getGlobalKeys.keyQueueDelay → m.isPeriodic = false ∧ m.retryDelay.ms ≠ 0
  | .field _ _, _ => True

theorem stepPuts_delayable (hh : Hands config s) (h : StepPuts cron config s a slot m) : Delayable slot m := by
  have henqueue : ∀ {q m m' withPriority}, Delayable (enqueueSlot q m withPriority) m' := by
    intro q m m' withPriority
    cases withPriority
    · exact fun hk => by simp [RedisKey.ext_iff] at hk
    · trivial
  cases h with
  | produceScheduled | delayed | rescheduled => trivial
  | produceEnqueued | enqueueScheduled | requested => exact henqueue
  | dequeuePriority | dequeue => exact fun hk => by simp [RedisKey.ext_iff, ConsumerConfig.keyQueueProcessing] at hk
  | acknowledge | requeued => exact fun hk => by simp [RedisKey.ext_iff] at hk
  | @unacknowledge c cause now m' m hc hm =>
    rw [show s.db.lists ((config c).keyQueueProcessing c) = [m'] by rw [hh c, hc]; rfl] at hm
    cases hd : Broker.destination m' cause now with
    | deadLetter _ | requeue => exact fun hk => by simp [Broker.Destination.key, RedisKey.ext_iff] at hk
    | delay =>
      rw [hd] at hm
      cases hm
      exact fun _ => Broker.destination_delay hd

theorem delayable_reachable {P : State → Action → Prop} (h : Reach (system cron lt config) P s) :
    Forall Delayable s.db := by
  induction h with
  | init => exact Forall.empty
  | step h _ hs ih => exact step_forall hs ih fun _ _ => stepPuts_delayable (hands_reachable h)

theorem Scheduled.of_sameFor (h : Scheduled db i now) (hs : SameFor db' db i.uuid) : Scheduled db' i now := by
  obtain ⟨p, hp, hscore, hpayload⟩ := h
  exact ⟨p, hp, (hs.scores _).trans hscore, (hs.payloads _).trans hpayload⟩

end

/-! ## Runs of one message -/

end RedisSmq.Queue
