import RedisSmq.Queue.Turns

/-!
# What consumers and workers do to a message

Every step of a consumer, of the delay worker, of the re-queue worker and of the schedule worker is followed: a consumer
takes a pending message and settles the one it has; the delay worker schedules the messages of its batch; the re-queue
worker puts them back, or loses them in priority mode; the schedule worker enqueues what it has read, also when it was
deleted since.
-/

namespace RedisSmq.Queue

open RedisKeys Db Tokens Transition

section

variable {cron : CronParser} {lt : Text → Text → Bool} {config : String → ConsumerConfig}
variable {s s' : State} {id c : String} {db : Db} {m : Message} {q : TMessageQueue}
variable {σ : LifeStage} {slot : Slot} {key zk hk : RedisKey} {now : ℕ} {withPriority : Bool}

/-! ## Deliveries -/

theorem sameFor_setList {l : List Message} (hl : l.filter (·.uuid = id) = (db.lists key).filter (·.uuid = id)) :
    SameFor (db.setList key l) db id := by
  refine ⟨fun k => ?_, fun _ => rfl, fun _ => rfl⟩
  by_cases hk : k = key
  · subst hk
    simpa using hl
  · simp [hk]

/-- Moving another message changes nothing. -/
theorem sameFor_rpoplpush {source destination : RedisKey}
    (h : ∀ m, (db.lists source).getLast? = some m → m.uuid ≠ id) : SameFor (db.rpoplpush source destination) db id := by
  unfold Db.rpoplpush
  split
  · exact .refl _ _
  · rename_i m hm
    have huuid := h m hm
    obtain ⟨rest, hrest⟩ := List.getLast?_eq_some_iff.mp hm
    have hsource : SameFor (db.setList source (db.lists source).dropLast) db id :=
      sameFor_setList (by rw [hrest, List.dropLast_concat]; simp [huuid])
    refine SameFor.trans (sameFor_setList ?_) hsource
    simp [huuid]

theorem sameFor_lpoprpush {source destination : RedisKey}
    (h : ∀ m, (db.lists source).head? = some m → m.uuid ≠ id) : SameFor (db.lpoprpush source destination) db id := by
  unfold Db.lpoprpush
  split
  · exact .refl _ _
  · rename_i m rest hlist
    have huuid := h m (by rw [hlist]; rfl)
    have hsource : SameFor (db.setList source rest) db id := sameFor_setList (by rw [hlist]; simp [huuid])
    refine SameFor.trans (sameFor_setList ?_) hsource
    simp [huuid]

/-- Popping another message, or a member without a payload, changes no stage. -/
theorem at_zpophgetrpush (hf : Forall Filed db) {list : RedisKey}
    (h : ∀ m, (db.zpophgetrpush q.keys.keyQueuePriority q.keys.keyPendingMessagesWithPriority list).2 = .message m →
      m.uuid ≠ id) :
    At config (db.zpophgetrpush q.keys.keyQueuePriority q.keys.keyPendingMessagesWithPriority list).1 id σ ↔
      At config db id σ := by
  unfold Db.zpophgetrpush at h ⊢
  cases hfirst : (db.zsets q.keys.keyQueuePriority).first with
  | none => exact .rfl
  | some text =>
    rw [hfirst] at h
    dsimp only at h ⊢
    cases hm : db.hashes q.keys.keyPendingMessagesWithPriority text with
    | some m =>
      rw [hm] at h
      dsimp only at h ⊢
      have huuid : m.uuid ≠ id := h m rfl
      have htext : text = .id m.uuid := hf (.field _ text) m hm
      have hne : text ≠ .id id := fun heq => huuid (Text.id.inj (htext.symm.trans heq))
      have hsame : SameFor ((((db.setZset q.keys.keyQueuePriority
          ((db.zsets q.keys.keyQueuePriority).zrem text)).setHash q.keys.keyPendingMessagesWithPriority text
          none)).setList list (db.lists list ++ [m])) db id := by
        refine ⟨fun k => ?_, fun k => ?_, fun k => ?_⟩
        · by_cases hk : k = list
          · subst hk
            simp [huuid]
          · simp [hk]
        · by_cases hk : k = q.keys.keyQueuePriority
          · subst hk
            simpa using SortedSet.score_zrem_of_ne hne.symm
          · simp [hk]
        · by_cases hk : k = q.keys.keyPendingMessagesWithPriority
          · subst hk
            simp [hne.symm]
          · simp [hk]
      exact ⟨fun h => h.of_sameFor hsame.symm, fun h => h.of_sameFor hsame⟩
    | none =>
      have hcopies : ∀ slot, copies ((db.setZset q.keys.keyQueuePriority
          ((db.zsets q.keys.keyQueuePriority).zrem text)).setHash q.keys.keyPendingMessagesWithPriority text none)
          id slot = copies db id slot := by
        intro slot
        rw [copies_setHash]
        split
        · rename_i heq
          simp [heq, copies, hm]
        · cases slot <;> rfl
      refine ⟨fun h => h.mono (fun slot _ hcopy => hcopies slot ▸ hcopy) fun {zk hk} hs _ hmem => ?_,
        fun h => h.mono (fun slot _ hcopy => (hcopies slot).symm ▸ hcopy) fun {zk hk} hs hcopy hmem => ?_⟩
      · by_cases hz : zk = q.keys.keyQueuePriority
        · subst hz
          simp only [setHash_zsets, setZset_zsets, Function.update_self] at hmem
          exact (SortedSet.mem_zrem.mp hmem).2
        · simpa [hz] using hmem
      · by_cases hz : zk = q.keys.keyQueuePriority
        · -- the message has a payload, so it is not the member that was popped
          subst hz
          simp only [setHash_zsets, setZset_zsets, Function.update_self]
          refine SortedSet.mem_zrem.mpr ⟨?_, hmem⟩
          rintro rfl
          rw [(Stores.pending q).hash_unique hs] at hcopy
          simp [copies, hm] at hcopy
        · simpa [hz] using hmem

/-- A message that a consumer takes was pending. -/
theorem Takes.source (h : Takes config s c m) (hf : Forall Filed s.db) : At config s.db m.uuid .pending := by
  cases h with
  | list _ hlast =>
    exact .list (.pending (config c).queue) (copies_of_holds hf (.list _) (List.mem_of_getLast? hlast) rfl)
  | @store text _ hfirst hm =>
    have htext : text = .id m.uuid := hf (.field _ text) m hm
    subst htext
    exact .store (.pending (config c).queue) (SortedSet.mem_of_first hfirst) (copies_of_holds hf (.field _ _) hm rfl)

/-- A consumer has its message in its processing list. -/
theorem Base.at_processing (hb : Base config s) (hc : s.consumers c = .holding m) :
    At config s.db m.uuid .processing := by
  refine .list (.processing c) (copies_of_holds hb.store.filed (.list _) (?_ : m ∈ s.db.lists _) rfl)
  rw [hb.hands c, hc]
  exact List.mem_singleton_self m

/-- A dequeue takes the message, or another one. -/
theorem follows_dequeue (h : Stands config id s σ) (hb : Base config s) (hb' : Base config s') (ht : Tracked id s)
    (hs : step cron lt config s (.dequeue c) = some s') :
    Follows config id σ (turns cron lt config id s (.dequeue c)) s' := by
  have hholding := (step_holding hb.hands hs).1
  have hquiet : s'.produced = s.produced ∧ s'.scheduleTick = s.scheduleTick := by
    have htick := step_tick hs
    generalize s'.scheduleTick = tick at htick
    cases htick
    rcases step_produced hs with heq | ⟨_, _, _, _, heq, _⟩
    · exact ⟨heq, rfl⟩
    · cases heq
  have hdequeue : dequeueMessage lt config s c = some s' := by
    simp only [step] at hs
    split at hs
    · exact hs
    · cases hs
  have hturns : turns cron lt config id s (.dequeue c) = (held s' c id).map fun _ => .taken := by
    simp only [turns, hdequeue]
  rw [hturns]
  by_cases htaken : ∃ m, s'.consumers c = .holding m ∧ m.uuid = id
  · obtain ⟨m, hc, rfl⟩ := htaken
    rw [held_eq hc rfl]
    have htakes : Takes config s c m := by
      generalize hcs : s'.consumers = consumers at hholding
      cases hholding with
      | other hno => simp [Action.types] at hno
      | taken _ htakes =>
        rw [hcs, Function.update_self] at hc
        cases hc
        exact htakes
      | missed =>
        rw [hcs, Function.update_self] at hc
        cases hc
    exact h.moved hb ht (htakes.source hb.store.filed) rfl (hb'.at_processing hc)
  · have hother : ∀ m, s'.consumers c = .holding m → m.uuid ≠ id := fun m hc hid => htaken ⟨m, hc, hid⟩
    have hnil : held s' c id = [] :=
      List.eq_nil_iff_forall_not_mem.mpr fun m hm => hother m (mem_held.mp hm).1 (mem_held.mp hm).2
    rw [hnil]
    refine .stays (h.keep (by rw [hquiet.1]) (by rw [hquiet.2]) fun σ => ?_)
    unfold dequeueMessage at hdequeue
    dsimp only at hdequeue
    split at hdequeue
    · have hpop : ∀ m, (s.db.zpophgetrpush (config c).queue.keys.keyQueuePriority
          (config c).queue.keys.keyPendingMessagesWithPriority ((config c).keyQueueProcessing c)).2 = .message m →
          m.uuid ≠ id := by
        intro m hreply
        have hreply' : (s.db.zpophgetrpush (getKeys (config c).ns (config c).queueName none).keyQueuePriority
            (getKeys (config c).ns (config c).queueName none).keyPendingMessagesWithPriority
            ((config c).keyQueueProcessing c)).2 = .message m := hreply
        rw [hreply'] at hdequeue
        cases hdequeue
        exact hother m (Function.update_self ..)
      split at hdequeue <;> cases hdequeue <;> exact at_zpophgetrpush hb.store.filed hpop
    · split at hdequeue
      · cases hdequeue
      · rename_i m hlast
        cases hdequeue
        have huuid : m.uuid ≠ id := hother m (Function.update_self ..)
        have hsame : SameFor (s.db.rpoplpush (getKeys (config c).ns (config c).queueName none).keyQueue
            ((config c).keyQueueProcessing c)) s.db id :=
          sameFor_rpoplpush fun m' hlast' => by
            rw [hlast] at hlast'
            cases hlast'
            exact huuid
        exact ⟨fun h => h.of_sameFor hsame.symm, fun h => h.of_sameFor hsame⟩

/-- A settlement moves the message that the consumer has. -/
theorem follows_settle (h : Stands config id s σ) (hb : Base config s) (hb' : Base config s') (ht : Tracked id s)
    {cmd : Message → Cmd} {turn : Message → Turn} {stage : Message → LifeStage} {destination : Message → RedisKey}
    (hmove : ∀ m, IsMove ((config c).keyQueueProcessing c) (destination m) (cmd m))
    (hkeeps : ∀ m, Keeps config (stage m) (destination m))
    (hnext : ∀ m, LifeStage.next .processing (turn m) = some (stage m))
    (hne : ∀ m, destination m ≠ (config c).keyQueueProcessing c) (hs : settle lt s c cmd = some s') :
    Follows config id σ ((held s c id).map turn) s' := by
  unfold settle at hs
  split at hs
  · rename_i m hc
    cases hs
    have hlist : s.db.lists ((config c).keyQueueProcessing c) = [m] := by
      rw [hb.hands c, hc]
      rfl
    by_cases hid : m.uuid = id
    · subst hid
      rw [held_eq hc rfl]
      have hmoved := (@move_singleton lt s.db _ _ _ m (hmove m) (hne m) hlist).2
      refine h.moved hb ht (hb.at_processing hc) (hnext m) (.list (hkeeps m) ?_)
      exact copies_of_holds hb'.store.filed (.list _) (hmoved.symm.subset List.mem_cons_self) rfl
    · have hnil : held s c id = [] := by
        refine List.eq_nil_iff_forall_not_mem.mpr fun m' hm' => ?_
        obtain ⟨hc', hid'⟩ := mem_held.mp hm'
        rw [hc] at hc'
        cases hc'
        exact hid hid'
      rw [hnil]
      refine .stays (h.sameFor rfl rfl ?_)
      rcases hmove m with heq | heq
      · show SameFor (s.db.exec lt (cmd m)) s.db id
        rw [heq]
        exact sameFor_rpoplpush fun m' hlast => by
          rw [hlist] at hlast
          cases hlast
          exact hid
      · show SameFor (s.db.exec lt (cmd m)) s.db id
        rw [heq]
        exact sameFor_lpoprpush fun m' hhead => by
          rw [hlist] at hhead
          cases hhead
          exact hid
  · cases hs

/-! ## The batches of the workers -/

/-- The stage of a message in a list. -/
theorem Base.at_list (hb : Base config s) (hk : Keeps config σ key) (hm : m ∈ s.db.lists key) :
    At config s.db m.uuid σ :=
  .list hk (copies_of_holds hb.store.filed (.list key) hm rfl)

/-- A member of the scheduled set has its payload. -/
theorem Base.at_scheduled (hb : Base config s) (h : isScheduled s.db id = true) : At config s.db id .scheduled := by
  have hmem := of_decide_eq_true h
  obtain ⟨m, hm⟩ := hb.store.linked _ hmem
  have hid : Text.id id = .id m.uuid := hb.store.filed (.field _ _) m hm
  exact .store .scheduled hmem (copies_of_holds hb.store.filed (.field _ _) hm (Text.id.inj hid).symm)

/-- The delay worker puts the messages of its batch into the scheduled set, and takes none out. -/
theorem isScheduled_delayCmds : ∀ {ms : List Message} {cmds : List Cmd} {db : Db},
    parallel (DelayHandler.scheduleTask cron now) ms = .ok cmds →
    (∃ i ∈ ms, i.uuid = id) ∨ isScheduled db id = true → isScheduled (db.execAll lt cmds) id = true
  | [], _, _, h, hid => by
    cases h
    exact hid.resolve_left fun ⟨_, hi, _⟩ => absurd hi List.not_mem_nil
  | i :: ms, _, db, h, hid => by
    obtain ⟨c, cs, h1, h2, rfl⟩ := parallel_cons h
    obtain ⟨p, _, rfl⟩ := scheduleTask_ok h1
    have hpos : now + p.ms ≠ 0 := by have := p.min; omega
    rw [execAll_append]
    refine isScheduled_delayCmds h2 ?_
    have hstored : ∀ text, text ∈ ((db.execAll lt (.lrem getGlobalKeys.keyQueueDelay i ::
        ScheduleHandler.storeCmds (now + p.ms, delayed i p now))).zsets getGlobalKeys.keyQueueScheduled).members ↔
        text = .id i.uuid ∨ text ∈ (db.zsets getGlobalKeys.keyQueueScheduled).members := by
      intro text
      simp only [ScheduleHandler.storeCmds, if_pos hpos, execAll_cons, execAll_nil, Db.exec, setHash_zsets,
        setZset_zsets, setList_zsets, Function.update_self, SortedSet.mem_zadd]
      rfl
    simp only [isScheduled, decide_eq_true_eq, hstored, Text.id.injEq] at hid ⊢
    rcases hid with ⟨i', hi', huuid⟩ | hmem
    · rcases List.mem_cons.mp hi' with rfl | hi'
      · exact .inr (.inl huuid.symm)
      · exact .inl ⟨i', hi', huuid⟩
    · exact .inr (.inr hmem)

/-- The delay worker schedules the messages of its batch. -/
theorem follows_delayExec (h : Stands config id s σ) (hb : Base config s) (hb' : Base config s') (ht : Tracked id s)
    (hs : step cron lt config s .delayExec = some s') :
    Follows config id σ (turns cron lt config id s .delayExec) s' := by
  simp only [step, delayExec] at hs
  split at hs
  · rename_i b hf
    simp only [turns, hf]
    split at hs <;> rename_i hcmds <;> cases hs <;> rw [hcmds]
    · by_cases hid : b.messages.any (·.uuid = id) = true
      · rw [if_pos ⟨hid, rfl⟩]
        obtain ⟨i, hi, huuid⟩ := List.any_eq_true.mp hid
        have huuid : i.uuid = id := of_decide_eq_true huuid
        subst huuid
        have hsource : At config s.db i.uuid .delayed := hb.at_list .delayed ((hb.batches.delay b hf).subset hi)
        exact h.moved hb ht hsource rfl (hb'.at_scheduled (isScheduled_delayCmds hcmds (.inl ⟨i, hi, rfl⟩)))
      · rw [if_neg fun hand => hid hand.1]
        refine .stays (h.sameFor rfl rfl (execAll_sameFor _ fun c hc ha => hid ?_))
        obtain ⟨i, hi, cs, hcs, hc⟩ := mem_parallel hcmds c hc
        obtain ⟨p, _, rfl⟩ := scheduleTask_ok hcs
        refine List.any_eq_true.mpr ⟨i, hi, decide_eq_true ?_⟩
        rcases List.mem_cons.mp hc with rfl | hc
        · exact ha
        · exact about_storeCmds hc ha
    · rw [if_neg fun hand => by cases hand.2]
      exact .stays (h.sameFor rfl rfl (.refl _ _))
  · cases hs

variable (lt) in
/-- In LIFO mode the re-queue worker puts the messages of its batch back, and takes none out of a queue. -/
theorem pending_requeueCmds : ∀ {ms : List Message} {cmds : List Cmd} {db : Db},
    parallel (RequeueWorker.requeueTask false) ms = .ok cmds →
    (∃ i ∈ ms, i.uuid = id) ∨ (∃ q : TMessageQueue, copies db id (.list q.keys.keyQueue) ≠ 0) →
    ∃ q : TMessageQueue, copies (db.execAll lt cmds) id (.list q.keys.keyQueue) ≠ 0
  | [], _, _, h, hid => by
    cases h
    exact hid.resolve_left fun ⟨_, hi, _⟩ => absurd hi List.not_mem_nil
  | i :: ms, _, db, h, hid => by
    obtain ⟨c, cs, h1, h2, rfl⟩ := parallel_cons h
    obtain ⟨q, _, rfl⟩ := requeueTask_ok h1
    rw [execAll_append]
    refine pending_requeueCmds h2 ?_
    have hlist : ∀ q' : TMessageQueue, (db.execAll lt (.lrem getGlobalKeys.keyQueueRequeue i ::
        [.lpush q.keys.keyQueue i.incrAttempts])).lists q'.keys.keyQueue =
        if q'.keys.keyQueue = q.keys.keyQueue then i.incrAttempts :: db.lists q.keys.keyQueue
        else db.lists q'.keys.keyQueue := by
      intro q'
      have hne : ∀ q : TMessageQueue, q.keys.keyQueue ≠ getGlobalKeys.keyQueueRequeue := by simp [RedisKey.ext_iff]
      by_cases hq : q'.keys.keyQueue = q.keys.keyQueue
      · rw [if_pos hq, hq]
        simp [Db.exec, hne q]
      · rw [if_neg hq]
        simp [Db.exec, hne q', hq]
    rcases hid with ⟨i', hi', huuid⟩ | ⟨q', hcopy⟩
    · rcases List.mem_cons.mp hi' with rfl | hi'
      · refine .inr ⟨q, ?_⟩
        have huuid' : i'.incrAttempts.uuid = id := huuid
        show copies (db.execAll lt [.lrem getGlobalKeys.keyQueueRequeue i', .lpush q.keys.keyQueue i'.incrAttempts]) id
          _ ≠ 0
        rw [copies, hlist q, if_pos rfl, countP_cons_message, if_pos huuid']
        omega
      · exact .inl ⟨i', hi', huuid⟩
    · refine .inr ⟨q', fun h0 => hcopy ?_⟩
      simp only [copies, Bool.false_eq_true, if_false, hlist q'] at h0 ⊢
      split at h0
      · rename_i hq
        rw [hq]
        rw [countP_cons_message] at h0
        omega
      · exact h0

/-- In priority mode the re-queue worker adds no copy. -/
theorem copies_requeueCmds_le : ∀ {ms : List Message} {cmds : List Cmd} {db : Db},
    parallel (RequeueWorker.requeueTask true) ms = .ok cmds → copies (db.execAll lt cmds) id slot ≤ copies db id slot
  | [], _, _, h => by
    cases h
    exact Nat.le_refl _
  | i :: ms, _, db, h => by
    obtain ⟨c, cs, h1, h2, rfl⟩ := parallel_cons h
    obtain ⟨q, _, rfl⟩ := requeueTask_ok h1
    rw [execAll_append]
    refine (copies_requeueCmds_le h2).trans ?_
    exact @copies_exec_le lt id db slot (.lrem getGlobalKeys.keyQueueRequeue i)

/-- In priority mode the re-queue worker loses the messages of its batch. -/
theorem copies_requeueCmds : ∀ {ms : List Message} {cmds : List Cmd} {db : Db},
    parallel (RequeueWorker.requeueTask true) ms = .ok cmds → ms.Sublist (db.lists getGlobalKeys.keyQueueRequeue) →
    AtMostOne (copies db id) → (∃ i ∈ ms, i.uuid = id) → copies (db.execAll lt cmds) id slot = 0
  | [], _, _, _, _, _, ⟨_, hi, _⟩ => absurd hi List.not_mem_nil
  | i :: ms, _, db, h, hsub, hsole, hid => by
    obtain ⟨c, cs, h1, h2, rfl⟩ := parallel_cons h
    obtain ⟨q, _, rfl⟩ := requeueTask_ok h1
    have hi : i ∈ db.lists getGlobalKeys.keyQueueRequeue := hsub.subset List.mem_cons_self
    have hrem := fun slot => @copies_exec lt id db slot (.lrem getGlobalKeys.keyQueueRequeue i)
    simp only [Cmd.removes, Cmd.adds, hi, and_true, Nat.add_zero] at hrem
    rw [execAll_append]
    by_cases huuid : i.uuid = id
    · refine Nat.le_zero.mp ((copies_requeueCmds_le h2).trans ?_)
      have hcopy : copies db id (.list getGlobalKeys.keyQueueRequeue) ≠ 0 :=
        (List.countP_pos_iff.mpr ⟨i, hi, by simpa using huuid⟩).ne'
      have hle := hrem slot
      simp only [huuid, and_true] at hle
      show copies (db.exec lt (.lrem getGlobalKeys.keyQueueRequeue i)) id slot ≤ 0
      obtain ⟨k, hk, hother⟩ := hsole
      have hplace : .list getGlobalKeys.keyQueueRequeue = k := by
        by_contra hne
        exact hcopy (hother _ hne)
      by_cases hslot : slot = .list getGlobalKeys.keyQueueRequeue
      · rw [if_pos hslot, hslot, hplace] at hle
        rw [hslot, hplace]
        omega
      · rw [if_neg hslot, hother slot (hplace ▸ hslot)] at hle
        omega
    · have hrest : ms.Sublist ((db.lists getGlobalKeys.keyQueueRequeue).erase i) := by
        have := hsub.erase i
        rwa [List.erase_cons_head] at this
      refine copies_requeueCmds h2 ?_ (hsole.shift (.drop fun slot => ?_)) ?_
      · simpa [Db.exec] using hrest
      · exact (Nat.le_add_right _ _).trans (hrem slot)
      · obtain ⟨i', hi', hid⟩ := hid
        rcases List.mem_cons.mp hi' with rfl | hi'
        · exact absurd hid huuid
        · exact ⟨i', hi', hid⟩

/-- The re-queue worker puts the messages of its batch back into their queues, or loses them in priority mode. -/
theorem follows_requeueExec (h : Stands config id s σ) (hb : Base config s) (ht : Tracked id s)
    (hs : step cron lt config s .requeueExec = some s') :
    Follows config id σ (turns cron lt config id s .requeueExec) s' := by
  simp only [step, requeueExec] at hs
  split at hs
  · rename_i b hf
    simp only [turns, hf]
    split at hs <;> rename_i hcmds <;> cases hs <;> rw [hcmds]
    · by_cases hid : b.messages.any (·.uuid = id) = true
      · rw [if_pos ⟨hid, rfl⟩]
        obtain ⟨i, hi, huuid⟩ := List.any_eq_true.mp hid
        have huuid : i.uuid = id := of_decide_eq_true huuid
        subst huuid
        have hsource : At config s.db i.uuid .requeued := hb.at_list .requeued ((hb.batches.requeue b hf).subset hi)
        cases hmode : b.withPriority with
        | false =>
          rw [hmode] at hcmds
          obtain ⟨q, hcopy⟩ := pending_requeueCmds lt hcmds (.inl ⟨i, hi, rfl⟩)
          exact h.moved hb ht hsource rfl (.list (.pending q) hcopy)
        | true =>
          rw [hmode] at hcmds
          refine h.dropped hb ht hsource rfl (List.Subset.refl _) (ht.reads_zero hsource (by decide)) fun σ hat => ?_
          obtain ⟨slot, hcopy, _⟩ := hat.exists_slot
          exact hcopy (copies_requeueCmds hcmds (hb.batches.requeue b hf) ht.sole ⟨i, hi, rfl⟩)
      · rw [if_neg fun hand => hid hand.1]
        refine .stays (h.sameFor rfl rfl (execAll_sameFor _ fun c hc ha => hid ?_))
        obtain ⟨i, hi, cs, hcs, hc⟩ := mem_parallel hcmds c hc
        obtain ⟨q, _, rfl⟩ := requeueTask_ok hcs
        refine List.any_eq_true.mpr ⟨i, hi, decide_eq_true ?_⟩
        rcases List.mem_cons.mp hc with rfl | hc
        · exact ha
        · split at hc <;> rcases List.mem_singleton.mp hc with rfl
          · cases ha
          · exact ha
    · rw [if_neg fun hand => by cases hand.2]
      exact .stays (h.sameFor rfl rfl (.refl _ _))
  · cases hs

/-! ## The schedule worker -/

/-- A message that the schedule worker has read is in the scheduled set, if it is at a stage. -/
theorem Tracked.isScheduled (ht : Tracked id s) (hat : At config s.db id σ) (hr : s.scheduleTick.reads id ≠ 0) :
    isScheduled s.db id = true := by
  cases hat with
  | list _ hcopy => cases ht.read hr _ hcopy
  | store hs hmem hcopy =>
    have hslot := ht.read hr _ hcopy
    cases hs with
    | pending q => simp [RedisKey.ext_iff] at hslot
    | scheduled => exact decide_eq_true hmem

/-- The schedule worker stops: a message that was withdrawn is gone. -/
theorem follows_forgotten (h : Stands config id s σ) (hb : Base config s) (ht : Tracked id s)
    (hproduced : s'.produced = s.produced) (hdb : s'.db = s.db) (hreads : s'.scheduleTick.reads id = 0) :
    Follows config id σ (forgotten id s) s' := by
  have hscheduled : isScheduled s.db id = true → ∃ σ, At config s.db id σ := fun h => ⟨_, hb.at_scheduled h⟩
  cases h with
  | unborn hnone =>
    have hzero : s.scheduleTick.reads id = 0 := by
      by_contra hr
      obtain ⟨r, hr, hid⟩ := ht.known hr
      exact hnone r hr hid
    rw [forgotten, if_neg fun hand => hand.1 hzero]
    exact .stays (.unborn (hproduced ▸ hnone))
  | stored hat =>
    have hneg : ¬(s.scheduleTick.reads id ≠ 0 ∧ isScheduled s.db id = false) := fun hand => by
      have := ht.isScheduled hat hand.1
      rw [hand.2] at this
      cases this
    rw [forgotten, if_neg hneg]
    exact .stays (.stored (hdb ▸ hat))
  | withdrawn hknown hnone hr =>
    have hnot : isScheduled s.db id = false := by
      by_contra hs
      obtain ⟨σ, hat⟩ := hscheduled (by simpa using hs)
      exact hnone σ hat
    rw [forgotten, if_pos ⟨hr, hnot⟩]
    exact .turn rfl (.gone (hproduced ▸ hknown) (hdb ▸ hnone) hreads)
  | gone hknown hnone hr =>
    rw [forgotten, if_neg fun hand => hand.1 hr]
    exact .stays (.gone (hproduced ▸ hknown) (hdb ▸ hnone) hreads)

/-- The schedule worker reads the identifiers of scheduled messages only. -/
theorem follows_fetchIds (h : Stands config id s σ) (hb : Base config s)
    (hs : step cron lt config s (.scheduleFetchIds withPriority now) = some s') : Follows config id σ [] s' := by
  simp only [step] at hs
  split at hs <;> cases hs
  rename_i hidle
  cases h with
  | unborn hnone => exact .stays (.unborn hnone)
  | stored hat => exact .stays (.stored hat)
  | withdrawn _ _ hr =>
    rw [hidle] at hr
    exact absurd rfl hr
  | gone hknown hnone _ =>
    refine .stays (.gone hknown hnone (List.count_eq_zero.mpr fun hmem => ?_))
    have hsub := (s.db.zsets getGlobalKeys.keyQueueScheduled).zrangebyscore_sublist 0 now
    exact hnone _ (hb.at_scheduled (decide_eq_true (hsub.subset hmem)))

/-- The schedule worker finds the payload of the identifiers that it has read, or forgets them. -/
theorem reads_payloads_ne_zero (hf : Forall Filed db) {ids : List Text} :
    (ids.map (db.hashes getGlobalKeys.keyScheduledMessages)).countP (fun reply => reply.any (·.uuid = id)) ≠ 0 ↔
      .id id ∈ ids ∧ db.hashes getGlobalKeys.keyScheduledMessages (.id id) ≠ none := by
  rw [← Nat.pos_iff_ne_zero, List.countP_pos_iff]
  constructor
  · rintro ⟨reply, hreply, hany⟩
    obtain ⟨text, htext, rfl⟩ := List.mem_map.mp hreply
    obtain ⟨m, hm, huuid⟩ : ∃ m, db.hashes getGlobalKeys.keyScheduledMessages text = some m ∧ m.uuid = id := by
      simpa [Option.any_eq_true] using hany
    have hfiled : text = .id m.uuid := hf (.field _ text) m hm
    rw [hfiled, huuid] at htext hm
    exact ⟨htext, by rw [hm]; exact Option.some_ne_none m⟩
  · rintro ⟨hmem, hsome⟩
    obtain ⟨m, hm⟩ := Option.ne_none_iff_exists'.mp hsome
    have hfiled : Text.id id = .id m.uuid := hf (.field _ _) m hm
    exact ⟨some m, List.mem_map.mpr ⟨_, hmem, hm⟩, by simpa using (Text.id.inj hfiled).symm⟩

/-- The schedule worker reads the payloads. -/
theorem follows_fetchMessages (h : Stands config id s σ) (hb : Base config s) (ht : Tracked id s)
    (hs : step cron lt config s (.scheduleFetchMessages now) = some s') :
    Follows config id σ (turns cron lt config id s (.scheduleFetchMessages now)) s' := by
  simp only [step] at hs
  split at hs <;> cases hs
  rename_i withPriority ids hids
  have hreads : s.scheduleTick.reads id ≠ 0 ↔ .id id ∈ ids := by
    rw [hids, ScheduleTick.reads, ← Nat.pos_iff_ne_zero, List.count_pos_iff]
  have hreads' := @reads_payloads_ne_zero id s.db hb.store.filed ids
  simp only [turns, hids]
  cases h with
  | unborn hnone =>
    have hnot : .id id ∉ ids := fun hmem => by
      obtain ⟨r, hr, hid⟩ := ht.known (hreads.mpr hmem)
      exact hnone r hr hid
    rw [if_neg fun hand => hnot hand.1]
    exact .stays (.unborn hnone)
  | stored hat =>
    have hneg : ¬(.id id ∈ ids ∧ s.db.hashes getGlobalKeys.keyScheduledMessages (.id id) = none) := fun hand => by
      obtain ⟨slot, hcopy, _⟩ := hat.exists_slot
      have hslot := ht.read (hreads.mpr hand.1) slot hcopy
      rw [hslot] at hcopy
      simp [copies, hand.2] at hcopy
    rw [if_neg hneg]
    exact .stays (.stored hat)
  | withdrawn hknown hnone hr =>
    by_cases hpayload : s.db.hashes getGlobalKeys.keyScheduledMessages (.id id) = none
    · rw [if_pos ⟨hreads.mp hr, hpayload⟩]
      refine .turn rfl (.gone hknown hnone ?_)
      by_contra hne
      exact (hreads'.mp hne).2 hpayload
    · rw [if_neg fun hand => hpayload hand.2]
      exact .stays (.withdrawn hknown hnone (hreads'.mpr ⟨hreads.mp hr, hpayload⟩))
  | gone hknown hnone hr =>
    have hnot : .id id ∉ ids := fun hmem => hreads.mpr hmem hr
    rw [if_neg fun hand => hnot hand.1]
    refine .stays (.gone hknown hnone ?_)
    by_contra hne
    exact hnot (hreads'.mp hne).1

/-- A message that is enqueued is pending. -/
theorem at_enqueueCmds (hid : m.uuid = id) :
    At config (db.execAll lt (EnqueueHandler.enqueueCmds q m withPriority now)) id .pending := by
  cases withPriority with
  | false =>
    refine .list (.pending q) ?_
    have hid' : (EnqueueHandler.enqueued m false now).uuid = id := hid
    simp [EnqueueHandler.enqueueCmds, Db.exec, copies, hid', List.countP_append]
  | true =>
    subst hid
    refine .store (.pending q) ?_ ?_
    · simp [EnqueueHandler.enqueueCmds, Db.exec, SortedSet.mem_zadd]
    · simp [EnqueueHandler.enqueueCmds, Db.exec, copies]

/-- The transaction of the schedule worker makes the message pending. -/
theorem at_scheduleExec (hid : m.uuid = id) (r : ℕ × Message) :
    At config ((db.execAll lt (EnqueueHandler.enqueueCmds q m withPriority now)).execAll lt
      (ScheduleHandler.storeCmds r)) id .pending := by
  have henqueued : At config (db.execAll lt (EnqueueHandler.enqueueCmds q m withPriority now)) id .pending :=
    at_enqueueCmds hid
  refine henqueued.frame (fun {key} hk => ?_) (fun {zk hk} hs => ?_)
  · cases hk
    exact storeCmds_frame (by simp [RedisKey.ext_iff]) (by simp [RedisKey.ext_iff])
  · cases hs
    exact ⟨storeCmds_frame (by simp [RedisKey.ext_iff]) (by simp [RedisKey.ext_iff]),
      storeCmds_frame (by simp [RedisKey.ext_iff]) (by simp [RedisKey.ext_iff])⟩

/-- The schedule worker enqueues the message that it has read, also when it was withdrawn. -/
theorem follows_scheduleExec (h : Stands config id s σ) (hb : Base config s) (ht : Tracked id s)
    (hs : step cron lt config s .scheduleExec = some s') :
    Follows config id σ (turns cron lt config id s .scheduleExec) s' := by
  simp only [step, scheduleExec] at hs
  split at hs
  · rename_i htick
    cases hs
    simp only [turns, htick]
    exact .stays (h.keep .rfl (by rw [htick]; exact .rfl) fun _ => .rfl)
  · rename_i htick
    cases hs
    simp only [turns, htick]
    exact follows_forgotten h hb ht rfl rfl rfl
  · rename_i withPriority now m rest htick
    split at hs
    · rename_i cmds hcmds
      cases hs
      obtain ⟨q, hq, rfl⟩ := enqueueScheduledMessage_cases hcmds
      simp only [turns, htick, hq, reduceCtorEq, if_false]
      have hreads := htick ▸ @reads_cons id m withPriority now rest
      by_cases hid : m.uuid = id
      · rw [if_pos hid]
        have hread : s.scheduleTick.reads id ≠ 0 := by
          rw [if_pos hid] at hreads
          omega
        have htarget : At config (s.db.execAll lt (EnqueueHandler.enqueueCmds q m withPriority now ++
            ScheduleHandler.storeCmds (ScheduleHandler.getNextScheduledTimestamp cron now
              (EnqueueHandler.enqueued m withPriority now)))) id .pending := by
          rw [execAll_append]
          exact at_scheduleExec hid _
        cases h with
        | unborn hnone =>
          obtain ⟨r, hr, hid⟩ := ht.known hread
          exact absurd hid (hnone r hr)
        | stored hat =>
          have hscheduled := hb.at_scheduled (ht.isScheduled hat hread)
          rw [hat.unique hscheduled ht.sole]
          exact .turn rfl (.stored htarget)
        | withdrawn => exact .turn rfl (.stored htarget)
        | gone _ _ hr => exact absurd hr hread
      · rw [if_neg hid]
        rw [if_neg hid, Nat.add_zero] at hreads
        have hsame : SameFor (s.db.execAll lt (EnqueueHandler.enqueueCmds q m withPriority now ++
            ScheduleHandler.storeCmds (ScheduleHandler.getNextScheduledTimestamp cron now
              (EnqueueHandler.enqueued m withPriority now)))) s.db id := by
          rw [execAll_append]
          exact sameFor_scheduleExec hid
        exact .stays (h.keep .rfl (by rw [hreads]) fun _ =>
          ⟨fun h => h.of_sameFor hsame.symm, fun h => h.of_sameFor hsame⟩)
    · rename_i e herror
      cases hs
      obtain ⟨_, hqueue, _⟩ := hb.original m (.inr (.schedule htick List.mem_cons_self))
      obtain ⟨q, hq⟩ := Option.isSome_iff_exists.mp hqueue
      rw [ScheduleHandler.enqueueScheduledMessage_ok cron hq] at herror
      cases herror
  · cases hs

end

end RedisSmq.Queue
