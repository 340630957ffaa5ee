import RedisSmq.Queue.ActorTurns

/-!
# The life of a message in the system

With the requests of the message manager and the producers, every step of the system is a turn in the life of a message,
or leaves it at its stage (`follows_step`). So in either mode and with any requests, the turns of a run are a life that
`lifeCycle` allows, and it has come to the stage where the message is (`lifeCycle_reachable`); what holds of every life
holds of every run (`accounts_reachable`).
-/

namespace RedisSmq.Queue

open RedisKeys Db Tokens Transition

section

variable {cron : CronParser} {lt : Text → Text → Bool} {config : String → ConsumerConfig}
variable {s s' : State} {a : Action} {id c : String} {db db' : Db} {m : Message} {q : TMessageQueue}
variable {σ σ' σ₀ : LifeStage} {slot : Slot} {key zk hk : RedisKey} {now : ℕ} {withPriority : Bool}

/-! ## Requests of the message manager -/

/-- Re-queues are about finished messages. -/
def Sources (s : State) : Prop := ∀ r ∈ s.requests, r.deletes = false → r.source ≠ .pending

theorem Sources.step (h : Sources s) (hs : Queue.step cron lt config s a = some s') : Sources s' := by
  cases a with
  | requeueMessageRead source q index messageId withPriority priority =>
    simp only [Queue.step] at hs
    split at hs
    · split at hs <;> cases hs
      rename_i hne
      intro r hr hd
      rcases List.mem_cons.mp hr with rfl | hr
      · exact hne
      · exact h r hr hd
    · cases hs
  | deleteMessageRead source q index messageId =>
    simp only [Queue.step] at hs
    split at hs <;> cases hs
    intro r hr hd
    rcases List.mem_cons.mp hr with rfl | hr
    · cases hd
    · exact h r hr hd
  | requestExec index now =>
    simp only [Queue.step, requestExec] at hs
    split at hs
    · cases hs
    · split at hs <;> cases hs <;> exact fun r hr => h r (List.mem_of_mem_eraseIdx hr)
  | produce =>
    rw [step_produce hs]
    exact h
  | _ =>
    simp only [Queue.step, dequeueMessage, settle, Queue.delayExec, Queue.requeueExec, Queue.scheduleExec] at hs
    repeat' (split at hs)
    all_goals cases hs <;> exact h

theorem sources_reachable {P : State → Action → Prop} (h : Reach (system cron lt config) P s) : Sources s :=
  h.invariant (I := Sources) (fun _ hr => (by cases hr)) (fun _ _ _ hi _ hs => hi.step hs)

/-- The stage of the messages of a list of the message manager. -/
def QueueList.stage : QueueList → LifeStage
  | .pending => .pending
  | .acknowledged => .acknowledged
  | .deadLetter => .deadLettered

theorem QueueList.keeps (l : QueueList) (q : TMessageQueue) : Keeps config l.stage (l.key q) := by
  cases l with
  | pending => exact .pending q
  | acknowledged => exact .acknowledged q
  | deadLetter => exact .deadLettered q

/-- The list of the message manager is deleted, or a message of it. -/
theorem follows_removed (h : Stands config id s σ) (hb : Base config s) (ht : Tracked id s) {l : QueueList}
    (hmem : m ∈ s.db.lists (l.key q)) (hid : m.uuid = id) (hproduced : s.produced ⊆ s'.produced)
    (htick : s'.scheduleTick = s.scheduleTick) (hle : ∀ slot, copies s'.db id slot ≤ copies s.db id slot)
    (hzero : copies s'.db id (.list (l.key q)) = 0) : Follows config id σ [.removed] s' := by
  have hsource : At config s.db id l.stage := hid ▸ hb.at_list (l.keeps q) hmem
  refine h.dropped hb ht hsource (by cases l <;> rfl) hproduced ?_ fun σ => ?_
  · rw [htick]
    exact ht.reads_zero hsource (by cases l <;> decide)
  · exact not_at_of_drop ht.sole (copies_of_holds hb.store.filed (.list _) hmem hid) hle (.inl hzero)

variable (lt) in
/-- Removing an entry, or a key, adds no copy. -/
theorem copies_lrem_le : copies (db.exec lt (.lrem key m)) id slot ≤ copies db id slot := copies_exec_le

variable (lt) in
theorem copies_del_le : copies (db.exec lt (.del key)) id slot ≤ copies db id slot := copies_exec_le

/-- A request of the message manager re-queues the message, or deletes it. -/
theorem follows_requestExec {index : ℕ} (h : Stands config id s σ) (hb : Base config s) (ht : Tracked id s)
    (hsources : Sources s) (hid : identifies id s (.requestExec index now) = true)
    (hs : step cron lt config s (.requestExec index now) = some s') :
    Follows config id σ (turns cron lt config id s (.requestExec index now)) s' := by
  simp only [step, requestExec] at hs
  split at hs
  · cases hs
  · rename_i r hr
    have hother : ∀ {cmds}, r.cmds now = .ok cmds → r.msg.uuid ≠ id → Follows config id σ []
        { s with db := s.db.execAll lt cmds, requests := s.requests.eraseIdx index } := fun hcmds hne =>
      .stays (h.sameFor rfl rfl (sameFor_request hne hcmds))
    cases r with
    | requeue source q withPriority priority msg =>
      simp only [turns, hr]
      split at hs <;> rename_i hcmds <;> cases hs
      · by_cases huuid : msg.uuid = id
        · rw [if_pos (by simp [Request.requeues, huuid, hcmds, Except.isOk, Except.toBool])]
          have hmem : msg ∈ s.db.lists (source.key q) := by simpa [identifies, finds, hr, huuid] using hid
          have hsource : At config s.db id source.stage := huuid ▸ hb.at_list (source.keeps q) hmem
          have hne := hsources _ (List.mem_of_getElem? hr) rfl
          obtain ⟨m', hsame, rfl⟩ := requeueListMessage_ok hcmds
          have hnext : source.stage.next .revived = some .pending := by
            cases source with
            | pending => exact absurd rfl hne
            | acknowledged | deadLetter => rfl
          exact h.moved hb ht hsource hnext (at_enqueueCmds (hsame.uuid.trans huuid))
        · rw [if_neg (by simp [Request.requeues, huuid])]
          exact hother hcmds huuid
      · rw [if_neg (by simp [Request.requeues, hcmds, Except.isOk, Except.toBool])]
        exact .stays (h.sameFor rfl rfl (.refl _ _))
    | delete source q msg =>
      simp only [turns, hr]
      cases hs
      by_cases huuid : msg.uuid = id
      · by_cases hmem : msg ∈ s.db.lists (source.key q)
        · rw [if_pos ⟨huuid, hmem⟩]
          refine follows_removed h hb ht hmem huuid (List.Subset.refl _) rfl (fun slot => copies_lrem_le lt) ?_
          have hrem := @copies_exec lt id s.db (.list (source.key q)) (.lrem (source.key q) msg)
          simp only [Cmd.removes, Cmd.adds, huuid, hmem, and_true, if_true] at hrem
          obtain ⟨k, hk, hother⟩ := ht.sole
          have hcopy := copies_of_holds hb.store.filed (.list (source.key q)) hmem huuid
          have hplace : Slot.list (source.key q) = k := by
            by_contra hne
            exact hcopy (hother _ hne)
          rw [← hplace] at hk
          show copies (s.db.exec lt (.lrem (source.key q) msg)) id _ = 0
          omega
        · rw [if_neg fun hand => hmem hand.2]
          refine .stays (h.sameFor rfl rfl (sameFor_setList ?_))
          rw [List.erase_of_not_mem hmem]
      · rw [if_neg fun hand => huuid hand.1]
        exact hother rfl huuid

/-- A list of the message manager is purged. -/
theorem follows_purge {l : QueueList} (h : Stands config id s σ) (hb : Base config s) (ht : Tracked id s)
    (hs : step cron lt config s (.purge l q) = some s') :
    Follows config id σ (turns cron lt config id s (.purge l q)) s' := by
  cases hs
  simp only [turns]
  by_cases hany : (s.db.lists (l.key q)).any (·.uuid = id) = true
  · rw [if_pos hany]
    obtain ⟨m, hmem, hid⟩ := List.any_eq_true.mp hany
    refine follows_removed h hb ht hmem (of_decide_eq_true hid) (List.Subset.refl _) rfl
      (fun slot => copies_del_le lt) ?_
    simp [Db.exec, copies]
  · rw [if_neg hany]
    have hzero : copies s.db id (.list (l.key q)) = 0 :=
      List.countP_eq_zero.mpr fun m hm hid => hany (List.any_eq_true.mpr ⟨m, hm, hid⟩)
    refine .stays (h.keep .rfl .rfl fun σ => ⟨fun hat => ?_, fun hat => ?_⟩)
    · refine hat.mono (fun slot _ hcopy => ?_) (fun {zk _} hs _ hmem => ?_)
      · exact (Nat.pos_of_ne_zero hcopy).trans_le (copies_del_le lt) |>.ne'
      · have hne : zk ≠ l.key q := by
          cases hs <;> cases l <;> simp [RedisKey.ext_iff, QueueList.key]
        simpa [Db.exec, hne] using hmem
    · refine hat.mono (fun slot hslot hcopy => ?_) (fun {zk _} hs _ hmem => ?_)
      · cases slot with
        | list key =>
          have hne : key ≠ l.key q := fun heq => hcopy (heq ▸ hzero)
          simpa [Db.exec, copies, hne] using hcopy
        | field key text =>
          have hne : key ≠ l.key q := by
            rintro rfl
            cases l <;> cases hslot <;> rcases hat with ⟨⟨⟩, _⟩ | ⟨⟨⟩, _, _⟩
          simpa [Db.exec, copies, hne] using hcopy
      · have hne : zk ≠ l.key q := by
          cases hs <;> cases l <;> simp [RedisKey.ext_iff, QueueList.key]
        simpa [Db.exec, hne] using hmem

/-! ## Members of the sorted sets -/

/-- The member of the message goes out of a sorted set, and perhaps its payload out of the hash. -/
structure Unstores (db db' : Db) (id : String) (zk hk : RedisKey) : Prop where
  out : .id id ∉ (db'.zsets zk).members
  lists : ∀ key, key ≠ zk → db'.lists key = db.lists key
  members : ∀ key, key ≠ zk → (.id id ∈ (db'.zsets key).members ↔ .id id ∈ (db.zsets key).members)
  payloads : ∀ key, key ≠ zk → key ≠ hk → db'.hashes key (.id id) = db.hashes key (.id id)
  le : (db'.hashes hk (.id id)).isSome → (db.hashes hk (.id id)).isSome

/-- Requests that remove the member and the payload. -/
theorem unstores_delete :
    Unstores db (db.execAll lt [.hdel hk (.id id), .zrem zk (.id id)]) id zk hk where
  out := by simp [Db.exec, SortedSet.mem_zrem]
  lists key _ := rfl
  members key hkey := by simp [Db.exec, hkey]
  payloads key _ hkey := by simp [Db.exec, hkey]
  le := by simp [Db.exec]

variable (lt) in
/-- A purge removes the members only. -/
theorem unstores_del (hne : zk ≠ hk) : Unstores db (db.exec lt (.del zk)) id zk hk where
  out := by simp [Db.exec]
  lists key hkey := by simp [Db.exec, hkey]
  members key hkey := by simp [Db.exec, hkey]
  payloads key hkey _ := by simp [Db.exec, hkey]
  le := by simp [Db.exec, hne.symm]

theorem Keeps.ne_zset (h : Keeps config σ key) (h' : Stores σ' zk hk) : key ≠ zk := by
  cases h <;> cases h' <;> simp [RedisKey.ext_iff, ConsumerConfig.keyQueueProcessing]

theorem Stores.hash_ne_zset {zk' hk' : RedisKey} (h : Stores σ zk hk) (h' : Stores σ' zk' hk') : hk ≠ zk' := by
  cases h <;> cases h' <;> simp [RedisKey.ext_iff]

/-- A message that was not in the sorted set with its payload stays at its stage. -/
theorem Unstores.at_iff (hu : Unstores db db' id zk hk) (hs : Stores σ₀ zk hk)
    (hnot : ¬(.id id ∈ (db.zsets zk).members ∧ (db.hashes hk (.id id)).isSome)) :
    At config db' id σ ↔ At config db id σ := by
  constructor
  · intro h
    cases h with
    | list hk' hcopy =>
      refine .list hk' ?_
      simpa only [copies, hu.lists _ (hk'.ne_zset hs)] using hcopy
    | @store zk' hk' hs' hmem hcopy =>
      have hz : zk' ≠ zk := fun heq => hu.out (heq ▸ hmem)
      have hh : hk' ≠ hk := fun heq => hz ((heq ▸ hs).zset_unique hs')
      refine .store hs' ((hu.members zk' hz).mp hmem) ?_
      simpa only [copies, hu.payloads hk' (hs'.hash_ne_zset hs) hh] using hcopy
  · intro h
    cases h with
    | list hk' hcopy =>
      refine .list hk' ?_
      simpa only [copies, hu.lists _ (hk'.ne_zset hs)] using hcopy
    | @store zk' hk' hs' hmem hcopy =>
      have hz : zk' ≠ zk := by
        rintro rfl
        rw [hs.hash_unique hs'] at hcopy
        exact hnot ⟨hmem, copies_payload.mp hcopy⟩
      have hh : hk' ≠ hk := fun heq => hz ((heq ▸ hs).zset_unique hs')
      refine .store hs' ((hu.members zk' hz).mpr hmem) ?_
      simpa only [copies, hu.payloads hk' (hs'.hash_ne_zset hs) hh] using hcopy

/-- A message that was there is nowhere. -/
theorem Unstores.not_at (hu : Unstores db db' id zk hk) (hs : Stores σ₀ zk hk) (hsole : AtMostOne (copies db id))
    (hsome : (db.hashes hk (.id id)).isSome) : ¬At config db' id σ := by
  have hcopy : copies db id (.field hk (.id id)) ≠ 0 := copies_payload.mpr hsome
  intro h
  cases h with
  | @list key hk' hcopy' =>
    have hold : copies db id (.list key) ≠ 0 := by
      simpa only [copies, hu.lists _ (hk'.ne_zset hs)] using hcopy'
    cases hsole.place_unique hold hcopy
  | @store zk' hk' hs' hmem hcopy' =>
    have hz : zk' ≠ zk := fun heq => hu.out (heq ▸ hmem)
    have hh : hk' ≠ hk := fun heq => hz ((heq ▸ hs).zset_unique hs')
    have hold : copies db id (.field hk' (.id id)) ≠ 0 := by
      simpa only [copies, hu.payloads hk' (hs'.hash_ne_zset hs) hh] using hcopy'
    cases hsole.place_unique hold hcopy
    exact hh rfl

/-- The message goes out of a priority store. -/
theorem follows_unprioritized (h : Stands config id s σ) (hb : Base config s) (ht : Tracked id s)
    (hproduced : s'.produced = s.produced) (htick : s'.scheduleTick = s.scheduleTick)
    (hu : Unstores s.db s'.db id q.keys.keyQueuePriority q.keys.keyPendingMessagesWithPriority) :
    Follows config id σ (if isPrioritized s.db q id then [.removed] else []) s' := by
  by_cases hp : isPrioritized s.db q id = true
  · rw [if_pos hp]
    simp only [isPrioritized, Bool.and_eq_true, decide_eq_true_eq] at hp
    have hsource : At config s.db id .pending := .store (.pending q) hp.1 (copies_payload.mpr hp.2)
    refine h.dropped hb ht hsource rfl (hproduced ▸ List.Subset.refl _) ?_ fun σ => hu.not_at (.pending q) ht.sole hp.2
    rw [htick]
    exact ht.reads_zero hsource (by decide)
  · rw [if_neg hp]
    simp only [isPrioritized, Bool.and_eq_true, decide_eq_true_eq] at hp
    exact .stays (h.keep (by rw [hproduced]) (by rw [htick]) fun σ => hu.at_iff (.pending q) hp)

/-- The message goes out of the scheduled set; the schedule worker may have read it before. -/
theorem follows_unscheduled (h : Stands config id s σ) (hb : Base config s) (ht : Tracked id s)
    (hproduced : s'.produced = s.produced) (htick : s'.scheduleTick = s.scheduleTick)
    (hu : Unstores s.db s'.db id getGlobalKeys.keyQueueScheduled getGlobalKeys.keyScheduledMessages) :
    Follows config id σ (unscheduled id s) s' := by
  unfold unscheduled
  by_cases hp : isScheduled s.db id = true
  · rw [if_pos hp]
    obtain ⟨m, hm⟩ := hb.store.linked _ (of_decide_eq_true hp)
    have hnone : ∀ σ, ¬At config s'.db id σ := fun σ => hu.not_at .scheduled ht.sole (by rw [hm]; rfl)
    have hsource := hb.at_scheduled hp
    by_cases hr : s.scheduleTick.reads id = 0
    · rw [if_pos hr]
      exact h.dropped hb ht hsource rfl (hproduced ▸ List.Subset.refl _) (htick ▸ hr) hnone
    · rw [if_neg hr, h.of_at hb ht hsource]
      exact .turn rfl (.withdrawn (hproduced ▸ ht.known hr) hnone (htick ▸ hr))
  · rw [if_neg hp]
    refine .stays (h.keep (by rw [hproduced]) (by rw [htick]) fun σ => hu.at_iff .scheduled fun hand => hp ?_)
    exact decide_eq_true hand.1

/-! ## Producers -/

/-- A message that is produced is scheduled or pending. -/
theorem at_produceCmds (hid : m.uuid = id) (hp : m.isPeriodic = false) :
    At config (db.execAll lt (produceCmds cron q withPriority m now)) id
      (if (sent q m).isSchedulable then .scheduled else .pending) := by
  unfold produceCmds
  by_cases hs : (sent q m).isSchedulable = true
  · rw [if_pos hs, if_pos hs, schedule_eq]
    have hne : (ScheduleHandler.getNextScheduledTimestamp cron now (sent q m)).1 ≠ 0 := fun h0 => by
      have hperiodic := isPeriodic_of_next hs rfl h0
      have hsame : (sent q m).isPeriodic = m.isPeriodic := rfl
      rw [hsame, hp] at hperiodic
      cases hperiodic
    dsimp only
    rw [if_pos hne]
    have huuid : (ScheduleHandler.getNextScheduledTimestamp cron now (sent q m)).2.uuid = id :=
      (sameMessage_next cron now (sent q m)).uuid.trans hid
    have hstored := @storeCmds_stored lt db ((ScheduleHandler.getNextScheduledTimestamp cron now (sent q m)).1,
      (ScheduleHandler.getNextScheduledTimestamp cron now (sent q m)).2.setScheduledAt now) hne
    have hid' : ((ScheduleHandler.getNextScheduledTimestamp cron now (sent q m)).2.setScheduledAt now).uuid = id :=
      huuid
    simp only [hid'] at hstored
    exact .store .scheduled (SortedSet.exists_score.mp ⟨_, hstored.1⟩) (by simp [copies, hstored.2])
  · rw [if_neg hs, if_neg hs]
    exact at_enqueueCmds hid

/-- A producer starts the life of its message. -/
theorem follows_produce (h : Stands config id s σ) (hb : Base config s)
    (hp : ∀ r ∈ s'.produced, r.message.uuid = id → r.message.isPeriodic = false)
    (hid : identifies id s (.produce q withPriority m now) = true)
    (hs : step cron lt config s (.produce q withPriority m now) = some s') :
    Follows config id σ (turns cron lt config id s (.produce q withPriority m now)) s' := by
  have heq := step_produce hs
  by_cases huuid : m.uuid = id
  · simp only [turns, if_pos huuid]
    have hnew : ∀ r ∈ s.produced, r.message.uuid ≠ id := by
      simpa [identifies, huuid] using hid
    have hunborn : σ = .unborn := by
      cases h with
      | unborn => rfl
      | stored hat =>
        obtain ⟨slot, hcopy, _⟩ := hat.exists_slot
        exact absurd (hb.copies_zero hnew slot) hcopy
      | withdrawn hknown | gone hknown =>
        obtain ⟨r, hr, hid⟩ := hknown
        exact absurd hid (hnew r hr)
    have hperiodic : m.isPeriodic = false :=
      hp ⟨sent q m, withPriority⟩ (by rw [heq]; exact List.mem_cons_self) huuid
    have htarget : At config s'.db id (if (sent q m).isSchedulable then .scheduled else .pending) := by
      rw [heq]
      exact at_produceCmds huuid hperiodic
    rw [hunborn]
    refine .turn ?_ (.stored htarget)
    split <;> rfl
  · simp only [turns, if_neg huuid]
    have hsame : SameFor s'.db s.db id := by
      rw [heq]
      exact execAll_sameFor _ fun c hc ha => huuid (about_produceCmds hc ha)
    refine .stays (h.keep ?_ (by rw [heq]) fun _ => ⟨fun h => h.of_sameFor hsame.symm, fun h => h.of_sameFor hsame⟩)
    rw [heq]
    have huuid' : (sent q m).uuid ≠ id := huuid
    simp [huuid']

/-! ## Runs -/

/-- **One step**: what a step does to the message is a turn that its stage allows. -/
theorem follows_step (h : Stands config id s σ) (hb : Base config s) (hb' : Base config s') (ht : Tracked id s)
    (hsources : Sources s) (hp : ∀ r ∈ s'.produced, r.message.uuid = id → r.message.isPeriodic = false)
    (hid : identifies id s a = true) (hs : step cron lt config s a = some s') :
    Follows config id σ (turns cron lt config id s a) s' := by
  cases a with
  | produce => exact follows_produce h hb hp hid hs
  | dequeue => exact follows_dequeue h hb hb' ht hs
  | acknowledge c =>
    refine follows_settle h hb hb' ht (fun _ => .inr rfl) (fun _ => .acknowledged (config c).queue) (fun _ => rfl)
      (fun _ => ?_) hs
    simp [RedisKey.ext_iff, ConsumerConfig.keyQueueProcessing]
  | unacknowledge c cause now =>
    have hmove : ∀ m, IsMove ((config c).keyQueueProcessing c)
        ((Broker.destination m cause now).key (config c).ns (config c).queueName)
        (Broker.retry (config c).ns (config c).queueName ((config c).keyQueueProcessing c) m cause now) := by
      intro m
      rw [Broker.retry_eq]
      cases Broker.destination m cause now with
      | deadLetter _ => exact .inr rfl
      | delay | requeue => exact .inl rfl
    have hkeeps : ∀ m, Keeps config (.ofDestination (Broker.destination m cause now))
        ((Broker.destination m cause now).key (config c).ns (config c).queueName) := by
      intro m
      cases Broker.destination m cause now with
      | deadLetter _ => exact .deadLettered (config c).queue
      | delay => exact .delayed
      | requeue => exact .requeued
    refine follows_settle h hb hb' ht hmove hkeeps (fun _ => rfl) (fun m => ?_) hs
    · cases Broker.destination m cause now <;>
        simp [RedisKey.ext_iff, ConsumerConfig.keyQueueProcessing, Broker.Destination.key]
  | delayExec => exact follows_delayExec h hb hb' ht hs
  | requeueExec => exact follows_requeueExec h hb ht hs
  | scheduleFetchIds => exact follows_fetchIds h hb hs
  | scheduleFetchMessages => exact follows_fetchMessages h hb ht hs
  | scheduleExec => exact follows_scheduleExec h hb ht hs
  | requestExec => exact follows_requestExec h hb ht hsources hid hs
  | purge => exact follows_purge h hb ht hs
  | deletePendingMessageWithPriority q messageId =>
    cases hs
    simp only [turns]
    by_cases hm : messageId = id
    · subst hm
      simp only [true_and]
      exact follows_unprioritized h hb ht rfl rfl unstores_delete
    · rw [if_neg fun hand => hm hand.1]
      refine .stays (h.sameFor rfl rfl (execAll_sameFor _ fun c hc ha => hm ?_))
      rcases List.mem_pair.mp hc with rfl | rfl <;> exact Text.id.inj ha
  | deleteScheduled messageId =>
    cases hs
    simp only [turns]
    by_cases hm : messageId = id
    · subst hm
      rw [if_pos rfl]
      exact follows_unscheduled h hb ht rfl rfl unstores_delete
    · rw [if_neg hm]
      refine .stays (h.sameFor rfl rfl (execAll_sameFor _ fun c hc ha => hm ?_))
      rcases List.mem_pair.mp hc with rfl | rfl <;> exact Text.id.inj ha
  | purgePriorityQueue q =>
    cases hs
    exact follows_unprioritized h hb ht rfl rfl (unstores_del lt (by simp [RedisKey.ext_iff]))
  | purgeScheduledMessagesQueue =>
    cases hs
    exact follows_unscheduled h hb ht rfl rfl (unstores_del lt (by simp [RedisKey.ext_iff]))
  | delayFetch | requeueFetch | requeueMessageRead | deleteMessageRead =>
    simp only [step] at hs
    repeat' (split at hs)
    all_goals cases hs <;> exact .stays (h.sameFor rfl rfl (.refl _ _))

/-- The turns of every run are a life, and it has come to a stage where the message is. -/
theorem exists_life {s : State × List Turn}
    (h : Reach ((system cron lt config).logged (turns cron lt config id)) (fun s a => identifies id s.1 a = true) s)
    (hp : ∀ r ∈ s.1.produced, r.message.uuid = id → r.message.isPeriodic = false) :
    ∃ σ, lifeCycle.follow .unborn s.2 = some σ ∧ Stands config id s.1 σ := by
  refine reach_logged_follow (A := lifeCycle) (R := fun s σ => Stands config id s σ)
    (C := fun s => ∀ r ∈ s.produced, r.message.uuid = id → r.message.isPeriodic = false)
    (P := fun s a => identifies id s a = true) (.unborn fun r hr => absurd hr List.not_mem_nil)
    (fun s a s' hs hp r hr => hp r (produced_subset hs hr)) (fun s σ a s' hr hp h hid hs => ?_) h hp
  have hp' : ∀ r ∈ s.produced, r.message.uuid = id → r.message.isPeriodic = false :=
    fun r hr => hp r (produced_subset hs hr)
  exact follows_step h (base_reachable hr) (base_reachable (hr.step hid hs)) (tracked_reachable hr hp')
    (sources_reachable hr) hp hid hs

/-- A message stands at one stage. -/
theorem Stands.unique {σ' : LifeStage} (h : Stands config id s σ) (hb : Base config s) (ht : Tracked id s)
    (h' : Stands config id s σ') : σ' = σ := by
  cases h' with
  | unborn hnone =>
    cases h with
    | unborn => rfl
    | stored hat =>
      obtain ⟨slot, hcopy, _⟩ := hat.exists_slot
      exact absurd (hb.copies_zero hnone slot) hcopy
    | withdrawn hknown | gone hknown =>
      obtain ⟨r, hr, hid⟩ := hknown
      exact absurd hid (hnone r hr)
  | stored hat => exact (h.of_at hb ht hat).symm
  | withdrawn hknown hnowhere hreads =>
    cases h with
    | unborn hnone =>
      obtain ⟨r, hr, hid⟩ := hknown
      exact absurd hid (hnone r hr)
    | stored hat => exact absurd hat (hnowhere _)
    | withdrawn => rfl
    | gone _ _ hzero => exact absurd hzero hreads
  | gone hknown hnowhere hzero =>
    cases h with
    | unborn hnone =>
      obtain ⟨r, hr, hid⟩ := hknown
      exact absurd hid (hnone r hr)
    | stored hat => exact absurd hat (hnowhere _)
    | withdrawn _ _ hreads => exact absurd hzero hreads
    | gone => rfl

/-- **The life of a message**: the turns of every run are a life, which has come to the one stage where the message
is. -/
theorem lifeCycle_reachable {s : State × List Turn}
    (h : Reach ((system cron lt config).logged (turns cron lt config id)) (fun s a => identifies id s.1 a = true) s)
    (hp : ∀ r ∈ s.1.produced, r.message.uuid = id → r.message.isPeriodic = false) :
    ∃ σ, lifeCycle.follow .unborn s.2 = some σ ∧ Stands config id s.1 σ ∧
      ∀ σ', Stands config id s.1 σ' → σ' = σ := by
  have hrun : Reach (system cron lt config) (fun s a => identifies id s a = true) s.1 := reach_logged h
  obtain ⟨σ, hlife, hstands⟩ := exists_life h hp
  exact ⟨σ, hlife, hstands, fun _ => hstands.unique (base_reachable hrun) (tracked_reachable hrun hp)⟩

/-- A consumer has the message while it is processed. -/
theorem Stands.processing_iff (h : Stands config id s σ) (hb : Base config s) (ht : Tracked id s) :
    σ = .processing ↔ ∃ c m, s.consumers c = .holding m ∧ m.uuid = id := by
  constructor
  · rintro rfl
    cases h with
    | stored hat =>
      cases hat with
      | list hk hcopy =>
        cases hk with
        | processing c =>
          obtain ⟨m, hm, hid⟩ := exists_of_copies hb.store.filed hcopy
          have hmem : m ∈ (s.consumers c).held := hb.hands c ▸ hm
          refine ⟨c, m, ?_, hid⟩
          cases hc : s.consumers c <;> rw [hc] at hmem
          · cases hmem
          · rw [List.mem_singleton.mp hmem]
          · cases hmem
      | store hs => cases hs
  · rintro ⟨c, m, hc, rfl⟩
    exact h.of_at hb ht (hb.at_processing hc)

/-- **The accounts of a message** in every run: every delivery is settled once, or a consumer has the message; the
message is delivered once for being produced, for every failure after which it is delayed or re-queued, and for every
revival, at most; and the verdicts on it and its revivals take turns. -/
theorem accounts_reachable {r : Produced} {s : State × List Turn}
    (h : Reach ((system cron lt config).logged (turns cron lt config r.message.uuid))
      (fun s a => identifies r.message.uuid s.1 a = true) s)
    (hr : r ∈ s.1.produced) (hp : r.message.isPeriodic = false) :
    ((∃ c m, s.1.consumers c = .holding m ∧ m.uuid = r.message.uuid) →
        s.2.count .taken = s.2.countP Turn.settles + 1) ∧
      ((¬∃ c m, s.1.consumers c = .holding m ∧ m.uuid = r.message.uuid) →
        s.2.count .taken = s.2.countP Turn.settles) ∧
      s.2.count .taken ≤ 1 + s.2.countP Turn.retries + s.2.count .revived ∧
      s.2.count .revived ≤ s.2.countP Turn.concludes ∧ s.2.countP Turn.concludes ≤ 1 + s.2.count .revived := by
  have hrun : Reach (system cron lt config) (fun s a => identifies r.message.uuid s a = true) s.1 := reach_logged h
  have hp' : ∀ r' ∈ s.1.produced, r'.message.uuid = r.message.uuid → r'.message.isPeriodic = false := by
    intro r' hr' huuid
    rw [← produced_unique hrun r hr rfl r' hr' huuid]
    exact hp
  obtain ⟨σ, hlife, hstands⟩ := exists_life h hp'
  have hprocessing := hstands.processing_iff (base_reachable hrun) (tracked_reachable hrun hp')
  obtain ⟨hsettled, hdeliveries, hverdicts, hrevivals, _⟩ := accounts_of_follow hlife
  refine ⟨fun hheld => ?_, fun hnone => ?_, by omega, hrevivals, by omega⟩
  · rw [hsettled, if_pos (hprocessing.mpr hheld)]
  · rw [hsettled, if_neg (mt hprocessing.mp hnone), Nat.add_zero]

end

/-- A message fails and is scheduled for its retry delay, is deleted when the schedule worker has read it, is delivered
all the same, acknowledged, and re-queued by the message manager. -/
def withdrawnRun : Option (State × List Turn) :=
  run ((system minuteParser (fun _ _ => false) lifoConsumer).logged
      (turns minuteParser (fun _ _ => false) lifoConsumer "m"))
    (fun s a => identifies "m" s.1 a = true) (init, [])
    [.produce ⟨"q", "ns"⟩ false (Message.new Message.defaultOpts "m" 0) 1, .dequeue "c", .unacknowledge "c" .timeout 2,
      .delayFetch 4, .delayExec, .scheduleFetchIds false 60004, .scheduleFetchMessages 60005, .deleteScheduled "m",
      .scheduleExec, .dequeue "c", .acknowledge "c", .requeueMessageRead .acknowledged ⟨"q", "ns"⟩ 0 "m" false none,
      .requestExec 0 60006]

/-- Its life. -/
def withdrawnLife : List Turn :=
  [.enqueued, .taken, .failed .delay, .rescheduled, .withdrawn, .due, .taken, .acknowledged, .revived]

theorem withdrawnRun_eq : ∃ s, withdrawnRun = some s ∧ s.2 = withdrawnLife ∧
    s.1.produced = [⟨sent ⟨"q", "ns"⟩ (Message.new Message.defaultOpts "m" 0), false⟩] := by
  have hrun : withdrawnRun.map (fun s => (s.2, s.1.produced)) =
      some (withdrawnLife, [⟨sent ⟨"q", "ns"⟩ (Message.new Message.defaultOpts "m" 0), false⟩]) := by
    decide
  obtain ⟨s, hs, heq⟩ := Option.map_eq_some_iff.mp hrun
  exact ⟨s, hs, (Prod.mk.inj heq).1, (Prod.mk.inj heq).2⟩

theorem lifeCycle_withdrawnRun : ∃ s, withdrawnRun = some s ∧ s.2 = withdrawnLife ∧
    ∃ σ, lifeCycle.follow .unborn s.2 = some σ ∧ Stands lifoConsumer "m" s.1 σ ∧
      ∀ σ', Stands lifoConsumer "m" s.1 σ' → σ' = σ := by
  obtain ⟨s, hs, hlife, hproduced⟩ := withdrawnRun_eq
  refine ⟨s, hs, hlife, lifeCycle_reachable (reach_of_run _ hs) fun r hr _ => ?_⟩
  rw [hproduced] at hr
  rw [List.mem_singleton.mp hr]
  rfl

theorem accounts_withdrawnRun : ∃ s, withdrawnRun = some s ∧ s.2 = withdrawnLife ∧
    s.2.count .taken ≤ 1 + s.2.countP Turn.retries + s.2.count .revived := by
  obtain ⟨s, hs, hlife, hproduced⟩ := withdrawnRun_eq
  refine ⟨s, hs, hlife, (accounts_reachable (r := ⟨sent ⟨"q", "ns"⟩ (Message.new Message.defaultOpts "m" 0), false⟩)
    (reach_of_run _ hs) ?_ rfl).2.2.1⟩
  rw [hproduced]
  exact List.mem_singleton_self _

end RedisSmq.Queue
