import RedisSmq.Queue.Origin
import RedisSmq.Queue.Scheduled
import RedisSmq.Queue.Modes

/-!
# Requests that name the same message

Requests of the message manager re-queue a message of the dead-letter list or of the acknowledged list, or delete it
there. Each of them reads the message first; a delete then removes it from the list (`LREM`), a re-queue removes it and
enqueues a copy in one transaction, whatever `LREM` replied. The lock that deletes take is not taken by re-queues and is
left out here: the requests may be interleaved in any way.

A message is taken by at most one request. It is enqueued at most once, and not at all when it was deleted, when every
transaction of a re-queue still finds it (`exclusive_reachable`). Two re-queues that have both read the message enqueue
it twice (`not_exclusive_twice`).
-/

namespace RedisSmq.Queue

open RedisKeys Db Transition

/-- What a request for a message did in its second round trip: whether `LREM` removed a copy, and whether a copy was
enqueued. -/
structure Served where
  deletes : Bool
  took : Bool
  enqueued : Bool
deriving DecidableEq

/-- The command removes a copy of the message from a list. -/
def takes (db : Db) (id : String) : Cmd → Bool
  | .lrem key m => m.uuid = id && m ∈ db.lists key
  | _ => false

/-- The command adds a copy of the message to the pending messages of a queue. -/
def enqueues (id : String) : Cmd → Bool
  | .rpush key m => key.type = .keyQueue && m.uuid = id
  | .hset key _ m => key.type = .keyPendingMessagesWithPriority && m.uuid = id
  | _ => false

/-- The message that the request has read. -/
def Request.msg : Request → Message
  | .requeue _ _ _ _ msg | .delete _ _ msg => msg

def Request.source : Request → QueueList
  | .requeue source _ _ _ _ | .delete source _ _ => source

/-- The list that the request names. -/
def Request.key : Request → RedisKey
  | .requeue source q _ _ _ | .delete source q _ => source.key q

/-- Whether the request deletes. -/
def Request.deletes : Request → Bool
  | .requeue .. => false
  | .delete .. => true

/-- What the requests for the message did. -/
def served (id : String) (s : State) : Action → List Served
  | .requestExec index now =>
    match s.requests[index]? with
    | some r =>
      match r.cmds now with
      | .ok cmds =>
        if r.msg.uuid = id then [⟨r.deletes, cmds.any (takes s.db id), cmds.any (enqueues id)⟩] else []
      | .error _ => []
    | none => []
  | _ => []

/-- The step is one of a request for the dead-letter list or the acknowledged list of any queue. -/
def isRequest : Action → Bool
  | .requeueMessageRead source _ _ _ _ _ | .deleteMessageRead source _ _ _ => source ≠ .pending
  | .requestExec .. => true
  | _ => false

/-- The transaction of a re-queue still finds the message in its list. -/
def finds (id : String) (s : State) : Action → Bool
  | .requestExec index _ =>
    match s.requests[index]? with
    | some (.requeue source q _ _ msg) => msg.uuid ≠ id || msg ∈ s.db.lists (source.key q)
    | _ => true
  | _ => true

/-- At most one request took the message, at most one copy was enqueued, and none if a delete took it. -/
structure Exclusive (log : List Served) : Prop where
  taken : log.countP (·.took) ≤ 1
  enqueued : log.countP (·.enqueued) ≤ 1
  deleted : (∃ o ∈ log, o.deletes ∧ o.took) → ∀ o ∈ log, o.enqueued = false

/-- The copies of a message in a list. -/
def copiesIn (db : Db) (key : RedisKey) (id : String) : ℕ := (db.lists key).countP (·.uuid = id)

/-- One copy of the message is stored, in the list `key`, which is the dead-letter list or the acknowledged list of a
queue; no other of these lists has a copy. -/
structure OneStored (db : Db) (id : String) (key : RedisKey) : Prop where
  list : ∃ (source : QueueList) (q : TMessageQueue), source ≠ .pending ∧ key = source.key q
  here : copiesIn db key id = 1
  others : ∀ (source : QueueList) q, source ≠ .pending → source.key q ≠ key → copiesIn db (source.key q) id = 0

section

variable (cron : CronParser) (lt : Text → Text → Bool) (config : String → ConsumerConfig)

/-- The system from a database on. -/
def systemFrom (db : Db) : Machine State Action where
  init := { init with db := db }
  step := step cron lt config

end

section

variable {cron : CronParser} {lt : Text → Text → Bool} {config : String → ConsumerConfig}
variable {s s' : State} {a : Action} {id : String} {db : Db} {log : List Served} {key : RedisKey} {m : Message}

/-- `LREM` removes a copy of the message that it finds. -/
theorem copiesIn_lrem (h : m.uuid = id) : copiesIn (db.exec lt (.lrem key m)) key id +
    (if m ∈ db.lists key then 1 else 0) = copiesIn db key id := by
  simp only [copiesIn, Db.exec, setList_lists, Function.update_self]
  split
  · rename_i hm
    have hperm := (List.perm_cons_erase hm).countP_eq (fun m => decide (m.uuid = id))
    rw [hperm, List.countP_cons_of_pos (by simpa using h)]
  · rename_i hm
    rw [List.erase_of_not_mem hm]
    rfl

/-- `LREM` of another list, or of another message, removes none. -/
theorem copiesIn_lrem_of_ne {key' : RedisKey} (h : key ≠ key' ∨ m.uuid ≠ id) :
    copiesIn (db.exec lt (.lrem key' m)) key id = copiesIn db key id := by
  by_cases hk : key = key'
  · subst hk
    have hm : m.uuid ≠ id := h.resolve_left (fun h => h rfl)
    have hsame : SameFor (db.exec lt (.lrem key m)) db id := exec_sameFor hm
    simp only [copiesIn, List.countP_eq_length_filter, hsame.lists key]
  · simp [copiesIn, Db.exec, hk]

/-- The second round trip of a request for another message changes nothing for this one. -/
theorem sameFor_request {r : Request} {cmds : List Cmd} {now : ℕ} (h : r.msg.uuid ≠ id) (hr : r.cmds now = .ok cmds) :
    SameFor (db.execAll lt cmds) db id := by
  cases r with
  | requeue source q withPriority priority msg =>
    obtain ⟨m', hsame, rfl⟩ := requeueListMessage_ok hr
    have huuid : m'.uuid = msg.uuid := hsame.uuid
    refine execAll_sameFor _ (fun c hc ha => ?_)
    rcases List.mem_cons.mp hc with rfl | hc
    · exact h ha
    · exact h (huuid.symm.trans (about_enqueueCmds hc ha))
  | delete source q msg =>
    cases hr
    refine execAll_sameFor _ (fun c hc ha => ?_)
    rcases List.mem_singleton.mp hc with rfl
    exact h ha

/-- In the lists of the requests, the second round trip of a request is its `LREM`. -/
theorem copiesIn_request {r : Request} {cmds : List Cmd} {now : ℕ} (hr : r.cmds now = .ok cmds) {source : QueueList}
    {q : TMessageQueue} (hs : source ≠ .pending) : copiesIn (db.execAll lt cmds) (source.key q) id =
      copiesIn (db.exec lt (.lrem r.key r.msg)) (source.key q) id := by
  cases r with
  | requeue source' q' withPriority priority msg =>
    obtain ⟨m', _, rfl⟩ := requeueListMessage_ok hr
    have hframe : SameAt ((db.exec lt (.lrem (source'.key q') msg)).execAll lt
        (EnqueueHandler.enqueueCmds q' m' withPriority now)) (db.exec lt (.lrem (source'.key q') msg))
        (source.key q) := by
      cases source with
      | pending => exact absurd rfl hs
      | _ => exact enqueueCmds_frame (by simp [QueueList.key]) (by simp [QueueList.key]) (by simp [QueueList.key])
    rw [execAll_cons, copiesIn, hframe.lists]
    rfl
  | delete source' q' msg => cases hr; rfl

/-- What a request does in its second round trip; a re-queue enqueues even when it takes nothing. -/
theorem served_exec {r : Request} {cmds : List Cmd} {index now : ℕ} (hget : s.requests[index]? = some r)
    (hr : r.cmds now = .ok cmds) (hid : r.msg.uuid = id) :
    served id s (.requestExec index now) = [⟨r.deletes, r.msg ∈ s.db.lists r.key, !r.deletes⟩] := by
  simp only [served, hget, hr, hid, if_true]
  cases r with
  | requeue source q withPriority priority msg =>
    obtain ⟨m', hsame, rfl⟩ := requeueListMessage_ok hr
    have hid' : msg.uuid = id := hid
    have huuid : m'.uuid = id := hsame.uuid.trans hid'
    cases withPriority <;>
      simp [EnqueueHandler.enqueueCmds, EnqueueHandler.enqueued, takes, enqueues, Request.deletes, Request.msg,
        Request.key, Message.setPublishedAt, Message.getSetPriority, hid', huuid] <;> rfl
  | delete source q msg =>
    cases hr
    have hid' : msg.uuid = id := hid
    simp [takes, enqueues, Request.deletes, Request.msg, Request.key, hid']
    rfl

/-! ## Runs -/

/-- A re-queue that still finds the message takes it. -/
theorem mem_of_finds {r : Request} {index now : ℕ} (hf : finds id s (.requestExec index now) = true)
    (hget : s.requests[index]? = some r) (hid : r.msg.uuid = id) (hd : r.deletes = false) :
    r.msg ∈ s.db.lists r.key := by
  cases r with
  | requeue source q withPriority priority msg =>
    have hid' : msg.uuid = id := hid
    have hmem : msg ∈ s.db.lists (source.key q) := by simpa [finds, hget, hid'] using hf
    exact hmem
  | delete => cases hd

/-- What the requests did and what is left of the message. -/
structure Taken (id : String) (key : RedisKey) (s : State) (log : List Served) : Prop where
  list : ∃ (source : QueueList) (q : TMessageQueue), source ≠ .pending ∧ key = source.key q
  sources : ∀ r ∈ s.requests, r.source ≠ .pending
  copies : log.countP (·.took) + copiesIn s.db key id ≤ 1
  others : ∀ (source : QueueList) q, source ≠ .pending → source.key q ≠ key → copiesIn s.db (source.key q) id = 0
  requeued : ∀ o ∈ log, o.enqueued = true → o.took = true ∧ o.deletes = false

/-- A request that has a message in its list has it in the list of its one copy. -/
theorem Taken.key_eq (h : Taken id key s log) {r : Request} (hr : r ∈ s.requests) (hid : r.msg.uuid = id)
    (hmem : r.msg ∈ s.db.lists r.key) : r.key = key := by
  by_contra hne
  have hpos : 0 < copiesIn s.db r.key id := List.countP_pos_iff.mpr ⟨r.msg, hmem, by simpa using hid⟩
  have hsource := h.sources r hr
  have hnone : copiesIn s.db r.key id = 0 := by
    cases r with
    | requeue source q _ _ _ | delete source q _ => exact h.others source q hsource hne
  omega

/-- A request for another message changes nothing. -/
theorem Taken.exec_other (h : Taken id key s log) {index now : ℕ} {r : Request} {cmds : List Cmd}
    (hget : s.requests[index]? = some r) (hr : r.cmds now = .ok cmds) (hid : r.msg.uuid ≠ id) :
    Taken id key { s with db := s.db.execAll lt cmds, requests := s.requests.eraseIdx index }
      (log ++ served id s (.requestExec index now)) := by
  have hsame : SameFor (s.db.execAll lt cmds) s.db id := sameFor_request hid hr
  have hcopies : ∀ k, copiesIn (s.db.execAll lt cmds) k id = copiesIn s.db k id := fun k => by
    simp only [copiesIn, List.countP_eq_length_filter, hsame.lists k]
  have hlog : served id s (.requestExec index now) = [] := by simp [served, hget, hr, hid]
  rw [hlog, List.append_nil]
  refine ⟨h.list, fun r hr => h.sources r (List.mem_of_mem_eraseIdx hr), ?_, fun source q hs hne => ?_, h.requeued⟩
  · show _ + copiesIn (s.db.execAll lt cmds) _ id ≤ 1
    rw [hcopies]
    exact h.copies
  · show copiesIn (s.db.execAll lt cmds) _ id = 0
    rw [hcopies]
    exact h.others source q hs hne

/-- A request for the message takes the copy or leaves it. -/
theorem Taken.exec (h : Taken id key s log) {index now : ℕ} {r : Request} {cmds : List Cmd}
    (hget : s.requests[index]? = some r) (hr : r.cmds now = .ok cmds) (hid : r.msg.uuid = id)
    (hf : finds id s (.requestExec index now) = true) :
    Taken id key { s with db := s.db.execAll lt cmds, requests := s.requests.eraseIdx index }
      (log ++ served id s (.requestExec index now)) := by
  obtain ⟨source₀, q₀, hs₀, rfl⟩ := h.list
  have hcount : (if r.msg ∈ s.db.lists r.key then 1 else 0) + copiesIn (s.db.execAll lt cmds) (source₀.key q₀) id =
      copiesIn s.db (source₀.key q₀) id := by
    rw [copiesIn_request hr hs₀]
    by_cases hk : r.key = source₀.key q₀
    · rw [← hk, Nat.add_comm]
      exact copiesIn_lrem hid
    · rw [if_neg (fun hmem => hk (h.key_eq (List.mem_of_getElem? hget) hid hmem)), Nat.zero_add,
        copiesIn_lrem_of_ne (.inl (Ne.symm hk))]
  rw [served_exec hget hr hid]
  refine ⟨h.list, fun r hr => h.sources r (List.mem_of_mem_eraseIdx hr), ?_, fun source q hs hne => ?_,
    fun o ho he => ?_⟩
  · have hcopies := h.copies
    rw [List.countP_append, List.countP_singleton]
    show _ + copiesIn (s.db.execAll lt cmds) _ id ≤ 1
    simp only [decide_eq_true_eq]
    omega
  · have hle : copiesIn (s.db.execAll lt cmds) (source.key q) id ≤ copiesIn s.db (source.key q) id := by
      rw [copiesIn_request hr hs]
      by_cases hk : r.key = source.key q
      · rw [← hk, ← @copiesIn_lrem lt id s.db r.key r.msg hid]
        exact Nat.le_add_right _ _
      · rw [copiesIn_lrem_of_ne (.inl (Ne.symm hk))]
    rw [h.others source q hs hne] at hle
    exact Nat.le_zero.mp hle
  · rcases List.mem_append.mp ho with ho | ho
    · exact h.requeued o ho he
    · rcases List.mem_singleton.mp ho with rfl
      have hd : r.deletes = false := by simpa using he
      exact ⟨decide_eq_true (mem_of_finds hf hget hid hd), hd⟩

/-- A step of a request keeps the invariant. -/
theorem Taken.step (h : Taken id key s log) (ha : isRequest a = true) (hf : finds id s a = true)
    (hs : Queue.step cron lt config s a = some s') : Taken id key s' (log ++ served id s a) := by
  have hread : ∀ r : Request, r.source ≠ .pending → Taken id key { s with requests := r :: s.requests } (log ++ []) := by
    intro r hr
    rw [List.append_nil]
    refine ⟨h.list, fun r' hr' => ?_, h.copies, h.others, h.requeued⟩
    rcases List.mem_cons.mp hr' with rfl | hr'
    · exact hr
    · exact h.sources r' hr'
  cases a with
  | requeueMessageRead source q index messageId withPriority priority =>
    simp only [Queue.step] at hs
    split at hs
    · split at hs <;> cases hs
      exact hread _ (by assumption)
    · cases hs
  | deleteMessageRead source q index messageId =>
    simp only [Queue.step] at hs
    split at hs <;> cases hs
    exact hread _ (of_decide_eq_true ha)
  | requestExec index now =>
    simp only [Queue.step, requestExec] at hs
    split at hs
    · cases hs
    · rename_i r hget
      split at hs <;> cases hs
      · rename_i cmds hr
        by_cases hid : r.msg.uuid = id
        · exact h.exec hget hr hid hf
        · exact h.exec_other hget hr hid
      · rename_i herr
        have hlog : served id s (.requestExec index now) = [] := by simp [served, hget, herr]
        rw [hlog, List.append_nil]
        exact ⟨h.list, fun r hr => h.sources r (List.mem_of_mem_eraseIdx hr), h.copies, h.others, h.requeued⟩
  | _ => cases ha

/-- One request took the message at most, and a re-queue that enqueued it took it. -/
theorem Taken.exclusive (h : Taken id key s log) : Exclusive log := by
  have hle : log.countP (·.took) ≤ 1 := Nat.le_trans (Nat.le_add_right _ _) h.copies
  have hmono : log.countP (·.enqueued) ≤ log.countP (·.took) :=
    List.countP_mono_left fun o ho he => (h.requeued o ho he).1
  refine ⟨hle, Nat.le_trans hmono hle, ?_⟩
  rintro ⟨o, ho, hdeletes, htook⟩ o' ho'
  by_contra he
  obtain ⟨htook', hdeletes'⟩ := h.requeued o' ho' (by simpa using he)
  have hmem : o ∈ log.filter (·.took) := List.mem_filter.mpr ⟨ho, htook⟩
  have hmem' : o' ∈ log.filter (·.took) := List.mem_filter.mpr ⟨ho', htook'⟩
  rw [List.countP_eq_length_filter] at hle
  generalize log.filter (·.took) = l at hle hmem hmem'
  -- both are the one request that took the message
  have heq : o = o' := by
    cases l with
    | nil => cases hmem
    | cons x l =>
      have hnil : l = [] := List.eq_nil_of_length_eq_zero (Nat.le_zero.mp (Nat.le_of_succ_le_succ hle))
      rw [hnil] at hmem hmem'
      exact (List.mem_singleton.mp hmem).trans (List.mem_singleton.mp hmem').symm
  rw [heq, hdeletes'] at hdeletes
  cases hdeletes

/-- **Re-queues and deletes of one message are exclusive** in every run of requests in which each transaction of a
re-queue still finds the message. -/
theorem exclusive_reachable (h0 : OneStored db id key) {s : State × List Served}
    (h : Reach ((systemFrom cron lt config db).logged (served id))
      (fun s a => isRequest a = true ∧ finds id s.1 a = true) s) : Exclusive s.2 := by
  suffices hi : Taken id key s.1 s.2 from hi.exclusive
  refine h.invariant (I := fun s => Taken id key s.1 s.2) ?_ ?_
  · exact ⟨h0.list, fun _ hr => absurd hr List.not_mem_nil, Nat.le_of_eq ((Nat.zero_add _).trans h0.here), h0.others,
      fun _ ho => absurd ho List.not_mem_nil⟩
  · rintro s a s' hi ⟨ha, hf⟩ hs
    obtain ⟨hstep, hlog⟩ := Machine.logged_step hs
    rw [hlog]
    exact hi.step ha hf hstep

end

/-! ## Two requests for one message -/

/-- A database with one message in the dead-letter list of the queue `q`. -/
def deadLetterDb : Db :=
  Db.empty.setList (QueueList.deadLetter.key ⟨"q", "ns"⟩) [sent ⟨"q", "ns"⟩ (Message.new Message.defaultOpts "m" 0)]

theorem oneStored_deadLetterDb : OneStored deadLetterDb "m" (QueueList.deadLetter.key ⟨"q", "ns"⟩) where
  list := ⟨_, _, by decide, rfl⟩
  here := by decide
  others source q _ hne := by simp [copiesIn, deadLetterDb, Db.empty, hne]

/-- Two requests read the message before the first transaction. -/
def twoRequestsRun (P : State → Action → Bool) (second : Action) : Option (State × List Served) :=
  run ((systemFrom minuteParser (fun _ _ => false) twoModes deadLetterDb).logged (served "m"))
    (fun s a => P s.1 a = true) ({ init with db := deadLetterDb }, [])
    [.requeueMessageRead .deadLetter ⟨"q", "ns"⟩ 0 "m" false none, second, .requestExec 1 5, .requestExec 0 6]

/-- A re-queue takes the message before a delete does. -/
theorem exclusive_delete : ∃ s, twoRequestsRun (fun s a => isRequest a && finds "m" s a)
    (.deleteMessageRead .deadLetter ⟨"q", "ns"⟩ 0 "m") = some s ∧
      s.2 = [⟨false, true, true⟩, ⟨true, false, false⟩] ∧ Exclusive s.2 := by
  have hrun : (twoRequestsRun (fun s a => isRequest a && finds "m" s a)
      (.deleteMessageRead .deadLetter ⟨"q", "ns"⟩ 0 "m")).map (·.2) =
        some [⟨false, true, true⟩, ⟨true, false, false⟩] := by decide
  obtain ⟨s, hs, hlog⟩ := Option.map_eq_some_iff.mp hrun
  refine ⟨s, hs, hlog, exclusive_reachable oneStored_deadLetterDb
    ((reach_of_run _ hs).mono fun s a h => ?_)⟩
  simpa using h

/-- Two re-queues that have both read the message enqueue it twice. -/
theorem not_exclusive_twice : ¬∀ db id key, OneStored db id key → ∀ s : State × List Served,
    Reach ((systemFrom minuteParser (fun _ _ => false) twoModes db).logged (served id))
      (fun _ a => isRequest a = true) s → Exclusive s.2 := by
  intro h
  have hrun : (twoRequestsRun (fun _ a => isRequest a)
      (.requeueMessageRead .deadLetter ⟨"q", "ns"⟩ 0 "m" false none)).map (fun s => s.2.countP (·.enqueued)) =
        some 2 := by decide
  obtain ⟨s, hs, htwo⟩ := Option.map_eq_some_iff.mp hrun
  have hone := (h deadLetterDb "m" _ oneStored_deadLetterDb s (reach_of_run _ hs)).enqueued
  have htwo' : s.2.countP (·.enqueued) = 2 := htwo
  omega

end RedisSmq.Queue
