import RedisSmq.Consumer.System

/-!
# One settlement for each delivery

Nothing in the code keeps a delivery from being settled twice: the callback does not remember that it was called, and an
exception neither clears the timer nor stops the callback. A second settlement moves the message of another delivery, and
makes the consumer ask for one message too many (`not_safe_twice`). A consumer that is stopped and started again can also
meet a message or a delivery of its last run.

- `orderly`: only the first event of a delivery of the current run settles it, and a consumer is started with an empty
  processing list;
- `Stage`: the consumer waits for a message, processes one, or is settling one; `Inv.step`;
- `oneSettlement_reachable`: in orderly runs every delivery is settled at most once, the processing list holds at most
  one message, and every request moves the message it was made for.
-/

namespace RedisSmq.Consumer

open RedisKeys Db Transition

variable {lt : Text → Text → Bool} {config : Queue.ConsumerConfig} {id : String}
variable {s s' : State} {a : Action} {db db' : Db} {m : Message} {key : RedisKey}

/-! ## Safety -/

/-- The request moves the message out of the processing list into another list, and nothing else. -/
structure MovesOut (lt : Text → Text → Bool) (db : Db) (key : RedisKey) (m : Message) (cmd : Cmd) : Prop where
  held : m ∈ db.lists key
  source : (db.exec lt cmd).lists key = (db.lists key).erase m
  destination : ∃ destination, destination ≠ key ∧
    ((db.exec lt cmd).lists destination).Perm (m :: db.lists destination)

/-- Every delivery is settled at most once and followed by at most one `MESSAGE_NEXT`, the processing list holds at most
one message, and every request moves the message of its delivery. -/
structure Safe (lt : Text → Text → Bool) (key : RedisKey) (s : State) : Prop where
  once : ∀ entry ∈ s.entries, entry.calls ≤ 1 ∧ entry.nexts ≤ 1
  single : (s.db.lists key).length ≤ 1
  own : ∀ r ∈ s.requests, ∃ entry, s.entries[r.index]? = some entry ∧
    MovesOut lt s.db key entry.delivery.message r.cmd

/-- An event that settles a delivery is the first one that does, in the run of the delivery; a consumer is started with an
empty processing list. -/
def orderly (key : RedisKey) (s : State) : Action → Bool
  | .event index e _ =>
    match s.entries[index]? with
    | some entry => !entry.delivery.settles s.power.moment e || (decide (entry.calls = 0) && decide (entry.run = s.run))
    | none => true
  | .goUp => (s.db.lists key).isEmpty
  | _ => true

/-! ## The invariant -/

/-- What the invariant says about a delivery. -/
structure Record where
  message : Message
  run : ℕ
  calls : ℕ
  nexts : ℕ

def Entry.record (entry : Entry) : Record := ⟨entry.delivery.message, entry.run, entry.calls, entry.nexts⟩

def State.records (s : State) : List Record := s.entries.map Entry.record

/-- All deliveries of the current run are settled. -/
def Settled (s : State) : Prop := ∀ r ∈ s.records, r.run = s.run → r.calls = 1

/-- What the consumer is doing. -/
inductive Stage (key : RedisKey) (s : State) : Prop
  | down : s.power = .down → (s.db.lists key).length ≤ 1 → Stage key s
  | waiting : s.requests = [] → s.dequeues ≤ 1 → s.db.lists key = [] → Settled s → Stage key s
  | processing {index run : ℕ} {m : Message} : s.requests = [] → s.dequeues = 0 →
    s.records[index]? = some ⟨m, run, 0, 0⟩ → s.db.lists key = [m] →
    (∀ (j : ℕ) (r : Record), s.records[j]? = some r → j ≠ index → r.run = s.run → r.calls = 1) → Stage key s
  | settling {index run : ℕ} {m : Message} {cmd : Cmd} {destination : RedisKey} : s.requests = [⟨index, cmd⟩] →
    s.dequeues = 0 → s.records[index]? = some ⟨m, run, 1, 0⟩ → s.db.lists key = [m] → IsMove key destination cmd →
    destination ≠ key → Settled s → Stage key s

structure Inv (key : RedisKey) (s : State) : Prop where
  counts : ∀ r ∈ s.records, r.calls ≤ 1 ∧ r.nexts ≤ r.calls ∧ r.run ≤ s.run
  idle : s.power = .down → s.requests = [] ∧ s.dequeues = 0
  rising : s.power = .goingUp → s.requests = [] ∧ s.dequeues = 0 ∧ s.db.lists key = [] ∧ Settled s
  stage : Stage key s

/-- The consumer has been up, and is not down. -/
def State.Awake (s : State) : Prop := s.power ≠ .down ∧ s.power ≠ .goingUp

theorem Inv.of_awake (hcounts : ∀ r ∈ s.records, r.calls ≤ 1 ∧ r.nexts ≤ r.calls ∧ r.run ≤ s.run) (hup : s.Awake)
    (hstage : Stage key s) : Inv key s :=
  ⟨hcounts, fun h => absurd h hup.1, fun h => absurd h hup.2, hstage⟩

/-- A consumer that waits for a message, or for the reply of a request, is awake. -/
theorem Inv.awake (hi : Inv key s) (h : s.requests ≠ [] ∨ s.dequeues ≠ 0) : s.Awake := by
  constructor
  · intro hdown
    obtain ⟨h1, h2⟩ := hi.idle hdown
    simp [h1, h2] at h
  · intro hrising
    obtain ⟨h1, h2, -⟩ := hi.rising hrising
    simp [h1, h2] at h

/-- The processing list holds at most one message at every stage. -/
theorem Stage.length_le (h : Stage key s) : (s.db.lists key).length ≤ 1 := by
  cases h with
  | down _ h => exact h
  | waiting _ _ h | processing _ _ _ h | settling _ _ _ h => simp [h]

/-- A stage only looks at the processing list of the database, and at the records of the deliveries. -/
theorem Stage.of_same (h : Stage key s) {entries : List Entry} (hl : db.lists key = s.db.lists key)
    (hr : entries.map Entry.record = s.records) : Stage key { s with db := db, entries := entries } := by
  have hsettled : Settled s → Settled { s with db := db, entries := entries } := fun h r hm =>
    h r (by rw [← hr]; exact hm)
  cases h with
  | down h1 h2 => exact .down h1 (hl ▸ h2)
  | waiting h1 h2 h3 h4 => exact .waiting h1 h2 (hl.trans h3) (hsettled h4)
  | processing h1 h2 h3 h4 h5 =>
    exact .processing h1 h2 ((congrArg (·[_]?) hr).trans h3) (hl.trans h4)
      (fun j r hj => h5 j r ((congrArg (·[j]?) hr).symm.trans hj))
  | settling h1 h2 h3 h4 h5 h6 h7 =>
    exact .settling h1 h2 ((congrArg (·[_]?) hr).trans h3) (hl.trans h4) h5 h6 (hsettled h7)

/-- Replacing an entry replaces its record. -/
theorem records_set {index : ℕ} {entry : Entry} :
    (s.entries.set index entry).map Entry.record = s.records.set index entry.record := List.map_set ..

/-- The request of a settlement moves its message. -/
theorem isMove_settlementCmd (now : ℕ) (c : Settlement) : ∃ destination,
    IsMove (config.keyQueueProcessing id) destination (settlementCmd config id m now c) ∧
      destination.type ≠ .keyQueueProcessing := by
  cases c with
  | acknowledge => exact Broker.isMove_acknowledge ..
  | unacknowledge cause => exact Broker.isMove_retry ..

theorem ne_keyQueueProcessing (h : key.type ≠ .keyQueueProcessing) : key ≠ config.keyQueueProcessing id := by
  rintro rfl
  exact h rfl

/-- What a consumer takes when its processing list is empty. -/
theorem pop_lists {r : Option Message} (h : pop lt config id db = some (db', r))
    (hl : db.lists (config.keyQueueProcessing id) = []) : db'.lists (config.keyQueueProcessing id) = r.toList := by
  have hpending : (getKeys config.ns config.queueName none).keyQueue ≠ config.keyQueueProcessing id := by
    simp [RedisKey.ext_iff, Queue.ConsumerConfig.keyQueueProcessing]
  unfold pop at h
  dsimp only at h
  split at h
  · have hlist := @zpophgetrpush_lists db (getKeys config.ns config.queueName none).keyQueuePriority
      (getKeys config.ns config.queueName none).keyPendingMessagesWithPriority (config.keyQueueProcessing id)
    rw [hl, List.nil_append] at hlist
    split at h <;> rename_i heq <;> cases h <;> rw [heq] at hlist <;> exact hlist
  · split at h <;> rename_i hm <;> cases h
    simp only [exec, rpoplpush, hm, setList_lists, Function.update_self, Function.update_of_ne hpending.symm, hl]
    rfl

/-! ## Steps -/

theorem Inv.step_other {lt : Text → Text → Bool} (hi : Inv (config.keyQueueProcessing id) s)
    (hs : step lt config id s (.other db) = some s') : Inv (config.keyQueueProcessing id) s' := by
  simp only [Consumer.step] at hs
  split at hs <;> cases hs
  rename_i hdb
  refine ⟨hi.counts, hi.idle, fun h => ?_, ?_⟩
  · obtain ⟨h1, h2, h3, h4⟩ := hi.rising h
    refine ⟨h1, h2, ?_, h4⟩
    rcases hdb with hsame | ⟨-, hnil⟩
    · exact hsame.trans h3
    · exact hnil
  · rcases hdb with hsame | ⟨hdown | hrising, hnil⟩
    · exact hi.stage.of_same hsame rfl
    · exact .down hdown (by simp [hnil])
    · obtain ⟨h1, h2, -, h4⟩ := hi.rising hrising
      exact .waiting h1 (by simp [h2]) hnil h4

/-- A new delivery of the current run. -/
theorem counts_append {r : Record} {records : List Record} {run : ℕ}
    (h : ∀ r ∈ records, r.calls ≤ 1 ∧ r.nexts ≤ r.calls ∧ r.run ≤ run) (hr : r.calls ≤ 1 ∧ r.nexts = 0 ∧ r.run = run) :
    ∀ r' ∈ records ++ [r], r'.calls ≤ 1 ∧ r'.nexts ≤ r'.calls ∧ r'.run ≤ run := by
  intro r' hr'
  rcases List.mem_append.mp hr' with hr' | hr'
  · exact h r' hr'
  · rcases List.mem_singleton.mp hr' with rfl
    omega

/-- The records with a new one at the end. -/
theorem records_concat (s : State) (entry : Entry) :
    (s.entries ++ [entry]).map Entry.record = s.records ++ [entry.record] ∧
      (s.records ++ [entry.record])[s.entries.length]? = some entry.record := by
  have hlength : s.entries.length = s.records.length := (List.length_map _).symm
  exact ⟨List.map_append, by rw [hlength]; exact List.getElem?_concat_length ..⟩

/-- A consumer that takes a message processes it, or settles it at once. -/
theorem inv_received {now : ℕ} (hcounts : ∀ r ∈ s.records, r.calls ≤ 1 ∧ r.nexts ≤ r.calls ∧ r.run ≤ s.run)
    (hup : s.Awake) (hreq : s.requests = []) (hzero : s.dequeues = 0) (hsettled : Settled s)
    (hl : s.db.lists (config.keyQueueProcessing id) = [m]) :
    Inv (config.keyQueueProcessing id) (handleReceivedMessage config id s m now) := by
  have hbroker : s.power.moment.broker = true := by
    cases hp : s.power with
    | down => exact absurd hp hup.1
    | goingUp | up | goingDown => rfl
  unfold handleReceivedMessage
  split
  · -- an expired message is settled at once
    obtain ⟨destination, hmove, htype⟩ := @isMove_settlementCmd config id m now (.unacknowledge .ttlExpired)
    have hne := @ne_keyQueueProcessing config id destination htype
    obtain ⟨hrecords, hlast⟩ := records_concat s ⟨Delivery.expired m, s.run, 1, 0⟩
    simp only [Moment.settle, hbroker, if_true, List.length_singleton, List.map_cons, List.map_nil, hreq,
      List.nil_append]
    refine .of_awake ?_ hup (.settling rfl hzero ((congrArg (·[_]?) hrecords).trans hlast) hl hmove hne ?_)
    · unfold State.records
      rw [hrecords]
      exact counts_append hcounts ⟨Nat.le_refl _, rfl, rfl⟩
    · unfold Settled State.records
      rw [hrecords]
      intro r hr hrun
      rcases List.mem_append.mp hr with hr | hr
      · exact hsettled r hr hrun
      · rcases List.mem_singleton.mp hr with rfl
        rfl
  · obtain ⟨hrecords, hlast⟩ := records_concat s ⟨Delivery.start m, s.run, 0, 0⟩
    refine .of_awake ?_ hup (.processing hreq hzero ((congrArg (·[_]?) hrecords).trans hlast) hl ?_)
    · unfold State.records
      rw [hrecords]
      exact counts_append hcounts ⟨Nat.zero_le _, rfl, rfl⟩
    · unfold State.records
      rw [hrecords]
      intro j r hj hne hrun
      have hlength : s.records.length = s.entries.length := List.length_map _
      rw [List.getElem?_append] at hj
      split at hj
      · exact hsettled r (List.mem_of_getElem? hj) hrun
      · have := (List.getElem?_eq_some_iff.mp hj).1
        simp only [List.length_singleton] at this
        omega

theorem Inv.step_dequeue {now : ℕ} (hi : Inv (config.keyQueueProcessing id) s)
    (hs : step lt config id s (.dequeue now) = some s') : Inv (config.keyQueueProcessing id) s' := by
  simp only [Consumer.step] at hs
  split at hs
  · rename_i hpos
    have hup : s.Awake := hi.awake (.inr (by omega))
    cases hi.stage with
    | down h => exact absurd h hup.1
    | processing _ h | settling _ h => omega
    | waiting hreq hone hnil hsettled =>
      have hzero : s.dequeues - 1 = 0 := by omega
      split at hs <;> rename_i hpop <;> cases hs
      · have hlist := pop_lists hpop hnil
        exact .of_awake hi.counts hup (.waiting hreq (Nat.le_trans (Nat.sub_le _ _) hone) hlist hsettled)
      · rename_i db m
        have hlist : db.lists (config.keyQueueProcessing id) = [m] := pop_lists hpop hnil
        exact inv_received hi.counts hup hreq hzero hsettled hlist
  · cases hs

/-- An event that settles nothing changes no record. -/
theorem records_quiet {index : ℕ} {entry : Entry} {d : Delivery} (hentry : s.entries[index]? = some entry)
    (hmessage : d.message = entry.delivery.message) :
    (s.entries.set index { entry with delivery := d, calls := entry.calls + 0 }).map Entry.record = s.records := by
  have hrecord : s.records[index]? = some entry.record := by simp [State.records, hentry]
  have hindex : index < s.records.length := (List.getElem?_eq_some_iff.mp hrecord).1
  rw [records_set]
  refine List.ext_getElem? (fun j => ?_)
  by_cases hj : index = j
  · subst hj
    rw [List.getElem?_set_self hindex]
    simp only [Entry.record, hmessage, Nat.add_zero]
    exact hrecord.symm
  · exact List.getElem?_set_ne hj

/-- The first event that settles a delivery of the current run settles the one that is being processed. -/
theorem Inv.settles {index : ℕ} {entry : Entry} {d : Delivery} {cmd : Cmd} {destination : RedisKey} (hi : Inv key s)
    (hentry : s.entries[index]? = some entry) (hmessage : d.message = entry.delivery.message)
    (hdown : s.power ≠ .down) (hcalls : entry.calls = 0) (hrun : entry.run = s.run) (hmove : IsMove key destination cmd)
    (hne : destination ≠ key) :
    Inv key { s with
      entries := s.entries.set index { entry with delivery := d, calls := entry.calls + 1 }
      requests := s.requests ++ [⟨index, cmd⟩] } := by
  have hrecord : s.records[index]? = some entry.record := by simp [State.records, hentry]
  have hindex : index < s.records.length := (List.getElem?_eq_some_iff.mp hrecord).1
  have hnot : entry.record.calls ≠ 1 := by simp [Entry.record, hcalls]
  have hunsettled : ¬Settled s := fun h => hnot (h _ (List.mem_of_getElem? hrecord) hrun)
  have hup : s.Awake := ⟨hdown, fun hrising => hunsettled (hi.rising hrising).2.2.2⟩
  cases hi.stage with
  | down h => exact absurd h hdown
  | waiting _ _ _ hsettled => exact absurd hsettled hunsettled
  | settling _ _ _ _ _ _ hsettled => exact absurd hsettled hunsettled
  | @processing index' run m hreq hzero hget hl hothers =>
    by_cases hj : index = index'
    · subst hj
      rw [hrecord] at hget
      simp only [Entry.record, Option.some.injEq, Record.mk.injEq] at hget
      obtain ⟨hm, -, -, hnexts⟩ := hget
      have hset : (s.entries.set index { entry with delivery := d, calls := entry.calls + 1 }).map Entry.record =
          s.records.set index ⟨m, s.run, 1, 0⟩ := by
        rw [records_set]
        simp [Entry.record, hmessage, hm, hrun, hcalls, hnexts]
      have hget : (s.records.set index ⟨m, s.run, 1, 0⟩)[index]? = some ⟨m, s.run, 1, 0⟩ :=
        List.getElem?_set_self hindex
      have hrequests : s.requests ++ [⟨index, cmd⟩] = [⟨index, cmd⟩] := by rw [hreq]; rfl
      have hmem : ∀ r, r ∈ (s.entries.set index { entry with delivery := d, calls := entry.calls + 1 }).map
          Entry.record → r ∈ s.records.set index ⟨m, s.run, 1, 0⟩ := fun r hr => hset ▸ hr
      refine .of_awake (fun r hr => ?_) hup (.settling hrequests hzero ((congrArg (·[index]?) hset).trans hget)
        hl hmove hne (fun r hr hrun => ?_))
      · rcases List.mem_or_eq_of_mem_set (hmem r hr) with hr | rfl
        · exact hi.counts r hr
        · exact ⟨Nat.le_refl _, Nat.zero_le _, Nat.le_refl _⟩
      · obtain ⟨j, hj⟩ := List.mem_iff_getElem?.mp (hmem r hr)
        by_cases hne' : index = j
        · subst hne'
          rw [hget] at hj
          cases hj
          rfl
        · rw [List.getElem?_set_ne hne'] at hj
          exact hothers j r hj (Ne.symm hne') hrun
    · exact absurd (hothers index _ hrecord hj hrun) hnot

/-- An orderly event settles the delivery that is being processed, or changes nothing but its variables. -/
theorem Inv.step_event {index now : ℕ} {e : Event} (hi : Inv (config.keyQueueProcessing id) s)
    (ho : orderly (config.keyQueueProcessing id) s (.event index e now) = true)
    (hs : step lt config id s (.event index e now) = some s') : Inv (config.keyQueueProcessing id) s' := by
  simp only [Consumer.step, bind, Option.bind_eq_some_iff] at hs
  obtain ⟨entry, hentry, ⟨d, l⟩, hhandle, hs⟩ := hs
  obtain ⟨hlength, hmessage⟩ := Delivery.handle_eq hhandle
  simp only [orderly, hentry] at ho
  cases hsettles : entry.delivery.settles s.power.moment e with
  | false =>
    rw [hsettles] at hlength
    rw [List.eq_nil_of_length_eq_zero hlength] at hs
    cases hs
    have hsame := records_quiet hentry hmessage
    refine ⟨fun r hr => hi.counts r ?_, fun h => ?_, fun h => ?_, ?_⟩
    · rw [← hsame]; exact hr
    · have hidle := hi.idle h
      exact ⟨by simpa using hidle.1, hidle.2⟩
    · obtain ⟨h1, h2, h3, h4⟩ := hi.rising h
      refine ⟨by simpa using h1, h2, h3, fun r hr => h4 r ?_⟩
      rw [← hsame]
      exact hr
    · simpa using hi.stage.of_same rfl hsame
  | true =>
    rw [hsettles] at hlength ho
    simp only [Bool.not_true, Bool.false_or, Bool.and_eq_true, decide_eq_true_eq] at ho
    obtain ⟨c, rfl⟩ := List.length_eq_one_iff.mp hlength
    cases hs
    -- without a broker there is no settlement
    have hdown : s.power ≠ .down := by
      intro hdown
      rw [hdown] at hsettles
      cases e <;> simp [Delivery.settles, Power.moment] at hsettles
    obtain ⟨destination, hmove, htype⟩ := @isMove_settlementCmd config id d.message now c
    have hne := @ne_keyQueueProcessing config id destination htype
    exact hi.settles hentry hmessage hdown ho.1 ho.2 hmove hne

/-- The reply of a settlement makes the consumer ask for the next message. -/
theorem Inv.step_exec (hi : Inv (config.keyQueueProcessing id) s) (hs : step lt config id s .exec = some s') :
    Inv (config.keyQueueProcessing id) s' := by
  simp only [Consumer.step] at hs
  split at hs <;> rename_i hrequests <;> cases hs
  rename_i request requests
  have hup : s.Awake := hi.awake (.inl (by simp [hrequests]))
  cases hi.stage with
  | down h => exact absurd h hup.1
  | waiting h | processing h => rw [h] at hrequests; cases hrequests
  | @settling index run m cmd destination hreq hzero hget hl hmove hne hsettled =>
    rw [hreq, List.cons.injEq] at hrequests
    obtain ⟨rfl, rfl⟩ := hrequests
    have hlist : (s.db.exec lt cmd).lists (config.keyQueueProcessing id) = [] := (move_singleton hmove hne hl).1
    have hset : (s.entries.modify index (fun entry => { entry with nexts := entry.nexts + 1 })).map Entry.record =
        s.records.set index ⟨m, run, 1, 1⟩ := by
      refine List.ext_getElem? (fun j => ?_)
      rw [List.getElem?_map, List.getElem?_modify]
      by_cases hj : index = j
      · subst hj
        obtain ⟨entry, hentry, hrecord⟩ : ∃ entry, s.entries[index]? = some entry ∧ entry.record = ⟨m, run, 1, 0⟩ := by
          simpa [State.records] using hget
        rw [List.getElem?_set_self (List.getElem?_eq_some_iff.mp hget).1, hentry]
        simp only [Entry.record, Record.mk.injEq] at hrecord
        simp [Entry.record, hrecord]
      · rw [List.getElem?_set_ne hj]
        simp [State.records, hj]
    have hmem : ∀ r, r ∈ (s.entries.modify index (fun entry => { entry with nexts := entry.nexts + 1 })).map
        Entry.record → r ∈ s.records.set index ⟨m, run, 1, 1⟩ := fun r hr => hset ▸ hr
    refine .of_awake (fun r hr => ?_) hup (.waiting rfl ?_ hlist (fun r hr hrun => ?_))
    · rcases List.mem_or_eq_of_mem_set (hmem r hr) with hr | rfl
      · exact hi.counts r hr
      · exact ⟨Nat.le_refl _, Nat.le_refl _, (hi.counts _ (List.mem_of_getElem? hget)).2.2⟩
    · show s.dequeues + _ ≤ 1
      rw [hzero]
      split <;> omega
    · rcases List.mem_or_eq_of_mem_set (hmem r hr) with hr | rfl
      · exact hsettled r hr hrun
      · rfl

/-! ## Runs -/

theorem inv_init : Inv key init := by
  constructor
  · intro r hr
    cases hr
  · intro _
    exact ⟨rfl, rfl⟩
  · intro h
    cases h
  · exact .down rfl (Nat.zero_le _)

/-- An orderly step keeps the invariant. -/
theorem Inv.step (hi : Inv (config.keyQueueProcessing id) s) (ho : orderly (config.keyQueueProcessing id) s a = true)
    (hs : Consumer.step lt config id s a = some s') : Inv (config.keyQueueProcessing id) s' := by
  cases a with
  | other db => exact hi.step_other hs
  | goUp =>
    simp only [Consumer.step] at hs
    split at hs <;> rename_i hdown <;> cases hs
    obtain ⟨hreq, hzero⟩ := hi.idle hdown
    have hnil : s.db.lists (config.keyQueueProcessing id) = [] := List.isEmpty_iff.mp ho
    -- the deliveries are those of earlier runs
    have hold : ∀ r ∈ s.records, r.run ≠ s.run + 1 := fun r hr h => by have := (hi.counts r hr).2.2; omega
    have hsettled : Settled { s with power := .goingUp, run := s.run + 1 } :=
      fun r hr hrun => absurd hrun (hold r hr)
    constructor
    · intro r hr
      obtain ⟨h1, h2, h3⟩ := hi.counts r hr
      exact ⟨h1, h2, Nat.le_succ_of_le h3⟩
    · intro h
      cases h
    · intro _
      exact ⟨hreq, hzero, hnil, hsettled⟩
    · exact .waiting hreq (by simp [hzero]) hnil hsettled
  | up =>
    simp only [Consumer.step] at hs
    split at hs <;> rename_i hrising <;> cases hs
    obtain ⟨hreq, hzero, hnil, hsettled⟩ := hi.rising hrising
    exact .of_awake hi.counts ⟨by simp, by simp⟩ (.waiting hreq (by simp [hzero]) hnil hsettled)
  | goDown =>
    simp only [Consumer.step] at hs
    split at hs <;> rename_i hup <;> cases hs
    refine .of_awake hi.counts ⟨by simp, by simp⟩ ?_
    cases hi.stage with
    | down h => rw [hup] at h; cases h
    | waiting h1 h2 h3 h4 => exact .waiting h1 h2 h3 h4
    | processing h1 h2 h3 h4 h5 => exact .processing h1 h2 h3 h4 h5
    | settling h1 h2 h3 h4 h5 h6 h7 => exact .settling h1 h2 h3 h4 h5 h6 h7
  | halt =>
    simp only [Consumer.step] at hs
    split at hs <;> cases hs
    exact ⟨hi.counts, fun _ => ⟨rfl, rfl⟩, fun h => (by cases h), .down rfl hi.stage.length_le⟩
  | dequeue now => exact hi.step_dequeue hs
  | event index e now => exact hi.step_event ho hs
  | exec => exact hi.step_exec hs

/-- Requests only wait while a delivery is being settled, and move its message. -/
theorem Inv.own (hi : Inv key s) {request : Request} (hr : request ∈ s.requests) :
    ∃ entry, s.entries[request.index]? = some entry ∧ MovesOut lt s.db key entry.delivery.message request.cmd := by
  cases hi.stage with
  | down h => rw [(hi.idle h).1] at hr; cases hr
  | waiting h | processing h => rw [h] at hr; cases hr
  | @settling index run m cmd destination hreq _ hget hl hmove hne _ =>
    rw [hreq] at hr
    rcases List.mem_singleton.mp hr with rfl
    obtain ⟨entry, hentry, hrecord⟩ : ∃ entry, s.entries[index]? = some entry ∧ entry.record = ⟨m, run, 1, 0⟩ := by
      simpa [State.records] using hget
    have hm : entry.delivery.message = m := congrArg Record.message hrecord
    obtain ⟨hsource, hdestination⟩ := @move_singleton lt s.db _ _ _ m hmove hne hl
    refine ⟨entry, hentry, ?_⟩
    rw [hm]
    exact ⟨by simp [hl], by simp [hsource, hl], destination, hne, hdestination⟩

end RedisSmq.Consumer
