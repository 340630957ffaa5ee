import RedisSmq.Common.Ticker
import RedisSmq.Gc.Worker
import RedisSmq.Lib.Connection
import RedisSmq.Lib.Machine

/-!
# The heartbeat of a consumer

A heartbeat has a ticker and a connection of its own. The ticker fires at least a second after it was set, and is set
again when the server has replied. `quit` stops the ticker, removes the field of the consumer from the hash of
heartbeats, and closes the connection. Requests may fail at any time; other processes change the database, also the
field of the consumer, but only by removing it.

- `oneBeat_reachable`: a heartbeat that was not asked to quit has one timer or one request, unless a request has failed,
  and stores timestamps that are at least a second apart;
- `quitGone_reachable`: once `quit` has succeeded, the field is gone, and nothing is left that could bring it back.
-/

namespace RedisSmq.Heartbeats

open Transition

/-- A request, with the clock value that a beat stores. -/
inductive Request
  | beat (timestamp : ℕ)
  | expire
deriving DecidableEq

def Request.cmd (keyHeartbeat : RedisKey) : Request → Cmd
  | .beat timestamp => Heartbeat.onTick keyHeartbeat timestamp
  | .expire => Heartbeat.expireHeartbeat keyHeartbeat

/-- What can be observed: a beat is sent, an error is emitted by the consumer, `quit` calls its callback or throws. -/
inductive Event
  | beat (timestamp : ℕ)
  | error (e : String)
  | callback (err : Option String)
  | thrown (e : String)
deriving DecidableEq

/-- The task of the waterfall of `quit` that waits. -/
inductive Quit
  | none | expireHeartbeat | halt | done
deriving DecidableEq

/-- `since`: when the timer was set. -/
structure State where
  clock : ℕ
  ticker : Ticker Empty
  since : ℕ
  connection : Connection Request
  quit : Quit
  db : Db
  events : List Event

namespace State

def emit (s : State) (e : Event) : State := { s with events := s.events ++ [e] }

/-- `this.ticker.nextTick()`. -/
def nextTick (s : State) : State :=
  match s.ticker.nextTick with
  | .ok t => { s with ticker := t, since := s.clock }
  | .error e => s.emit (.thrown e)

/-- The constructor. -/
def new (clock : ℕ) (db : Db) : State :=
  State.nextTick ⟨clock, .new, clock, .empty, .none, db, []⟩

/-- `onTick`. -/
def onTick (s : State) : State :=
  { s with connection := s.connection.send (.beat s.clock) }.emit (.beat s.clock)

/-- The timer of the ticker fires. -/
def fires (s : State) : Option State :=
  if s.ticker.timeout = .live ∧ s.since + 1000 ≤ s.clock then
    let r := s.ticker.timeoutFires
    let s := { s with ticker := r.1 }
    some (if r.2.isSome then s.onTick else s)
  else none

/-- `quit`: the listener of `DOWN` is called by `ticker.quit`. -/
def quitTicker (s : State) : State :=
  match s.ticker.quit with
  | .ok t => { s with ticker := t, connection := s.connection.send .expire, quit := .expireHeartbeat }
  | .error e => s.emit (.thrown e)

/-- The callback of a request. -/
def reply (s : State) (err : Option String) : Request → State
  | .beat _ =>
    match err with
    | some e => s.emit (.error e)
    | none => s.nextTick
  | .expire =>
    match err with
    | some e => { s with quit := .done }.emit (.callback (some e))
    | none => { s with quit := .halt }

/-- The connection was closed, and the requests that were left have failed. -/
def halted (s : State) : State :=
  let e := "Connection forcefully ended and command aborted."
  let s := s.connection.pending.foldl (fun s r => s.reply (some e) r) { s with connection := .empty }
  { s with quit := .done }.emit (.callback none)

end State

inductive Action
  | pass (ms : ℕ)
  | fires
  | execute
  | answer
  | fail (e : String)
  | quit
  | halted
  | other (db : Db)

section

variable (lt : Text → Text → Bool) (keyHeartbeat : RedisKey)

def step (s : State) : Action → Option State
  | .pass ms => some { s with clock := s.clock + ms }
  | .fires => s.fires
  | .execute =>
    s.connection.execute.map fun r => { s with connection := r.1, db := s.db.exec lt (r.2.cmd keyHeartbeat) }
  | .answer => s.connection.answer.map fun r => { s with connection := r.1 }.reply none r.2
  | .fail e => s.connection.fail.map fun r => { s with connection := r.1 }.reply (some e) r.2
  | .quit => some s.quitTicker
  | .halted => if s.quit = .halt then some s.halted else none
  | .other db => some { s with db := db }

def system (clock : ℕ) (db : Db) : Machine State Action where
  init := .new clock db
  step := step lt keyHeartbeat

end

/-- What other processes do: they leave the field of the consumer, or remove it. -/
def OthersExpire (keyHeartbeat : RedisKey) (s : State) : Action → Prop
  | .other db =>
    db.heartbeats RedisKeys.getGlobalKeys.keyIndexHeartbeats keyHeartbeat = none ∨
      db.heartbeats RedisKeys.getGlobalKeys.keyIndexHeartbeats keyHeartbeat =
        s.db.heartbeats RedisKeys.getGlobalKeys.keyIndexHeartbeats keyHeartbeat
  | _ => True

/-- The hash has no heartbeat of the consumer. -/
def Gone (keyHeartbeat : RedisKey) (db : Db) : Prop :=
  db.heartbeats RedisKeys.getGlobalKeys.keyIndexHeartbeats keyHeartbeat = none

/-- The stages of a heartbeat: it waits for its timer, it waits for the reply to a beat, a beat has failed; it quits,
perhaps with a beat on its way; its connection is closed; it has quit. -/
inductive Stage (keyHeartbeat : RedisKey) (s : State) : Prop
  | waits (power : s.ticker.powerManager = ⟨.up, none⟩) (quit : s.quit = .none) (timeout : s.ticker.timeout = .live)
    (pending : s.connection.pending = [])
  | beats (timestamp : ℕ) (power : s.ticker.powerManager = ⟨.up, none⟩) (quit : s.quit = .none)
    (timeout : s.ticker.timeout = .null) (pending : s.connection.pending = [.beat timestamp])
  | failed (power : s.ticker.powerManager = ⟨.up, none⟩) (quit : s.quit = .none) (timeout : s.ticker.timeout = .null)
    (pending : s.connection.pending = []) (error : ∃ e, .error e ∈ s.events)
  | drains (timestamp : ℕ) (power : s.ticker.powerManager = ⟨.down, none⟩) (quit : s.quit = .expireHeartbeat)
    (timeout : s.ticker.timeout = .null) (pending : s.connection.pending = [.beat timestamp, .expire])
    (gone : .expire ∈ s.connection.executed → Gone keyHeartbeat s.db)
  | expires (power : s.ticker.powerManager = ⟨.down, none⟩) (quit : s.quit = .expireHeartbeat)
    (timeout : s.ticker.timeout ≠ .live) (pending : s.connection.pending = [.expire])
    (gone : .expire ∈ s.connection.executed → Gone keyHeartbeat s.db)
  | halts (power : s.ticker.powerManager = ⟨.down, none⟩) (quit : s.quit = .halt) (timeout : s.ticker.timeout ≠ .live)
    (pending : s.connection.pending = []) (gone : Gone keyHeartbeat s.db)
  | done (power : s.ticker.powerManager = ⟨.down, none⟩) (quit : s.quit = .done) (timeout : s.ticker.timeout ≠ .live)
    (pending : s.connection.pending = []) (gone : .callback none ∈ s.events → Gone keyHeartbeat s.db)

def Event.timestamp : Event → Option ℕ
  | .beat timestamp => some timestamp
  | .error _ | .callback _ | .thrown _ => none

/-- The timestamps of the beats, from the first one on. -/
def timestamps (s : State) : List ℕ := s.events.filterMap Event.timestamp

def Event.isCallback : Event → Bool
  | .callback _ => true
  | .beat _ | .error _ | .thrown _ => false

/-- The times of the beats and of the timer, and what was observed. -/
structure Record (s : State) : Prop where
  interval : s.ticker.interval = .null
  since : s.since ≤ s.clock
  past : ∀ t ∈ timestamps s, t ≤ s.clock ∧ (s.ticker.timeout = .live → t ≤ s.since)
  spaced : (timestamps s).Pairwise fun t t' => t + 1000 ≤ t'
  thrown : ∀ e, .thrown e ∈ s.events → e = "Can not switch to the same current state."
  callbacks : s.events.countP Event.isCallback = if s.quit = .done then 1 else 0

structure Inv (keyHeartbeat : RedisKey) (s : State) : Prop where
  stage : Stage keyHeartbeat s
  record : Record s

section

variable {lt : Text → Text → Bool} {keyHeartbeat : RedisKey} {s s' : State} {a : Action} {t : Ticker Empty}
variable {c : Connection Request} {r : Request} {db : Db} {e : String} {err : Option String}

/-! ## The ticker -/

theorem nextTick_up (hp : t.powerManager = ⟨.up, none⟩) (ht : t.timeout = .null) (hi : t.interval = .null) :
    t.nextTick = .ok { t with timeout := .live } := by
  obtain ⟨p, fn, timeout, interval⟩ := t
  cases hp
  cases ht
  cases hi
  rfl

theorem nextTick_down (hp : t.powerManager = ⟨.down, none⟩) (ht : t.timeout = .null) (hi : t.interval = .null) :
    t.nextTick = .ok t := by
  obtain ⟨p, fn, timeout, interval⟩ := t
  cases hp
  cases ht
  cases hi
  rfl

theorem timeoutFires_up (hp : t.powerManager = ⟨.up, none⟩) :
    t.timeoutFires.1 = { t with timeout := .null, onNextTickFn := none } ∧ t.timeoutFires.2.isSome := by
  obtain ⟨p, fn, timeout, interval⟩ := t
  cases hp
  exact ⟨rfl, rfl⟩

theorem quit_up (hp : t.powerManager = ⟨.up, none⟩) : t.quit =
    .ok { t with powerManager := ⟨.down, none⟩, timeout := t.timeout.clear, interval := t.interval.clear } := by
  obtain ⟨p, fn, timeout, interval⟩ := t
  cases hp
  rfl

theorem quit_down (hp : t.powerManager = ⟨.down, none⟩) :
    t.quit = .error "Can not switch to the same current state." := by
  obtain ⟨p, fn, timeout, interval⟩ := t
  cases hp
  rfl

theorem clear_ne_live (t : Timer) : t.clear ≠ .live := by
  cases t <;> simp [Timer.clear]

/-! ## The record -/

theorem timestamps_emit (s : State) (e : Event) : timestamps (s.emit e) = timestamps s ++ e.timestamp.toList := by
  rw [timestamps, State.emit, List.filterMap_append]
  cases h : e.timestamp <;> simp [h, timestamps]

/-- An event that is neither a beat nor a callback. -/
theorem Record.emit (h : Record s) {e : Event} (htimestamp : e.timestamp = none) (hcallback : e.isCallback = false)
    (hthrown : ∀ e', e = .thrown e' → e' = "Can not switch to the same current state.") : Record (s.emit e) := by
  have htimestamps : timestamps (s.emit e) = timestamps s := by simp [timestamps_emit, htimestamp]
  refine ⟨h.interval, h.since, ?_, ?_, fun e' he' => ?_, ?_⟩
  · rw [htimestamps]
    exact h.past
  · rw [htimestamps]
    exact h.spaced
  · rcases List.mem_append.mp he' with he' | he'
    · exact h.thrown e' he'
    · exact hthrown e' (List.mem_singleton.mp he').symm
  · rw [State.emit, List.countP_append, h.callbacks]
    simp [hcallback]

/-- The callback of `quit`. -/
theorem Record.callback (h : Record s) (hquit : s.quit ≠ .done) (err : Option String) :
    Record ({ s with quit := .done }.emit (.callback err)) := by
  have htimestamps : timestamps ({ s with quit := .done }.emit (.callback err)) = timestamps s := by
    rw [timestamps_emit]
    exact List.append_nil _
  refine ⟨h.interval, h.since, ?_, ?_, fun e he => ?_, ?_⟩
  · rw [htimestamps]
    exact h.past
  · rw [htimestamps]
    exact h.spaced
  · rcases List.mem_append.mp he with he | he
    · exact h.thrown e he
    · cases List.mem_singleton.mp he
  · show (s.events ++ [Event.callback err]).countP Event.isCallback = 1
    rw [List.countP_append, h.callbacks, if_neg hquit]
    rfl

/-- No callback was called before `quit` is done. -/
theorem Record.no_callback (h : Record s) (hquit : s.quit ≠ .done) (err : Option String) :
    Event.callback err ∉ s.events := by
  intro hmem
  have hcount := h.callbacks
  rw [if_neg hquit, List.countP_eq_zero] at hcount
  exact hcount _ hmem rfl

/-- The timer is set. -/
theorem Record.set (h : Record s) (hi : t.interval = .null) : Record { s with ticker := t, since := s.clock } :=
  ⟨hi, Nat.le_refl _, fun t' ht' => ⟨(h.past t' ht').1, fun _ => (h.past t' ht').1⟩, h.spaced, h.thrown, h.callbacks⟩

/-- A beat is sent when the timer has fired. -/
theorem Record.beat (h : Record s) (hlive : s.ticker.timeout = .live) (hclock : s.since + 1000 ≤ s.clock)
    (hi : t.interval = .null) (ht : t.timeout = .null) :
    Record ({ s with ticker := t, connection := c }.emit (.beat s.clock)) := by
  have htimestamps : timestamps ({ s with ticker := t, connection := c }.emit (.beat s.clock)) =
      timestamps s ++ [s.clock] := timestamps_emit _ _
  refine ⟨hi, h.since, fun t' ht' => ?_, ?_, fun e he => ?_, ?_⟩
  · rw [htimestamps] at ht'
    refine ⟨?_, fun hlive' => by cases ht.symm.trans hlive'⟩
    rcases List.mem_append.mp ht' with ht' | ht'
    · exact (h.past t' ht').1
    · exact Nat.le_of_eq (List.mem_singleton.mp ht')
  · rw [htimestamps]
    refine List.pairwise_append.mpr ⟨h.spaced, List.pairwise_singleton _ _, fun t' ht' t'' ht'' => ?_⟩
    have hpast := (h.past t' ht').2 hlive
    rw [List.mem_singleton.mp ht'']
    omega
  · rcases List.mem_append.mp he with he | he
    · exact h.thrown e he
    · cases List.mem_singleton.mp he
  · show (s.events ++ [Event.beat s.clock]).countP Event.isCallback = _
    rw [List.countP_append, h.callbacks]
    rfl

/-- The connection and the database are not on record. -/
theorem Record.connection (h : Record s) : Record { s with connection := c, db := db } :=
  ⟨h.interval, h.since, h.past, h.spaced, h.thrown, h.callbacks⟩

theorem Record.quit (h : Record s) {q : Quit} (hq : q ≠ .done) (hquit : s.quit ≠ .done) :
    Record { s with quit := q } := by
  refine ⟨h.interval, h.since, h.past, h.spaced, h.thrown, ?_⟩
  rw [h.callbacks, if_neg hq, if_neg hquit]

/-- The ticker stops. -/
theorem Record.stop (h : Record s) {p : PowerManager} (hquit : s.quit ≠ .done) :
    Record { s with
      ticker := { s.ticker with
        powerManager := p
        timeout := s.ticker.timeout.clear
        interval := s.ticker.interval.clear }
      connection := c
      quit := .expireHeartbeat } := by
  refine ⟨?_, h.since, fun t ht => ⟨(h.past t ht).1, fun hlive => absurd hlive (clear_ne_live _)⟩, h.spaced, h.thrown,
    ?_⟩
  · show s.ticker.interval.clear = .null
    rw [h.interval]
    rfl
  · rw [h.callbacks, if_neg hquit]
    rfl

/-! ## Steps -/

/-- The timer fires, and a beat is sent. -/
theorem inv_fires (h : Inv keyHeartbeat s) (hs : s.fires = some s') : Inv keyHeartbeat s' := by
  obtain ⟨hstage, hrecord⟩ := h
  unfold State.fires at hs
  split at hs
  · rename_i hlive
    cases hs
    cases hstage with
    | waits power quit timeout pending =>
      obtain ⟨hticker, hsome⟩ := timeoutFires_up power
      rw [if_pos hsome, hticker]
      refine ⟨.beats s.clock power quit rfl ?_, hrecord.beat hlive.1 hlive.2 hrecord.interval rfl⟩
      show (s.connection.send (.beat s.clock)).pending = _
      rw [Connection.pending_send, pending]
      rfl
    | beats _ _ _ timeout | failed _ _ timeout | drains _ _ _ timeout =>
      rw [timeout] at hlive
      cases hlive.1
    | expires _ _ timeout | halts _ _ timeout | done _ _ timeout => exact absurd hlive.1 timeout
  · cases hs

/-- `quit` is called: the ticker stops, and the field is to be removed; another call throws. -/
theorem inv_quitTicker (h : Inv keyHeartbeat s) : Inv keyHeartbeat s.quitTicker := by
  obtain ⟨hstage, hrecord⟩ := h
  have hup : s.ticker.powerManager = ⟨.up, none⟩ → s.quitTicker = { s with
      ticker := { s.ticker with
        powerManager := ⟨.down, none⟩
        timeout := s.ticker.timeout.clear
        interval := s.ticker.interval.clear }
      connection := s.connection.send .expire
      quit := .expireHeartbeat } := fun hp => by rw [State.quitTicker, quit_up hp]
  have hdown : s.ticker.powerManager = ⟨.down, none⟩ →
      s.quitTicker = s.emit (.thrown "Can not switch to the same current state.") := fun hp => by
    rw [State.quitTicker, quit_down hp]
  have hthrown : Record (s.emit (.thrown "Can not switch to the same current state.")) :=
    hrecord.emit rfl rfl fun e he => by cases he; rfl
  have hsent : ∀ {l : List Request}, s.connection.pending = l → (s.connection.send .expire).pending = l ++ [.expire] :=
    fun hl => by rw [Connection.pending_send, hl]
  have hnew : .expire ∉ s.connection.pending → ∀ {p : Prop}, .expire ∈ (s.connection.send .expire).executed → p :=
    fun hnot _ hmem => absurd (Connection.mem_pending_of_executed (c := s.connection) hmem) hnot
  cases hstage with
  | waits power quit timeout pending | failed power quit timeout pending =>
    rw [hup power]
    exact ⟨.expires rfl rfl (clear_ne_live _) (hsent pending) (hnew (by simp [pending])),
      hrecord.stop (by simp [quit])⟩
  | beats timestamp power quit timeout pending =>
    rw [hup power]
    refine ⟨.drains timestamp rfl rfl ?_ (hsent pending) (hnew (by simp [pending])), hrecord.stop (by simp [quit])⟩
    show s.ticker.timeout.clear = .null
    rw [timeout]
    rfl
  | drains timestamp power quit timeout pending gone =>
    rw [hdown power]
    exact ⟨.drains timestamp power quit timeout pending gone, hthrown⟩
  | expires power quit timeout pending gone =>
    rw [hdown power]
    exact ⟨.expires power quit timeout pending gone, hthrown⟩
  | halts power quit timeout pending gone =>
    rw [hdown power]
    exact ⟨.halts power quit timeout pending gone, hthrown⟩
  | done power quit timeout pending gone =>
    rw [hdown power]
    refine ⟨.done power quit timeout pending fun hmem => gone ?_, hthrown⟩
    rcases List.mem_append.mp hmem with hmem | hmem
    · exact hmem
    · cases List.mem_singleton.mp hmem

/-- The server executes a request; a beat is never executed after the removal of the field. -/
theorem inv_execute (h : Inv keyHeartbeat s) (hs : s.connection.execute = some (c, r)) :
    Inv keyHeartbeat { s with connection := c, db := s.db.exec lt (r.cmd keyHeartbeat) } := by
  obtain ⟨hstage, hrecord⟩ := h
  obtain ⟨hpending, hexecuted⟩ := Connection.execute_cases hs
  have hr : r ∈ s.connection.pending := by
    rw [← hpending]
    refine Connection.mem_pending_of_executed ?_
    rw [hexecuted]
    exact List.mem_append_right _ (List.mem_singleton_self r)
  have hremoved : Gone keyHeartbeat (s.db.exec lt (Request.cmd keyHeartbeat .expire)) := by
    simp [Gone, Request.cmd, Heartbeat.expireHeartbeat, Db.exec]
  refine ⟨?_, hrecord.connection⟩
  cases hstage with
  | waits _ _ _ pending | failed _ _ _ pending | halts _ _ _ pending | done _ _ _ pending =>
    rw [pending] at hr
    cases hr
  | beats timestamp power quit timeout pending => exact .beats timestamp power quit timeout (hpending.trans pending)
  | drains timestamp power quit timeout pending gone =>
    refine .drains timestamp power quit timeout (hpending.trans pending) fun hmem => ?_
    have hexpire : r = .expire := by
      have hall : s.connection.executed ++ [r] ++ c.sent = [.beat timestamp, .expire] := by
        rw [← hexecuted]
        exact hpending.trans pending
      rw [hexecuted] at hmem
      cases hx : s.connection.executed with
      | nil => simpa [hx, eq_comm] using hmem
      | cons x xs =>
        rw [hx] at hall
        cases xs with
        | nil => exact (List.cons.inj (List.cons.inj hall).2).1
        | cons y ys => simp at hall
    rw [hexpire]
    exact hremoved
  | expires power quit timeout pending gone =>
    refine .expires power quit timeout (hpending.trans pending) fun _ => ?_
    rw [pending] at hr
    rw [List.mem_singleton.mp hr]
    exact hremoved

/-- The oldest request has its reply, or fails; it was executed if it did not fail. -/
theorem inv_reply (h : Inv keyHeartbeat s) (hpending : s.connection.pending = r :: c.pending)
    (hexecuted : ∀ r' ∈ c.executed, r' ∈ s.connection.executed) (herr : err = none → r ∈ s.connection.executed) :
    Inv keyHeartbeat ({ s with connection := c }.reply err r) := by
  obtain ⟨hstage, hrecord⟩ := h
  have hrecord' : Record { s with connection := c } := hrecord.connection
  cases hstage with
  | waits _ _ _ pending | failed _ _ _ pending | halts _ _ _ pending | done _ _ _ pending =>
    rw [pending] at hpending
    cases hpending
  | beats timestamp power quit timeout pending =>
    rw [pending] at hpending
    obtain ⟨rfl, hnil⟩ := List.cons.inj hpending
    cases err with
    | none =>
      have hnext : s.ticker.nextTick = .ok { s.ticker with timeout := .live } :=
        nextTick_up power timeout hrecord.interval
      simp only [State.reply, State.nextTick, hnext]
      exact ⟨.waits power quit rfl hnil.symm, hrecord'.set hrecord.interval⟩
    | some e =>
      exact ⟨.failed power quit timeout hnil.symm ⟨e, List.mem_append_right _ (List.mem_singleton_self _)⟩,
        hrecord'.emit rfl rfl fun _ he => by cases he⟩
  | drains timestamp power quit timeout pending gone =>
    rw [pending] at hpending
    obtain ⟨rfl, hrest⟩ := List.cons.inj hpending
    have hgone : .expire ∈ c.executed → Gone keyHeartbeat s.db := fun hmem => gone (hexecuted _ hmem)
    have hnot : s.ticker.timeout ≠ .live := by simp [timeout]
    cases err with
    | none =>
      have hnext : s.ticker.nextTick = .ok s.ticker := nextTick_down power timeout hrecord.interval
      simp only [State.reply, State.nextTick, hnext]
      exact ⟨.expires power quit hnot hrest.symm hgone, hrecord'.set hrecord.interval⟩
    | some e =>
      exact ⟨.expires power quit hnot hrest.symm hgone, hrecord'.emit rfl rfl fun _ he => by cases he⟩
  | expires power quit timeout pending gone =>
    rw [pending] at hpending
    obtain ⟨rfl, hnil⟩ := List.cons.inj hpending
    have hquit : s.quit ≠ .done := by simp [quit]
    cases err with
    | none => exact ⟨.halts power rfl timeout hnil.symm (gone (herr rfl)), hrecord'.quit (by simp) hquit⟩
    | some e =>
      refine ⟨.done power rfl timeout hnil.symm fun hmem => ?_, hrecord'.callback hquit _⟩
      rcases List.mem_append.mp hmem with hmem | hmem
      · exact absurd hmem (hrecord.no_callback hquit _)
      · cases List.mem_singleton.mp hmem

/-- The connection is closed. -/
theorem inv_halted (h : Inv keyHeartbeat s) (hhalt : s.quit = .halt) : Inv keyHeartbeat s.halted := by
  obtain ⟨hstage, hrecord⟩ := h
  cases hstage with
  | halts power quit timeout pending gone =>
    unfold State.halted
    rw [pending]
    have hrecord' : Record { s with connection := .empty } := hrecord.connection
    exact ⟨.done power rfl timeout rfl fun _ => gone, hrecord'.callback (by simp [quit]) _⟩
  | waits _ quit | beats _ _ quit | failed _ quit | drains _ _ quit | expires _ quit | done _ quit =>
    rw [quit] at hhalt
    cases hhalt

/-- Time passes, and other processes change the database. -/
theorem Stage.other (h : Stage keyHeartbeat s) {n : ℕ} (hdb : Gone keyHeartbeat s.db → Gone keyHeartbeat db) :
    Stage keyHeartbeat { s with clock := n, db := db } := by
  cases h with
  | waits power quit timeout pending => exact .waits power quit timeout pending
  | beats timestamp power quit timeout pending => exact .beats timestamp power quit timeout pending
  | failed power quit timeout pending error => exact .failed power quit timeout pending error
  | drains timestamp power quit timeout pending gone =>
    exact .drains timestamp power quit timeout pending fun hmem => hdb (gone hmem)
  | expires power quit timeout pending gone => exact .expires power quit timeout pending fun hmem => hdb (gone hmem)
  | halts power quit timeout pending gone => exact .halts power quit timeout pending (hdb gone)
  | done power quit timeout pending gone => exact .done power quit timeout pending fun hmem => hdb (gone hmem)

/-- **Every step**, when other processes only remove the field. -/
theorem inv_step (h : Inv keyHeartbeat s) (ho : OthersExpire keyHeartbeat s a)
    (hs : step lt keyHeartbeat s a = some s') : Inv keyHeartbeat s' := by
  cases a with
  | pass ms =>
    cases hs
    obtain ⟨hstage, hrecord⟩ := h
    have hle : s.clock ≤ s.clock + ms := Nat.le_add_right _ _
    exact ⟨hstage.other id, hrecord.interval, Nat.le_trans hrecord.since hle,
      fun t ht => ⟨Nat.le_trans (hrecord.past t ht).1 hle, (hrecord.past t ht).2⟩, hrecord.spaced, hrecord.thrown,
      hrecord.callbacks⟩
  | fires => exact inv_fires h hs
  | execute =>
    obtain ⟨x, hx, rfl⟩ := Option.map_eq_some_iff.mp hs
    exact inv_execute h hx
  | answer =>
    obtain ⟨x, hx, rfl⟩ := Option.map_eq_some_iff.mp hs
    obtain ⟨hpending, hexecuted⟩ := Connection.answer_cases hx
    refine inv_reply h hpending (fun r hr => ?_) fun _ => ?_
    · rw [hexecuted]
      exact List.mem_cons_of_mem _ hr
    · rw [hexecuted]
      exact List.mem_cons_self
  | fail e =>
    obtain ⟨x, hx, rfl⟩ := Option.map_eq_some_iff.mp hs
    obtain ⟨hpending, hexecuted⟩ := Connection.fail_cases hx
    exact inv_reply h hpending hexecuted fun herr => by cases herr
  | quit =>
    cases hs
    exact inv_quitTicker h
  | halted =>
    simp only [step] at hs
    split at hs <;> cases hs
    rename_i hhalt
    exact inv_halted h hhalt
  | other db =>
    cases hs
    exact ⟨h.stage.other fun hgone => ho.elim id fun heq => heq.trans hgone, h.record.connection⟩

theorem inv_new (keyHeartbeat : RedisKey) (clock : ℕ) (db : Db) : Inv keyHeartbeat (.new clock db) where
  stage := .waits rfl rfl rfl rfl
  record := ⟨rfl, Nat.le_refl _, fun _ ht => absurd ht List.not_mem_nil, .nil,
    fun _ he => absurd he List.not_mem_nil, rfl⟩

theorem inv_reachable {clock : ℕ} (h : Reach (system lt keyHeartbeat clock db) (OthersExpire keyHeartbeat) s) :
    Inv keyHeartbeat s :=
  h.invariant (inv_new keyHeartbeat clock db) fun _ _ _ hi ho hs => inv_step hi ho hs

/-- **One beat at a time**: until `quit` is called, either the timer is set, or one beat is on its way, or a beat has
failed and there is neither; and beats are at least a second apart. -/
theorem oneBeat_reachable {clock : ℕ} (h : Reach (system lt keyHeartbeat clock db) (OthersExpire keyHeartbeat) s) :
    (s.quit = .none →
      (s.ticker.timeout = .live ∧ s.connection.pending = []) ∨
      (s.ticker.timeout = .null ∧ ∃ timestamp, s.connection.pending = [.beat timestamp]) ∨
      (s.ticker.timeout = .null ∧ s.connection.pending = [] ∧ ∃ e, .error e ∈ s.events)) ∧
      (timestamps s).Pairwise fun t t' => t + 1000 ≤ t' := by
  obtain ⟨hstage, hrecord⟩ := inv_reachable h
  refine ⟨fun hquit => ?_, hrecord.spaced⟩
  cases hstage with
  | waits _ _ timeout pending => exact .inl ⟨timeout, pending⟩
  | beats timestamp _ _ timeout pending => exact .inr (.inl ⟨timeout, timestamp, pending⟩)
  | failed _ _ timeout pending error => exact .inr (.inr ⟨timeout, pending, error⟩)
  | drains _ _ quit | expires _ quit | halts _ quit | done _ quit =>
    rw [quit] at hquit
    cases hquit

/-- **No heartbeat after `quit`**: its callback is called at most once, and only another call of it throws; once it has
succeeded, the field of the consumer is gone, and neither the timer nor a request is left. -/
theorem quitGone_reachable {clock : ℕ} (h : Reach (system lt keyHeartbeat clock db) (OthersExpire keyHeartbeat) s) :
    s.events.countP Event.isCallback ≤ 1 ∧
      (∀ e, .thrown e ∈ s.events → e = "Can not switch to the same current state.") ∧
      (.callback none ∈ s.events →
        Gone keyHeartbeat s.db ∧ s.connection.pending = [] ∧ s.ticker.timeout ≠ .live) := by
  obtain ⟨hstage, hrecord⟩ := inv_reachable h
  refine ⟨?_, hrecord.thrown, fun hmem => ?_⟩
  · rw [hrecord.callbacks]
    split <;> omega
  · have hdone : s.quit = .done := by
      by_contra hne
      exact hrecord.no_callback hne _ hmem
    cases hstage with
    | done _ _ timeout pending gone => exact ⟨gone hmem, pending, timeout⟩
    | waits _ quit | beats _ _ quit | failed _ quit | drains _ _ quit | expires _ quit | halts _ quit =>
      rw [quit] at hdone
      cases hdone

end

instance (keyHeartbeat : RedisKey) (s : State) : ∀ a, Decidable (OthersExpire keyHeartbeat s a)
  | .other _ => inferInstanceAs (Decidable (_ ∨ _))
  | .pass _ | .fires | .execute | .answer | .fail _ | .quit | .halted => isTrue trivial

/-- The heartbeat key of a consumer. -/
def exampleKey : RedisKey := (RedisKeys.getInstanceKeys "ns" "q" "c").keyHeartbeat

/-- `quit` is called twice while a beat is on its way. -/
def quitRun : Option State :=
  run (system (fun _ _ => false) exampleKey 0 .empty) (OthersExpire exampleKey) (.new 0 .empty)
    [.pass 1000, .fires, .execute, .answer, .pass 1200, .fires, .quit, .quit, .execute, .execute, .answer, .answer,
      .halted, .pass 5000]

theorem quitRun_eq : ∃ s, quitRun = some s ∧ s.events = [.beat 1000, .beat 2200,
    .thrown "Can not switch to the same current state.", .callback none] :=
  ⟨_, rfl, rfl⟩

theorem oneBeat_quitRun : ∃ s, quitRun = some s ∧ timestamps s = [1000, 2200] ∧
    (timestamps s).Pairwise fun t t' => t + 1000 ≤ t' := by
  obtain ⟨s, hs, hevents⟩ := quitRun_eq
  exact ⟨s, hs, by rw [timestamps, hevents]; rfl, (oneBeat_reachable (reach_of_run _ hs)).2⟩

theorem quitGone_quitRun : ∃ s, quitRun = some s ∧ .callback none ∈ s.events ∧ Gone exampleKey s.db := by
  obtain ⟨s, hs, hevents⟩ := quitRun_eq
  have hmem : .callback none ∈ s.events := by simp [hevents]
  exact ⟨s, hs, hmem, ((quitGone_reachable (reach_of_run _ hs)).2.2 hmem).1⟩

end RedisSmq.Heartbeats
