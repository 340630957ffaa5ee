import RedisSmq.Tickers.Safety
import RedisSmq.Workers.OnTick

/-!
# The ticks of the workers of a consumer

A worker with its ticker, and the ticks that are under way. The timer fires, requests are replied in any order, and the
garbage collector can be told to quit.

- `Ticking`: either one timer is pending and no tick is under way, or one tick is, and waits for a reply;
- `ticking_step`: steps keep this, when every branch of `onTick` sets the timer or throws (`settles_onTick`);
- `noStall_iff`: so no worker stalls but the one whose constructor does not set the timer.
-/

namespace RedisSmq.OnTick

open Callbacks Transition

/-- `startsTicker`: the constructor calls `this.ticker.nextTick()`. -/
structure Worker where
  onTick : ℕ → Flow redis Unit
  startsTicker : Bool
  hasQuit : Bool

/-- The workers, with what they are constructed with. -/
inductive WorkerKind
  | gc (w : RedisSmq.GCWorker)
  | requeue (withPriority : Bool)
  | delay
  | schedule (withPriority : Bool)
  | heartbeatMonitor

def worker (cron : CronParser) : WorkerKind → Worker
  | .gc w => ⟨fun _ => GCWorker.onTick w, true, true⟩
  | .requeue withPriority => ⟨fun _ => RequeueWorker.onTick withPriority, true, false⟩
  | .delay => ⟨fun _ => DelayWorker.onTick cron, true, false⟩
  | .schedule withPriority => ⟨ScheduleWorker.onTick cron withPriority, true, false⟩
  | .heartbeatMonitor => ⟨fun _ => HeartbeatMonitorWorker.onTick, false, false⟩

/-- `ticks`: what is under way of the ticks so far. -/
structure State where
  ticker : Tickers.State Empty
  ticks : List (Flow redis Unit)
  quit : Bool
  thrown : Option String

namespace Worker

variable (w : Worker)

/-- After the constructor. -/
def init : State where
  ticker := if w.startsTicker then (Tickers.State.new Empty).nextTick.1 else Tickers.State.new Empty
  ticks := []
  quit := false
  thrown := none

end Worker

namespace State

/-- What a method of the ticker leaves, and throws. -/
def setTicker (s : State) (r : Tickers.Result Empty) : State := { s with ticker := r.1, thrown := r.2 }

/-- Go on with a tick. -/
def resume (s : State) (f : Flow redis Unit) : State :=
  match f.advance with
  | .returned => s
  | .thrown e => { s with thrown := some e }
  | .called () => s.setTicker s.ticker.nextTick
  | .waiting f => { s with ticks := s.ticks ++ [f] }

end State

/-- The timer fires; the tick `i` has a reply to its request, or to that of its task `j`; `quit` is called. -/
inductive Action
  | fires (id now : ℕ)
  | reply (i j now : ℕ) (replies : Replies redis)
  | quit

/-- What throws is caught by nobody, and ends the process. -/
def step (w : Worker) (s : State) (a : Action) : Option State :=
  if s.thrown.isSome then none
  else match a with
  | .fires id now => do
    let ticker ← Tickers.step s.ticker (.fires id)
    let s := { s with ticker := ticker }
    return if ticker.powerManager.isRunning then s.resume (w.onTick now) else s
  | .reply i j now replies => do
    let f ← s.ticks[i]?.bind (·.reply j now replies)
    return { s with ticks := s.ticks.eraseIdx i }.resume f
  | .quit => if w.hasQuit then some { s.setTicker s.ticker.quit with quit := true } else none

def system (w : Worker) : Machine State Action where
  init := w.init
  step := step w

/-- The next tick is on its way: a timer is pending, or a tick waits for a reply. -/
def OnItsWay (s : State) : Prop :=
  (s.ticker.loop.live.length = 1 ∧ s.ticks = []) ∨ (s.ticker.loop.live = [] ∧ ∃ f, s.ticks = [f] ∧ f.requests ≠ [])

/-- In every run, as long as the worker has neither quit nor thrown. -/
def NoStall (w : Worker) : Prop :=
  ∀ s, Reach (system w) (fun _ _ => True) s → s.quit = false → s.thrown = none → OnItsWay s

/-- The ticks of all workers settle. -/
theorem settles_onTick (cron : CronParser) (kind : WorkerKind) (now : ℕ) : ((worker cron kind).onTick now).Settles := by
  cases kind with
  | gc w => exact settles_gc w
  | requeue withPriority => exact settles_drain settles_nextTick
  | delay => exact settles_drain settles_nextTick
  | schedule withPriority => exact settles_schedule cron withPriority now
  | heartbeatMonitor => exact settles_heartbeatMonitor

/-! ## Runs -/

variable {w : Worker} {s s' : State} {f : Flow redis Unit} {a : Action}

/-- The worker is ticking: its timer is pending, or its tick waits for a reply. -/
inductive Ticking (s : State) : Prop
  | timer (id : ℕ) (power : s.ticker.powerManager = ⟨.up, none⟩) (interval : s.ticker.interval = none)
    (live : s.ticker.loop.live = [(id, .timeout)]) (ticks : s.ticks = [])
  | tick (f : Flow redis Unit) (power : s.ticker.powerManager = ⟨.up, none⟩) (interval : s.ticker.interval = none)
    (timeout : s.ticker.timeout = none) (live : s.ticker.loop.live = []) (ticks : s.ticks = [f]) (settles : f.Settles)
    (waits : f.requests ≠ [])

/-- A tick is about to go on, and nothing else is under way. -/
structure Between (s : State) : Prop where
  power : s.ticker.powerManager = ⟨.up, none⟩
  interval : s.ticker.interval = none
  timeout : s.ticker.timeout = none
  live : s.ticker.loop.live = []
  ticks : s.ticks = []

theorem Ticking.onItsWay (h : Ticking s) : OnItsWay s := by
  cases h with
  | timer id _ _ hlive hticks => exact .inl ⟨by rw [hlive]; rfl, hticks⟩
  | tick f _ _ _ hlive hticks _ hwaits => exact .inr ⟨hlive, f, hticks, hwaits⟩

/-- `nextTick` sets the timer. -/
theorem Between.nextTick (h : Between s) : Ticking (s.setTicker s.ticker.nextTick) := by
  have hset : s.ticker.nextTick = _ :=
    Tickers.startTimer_set h.timeout h.interval (.inr h.power)
  rw [hset]
  exact .timer s.ticker.loop.next rfl h.interval (by simp [State.setTicker, h.live]) h.ticks

/-- A tick that goes on throws, sets the timer, or waits. -/
theorem Between.resume (h : Between s) (hf : f.Settles) : (s.resume f).thrown.isSome ∨ Ticking (s.resume f) := by
  unfold State.resume
  rcases hf.advance with ⟨e, heq⟩ | ⟨_, heq⟩ | ⟨g, heq, hg, hwaits⟩
  · rw [heq]
    exact .inl rfl
  · rw [heq]
    exact .inr h.nextTick
  · rw [heq]
    exact .inr (.tick g h.power h.interval h.timeout h.live (by simp [h.ticks]) hg hwaits)

/-- The only timer fires, and no timer is left. -/
theorem fires_timeout {t t' : Tickers.State Empty} {id id₀ : ℕ} (hpower : t.powerManager = ⟨.up, none⟩)
    (hlive : t.loop.live = [(id₀, .timeout)]) (ht : Tickers.step t (.fires id) = some t') :
    t'.powerManager = ⟨.up, none⟩ ∧ t'.interval = t.interval ∧ t'.timeout = none ∧ t'.loop.live = [] := by
  obtain ⟨⟨loop, kind⟩, hfire, rfl⟩ := Option.map_eq_some_iff.mp ht
  obtain ⟨hmem, hcases⟩ := Timers.EventLoop.fire_cases hfire
  rw [hlive] at hmem
  cases List.mem_singleton.mp hmem
  obtain ⟨-, rfl⟩ := hcases.resolve_right (fun h => by cases h.1)
  have htick : ({ t with loop := t.loop.clear id, timeout := none } : Tickers.State Empty).onTick = _ :=
    Tickers.onTick_running hpower
  dsimp only [Tickers.State.onTimer]
  rw [htick]
  exact ⟨hpower, rfl, rfl, by simp [Tickers.State.emit, hlive]⟩

/-- The timer that fires starts a tick. -/
theorem between_fires {id now : ℕ} (h : Ticking s) (hs : step w s (.fires id now) = some s') :
    ∃ t, Between t ∧ s' = t.resume (w.onTick now) := by
  unfold step at hs
  split at hs
  · cases hs
  · obtain ⟨ticker, hticker, hs⟩ := Option.bind_eq_some_iff.mp hs
    cases h with
    | timer id₀ hpower hinterval hlive hticks =>
      obtain ⟨hpower', hinterval', htimeout', hlive'⟩ := fires_timeout hpower hlive hticker
      have hrunning : ticker.powerManager.isRunning = true := by
        rw [hpower']
        rfl
      dsimp only at hs
      rw [if_pos hrunning] at hs
      refine ⟨{ s with ticker := ticker }, ?_, (Option.some.inj hs).symm⟩
      exact ⟨hpower', hinterval'.trans hinterval, htimeout', hlive', hticks⟩
    | tick f _ _ _ hlive _ _ _ =>
      obtain ⟨⟨loop, kind⟩, hfire, -⟩ := Option.map_eq_some_iff.mp hticker
      have hmem := (Timers.EventLoop.fire_cases hfire).1
      rw [hlive] at hmem
      cases hmem

/-- A tick that has a reply goes on. -/
theorem between_reply {i j now : ℕ} {replies : Replies redis} (h : Ticking s)
    (hs : step w s (.reply i j now replies) = some s') : ∃ t f, Between t ∧ f.Settles ∧ s' = t.resume f := by
  unfold step at hs
  split at hs
  · cases hs
  · obtain ⟨g, hg, hs⟩ := Option.bind_eq_some_iff.mp hs
    obtain ⟨f, hf, hreply⟩ := Option.bind_eq_some_iff.mp hg
    cases h with
    | timer id _ _ _ hticks =>
      rw [hticks] at hf
      cases hf
    | tick f₀ hpower hinterval htimeout hlive hticks hsettles _ =>
      rw [hticks] at hf
      obtain ⟨rfl, rfl⟩ : i = 0 ∧ f₀ = f := by
        cases i with
        | zero => exact ⟨rfl, Option.some.inj hf⟩
        | succ i => cases hf
      refine ⟨_, g, ?_, hsettles.reply hreply, (Option.some.inj hs).symm⟩
      exact ⟨hpower, hinterval, htimeout, hlive, by rw [hticks]; rfl⟩

theorem quit_resume (s : State) (f : Flow redis Unit) : (s.resume f).quit = s.quit := by
  unfold State.resume
  split <;> rfl

/-- A worker that quit stays so. -/
theorem quit_step (h : s.quit = true) (hs : step w s a = some s') : s'.quit = true := by
  unfold step at hs
  split at hs
  · cases hs
  · cases a with
    | fires id now =>
      obtain ⟨ticker, -, hs⟩ := Option.bind_eq_some_iff.mp hs
      dsimp only at hs
      split at hs <;> cases hs
      · rw [quit_resume]
        exact h
      · exact h
    | reply i j now replies =>
      obtain ⟨g, -, hs⟩ := Option.bind_eq_some_iff.mp hs
      cases hs
      rw [quit_resume]
      exact h
    | quit =>
      dsimp only at hs
      split at hs <;> cases hs
      rfl

/-- Each step leads to a worker that is ticking, unless it throws or quits. -/
theorem ticking_step (hw : ∀ now, (w.onTick now).Settles) (h : s.quit = true ∨ s.thrown.isSome ∨ Ticking s)
    (hs : step w s a = some s') : s'.quit = true ∨ s'.thrown.isSome ∨ Ticking s' := by
  rcases h with hquit | hthrown | h
  · exact .inl (quit_step hquit hs)
  · unfold step at hs
    rw [if_pos hthrown] at hs
    cases hs
  · cases a with
    | fires id now =>
      obtain ⟨t, ht, rfl⟩ := between_fires h hs
      exact .inr (ht.resume (hw now))
    | reply i j now replies =>
      obtain ⟨t, f, ht, hf, rfl⟩ := between_reply h hs
      exact .inr (ht.resume hf)
    | quit =>
      unfold step at hs
      split at hs
      · cases hs
      · dsimp only at hs
        split at hs <;> cases hs
        exact .inl rfl

/-- The constructor sets the timer. -/
theorem ticking_init (hstart : w.startsTicker = true) : Ticking w.init := by
  have hset : (Tickers.State.new Empty).nextTick.1 = _ :=
    congrArg Prod.fst (Tickers.startTimer_set (F := Empty) rfl rfl (.inl rfl))
  have hinit : w.init = ⟨(Tickers.State.new Empty).nextTick.1, [], false, none⟩ := by
    rw [Worker.init, if_pos hstart]
  rw [hinit, hset]
  exact .timer 0 rfl rfl rfl rfl

theorem ticking_reachable (hw : ∀ now, (w.onTick now).Settles) (hstart : w.startsTicker = true)
    (h : Reach (system w) (fun _ _ => True) s) : s.quit = true ∨ s.thrown.isSome ∨ Ticking s :=
  h.invariant (I := fun s => s.quit = true ∨ s.thrown.isSome ∨ Ticking s) (.inr (.inr (ticking_init hstart)))
    fun _ _ _ hi _ hs => ticking_step hw hi hs

/-- The worker that monitors the heartbeats has no timer from the start. -/
theorem not_onItsWay_init (cron : CronParser) : ¬OnItsWay (worker cron .heartbeatMonitor).init := by
  rintro (⟨hlive, -⟩ | ⟨-, f, hticks, -⟩)
  · cases hlive
  · cases hticks

/-- **No worker stalls**, and no two ticks overlap, except for the worker that monitors the heartbeats: its timer is not
set when it is constructed. -/
theorem noStall_iff (cron : CronParser) (kind : WorkerKind) :
    NoStall (worker cron kind) ↔ kind ≠ .heartbeatMonitor := by
  constructor
  · rintro h rfl
    exact not_onItsWay_init cron (h _ .init rfl rfl)
  · intro hkind s hs hquit hthrown
    have hstart : (worker cron kind).startsTicker = true := by
      cases kind with
      | heartbeatMonitor => exact absurd rfl hkind
      | _ => rfl
    rcases ticking_reachable (settles_onTick cron kind) hstart hs with h | h | h
    · rw [hquit] at h
      cases h
    · rw [hthrown] at h
      cases h
    · exact h.onItsWay

/-- It stalls at once. -/
theorem not_noStall_heartbeatMonitor : ¬NoStall (worker minuteParser .heartbeatMonitor) :=
  fun h => not_onItsWay_init minuteParser (h _ .init rfl rfl)

end RedisSmq.OnTick
