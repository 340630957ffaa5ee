import RedisSmq.Tickers.System

/-!
# What a ticker never does

A ticker is going up until a timer is set, runs until it is told to quit, and is down from then on. While it runs, the
live timers are the ones it has identifiers of, one at most; before and after there is none (`Phase`).

In all runs there is at most one live timer, `DOWN` is emitted once at most, nothing is called and no timer is live after
it, and a function that was given is called once at most (`safe_reachable`).
-/

namespace RedisSmq.Tickers

open Timers Transition

variable {F : Type} {s s' : State F} {e : Event F} {fn : F} {kind : Kind}

/-! ## Phases -/

/-- The live timers are the ones that the ticker has identifiers of, and there is one at most. -/
structure Timed (s : State F) : Prop where
  live : s.loop.live = s.timeout.toList.map (·, .timeout) ++ s.interval.toList.map (·, .interval)
  one : s.timeout = none ∨ s.interval = none

/-- Nothing in the log is `DOWN`. -/
def NotDown (log : List (Event F)) : Prop := ∀ e ∈ log, e.isDown = false

inductive Phase (s : State F) : Prop
  | goingUp (power : s.powerManager = ⟨.down, some .up⟩) (timeout : s.timeout = none) (interval : s.interval = none)
    (live : s.loop.live = []) (log : NotDown s.log)
  | running (power : s.powerManager = ⟨.up, none⟩) (timed : Timed s) (log : NotDown s.log)
  | down (power : s.powerManager = ⟨.down, none⟩) (live : s.loop.live = []) (log : s.log.countP Event.isDown = 1)

theorem NotDown.append {log : List (Event F)} (h : NotDown log) (he : e.isDown = false) : NotDown (log ++ [e]) := by
  intro e' h'
  rcases List.mem_append.mp h' with h' | h'
  · exact h e' h'
  · rw [List.mem_singleton.mp h', he]

theorem NotDown.countP {log : List (Event F)} (h : NotDown log) : log.countP Event.isDown = 0 :=
  List.countP_eq_zero.mpr fun e he => by simp [h e he]

/-- `DOWN` is emitted for the first time. -/
theorem NotDown.down {log : List (Event F)} (h : NotDown log) : (log ++ [Event.down]).countP Event.isDown = 1 := by
  rw [List.countP_append, h.countP]
  rfl

theorem phase_new : Phase (State.new F) :=
  .goingUp rfl rfl rfl rfl fun _ h => absurd h List.not_mem_nil

/-! ## The methods -/

/-- With both handles cleared, no timer of a running ticker is live. -/
theorem Timed.live_cleared (h : Timed s) : s.cleared.live = [] := by
  obtain ⟨hlive, hone⟩ := h
  unfold State.cleared
  rcases hone with hnone | hnone
  · rw [hnone] at hlive ⊢
    cases hi : s.interval with
    | none => simpa [hi] using hlive
    | some id => simp [hi, hlive]
  · rw [hnone] at hlive ⊢
    cases ht : s.timeout with
    | none => simpa [ht] using hlive
    | some id => simp [ht, hlive]

theorem shutdown_running (h : s.powerManager = ⟨.up, some .down⟩) :
    s.shutdown = ({ s with powerManager := ⟨.down, none⟩, loop := s.cleared }.emit .down, none) := by
  simp [State.shutdown, PowerManager.commit, h]

theorem quit_goingUp (h : s.powerManager = ⟨.down, some .up⟩) :
    s.quit = ({ s with powerManager := ⟨.down, none⟩ }.emit .down, none) := by
  simp [State.quit, PowerManager.isGoingUp, PowerManager.rollback, h]

theorem quit_running (h : s.powerManager = ⟨.up, none⟩) :
    s.quit = ({ s with powerManager := ⟨.down, none⟩, loop := s.cleared }.emit .down, none) := by
  have hshutdown : ({ s with powerManager := ⟨.up, some .down⟩ } : State F).shutdown =
      ({ s with powerManager := ⟨.down, none⟩, loop := s.cleared }.emit .down, none) := shutdown_running rfl
  simpa [State.quit, PowerManager.isGoingUp, PowerManager.goingDown, PowerManager.switchState, h] using hshutdown

/-- `quit` of a ticker that is down throws. -/
theorem quit_down (h : s.powerManager = ⟨.down, none⟩) :
    s.quit = (s, some "Can not switch to the same current state.") := by
  simp [State.quit, PowerManager.isGoingUp, PowerManager.goingDown, PowerManager.switchState, h]

theorem startTimer_set {handle : State F → ℕ → State F} (ht : s.timeout = none) (hi : s.interval = none)
    (hp : s.powerManager = ⟨.down, some .up⟩ ∨ s.powerManager = ⟨.up, none⟩) : s.startTimer kind handle =
      (handle { s with powerManager := ⟨.up, none⟩, loop := s.loop.set kind } s.loop.next, none) := by
  rcases hp with hp | hp
  · simp [State.startTimer, ht, hi, hp, PowerManager.isGoingUp, PowerManager.commit]
  · simp [State.startTimer, ht, hi, hp, PowerManager.isGoingUp, PowerManager.isRunning, PowerManager.isUp]

/-- While there is a handle, no timer is set. -/
theorem startTimer_busy {handle : State F → ℕ → State F} (h : s.timeout.isSome ∨ s.interval.isSome) :
    s.startTimer kind handle = (s, some "A timer is already running") := by
  simp only [State.startTimer, Bool.or_eq_true, if_pos h]

theorem startTimer_down {handle : State F → ℕ → State F} (h : s.powerManager = ⟨.down, none⟩) :
    (s.startTimer kind handle).1 = s := by
  unfold State.startTimer
  split
  · rfl
  · simp [h, PowerManager.isGoingUp, PowerManager.isRunning, PowerManager.isUp]

/-- A timer is set, or nothing changes. -/
theorem Phase.startTimer_cases (h : Phase s) (kind : Kind) (handle : State F → ℕ → State F) :
    (s.startTimer kind handle).1 = s ∨ (s.timeout = none ∧ s.interval = none ∧ s.loop.live = [] ∧ NotDown s.log ∧
      (s.startTimer kind handle).1 =
        handle { s with powerManager := ⟨.up, none⟩, loop := s.loop.set kind } s.loop.next) := by
  cases h with
  | goingUp hp ht hi hlive hlog => exact .inr ⟨ht, hi, hlive, hlog, by rw [startTimer_set ht hi (.inl hp)]⟩
  | running hp htimed hlog =>
    by_cases hbusy : s.timeout.isSome ∨ s.interval.isSome
    · exact .inl (by rw [startTimer_busy hbusy])
    · obtain ⟨ht, hi⟩ := not_or.mp hbusy
      rw [Option.not_isSome_iff_eq_none] at ht hi
      refine .inr ⟨ht, hi, ?_, hlog, by rw [startTimer_set ht hi (.inr hp)]⟩
      rw [htimed.live, ht, hi]
      rfl
  | down hp hlive hlog => exact .inl (startTimer_down hp)

theorem Phase.nextTick (h : Phase s) : Phase s.nextTick.1 := by
  rcases h.startTimer_cases .timeout (fun s id => { s with timeout := some id }) with heq | ⟨_, hi, hlive, hlog, heq⟩
  · rw [State.nextTick, heq]
    exact h
  · rw [State.nextTick, heq]
    exact .running rfl ⟨by simp [hlive, hi], .inr hi⟩ hlog

theorem Phase.runTimer (h : Phase s) : Phase s.runTimer.1 := by
  rcases h.startTimer_cases .interval (fun s id => { s with interval := some id }) with heq | ⟨ht, _, hlive, hlog, heq⟩
  · rw [State.runTimer, heq]
    exact h
  · rw [State.runTimer, heq]
    exact .running rfl ⟨by simp [hlive, ht], .inl ht⟩ hlog

theorem Phase.quit (h : Phase s) : Phase s.quit.1 := by
  cases h with
  | goingUp hp ht hi hlive hlog =>
    rw [quit_goingUp hp]
    exact .down rfl hlive hlog.down
  | running hp htimed hlog =>
    rw [quit_running hp]
    exact .down rfl htimed.live_cleared hlog.down
  | down hp hlive hlog =>
    rw [quit_down hp]
    exact .down hp hlive hlog

/-- What is noted is not `DOWN`, and another function may be given. -/
theorem Phase.given (h : Phase s) (fn : F) : Phase ({ s with onNextTickFn := some fn }.emit (.given fn)) := by
  cases h with
  | goingUp hp ht hi hlive hlog => exact .goingUp hp ht hi hlive (hlog.append rfl)
  | running hp htimed hlog => exact .running hp ⟨htimed.live, htimed.one⟩ (hlog.append rfl)
  | down hp hlive hlog =>
    refine .down hp hlive ?_
    rw [State.emit, List.countP_append, hlog]
    rfl

/-- A function is called while the ticker runs. -/
theorem onTick_running (h : s.powerManager = ⟨.up, none⟩) : s.onTick =
    { s with onNextTickFn := none }.emit (.ticked (s.onNextTickFn.elim .onTickFn .onNextTickFn)) := by
  simp [State.onTick, PowerManager.isRunning, PowerManager.isUp, h]

/-- A timer that fires was live, so the ticker runs, and calls a function. -/
theorem Phase.fires (h : Phase s) {id : ℕ} (hs : step s (.fires id) = some s') :
    s.powerManager = ⟨.up, none⟩ ∧ NotDown s.log ∧ ∃ t, Timed t ∧ t.powerManager = ⟨.up, none⟩ ∧
      t.onNextTickFn = s.onNextTickFn ∧ t.log = s.log ∧ s' = t.onTick := by
  obtain ⟨⟨loop, kind⟩, hfire, rfl⟩ := Option.map_eq_some_iff.mp hs
  obtain ⟨hmem, hcases⟩ := EventLoop.fire_cases hfire
  cases h with
  | goingUp hp ht hi hlive hlog =>
    rw [hlive] at hmem
    cases hmem
  | running hp htimed hlog =>
    refine ⟨hp, hlog, ?_⟩
    obtain ⟨hlive, hone⟩ := htimed
    rcases hcases with ⟨rfl, rfl⟩ | ⟨rfl, rfl⟩
    · -- the timeout is the only timer, and is over
      refine ⟨{ s with loop := s.loop.clear id, timeout := none }, ?_, hp, rfl, rfl, rfl⟩
      rw [hlive] at hmem
      rcases List.mem_append.mp hmem with hmem | hmem
      · obtain ⟨id', hid, heq⟩ := List.mem_map.mp hmem
        cases heq
        have ht : s.timeout = some id := Option.mem_toList.mp hid
        have hi : s.interval = none := hone.resolve_left (by simp [ht])
        refine ⟨?_, .inl rfl⟩
        rw [ht, hi] at hlive
        simp [hlive, hi]
      · obtain ⟨_, _, heq⟩ := List.mem_map.mp hmem
        cases heq
    · exact ⟨s, ⟨hlive, hone⟩, hp, rfl, rfl, rfl⟩
  | down hp hlive hlog =>
    rw [hlive] at hmem
    cases hmem

theorem Phase.step {a : Action F} (h : Phase s) (hs : step s a = some s') : Phase s' := by
  cases a with
  | nextTick =>
    cases hs
    exact h.nextTick
  | nextTickFn fn =>
    cases hs
    exact (h.given fn).nextTick
  | runTimer =>
    cases hs
    exact h.runTimer
  | quit =>
    cases hs
    exact h.quit
  | fires id =>
    obtain ⟨_, hlog, t, htimed, hp, -, hlogt, rfl⟩ := h.fires hs
    rw [onTick_running hp]
    exact .running hp ⟨htimed.live, htimed.one⟩ ((hlogt ▸ hlog).append rfl)

/-! ## The ticker by its handles -/

theorem timer_eq_null {l : EventLoop} {handle : Option ℕ} : timer l handle = .null ↔ handle = none := by
  cases handle with
  | none => exact iff_of_true rfl rfl
  | some id =>
    simp only [timer, reduceCtorEq, iff_false]
    split <;> simp

/-- A handle is in the way, also that of a timer that was cleared. -/
theorem toTicker_startTimer_busy (h : s.timeout.isSome ∨ s.interval.isSome) :
    s.toTicker.startTimer = .error "A timer is already running" := by
  have hbusy : s.toTicker.timeout ≠ .null ∨ s.toTicker.interval ≠ .null := by
    rcases h with h | h
    · exact .inl fun hnull => by rw [timer_eq_null.mp hnull] at h; cases h
    · exact .inr fun hnull => by rw [timer_eq_null.mp hnull] at h; cases h
  simp only [Ticker.startTimer, if_pos hbusy]

theorem Phase.toTicker_nextTick (h : Phase s) : s.toTicker.nextTick = s.nextTick.toTicker := by
  by_cases hbusy : s.timeout.isSome ∨ s.interval.isSome
  · rw [Ticker.nextTick, toTicker_startTimer_busy hbusy, State.nextTick, startTimer_busy hbusy]
    rfl
  · obtain ⟨ht, hi⟩ := not_or.mp hbusy
    rw [Option.not_isSome_iff_eq_none] at ht hi
    have hset := EventLoop.kind?_set s.loop .timeout
    cases h with
    | goingUp hp _ _ hlive hlog =>
      rw [State.nextTick, startTimer_set ht hi (.inl hp)]
      simp [Ticker.nextTick, Ticker.startTimer, State.toTicker, timer, ht, hi, hp, PowerManager.isGoingUp,
        PowerManager.commit, Result.toTicker, hset, bind, Except.bind, pure, Except.pure]
    | running hp _ hlog =>
      rw [State.nextTick, startTimer_set ht hi (.inr hp)]
      simp [Ticker.nextTick, Ticker.startTimer, State.toTicker, timer, ht, hi, hp, PowerManager.isGoingUp,
        PowerManager.isRunning, PowerManager.isUp, Result.toTicker, hset, bind, Except.bind, pure, Except.pure]
    | down hp hlive hlog =>
      simp [Ticker.nextTick, Ticker.startTimer, State.nextTick, State.startTimer, State.toTicker, timer, ht, hi, hp,
        PowerManager.isGoingUp, PowerManager.isRunning, PowerManager.isUp, Result.toTicker, bind, Except.bind, pure,
        Except.pure]

/-- While the ticker runs, its handles are those of live timers; `quit` clears these. -/
theorem Timed.timer_cleared (h : Timed s) : timer s.cleared s.timeout = (timer s.loop s.timeout).clear ∧
    timer s.cleared s.interval = (timer s.loop s.interval).clear := by
  obtain ⟨hlive, hone⟩ := h
  rcases hone with hnone | hnone
  · cases hi : s.interval with
    | none => simp [hnone, timer, Timer.clear]
    | some id =>
      have hkind : s.loop.kind? id = some .interval := by simp [EventLoop.kind?, hlive, hnone, hi]
      simp [hnone, hi, timer, State.cleared, hkind, EventLoop.kind?_clear, Timer.clear]
  · cases ht : s.timeout with
    | none => simp [hnone, timer, Timer.clear]
    | some id =>
      have hkind : s.loop.kind? id = some .timeout := by simp [EventLoop.kind?, hlive, hnone, ht]
      simp [hnone, ht, timer, State.cleared, hkind, EventLoop.kind?_clear, Timer.clear]

theorem Phase.toTicker_quit (h : Phase s) : s.toTicker.quit = s.quit.toTicker := by
  cases h with
  | goingUp hp ht hi hlive hlog =>
    rw [quit_goingUp hp]
    simp [Ticker.quit, State.toTicker, State.emit, Result.toTicker, hp, PowerManager.isGoingUp, PowerManager.rollback,
      bind, Except.bind, pure, Except.pure]
  | running hp htimed hlog =>
    obtain ⟨ht, hi⟩ := htimed.timer_cleared
    rw [quit_running hp]
    simp [Ticker.quit, Ticker.shutdown, State.toTicker, State.emit, Result.toTicker, hp, ht, hi, PowerManager.isGoingUp,
      PowerManager.goingDown, PowerManager.switchState, PowerManager.commit, bind, Except.bind, pure, Except.pure]
  | down hp hlive hlog =>
    rw [quit_down hp]
    simp [Ticker.quit, State.toTicker, Result.toTicker, hp, PowerManager.isGoingUp, PowerManager.goingDown,
      PowerManager.switchState, bind, Except.bind]

/-! ## What is noted -/

theorem Phase.startTimer_log (h : Phase s) {kind : Kind} {handle : State F → ℕ → State F}
    (hh : ∀ t id, (handle t id).log = t.log ∧ (handle t id).onNextTickFn = t.onNextTickFn) :
    (s.startTimer kind handle).1.log = s.log ∧ (s.startTimer kind handle).1.onNextTickFn = s.onNextTickFn := by
  rcases h.startTimer_cases kind handle with heq | ⟨-, -, -, -, heq⟩
  · rw [heq]
    exact ⟨rfl, rfl⟩
  · rw [heq]
    exact hh _ _

/-- One event at most is noted: a function that is given, `DOWN`, or the call of the function whose turn it is. -/
theorem Phase.step_log {a : Action F} (h : Phase s) (hs : Tickers.step s a = some s') :
    (s'.log = s.log ∧ s'.onNextTickFn = s.onNextTickFn) ∨
    (∃ fn, s'.log = s.log ++ [.given fn] ∧ s'.onNextTickFn = some fn) ∨
    (s'.log = s.log ++ [.down] ∧ s'.onNextTickFn = s.onNextTickFn) ∨
    (NotDown s.log ∧ s'.log = s.log ++ [.ticked (s.onNextTickFn.elim .onTickFn .onNextTickFn)] ∧
      s'.onNextTickFn = none) := by
  cases a with
  | nextTick =>
    cases hs
    exact .inl (h.startTimer_log fun _ _ => ⟨rfl, rfl⟩)
  | nextTickFn fn =>
    cases hs
    exact .inr (.inl ⟨fn, (h.given fn).startTimer_log fun _ _ => ⟨rfl, rfl⟩⟩)
  | runTimer =>
    cases hs
    exact .inl (h.startTimer_log fun _ _ => ⟨rfl, rfl⟩)
  | quit =>
    cases hs
    cases h with
    | goingUp hp ht hi hlive hlog =>
      rw [quit_goingUp hp]
      exact .inr (.inr (.inl ⟨rfl, rfl⟩))
    | running hp htimed hlog =>
      rw [quit_running hp]
      exact .inr (.inr (.inl ⟨rfl, rfl⟩))
    | down hp hlive hlog =>
      rw [quit_down hp]
      exact .inl ⟨rfl, rfl⟩
  | fires id =>
    obtain ⟨_, hlog, t, -, hp, hfn, hlogt, rfl⟩ := h.fires hs
    rw [onTick_running hp, ← hfn, ← hlogt]
    exact .inr (.inr (.inr ⟨hlogt ▸ hlog, rfl, rfl⟩))

/-- Nothing is called after `DOWN`. -/
def NoneAfterDown (log : List (Event F)) : Prop := log.Pairwise fun e e' => e.isDown = true → e'.isTick = false

theorem NoneAfterDown.append {log : List (Event F)} (h : NoneAfterDown log) (he : e.isTick = true → NotDown log) :
    NoneAfterDown (log ++ [e]) := by
  refine List.pairwise_append.mpr ⟨h, List.pairwise_singleton _ _, fun e' h' e'' h'' hdown => ?_⟩
  rw [List.mem_singleton.mp h'']
  cases htick : e.isTick with
  | false => rfl
  | true =>
    have hnot := he htick e' h'
    rw [hdown] at hnot
    cases hnot

theorem NoneAfterDown.step {a : Action F} (h : NoneAfterDown s.log) (hp : Phase s)
    (hs : Tickers.step s a = some s') : NoneAfterDown s'.log := by
  rcases hp.step_log hs with ⟨heq, -⟩ | ⟨fn, heq, -⟩ | ⟨heq, -⟩ | ⟨hnot, heq, -⟩
  · exact heq ▸ h
  · exact heq ▸ h.append fun htick => by cases htick
  · exact heq ▸ h.append fun htick => by cases htick
  · exact heq ▸ h.append fun _ => hnot

/-! ## Functions that are given -/

section

variable [DecidableEq F]

/-- How often the function was given to `nextTickFn`. -/
def gives (fn : F) (log : List (Event F)) : ℕ :=
  log.countP fun
    | .given fn' => fn' = fn
    | _ => false

/-- How often the function was called in its turn. -/
def calls (fn : F) (log : List (Event F)) : ℕ :=
  log.countP fun
    | .ticked (.onNextTickFn fn') => fn' = fn
    | _ => false

/-- The calls of the function, with one to come when it is its turn. -/
def due (fn : F) (s : State F) : ℕ := calls fn s.log + if s.onNextTickFn = some fn then 1 else 0

/-- A step makes a call due only when it gives the function. -/
theorem due_step {a : Action F} (hp : Phase s) (hs : Tickers.step s a = some s') (fn : F) (h : due fn s ≤ gives fn s.log) :
    due fn s' ≤ gives fn s'.log := by
  unfold due calls gives at *
  rcases hp.step_log hs with ⟨hlog, hfn⟩ | ⟨fn', hlog, hfn⟩ | ⟨hlog, hfn⟩ | ⟨-, hlog, hfn⟩
  · rw [hlog, hfn]
    exact h
  · rw [hlog, hfn, List.countP_append, List.countP_append]
    by_cases heq : fn' = fn
    · simp only [heq, List.countP_singleton, decide_true, if_true]
      simp
      omega
    · simp only [List.countP_singleton, heq, Option.some.injEq, decide_false, if_false]
      simp
      omega
  · rw [hlog, hfn, List.countP_append, List.countP_append]
    simpa [List.countP_singleton] using h
  · rw [hlog, hfn, List.countP_append, List.countP_append]
    cases hnext : s.onNextTickFn with
    | none => simpa [List.countP_singleton, hnext] using h
    | some fn' => simpa [List.countP_singleton, hnext] using h

end

/-! ## Runs -/

/-- What a ticker never does. -/
structure Safe [DecidableEq F] (s : State F) : Prop where
  oneTimer : s.loop.live.length ≤ 1
  downOnce : s.log.countP Event.isDown ≤ 1
  noTick : NoneAfterDown s.log
  noTimer : (∃ e ∈ s.log, e.isDown = true) → s.loop.live = []
  once : ∀ fn, calls fn s.log ≤ gives fn s.log

theorem Phase.oneTimer (h : Phase s) : s.loop.live.length ≤ 1 := by
  cases h with
  | goingUp hp ht hi hlive hlog => simp [hlive]
  | running hp htimed hlog =>
    obtain ⟨hlive, hone⟩ := htimed
    rcases hone with hnone | hnone
    · cases hi : s.interval <;> simp [hlive, hnone, hi]
    · cases ht : s.timeout <;> simp [hlive, hnone, ht]
  | down hp hlive hlog => simp [hlive]

theorem Phase.downOnce (h : Phase s) : s.log.countP Event.isDown ≤ 1 := by
  cases h with
  | goingUp hp ht hi hlive hlog => rw [hlog.countP]; omega
  | running hp htimed hlog => rw [hlog.countP]; omega
  | down hp hlive hlog => exact Nat.le_of_eq hlog

theorem Phase.noTimer (h : Phase s) (hdown : ∃ e ∈ s.log, e.isDown = true) : s.loop.live = [] := by
  obtain ⟨e, he, hdown⟩ := hdown
  cases h with
  | goingUp hp ht hi hlive hlog => exact hlive
  | running hp htimed hlog =>
    rw [hlog e he] at hdown
    cases hdown
  | down hp hlive hlog => exact hlive

/-- The phases, the order of events and the accounts of functions, in every reached state. -/
theorem phase_reachable (h : Reach (system F) (fun _ _ => True) s) : Phase s :=
  h.invariant phase_new fun _ _ _ hi _ hs => hi.step hs

theorem noneAfterDown_reachable (h : Reach (system F) (fun _ _ => True) s) : NoneAfterDown s.log := by
  induction h with
  | init => exact List.Pairwise.nil
  | step hr _ hs ih => exact ih.step (phase_reachable hr) hs

theorem due_reachable [DecidableEq F] (h : Reach (system F) (fun _ _ => True) s) (fn : F) :
    due fn s ≤ gives fn s.log := by
  induction h with
  | init => exact Nat.le_refl _
  | step hr _ hs ih => exact due_step (phase_reachable hr) hs fn ih

/-- **A ticker is safe**, whatever is called in whatever order. -/
theorem safe_reachable [DecidableEq F] (h : Reach (system F) (fun _ _ => True) s) : Safe s where
  oneTimer := (phase_reachable h).oneTimer
  downOnce := (phase_reachable h).downOnce
  noTick := noneAfterDown_reachable h
  noTimer := (phase_reachable h).noTimer
  once fn := Nat.le_trans (Nat.le_add_right _ _) (due_reachable h fn)

/-- A function that is given is called, then a timer runs until the function that it calls tells the ticker to quit. -/
theorem safe_quitRun : ∃ s, run (system String) (fun _ _ => True) (State.new String)
    [.nextTickFn "f", .fires 0, .runTimer, .fires 1, .fires 1, .quit, .nextTick] = some s ∧ Safe s :=
  exists_run (by decide) fun _ h => safe_reachable h

end RedisSmq.Tickers
