import Mathlib.Tactic.Common
import RedisSmq.Workers.System

/-!
# The phases of consumer workers

`Phase` lists the states of an instance whose `quit` is called while it does not read the directory, and which is not
granted the lock after that. No event of such an instance throws, and every event leads to another phase
(`Phase.handle`); `Effect` is what the events may change of the use of the lock.
-/

namespace RedisSmq.Workers

/-- The ticker of a running instance. -/
abbrev ticking (timeout : Timer) : Ticker Empty := ⟨⟨.up, none⟩, none, timeout, .null⟩

/-- The ticker once `quit` was called. -/
abbrev stopped (timeout : Timer) : Ticker Empty := ⟨⟨.down, none⟩, none, timeout, .null⟩

abbrev runnerUp (workers : List String) : WorkerRunner := ⟨⟨.up, none⟩, workers, none⟩

abbrev runnerGoingUp : WorkerRunner := ⟨⟨.down, some .up⟩, [], none⟩

abbrev runnerGoingDown (workers : List String) (killed : String) : WorkerRunner :=
  ⟨⟨.up, some .down⟩, workers, some killed⟩

/-- The runner is up or down. -/
def Steady (r : WorkerRunner) : Prop := r = .new ∨ ∃ workers, r = runnerUp workers

/-- The runner has started no worker. -/
def Idle (r : WorkerRunner) : Prop := r = .new ∨ r = runnerGoingUp

/-- `failed`: an error was emitted, and there is no next tick. -/
inductive Phase : ConsumerWorkers → Prop
  | waiting {l r} : l.retryOnFail = false → Steady r →
    Phase ⟨ticking .live, l, r, none, false, none, .notCalled, false⟩
  | acquiring {l r a} : l.retryOnFail = false → Steady r → a.request = l.acquireLock →
    Phase ⟨ticking .null, l, r, some a, false, none, .notCalled, false⟩
  | reading {l} : l.retryOnFail = false →
    Phase ⟨ticking .null, l, runnerGoingUp, none, true, none, .notCalled, false⟩
  | failed {l r} : l.retryOnFail = false → Steady r ∨ Idle r →
    Phase ⟨ticking .null, l, r, none, false, none, .notCalled, false⟩
  | shutdownWorkers {l workers killed a t} : l.retryOnFail = false → t ≠ .live → (a ≠ none → t = .null) →
    (∀ x ∈ a, x.request = l.acquireLock) →
    Phase ⟨stopped t, l, runnerGoingDown workers killed, a, false, none, .shutdownWorkers, false⟩
  | releaseLock {l r a t u} : l.retryOnFail = false → t ≠ .live → (a ≠ none → t = .null) → Idle r →
    l.acquiredLock = some u.request → u.reply ≠ some .otherError →
    Phase ⟨stopped t, l, r, a, false, some u, .releaseLock, false⟩
  | done {l r a t} : l.retryOnFail = false → t ≠ .live → (a ≠ none → t = .null) → Idle r → l.acquiredLock = none →
    Phase ⟨stopped t, l, r, a, false, none, .done, false⟩

namespace ConsumerWorkers

/-- The lock that was granted, when the reply is on its way. -/
def granted (w : ConsumerWorkers) : Option LockValue :=
  match w.acquiring with
  | some ⟨_, some (.lock lock)⟩ => some lock
  | _ => none

/-- The lock that the instance has, or is about to have. -/
def claim (w : ConsumerWorkers) : Option LockValue := w.granted <|> w.lockerManager.acquiredLock

/-- The instance has workers, or is about to start them, or was told that it has the lock. -/
def UsesLock (w : ConsumerWorkers) : Prop := w.alive ≠ [] ∨ w.reading = true ∨ w.granted ≠ none

/-- The request for the lock was refused, and the reply is on its way. -/
def Refused (w : ConsumerWorkers) : Prop := ∃ request, w.acquiring = some ⟨request, some .lockError⟩

/-- The instance has the lock at hand, in a request, or in a reply. -/
def Mentions (w : ConsumerWorkers) (lock : LockValue) : Prop :=
  w.lockerManager.acquiredLock = some lock ∨ (∃ reply, w.acquiring = some ⟨.extend lock, reply⟩) ∨
    w.granted = some lock ∨ ∃ reply, w.unlocking = some ⟨lock, reply⟩

end ConsumerWorkers

/-- What an event may change of the use of the lock. -/
structure Effect (e : Event) (w w' : ConsumerWorkers) : Prop where
  uses : w'.UsesLock → w.UsesLock
  claim : w'.claim = w.claim ∨
    ¬w'.UsesLock ∧ ∃ lock reply, w.unlocking = some ⟨lock, some reply⟩ ∧ w.claim = some lock
  refused : w'.Refused → w.Refused ∧ (w.alive = [] → w'.alive = [])
  mentions : ∀ lock, w'.Mentions lock → w.Mentions lock
  acquiring : w'.teardown ≠ .notCalled → w'.acquiring = w.acquiring ∨ w'.acquiring = none
  unlocking : ∀ lock reply, w'.unlocking = some ⟨lock, some reply⟩ → w.unlocking = some ⟨lock, some reply⟩
  called : w'.teardown ≠ .notCalled → w.teardown ≠ .notCalled ∨ e = .quit
  done : w.teardown = .done → w'.teardown = .done

section

variable {w w' : ConsumerWorkers} {e : Event} {r : Except String ConsumerWorkers} {l : LockManager} {t : Timer}
variable {a : Option (Request LockRequest RedlockReply)} {workers : List String} {files : Option (List String)}

open ConsumerWorkers

/-- An event that takes no lock and starts no worker but those of the directory it has read; a request that was not
granted may be over. -/
theorem Effect.of_keeps (hlock : w'.lockerManager.acquiredLock = w.lockerManager.acquiredLock)
    (hacquiring : w'.acquiring = w.acquiring ∨ w'.acquiring = none ∧ w.granted = none)
    (halive : w'.alive ≠ [] ∨ w'.reading = true → w.alive ≠ [] ∨ w.reading = true)
    (hreading : w.reading = true → w.acquiring = none)
    (hunlocking : w'.unlocking = w.unlocking ∨
      ∃ lock, w.lockerManager.acquiredLock = some lock ∧ w'.unlocking = some ⟨lock, none⟩)
    (hcalled : w'.teardown ≠ .notCalled → w.teardown ≠ .notCalled ∨ e = .quit)
    (hdone : w.teardown = .done → w'.teardown = .done) : Effect e w w' := by
  have hgranted : w'.granted = w.granted := by
    rcases hacquiring with h | ⟨h, h'⟩
    · simp only [granted, h]
    · rw [h']; simp only [granted, h]
  have hsame : ∀ {x}, w'.acquiring = some x → w.acquiring = some x := by
    intro x hx
    rcases hacquiring with h | ⟨h, _⟩
    · rwa [h] at hx
    · rw [h] at hx; cases hx
  refine ⟨?_, .inl ?_, ?_, ?_, fun _ => hacquiring.imp_right And.left, ?_, hcalled, hdone⟩
  · rintro (h | h | h)
    · exact (halive (.inl h)).elim .inl (fun h => .inr (.inl h))
    · exact (halive (.inr h)).elim .inl (fun h => .inr (.inl h))
    · exact .inr (.inr (hgranted ▸ h))
  · rw [ConsumerWorkers.claim, ConsumerWorkers.claim, hgranted, hlock]
  · rintro ⟨request, h⟩
    refine ⟨⟨request, hsame h⟩, fun hnil => ?_⟩
    by_contra hne
    rcases halive (.inl hne) with h' | h'
    · exact h' hnil
    · rw [hreading h'] at hsame; cases hsame h
  · rintro lock (h | ⟨reply, h⟩ | h | ⟨reply, h⟩)
    · exact .inl (hlock ▸ h)
    · exact .inr (.inl ⟨reply, hsame h⟩)
    · exact .inr (.inr (.inl (hgranted ▸ h)))
    · rcases hunlocking with hu | ⟨lock', hlock', hu⟩ <;> rw [hu] at h
      · exact .inr (.inr (.inr ⟨reply, h⟩))
      · cases h; exact .inl hlock'
  · intro lock reply h
    rcases hunlocking with hu | ⟨lock', _, hu⟩ <;> rw [hu] at h
    · exact h
    · cases h

/-- The timer fires: the lock is asked for. -/
theorem Phase.timeout (h : Phase w) (hr : w.handle .timeout = some r) :
    ∃ w', r = .ok w' ∧ Phase w' ∧ Effect .timeout w w' := by
  cases h with
  | @waiting l r hl hs =>
    cases hr
    refine ⟨⟨ticking .null, l, r, some ⟨l.acquireLock, none⟩, false, none, .notCalled, false⟩, rfl,
      .acquiring hl hs rfl, ?_⟩
    constructor <;> simp [UsesLock, alive, granted, claim, Refused, Mentions, LockManager.acquireLock]
    intro lock h
    cases ha : l.acquiredLock <;> simp_all
  | acquiring | reading | failed => cases hr
  | shutdownWorkers _ ht | releaseLock _ ht | done _ ht => simp [handle, ht] at hr

/-- A ticker that was stopped sets no timer. -/
theorem nextTick_stopped (h : w.ticker = stopped .null) : w.nextTick = .ok w := by
  obtain ⟨⟩ := w
  cases h
  rfl

/-- After `quit`, the reply to a request for the lock that was not granted has no effect. -/
theorem onReply_stopped {reply : RedlockReply} (ht : w.ticker = stopped .null)
    (hl : w.lockerManager.retryOnFail = false) (hreply : ∀ lock, reply ≠ .lock lock) :
    w.onReply reply = .ok { w with acquiring := none } := by
  cases reply with
  | lock lock => exact absurd rfl (hreply lock)
  | empty | otherError => rfl
  | lockError =>
    simp only [onReply, LockManager.handleRedlockReply, LockManager.acquireLockRetryOnFail, hl, Bool.false_eq_true,
      if_false, onAcquired]
    exact nextTick_stopped ht

/-- The reply to a request for the lock arrives; after `quit`, it was not granted. -/
theorem Phase.reply (h : Phase w) (hr : w.handle .reply = some r) (hg : w.teardown ≠ .notCalled → w.granted = none) :
    ∃ w', r = .ok w' ∧ Phase w' ∧ Effect .reply w w' := by
  have hstopped : ∀ {t}, w.ticker = stopped t → (w.acquiring ≠ none → t = .null) → w.lockerManager.retryOnFail = false →
      w.teardown ≠ .notCalled → w.granted = none ∧ r = .ok { w with acquiring := none } := by
    intro t ht hat hl hcalled
    have hnone := hg hcalled
    simp only [handle] at hr
    split at hr <;> cases hr
    rename_i request reply hreq
    obtain rfl := hat (by rw [hreq]; simp)
    refine ⟨hnone, onReply_stopped ht hl ?_⟩
    rintro lock rfl
    simp [granted, hreq] at hnone
  cases h with
  | waiting | reading | failed => cases hr
  | @acquiring l r a hl hs ha =>
    obtain ⟨request, reply⟩ := a
    cases reply with
    | none => cases hr
    | some reply =>
      cases hr
      cases reply with
      | lock lock =>
        rcases hs with rfl | ⟨workers, rfl⟩
        · refine ⟨_, rfl, .reading hl, ?_⟩
          constructor <;>
            simp [UsesLock, alive, granted, claim, Refused, Mentions, WorkerRunner.alive, WorkerRunner.new]
        · refine ⟨_, rfl, .waiting hl (.inr ⟨_, rfl⟩), ?_⟩
          constructor <;> simp [UsesLock, alive, granted, claim, Refused, Mentions]
      | empty | otherError =>
        exact ⟨_, rfl, .failed hl (.inl hs), .of_keeps rfl (.inr ⟨rfl, rfl⟩) id (by simp) (.inl rfl) .inl id⟩
      | lockError =>
        refine ⟨⟨ticking .live, l, r, none, false, none, .notCalled, false⟩, ?_, .waiting hl hs,
          .of_keeps rfl (.inr ⟨rfl, rfl⟩) id (by simp) (.inl rfl) .inl id⟩
        simp only [onReply, LockManager.handleRedlockReply, LockManager.acquireLockRetryOnFail, hl, Bool.false_eq_true,
          if_false]
        rfl
  | shutdownWorkers hl ht hat ha =>
    obtain ⟨hnone, rfl⟩ := hstopped rfl hat hl (by simp)
    exact ⟨_, rfl, .shutdownWorkers hl ht (by simp) (by simp),
      .of_keeps rfl (.inr ⟨rfl, hnone⟩) id (by simp) (.inl rfl) .inl id⟩
  | releaseLock hl ht hat hi hlock hu =>
    obtain ⟨hnone, rfl⟩ := hstopped rfl hat hl (by simp)
    exact ⟨_, rfl, .releaseLock hl ht (by simp) hi hlock hu,
      .of_keeps rfl (.inr ⟨rfl, hnone⟩) id (by simp) (.inl rfl) .inl id⟩
  | done hl ht hat hi hlock =>
    obtain ⟨hnone, rfl⟩ := hstopped rfl hat hl (by simp)
    exact ⟨_, rfl, .done hl ht (by simp) hi hlock,
      .of_keeps rfl (.inr ⟨rfl, hnone⟩) id (by simp) (.inl rfl) .inl id⟩

/-- The directory was read: its workers are started. -/
theorem Phase.listing (h : Phase w) (hr : w.handle (.listing files) = some r) :
    ∃ w', r = .ok w' ∧ Phase w' ∧ Effect (.listing files) w w' := by
  cases h with
  | @reading l hl =>
    cases hr
    cases files with
    | none =>
      exact ⟨_, rfl, .failed hl (.inr (.inr rfl)), .of_keeps rfl (.inl rfl) (by simp) (by simp) (.inl rfl) .inl id⟩
    | some files =>
      exact ⟨_, rfl, .waiting hl (.inr ⟨_, rfl⟩), .of_keeps rfl (.inl rfl) (by simp) (by simp) (.inl rfl) .inl id⟩
  | _ => cases hr

/-- The last step of `quit`, once no worker is alive. -/
theorem Phase.quitLock {runner : WorkerRunner} (teardown : Teardown) (hl : l.retryOnFail = false) (ht : t ≠ .live)
    (hat : a ≠ none → t = .null) (hi : Idle runner)
    (hw' : w' = ConsumerWorkers.releaseLock ⟨stopped t, l, runner, a, false, none, teardown, false⟩) :
    Phase w' ∧ ∀ w : ConsumerWorkers, w.lockerManager = l → w.acquiring = a → w.reading = false → w.unlocking = none →
      w.teardown ≠ .done → (w.teardown = .notCalled → e = .quit) → Effect e w w' := by
  have halive : runner.alive = [] := by rcases hi with rfl | rfl <;> rfl
  have hquit : ∀ lock, l.acquiredLock = lock → l.quit = ({ l with timer := l.timer.clear }, lock) := by
    rintro lock rfl
    rfl
  cases hlock : l.acquiredLock with
  | none =>
    simp only [ConsumerWorkers.releaseLock, hquit _ hlock] at hw'
    subst hw'
    refine ⟨.done hl ht hat hi hlock, fun w hwl hwa hwr hwu hwt hwe => ?_⟩
    exact .of_keeps (by rw [hwl]) (.inl hwa.symm) (by simp [alive, halive]) (by simp [hwr]) (.inl hwu.symm)
      (fun _ => not_or_of_imp hwe) (fun h => absurd h hwt)
  | some lock =>
    simp only [ConsumerWorkers.releaseLock, hquit _ hlock] at hw'
    subst hw'
    refine ⟨.releaseLock hl ht hat hi hlock (by simp), fun w hwl hwa hwr hwu hwt hwe => ?_⟩
    exact .of_keeps (by rw [hwl]) (.inl hwa.symm) (by simp [alive, halive]) (by simp [hwr])
      (.inr ⟨lock, by rw [hwl, hlock], rfl⟩) (fun _ => not_or_of_imp hwe) (fun h => absurd h hwt)

/-- A step of the shutdown of the workers. -/
theorem Phase.shutdownFn (runner : WorkerRunner) (teardown : Teardown) (workers : List String)
    (hl : l.retryOnFail = false) (ht : t ≠ .live) (hat : a ≠ none → t = .null)
    (ha : ∀ x ∈ a, x.request = l.acquireLock) :
    ∃ res, WorkerRunner.shutdownFn ⟨⟨.up, some .down⟩, workers, none⟩ = .ok res ∧
      Phase (onShutdown ⟨stopped t, l, runner, a, false, none, teardown, false⟩ res) ∧
      ∀ w : ConsumerWorkers, w.lockerManager = l → w.acquiring = a → w.reading = false → w.unlocking = none →
        w.teardown ≠ .done → (w.teardown = .notCalled → e = .quit) → (workers ≠ [] → w.alive ≠ []) →
        Effect e w (onShutdown ⟨stopped t, l, runner, a, false, none, teardown, false⟩ res) := by
  cases hlast : workers.getLast? with
  | none =>
    refine ⟨(⟨⟨.down, none⟩, workers, none⟩, true), by simp only [WorkerRunner.shutdownFn, hlast]; rfl, ?_⟩
    obtain rfl := List.getLast?_eq_none_iff.mp hlast
    obtain ⟨hphase, heffect⟩ := Phase.quitLock teardown hl ht hat (.inl rfl) rfl
    exact ⟨hphase, fun w hwl hwa hwr hwu hwt hwe _ => heffect w hwl hwa hwr hwu hwt hwe⟩
  | some worker =>
    refine ⟨(⟨⟨.up, some .down⟩, workers.dropLast, some worker⟩, false), by simp only [WorkerRunner.shutdownFn, hlast],
      .shutdownWorkers hl ht hat ha, fun w hwl hwa hwr hwu hwt hwe hworkers => ?_⟩
    have hne : workers ≠ [] := by rintro rfl; cases hlast
    exact .of_keeps (congrArg LockManager.acquiredLock hwl.symm) (.inl hwa.symm) (fun _ => .inl (hworkers hne))
      (by simp [hwr]) (.inl hwu.symm) (fun _ => not_or_of_imp hwe) (fun h => absurd h hwt)

/-- A worker that was killed exits. -/
theorem Phase.exit (h : Phase w) (hr : w.handle .exit = some r) : ∃ w', r = .ok w' ∧ Phase w' ∧ Effect .exit w w' := by
  cases h with
  | waiting _ hs | acquiring _ hs => rcases hs with rfl | ⟨_, rfl⟩ <;> cases hr
  | failed _ hs => rcases hs with (rfl | ⟨_, rfl⟩) | (rfl | rfl) <;> cases hr
  | releaseLock _ _ _ hi | done _ _ _ hi => rcases hi with rfl | rfl <;> cases hr
  | reading => cases hr
  | @shutdownWorkers l workers killed a t hl ht hat ha =>
    cases hr
    obtain ⟨res, hres, hphase, heffect⟩ :=
      Phase.shutdownFn (runnerGoingDown workers killed) .shutdownWorkers workers hl ht hat ha
    refine ⟨_, ?_, hphase, heffect _ rfl rfl rfl rfl (by simp) (by simp) (by simp [alive, WorkerRunner.alive])⟩
    simp only [onExit, WorkerRunner.onExit]
    rw [hres]
    rfl

/-- The reply to `unlock` arrives: the instance has no lock any more. -/
theorem Phase.unlocked (h : Phase w) (hr : w.handle .unlocked = some r)
    (hg : w.teardown ≠ .notCalled → w.granted = none) : ∃ w', r = .ok w' ∧ Phase w' ∧ Effect .unlocked w w' := by
  cases h with
  | @releaseLock l runner a t u hl ht hat hi hlock hu =>
    obtain ⟨lock, reply⟩ := u
    have hnone := hg (by simp)
    have halive : runner.alive = [] := by rcases hi with rfl | rfl <;> rfl
    cases reply with
    | none => cases hr
    | some reply =>
      have hreply : l.handleUnlockReply reply = ({ l with acquiredLock := none }, false) := by
        cases reply with
        | unlocked | lockError => rfl
        | otherError => exact absurd rfl hu
      cases hr
      refine ⟨_, rfl, ?_, ?_⟩
      · rw [onUnlocked, hreply]
        exact .done hl ht hat hi rfl
      · rw [onUnlocked, hreply]
        simp only [granted] at hnone
        constructor <;> simp [UsesLock, alive, halive, granted, ConsumerWorkers.claim, Refused, Mentions, hnone, hlock]
        exact fun lock reply h => .inr (.inl ⟨reply, h⟩)
  | _ => cases hr

/-- `quit`, when the directory is not being read. -/
theorem Phase.quitCalled {runner : WorkerRunner} (hl : l.retryOnFail = false) (hs : Steady runner ∨ Idle runner)
    (hat : a ≠ none → t = .null) (ha : ∀ x ∈ a, x.request = l.acquireLock) :
    ∃ w', ConsumerWorkers.quit ⟨ticking t, l, runner, a, false, none, .notCalled, false⟩ = .ok w' ∧ Phase w' ∧
      Effect .quit ⟨ticking t, l, runner, a, false, none, .notCalled, false⟩ w' := by
  have ht : t.clear ≠ .live := by cases t <;> simp [Timer.clear]
  have hat' : a ≠ none → t.clear = .null := fun h => by rw [hat h]; rfl
  have hquit : ∀ res, runner.shutdown = .ok res →
      ConsumerWorkers.quit ⟨ticking t, l, runner, a, false, none, .notCalled, false⟩ =
        .ok (onShutdown ⟨stopped t.clear, l, runner, a, false, none, .notCalled, false⟩ res) := by
    intro res hres
    simp only [ConsumerWorkers.quit, hres]
    rfl
  have hdown : Idle runner → ∃ w',
      ConsumerWorkers.quit ⟨ticking t, l, runner, a, false, none, .notCalled, false⟩ = .ok w' ∧ Phase w' ∧
        Effect .quit ⟨ticking t, l, runner, a, false, none, .notCalled, false⟩ w' := by
    intro hi
    have hshutdown : runner.shutdown = .ok (runner, true) := by rcases hi with rfl | rfl <;> rfl
    obtain ⟨hphase, heffect⟩ := Phase.quitLock .notCalled hl ht hat' hi rfl
    exact ⟨_, hquit _ hshutdown, hphase, heffect _ rfl rfl rfl rfl (by simp) (fun _ => rfl)⟩
  rcases hs with (hnew | ⟨workers, rfl⟩) | hi
  · exact hdown (.inl hnew)
  · obtain ⟨res, hres, hphase, heffect⟩ := Phase.shutdownFn (runnerUp workers) .notCalled workers hl ht hat' ha
    refine ⟨_, hquit res ?_, hphase, heffect _ rfl rfl rfl rfl (by simp) (by simp) ?_⟩
    · rw [← hres]
      rfl
    · simp [alive, WorkerRunner.alive]
  · exact hdown hi

theorem Phase.quit (h : Phase w) (hr : w.handle .quit = some r) (hreading : w.reading = false) :
    ∃ w', r = .ok w' ∧ Phase w' ∧ Effect .quit w w' := by
  cases h with
  | waiting hl hs =>
    cases hr
    exact Phase.quitCalled hl (.inl hs) (by simp) (by simp)
  | acquiring hl hs ha =>
    cases hr
    exact Phase.quitCalled hl (.inl hs) (by simp) (by simpa using ha)
  | reading => cases hreading
  | failed hl hs =>
    cases hr
    exact Phase.quitCalled hl hs (by simp) (by simp)
  | _ => cases hr

/-- **No event throws**, and every event leads to another phase, if `quit` is not called while the directory is being
read and the lock is not granted after `quit` was called. -/
theorem Phase.handle {e : Event} (h : Phase w) (hr : w.handle e = some r)
    (hg : w.teardown ≠ .notCalled → w.granted = none) (hquit : e = .quit → w.reading = false) :
    ∃ w', r = .ok w' ∧ Phase w' ∧ Effect e w w' := by
  cases e with
  | timeout => exact h.timeout hr
  | reply => exact h.reply hr hg
  | listing files => exact h.listing hr
  | exit => exact h.exit hr
  | unlocked => exact h.unlocked hr hg
  | quit => exact h.quit hr (hquit rfl)

end

end RedisSmq.Workers
