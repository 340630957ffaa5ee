import RedisSmq.Locks.System

/-!
# Lock managers after `quit`

`NoLockAfterQuit` is what `quit` announces: once its callback was called the manager has no lock, nothing that is under way
gives it one, and `acquireLock` answers that the instance is no longer usable.

`acquireLock` would answer so if `redlock` was null, and nothing sets it to null: in every state in which the callback of
`quit` was called, `acquireLock` goes on to ask for the lock (`noLockAfterQuit_iff`). A request in flight is granted after
the callback, and a retry timer whose handle was lost is not cleared.

When `quit` is called with nothing under way, and `acquireLock` not any more, the manager has no lock after it and gets none
(`quiet_reachable`).
-/

namespace RedisSmq.Locks

open Transition

/-- What `acquireLock` answers after `quit`. -/
def quitError : String := "Instance is no longer usable after calling quit(). Create a new instance."

/-- After the callback of `quit`: no lock, none from what is under way, and no `acquireLock` that is not refused. -/
def NoLockAfterQuit (retryOnFail : Bool) (s : State) : Prop :=
  s.quitDone → s.isLocked = false ∧
    (∀ s', Path (system retryOnFail) (fun _ a => a ≠ .acquireLock) s s' → s'.isLocked = false) ∧
    s.acquireLock = .error quitError

variable {retryOnFail : Bool} {s s' : State}

/-! ## `redlock` -/

theorem redlock_callAcquireLock (s : State) : s.callAcquireLock.redlock = s.redlock := by
  unfold State.callAcquireLock
  split <;> rfl

theorem redlock_callReleaseLock (s : State) (quits : Bool) : (s.callReleaseLock quits).redlock = s.redlock := by
  unfold State.callReleaseLock
  split <;> rfl

theorem redlock_onReply (s : State) (late free : Bool) (reply : RedlockReply) :
    (s.onReply late free reply).redlock = s.redlock := by
  unfold State.onReply
  split <;> rfl

/-- No step sets `redlock` to null. -/
theorem redlock_step {a : Action} (hs : step s a = some s') : s'.redlock = s.redlock := by
  cases a with
  | acquireLock =>
    cases hs
    exact redlock_callAcquireLock s
  | releaseLock =>
    cases hs
    exact redlock_callReleaseLock s false
  | quit =>
    cases hs
    unfold State.callQuit
    split
    · exact redlock_callReleaseLock s true
    · rfl
  | timer =>
    simp only [step] at hs
    split at hs
    · cases hs
      exact redlock_callAcquireLock _
    · cases hs
  | strayTimer =>
    simp only [step] at hs
    split at hs
    · cases hs
    · cases hs
      exact redlock_callAcquireLock _
  | redis =>
    simp only [step, redis] at hs
    split at hs <;> cases hs <;> rfl
  | redisFails =>
    simp only [step, redisFails] at hs
    split at hs <;> cases hs <;> rfl
  | reply =>
    simp only [step, reply] at hs
    split at hs
    · cases hs
    · cases hs
      exact redlock_onReply _ _ _ _
    · cases hs
      rfl
  | expire =>
    cases hs
    rfl
  | take other =>
    simp only [step] at hs
    split at hs <;> cases hs
    rfl

theorem redlock_reachable (h : Reach (system retryOnFail) (fun _ _ => True) s) : s.redlock = true :=
  h.invariant (I := fun s => s.redlock = true) rfl fun _ _ _ hi _ hs => (redlock_step hs).trans hi

/-- `acquireLock` always makes a request. -/
theorem acquireLock_ok (h : s.redlock = true) : ∃ request, s.acquireLock = .ok request := by
  unfold State.acquireLock
  split
  · exact ⟨_, rfl⟩
  · exact ⟨.lock, by rw [if_pos h]⟩

/-- `quit` keeps what it announces only as long as its callback has not been called. -/
theorem noLockAfterQuit_iff (h : Reach (system retryOnFail) (fun _ _ => True) s) :
    NoLockAfterQuit retryOnFail s ↔ s.quitDone = false := by
  cases hdone : s.quitDone with
  | false =>
    refine iff_of_true (fun hdone' => ?_) rfl
    rw [hdone] at hdone'
    cases hdone'
  | true =>
    refine iff_of_false (fun hq => ?_) (fun hfalse => by cases hfalse)
    obtain ⟨-, -, herror⟩ := hq hdone
    obtain ⟨request, hok⟩ := acquireLock_ok (redlock_reachable h)
    rw [hok] at herror
    cases herror

/-- A lock that is acquired, extended and released, and no `quit`. -/
theorem noLockAfterQuit_usedRun : ∃ s, run (system true) (fun _ _ => True) (system true).init
    [.acquireLock, .redis, .reply, .acquireLock, .redis, .reply, .releaseLock, .redis, .reply] = some s ∧
      (NoLockAfterQuit true s ↔ s.quitDone = false) :=
  exists_run (by decide) (fun _ => noLockAfterQuit_iff)

/-- `quit` is called while a request is in flight: its callback is called at once, and then the lock is granted. -/
theorem not_noLockAfterQuit_inFlight :
    ∃ s, Reach (system false) (fun _ _ => True) s ∧ s.isLocked = true ∧ ¬NoLockAfterQuit false s := by
  have hrun : (run (system false) (fun _ _ => True) (system false).init [.acquireLock, .quit, .redis, .reply]).map
      (fun s => (s.quitDone, s.isLocked)) = some (true, true) := by
    decide
  obtain ⟨s, hreach, hs⟩ := exists_reach_of_run hrun
  obtain ⟨hdone, hlocked⟩ := Prod.mk.inj hs
  refine ⟨s, hreach, hlocked, fun hq => ?_⟩
  obtain ⟨hunlocked, -, -⟩ := hq hdone
  rw [hlocked] at hunlocked
  cases hunlocked

/-! ## `quit` with nothing under way -/

def Sent.quits : Sent → Bool
  | .release _ quits => quits
  | .acquire .. => false

def Sent.acquires : Sent → Bool
  | .acquire .. => true
  | .release .. => false

/-- `quit` was called. -/
def State.quitting (s : State) : Bool := s.quitDone || s.calls.any Sent.quits

/-- `quit` is called with no `acquireLock` in flight and no timer whose handle was lost, and after it `acquireLock` is not
called; no request fails. -/
def quitsAlone (s : State) : Action → Bool
  | .acquireLock => !s.quitting
  | .quit => !s.calls.any Sent.acquires && s.stray = 0
  | .redisFails => false
  | _ => true

/-- After `quit` nothing is under way that asks for the lock, and after its callback there is no lock. -/
structure Quiet (s : State) : Prop where
  calls : ∀ c ∈ s.calls, c.acquires = false
  timer : s.manager.timer ≠ .live
  stray : s.stray = 0
  unlocked : s.quitDone = true → s.manager.acquiredLock = none

/-- The invariant of these runs. -/
structure QuietInv (s : State) : Prop where
  redlock : s.redlock = true
  replies : ∀ lock quits, Replied.release lock quits .otherError ∉ s.replied
  quiet : s.quitting = true → Quiet s

theorem quietInv_init (retryOnFail : Bool) : QuietInv (init retryOnFail) where
  redlock := rfl
  replies := fun _ _ h => by cases h
  quiet := fun h => by cases h

/-- Before `quit` the invariant asks for little. -/
theorem quietInv_of_not_quitting (hredlock : s.redlock = true)
    (hreplies : ∀ lock quits, Replied.release lock quits .otherError ∉ s.replied) (hq : s.quitting = false) :
    QuietInv s := by
  refine ⟨hredlock, hreplies, fun hquit => ?_⟩
  rw [hq] at hquit
  cases hquit

/-- While a timer is set, `quit` has not been called. -/
theorem QuietInv.not_quitting (h : QuietInv s) (ht : s.manager.timer = .live ∨ s.stray ≠ 0) : s.quitting = false := by
  cases hquit : s.quitting with
  | false => rfl
  | true =>
    rcases ht with hlive | hstray
    · exact absurd hlive (h.quiet hquit).timer
    · exact absurd (h.quiet hquit).stray hstray

theorem quitting_send (s : State) (c : Sent) :
    State.quitting { s with sent := s.sent ++ [c] } = (s.quitting || c.quits) := by
  simp [State.quitting, State.calls, List.any_append, Bool.or_assoc]

theorem quitting_of_done (h : s.quitDone = true) : s.quitting = true := by
  rw [State.quitting, h, Bool.true_or]

/-- A new call goes to the end. -/
theorem QuietInv.send (h : QuietInv s) {c : Sent}
    (hc : (s.quitting || c.quits) = true → Quiet s ∧ c.acquires = false) : QuietInv { s with sent := s.sent ++ [c] } := by
  refine ⟨h.redlock, h.replies, fun hquit => ?_⟩
  rw [quitting_send] at hquit
  obtain ⟨hquiet, hacquires⟩ := hc hquit
  refine ⟨?_, hquiet.timer, hquiet.stray, hquiet.unlocked⟩
  intro c' hc'
  rw [calls_send, List.mem_append, List.mem_singleton] at hc'
  rcases hc' with hc' | rfl
  · exact hquiet.calls c' hc'
  · exact hacquires

/-- Before `quit` a request for the lock can be made. -/
theorem QuietInv.callAcquireLock (h : QuietInv s) (hq : s.quitting = false) : QuietInv s.callAcquireLock := by
  obtain ⟨request, hok⟩ := acquireLock_ok h.redlock
  have hcall : s.callAcquireLock = { s with sent := s.sent ++ [.acquire request s.answeredFalse] } := by
    simp [State.callAcquireLock, hok]
  rw [hcall]
  refine h.send fun hquit => ?_
  rw [hq] at hquit
  cases hquit

/-- A release keeps the invariant, and so does `quit` when nothing is under way. -/
theorem QuietInv.callReleaseLock (h : QuietInv s) (quits : Bool)
    (hq : quits = true → (∀ c ∈ s.calls, c.acquires = false) ∧ s.stray = 0) : QuietInv (s.callReleaseLock quits) := by
  have htimer := clear_ne_live s.manager.timer
  have hidle : (s.quitting || quits) = true → (∀ c ∈ s.calls, c.acquires = false) ∧ s.stray = 0 := by
    intro hquit
    rcases (Bool.or_eq_true _ _).mp hquit with hquit | hquit
    · exact ⟨(h.quiet hquit).calls, (h.quiet hquit).stray⟩
    · exact hq hquit
  cases hlock : s.manager.acquiredLock with
  | none =>
    rw [callReleaseLock_none hlock]
    refine ⟨h.redlock, h.replies, fun hquit => ?_⟩
    have hquit' : (s.quitting || quits) = true := by
      rw [← hquit]
      simp [State.quitting, State.calls, Bool.or_assoc, Bool.or_comm]
    exact ⟨(hidle hquit').1, htimer, (hidle hquit').2, fun _ => hlock⟩
  | some lock =>
    have hunlocked : s.quitDone = true → s.manager.acquiredLock = none := fun hdone =>
      (h.quiet (quitting_of_done hdone)).unlocked hdone
    have hclear : QuietInv { s with manager := { s.manager with timer := s.manager.timer.clear } } := by
      refine ⟨h.redlock, h.replies, fun hquit => ?_⟩
      have hquiet := h.quiet hquit
      exact ⟨hquiet.calls, htimer, hquiet.stray, hquiet.unlocked⟩
    rw [callReleaseLock_some hlock]
    refine hclear.send fun hquit => ⟨⟨(hidle hquit).1, htimer, (hidle hquit).2, hunlocked⟩, rfl⟩

/-- An answered request stays at its place among the calls. -/
theorem QuietInv.answered (h : QuietInv s) {c : Sent} {rest : List Sent} {r : Replied} (hsent : s.sent = c :: rest)
    (hcall : r.call = c) (hr : ∀ lock quits, r ≠ .release lock quits .otherError) (owner : Option LockValue)
    (serial : ℕ) : QuietInv { s with owner := owner, serial := serial, sent := rest, replied := s.replied ++ [r] } := by
  have hcalls := calls_answered hsent hcall owner serial
  refine ⟨h.redlock, ?_, fun hquit => ?_⟩
  · intro lock quits hmem
    rcases List.mem_append.mp hmem with hmem | hmem
    · exact h.replies lock quits hmem
    · exact hr lock quits (List.mem_singleton.mp hmem).symm
  · rw [State.quitting, hcalls] at hquit
    have hquiet := h.quiet hquit
    refine ⟨?_, hquiet.timer, hquiet.stray, hquiet.unlocked⟩
    rw [hcalls]
    exact hquiet.calls

theorem QuietInv.redis (h : QuietInv s) (hs : redis s = some s') : QuietInv s' := by
  unfold Locks.redis at hs
  split at hs
  · cases hs
  · rename_i request late rest hsent
    cases hs
    exact h.answered hsent rfl (fun lock quits hr => by cases hr) _ _
  · rename_i lock quits rest hsent
    cases hs
    refine h.answered hsent rfl (fun lock' quits' hr => ?_) _ _
    exact unlock_ne_otherError _ _ (Replied.release.inj hr).2.2

/-- A reply arrives: before `quit` anything may, after it only the reply to a release, which takes the lock away. -/
theorem QuietInv.reply (h : QuietInv s) (hs : reply s = some s') : QuietInv s' := by
  unfold Locks.reply at hs
  split at hs
  · cases hs
  · rename_i request late reply free rest hreplied
    cases hs
    have hcalls := calls_replied hreplied
    have hquit : s.quitting = false := by
      cases hquit : s.quitting with
      | false => rfl
      | true => cases (h.quiet hquit).calls _ (hcalls ▸ List.mem_cons_self)
    have hquit' : ({ s with replied := rest }.onReply late free reply).quitting = false := by
      rw [State.quitting, hcalls, List.any_cons] at hquit
      unfold State.onReply
      split <;> exact hquit
    refine ⟨(redlock_onReply _ _ _ _).trans h.redlock, ?_, fun hq => ?_⟩
    · intro lock quits hmem
      have hrest : ({ s with replied := rest }.onReply late free reply).replied = rest := by
        unfold State.onReply
        split <;> rfl
      rw [hrest] at hmem
      exact h.replies lock quits (hreplied ▸ List.mem_cons_of_mem _ hmem)
    · rw [hquit'] at hq
      cases hq
  · rename_i lock quits reply rest hreplied
    cases hs
    have hcalls := calls_replied hreplied
    have hreply : reply ≠ .otherError := by
      rintro rfl
      exact h.replies lock quits (hreplied ▸ List.mem_cons_self)
    rw [onUnlockReply_released hreply]
    refine ⟨h.redlock, ?_, fun hquit => ?_⟩
    · intro lock' quits' hmem
      exact h.replies lock' quits' (hreplied ▸ List.mem_cons_of_mem _ hmem)
    · have hquit' : s.quitting = true := by
        rw [← hquit, State.quitting, State.quitting, hcalls, List.any_cons]
        exact (Bool.or_assoc _ _ _).symm
      have hquiet := h.quiet hquit'
      refine ⟨?_, hquiet.timer, hquiet.stray, fun _ => rfl⟩
      intro c hc
      exact hquiet.calls c (hcalls ▸ List.mem_cons_of_mem _ hc)

/-- Each step keeps the invariant. -/
theorem QuietInv.step {a : Action} (h : QuietInv s) (hk : quitsAlone s a = true) (hs : step s a = some s') :
    QuietInv s' := by
  cases a with
  | acquireLock =>
    cases hs
    exact h.callAcquireLock (by simpa [quitsAlone] using hk)
  | releaseLock =>
    cases hs
    exact h.callReleaseLock false (fun hf => by cases hf)
  | quit =>
    cases hs
    rw [State.callQuit, if_pos h.redlock]
    refine h.callReleaseLock true fun _ => ?_
    simp only [quitsAlone, Bool.and_eq_true, Bool.not_eq_true', List.any_eq_false, decide_eq_true_eq] at hk
    exact ⟨fun c hc => by simpa using hk.1 c hc, hk.2⟩
  | timer =>
    simp only [Locks.step] at hs
    split at hs
    · rename_i hlive
      cases hs
      have hquit : s.quitting = false := h.not_quitting (.inl hlive)
      refine QuietInv.callAcquireLock ?_ hquit
      exact quietInv_of_not_quitting h.redlock h.replies hquit
    · cases hs
  | strayTimer =>
    simp only [Locks.step] at hs
    split at hs
    · cases hs
    · rename_i hstray
      cases hs
      have hquit : s.quitting = false := h.not_quitting (.inr hstray)
      refine QuietInv.callAcquireLock ?_ hquit
      exact quietInv_of_not_quitting h.redlock h.replies hquit
  | redis => exact h.redis hs
  | redisFails => cases hk
  | reply => exact h.reply hs
  | expire =>
    cases hs
    exact ⟨h.redlock, h.replies, fun hq => ⟨(h.quiet hq).calls, (h.quiet hq).timer, (h.quiet hq).stray,
      (h.quiet hq).unlocked⟩⟩
  | take other =>
    simp only [Locks.step] at hs
    split at hs
    · cases hs
      exact ⟨h.redlock, h.replies, fun hq => ⟨(h.quiet hq).calls, (h.quiet hq).timer, (h.quiet hq).stray,
        (h.quiet hq).unlocked⟩⟩
    · cases hs

/-- **No lock after `quit`** in every run in which `quit` is called with nothing under way: what is under way after it does
not ask for the lock, and after its callback the manager has none. -/
theorem quiet_reachable (h : Reach (system retryOnFail) (fun s a => quitsAlone s a = true) s) (hq : s.quitting = true) :
    Quiet s :=
  (h.invariant (I := QuietInv) (quietInv_init _) fun _ _ _ hi hk hs => hi.step hk hs).quiet hq

end RedisSmq.Locks
