import RedisSmq.Locks.System

/-!
# Does the state of a lock manager follow its lock?

`FollowsLock` is what callers expect without `retryOnFail`: the manager is locked only if the last completed `acquireLock`
answered `true` and the lock was not released since, and once an `acquireLock` has answered `false`, a later one on a free
resource is granted.

`acquireLockRetryOnFail` answers `false` and leaves `acquiredLock` as it is: a manager whose lock is gone stays locked, and
every further `acquireLock` extends the lock that is gone. `FollowsLock` holds in all states of the runs in which this does
not happen: whenever a `LockError` arrives the manager has no lock, and after an `acquireLock` has answered `false`, none is
called while a `releaseLock` is in flight (`followsLock_reachable`).
-/

namespace RedisSmq.Locks

open Transition

/-- The state of the manager follows its lock. -/
structure FollowsLock (s : State) : Prop where
  locked : s.isLocked → s.last = some (.locked true) ∧ s.released = false
  granted : s.refused = false

def Sent.isRelease : Sent → Bool
  | .release .. => true
  | .acquire .. => false

/-- Redlock answers as documented, and the manager is not refused while it has a lock. -/
def keepsLock (s : State) : Action → Bool
  | .redisFails => false
  | .reply =>
    match s.replied with
    | .acquire _ _ .lockError _ :: _ => s.manager.acquiredLock.isNone
    | _ => true
  | .acquireLock => !(s.answeredFalse && s.calls.any Sent.isRelease)
  | _ => true

/-! ## The invariant -/

/-- An `acquireLock` that extends, made after one that answered `false`. -/
def Sent.LateExtend : Sent → Prop
  | .acquire (.extend _) true => True
  | _ => False

/-- A reply of redlock as documented: on a free resource a `lock` is granted. -/
def Replied.Documented : Replied → Prop
  | .acquire .lock _ reply free => (∃ lock, reply = .lock lock) ∨ (reply = .lockError ∧ free = false)
  | .acquire (.extend _) _ reply _ => (∃ lock, reply = .lock lock) ∨ reply = .lockError
  | .release _ _ reply => reply = .unlocked ∨ reply = .lockError

/-- What holds in all states of these runs. The lock of a late extension is still there when its reply arrives: no call that
takes it away is in flight before it. -/
structure Inv (s : State) : Prop where
  follows : FollowsLock s
  redlock : s.redlock = true
  retryOnFail : s.manager.retryOnFail = false
  timer : s.manager.timer ≠ .live
  stray : s.stray = 0
  documented : ∀ c ∈ s.replied, c.Documented
  late : ∀ c ∈ s.calls, c.LateExtend → s.isLocked
  order : s.calls.Pairwise fun c c' => c'.LateExtend → c.isRelease = false

theorem inv_init : Inv (init false) where
  follows := ⟨fun h => (by cases h), rfl⟩
  redlock := rfl
  retryOnFail := rfl
  timer := by decide
  stray := rfl
  documented := fun c hc => by cases hc
  late := fun c hc => by cases hc
  order := .nil

variable {s s' : State}

/-- A new call goes to the end. -/
theorem Inv.send (h : Inv s) {c : Sent} (hlate : c.LateExtend → s.isLocked)
    (horder : c.LateExtend → ∀ c' ∈ s.calls, c'.isRelease = false) : Inv { s with sent := s.sent ++ [c] } := by
  refine ⟨⟨h.follows.locked, h.follows.granted⟩, h.redlock, h.retryOnFail, h.timer, h.stray, h.documented, ?_, ?_⟩
  · intro c' hc' hl
    rw [calls_send, List.mem_append, List.mem_singleton] at hc'
    rcases hc' with hc' | rfl
    · exact h.late c' hc' hl
    · exact hlate hl
  · rw [calls_send]
    refine List.pairwise_append.mpr ⟨h.order, List.pairwise_singleton _ _, ?_⟩
    intro c₁ hc₁ c₂ hc₂ hl
    rw [List.mem_singleton.mp hc₂] at hl
    exact horder hl c₁ hc₁

theorem Inv.callAcquireLock (h : Inv s) (hc : (s.answeredFalse && s.calls.any Sent.isRelease) = false) :
    Inv s.callAcquireLock := by
  have hnone : s.answeredFalse = true → ∀ c ∈ s.calls, c.isRelease = false := by
    intro ha c hcalls
    rw [ha, Bool.true_and, List.any_eq_false] at hc
    simpa using hc c hcalls
  cases hlock : s.manager.acquiredLock with
  | none =>
    have hcall : s.callAcquireLock = { s with sent := s.sent ++ [.acquire .lock s.answeredFalse] } := by
      simp [State.callAcquireLock, State.acquireLock, hlock, h.redlock]
    rw [hcall]
    exact h.send (fun hl => hl.elim) (fun hl => hl.elim)
  | some lock =>
    have hcall : s.callAcquireLock = { s with sent := s.sent ++ [.acquire (.extend lock) s.answeredFalse] } := by
      simp [State.callAcquireLock, State.acquireLock, hlock]
    rw [hcall]
    refine h.send (fun _ => by simp [State.isLocked, hlock]) ?_
    intro hl
    cases ha : s.answeredFalse with
    | false => rw [ha] at hl; exact hl.elim
    | true => exact hnone ha

theorem Inv.callReleaseLock (h : Inv s) (quits : Bool) : Inv (s.callReleaseLock quits) := by
  have htimer := clear_ne_live s.manager.timer
  cases hlock : s.manager.acquiredLock with
  | none =>
    rw [callReleaseLock_none hlock]
    refine ⟨⟨fun hl => ?_, h.follows.granted⟩, h.redlock, h.retryOnFail, htimer, h.stray, h.documented, h.late, h.order⟩
    have hl' : s.manager.acquiredLock.isSome := hl
    rw [hlock] at hl'
    cases hl'
  | some lock =>
    rw [callReleaseLock_some hlock]
    have hclear : Inv { s with manager := { s.manager with timer := s.manager.timer.clear } } :=
      ⟨⟨h.follows.locked, h.follows.granted⟩, h.redlock, h.retryOnFail, htimer, h.stray, h.documented, h.late, h.order⟩
    exact hclear.send (fun hl => hl.elim) (fun hl => hl.elim)

/-- What Redis answers is as documented. -/
theorem documented_serve (owner : Option LockValue) (own : LockValue) (request : LockRequest) (late : Bool) :
    (Replied.acquire request late (serve owner own request).2 owner.isNone).Documented := by
  cases request with
  | lock =>
    cases owner with
    | none => exact .inl ⟨own, rfl⟩
    | some lock => exact .inr ⟨rfl, rfl⟩
  | extend lock =>
    by_cases hown : owner = some lock
    · exact .inl ⟨lock, by simp [serve, hown]⟩
    · exact .inr (by simp [serve, hown])

theorem documented_unlock (owner : Option LockValue) (lock : LockValue) (quits : Bool) :
    (Replied.release lock quits (unlock owner lock).2).Documented := by
  by_cases hown : owner = some lock
  · exact .inl (by simp [unlock, hown])
  · exact .inr (by simp [unlock, hown])

/-- An answered request stays at its place among the calls. -/
theorem Inv.answered (h : Inv s) {c : Sent} {rest : List Sent} {r : Replied} (hsent : s.sent = c :: rest)
    (hcall : r.call = c) (hr : r.Documented) (owner : Option LockValue) (serial : ℕ) :
    Inv { s with owner := owner, serial := serial, sent := rest, replied := s.replied ++ [r] } := by
  have hcalls := calls_answered hsent hcall owner serial
  refine ⟨⟨h.follows.locked, h.follows.granted⟩, h.redlock, h.retryOnFail, h.timer, h.stray, ?_, ?_, ?_⟩
  · intro c' hc'
    rcases List.mem_append.mp hc' with hc' | hc'
    · exact h.documented c' hc'
    · rwa [List.mem_singleton.mp hc']
  · rw [hcalls]
    exact h.late
  · rw [hcalls]
    exact h.order

theorem Inv.redis (h : Inv s) (hs : redis s = some s') : Inv s' := by
  unfold Locks.redis at hs
  split at hs
  · cases hs
  · rename_i request late rest hsent
    cases hs
    exact h.answered hsent rfl (documented_serve _ _ _ _) _ _
  · rename_i lock quits rest hsent
    cases hs
    exact h.answered hsent rfl (documented_unlock _ _ _) _ _

/-- A granted lock is taken. -/
theorem Inv.onGranted {rest : List Replied} (h : Inv s) {r : Replied} (hreplied : s.replied = r :: rest)
    (late free : Bool) (lock : LockValue) : Inv ({ s with replied := rest }.onReply late free (.lock lock)) := by
  have hcalls := calls_replied hreplied
  have horder := h.order
  rw [hcalls] at horder
  have hrefused : (s.refused || (late && free && decide (LockAnswer.locked true ≠ LockAnswer.locked true))) = false := by
    simp [h.follows.granted]
  refine ⟨⟨fun _ => ⟨rfl, rfl⟩, hrefused⟩, h.redlock, h.retryOnFail, h.timer, h.stray, ?_, fun _ _ _ => rfl,
    (List.pairwise_cons.mp horder).2⟩
  intro c hc
  exact h.documented c (hreplied ▸ List.mem_cons_of_mem _ hc)

/-- A refusal that finds no lock in the manager was not one of a free resource. -/
theorem Inv.onRefused {rest : List Replied} (h : Inv s) {request : LockRequest} {late free : Bool}
    (hreplied : s.replied = .acquire request late .lockError free :: rest) (hnone : s.manager.acquiredLock = none) :
    Inv ({ s with replied := rest }.onReply late free .lockError) := by
  have hcalls := calls_replied hreplied
  have hunlocked : s.isLocked = false := by simp [State.isLocked, hnone]
  have hheld : (late && free) = false := by
    have hdoc := h.documented _ (hreplied ▸ List.mem_cons_self)
    cases request with
    | lock =>
      rcases hdoc with ⟨lock, hlock⟩ | ⟨-, hfree⟩
      · cases hlock
      · rw [hfree, Bool.and_false]
    | extend lock =>
      cases late with
      | false => rfl
      | true =>
        have hlate : Sent.LateExtend (.acquire (.extend lock) true) := trivial
        have hlocked : s.isLocked := h.late _ (hcalls ▸ List.mem_cons_self) hlate
        rw [hunlocked] at hlocked
        cases hlocked
  have hcall : { s with replied := rest }.onReply late free .lockError =
      { s with replied := rest, last := some (.locked false), released := false, answeredFalse := true } := by
    simp [State.onReply, LockManager.handleRedlockReply, LockManager.acquireLockRetryOnFail, h.retryOnFail, State.answer,
      hheld]
  have horder := h.order
  rw [hcalls] at horder
  rw [hcall]
  refine ⟨⟨fun hl => ?_, h.follows.granted⟩, h.redlock, h.retryOnFail, h.timer, h.stray, ?_, ?_,
    (List.pairwise_cons.mp horder).2⟩
  · have hl' : s.isLocked := hl
    rw [hunlocked] at hl'
    cases hl'
  · intro c hc
    exact h.documented c (hreplied ▸ List.mem_cons_of_mem _ hc)
  · intro c hc hl
    exact h.late c (hcalls ▸ List.mem_cons_of_mem _ hc) hl

/-- A release takes the lock away, and no late extension is behind it. -/
theorem Inv.onReleased {rest : List Replied} (h : Inv s) {lock : LockValue} {quits : Bool} {reply : UnlockReply}
    (hreplied : s.replied = .release lock quits reply :: rest) :
    Inv ({ s with replied := rest }.onUnlockReply quits reply) := by
  have hcalls := calls_replied hreplied
  have hdoc := h.documented _ (hreplied ▸ List.mem_cons_self)
  have hreply : reply ≠ .otherError := by
    rintro rfl
    rcases hdoc with hdoc | hdoc <;> cases hdoc
  have horder := h.order
  rw [hcalls] at horder
  obtain ⟨hhead, htail⟩ := List.pairwise_cons.mp horder
  rw [onUnlockReply_released hreply]
  refine ⟨⟨fun hl => (by cases hl), h.follows.granted⟩, h.redlock, h.retryOnFail, h.timer, h.stray, ?_, ?_, htail⟩
  · intro c hc
    exact h.documented c (hreplied ▸ List.mem_cons_of_mem _ hc)
  · intro c hc hl
    cases hhead c hc hl

theorem Inv.reply (h : Inv s) (hk : keepsLock s .reply = true) (hs : reply s = some s') : Inv s' := by
  unfold Locks.reply at hs
  split at hs
  · cases hs
  · rename_i request late reply free rest hreplied
    cases hs
    have hdoc := h.documented _ (hreplied ▸ List.mem_cons_self)
    have hreply : (∃ lock, reply = .lock lock) ∨ reply = .lockError := by
      cases request with
      | lock => exact hdoc.imp_right And.left
      | extend lock => exact hdoc
    rcases hreply with ⟨lock, rfl⟩ | rfl
    · exact h.onGranted hreplied late free lock
    · simp only [keepsLock, hreplied, Option.isNone_iff_eq_none] at hk
      exact h.onRefused hreplied hk
  · rename_i lock quits reply rest hreplied
    cases hs
    exact h.onReleased hreplied

/-! ## Runs -/

/-- Each step keeps the invariant. -/
theorem Inv.step {a : Action} (h : Inv s) (hk : keepsLock s a = true) (hs : step s a = some s') : Inv s' := by
  cases a with
  | acquireLock =>
    cases hs
    exact h.callAcquireLock (by simpa only [keepsLock, Bool.not_eq_true'] using hk)
  | releaseLock =>
    cases hs
    exact h.callReleaseLock false
  | quit =>
    cases hs
    rw [State.callQuit, if_pos h.redlock]
    exact h.callReleaseLock true
  | timer =>
    simp only [Locks.step, if_neg h.timer] at hs
    cases hs
  | strayTimer =>
    simp only [Locks.step, if_pos h.stray] at hs
    cases hs
  | redis => exact h.redis hs
  | redisFails => cases hk
  | reply => exact h.reply hk hs
  | expire =>
    cases hs
    exact ⟨⟨h.follows.locked, h.follows.granted⟩, h.redlock, h.retryOnFail, h.timer, h.stray, h.documented, h.late, h.order⟩
  | take other =>
    simp only [Locks.step] at hs
    split at hs
    · cases hs
      exact ⟨⟨h.follows.locked, h.follows.granted⟩, h.redlock, h.retryOnFail, h.timer, h.stray, h.documented, h.late,
        h.order⟩
    · cases hs

/-- A manager that is refused while it has a lock does not follow it any more. -/
theorem not_followsLock_of_refused {request : LockRequest} {late free : Bool} {rest : List Replied}
    (hretry : s.manager.retryOnFail = false) (hreplied : s.replied = .acquire request late .lockError free :: rest)
    (hlocked : s.isLocked) (hs : reply s = some s') : ¬FollowsLock s' := by
  have hs' : some ({ s with replied := rest }.onReply late free .lockError) = some s' := by
    rw [← hs, Locks.reply, hreplied]
  simp only [State.onReply, LockManager.handleRedlockReply, LockManager.acquireLockRetryOnFail, hretry,
    Bool.false_eq_true, if_false, Option.some.injEq] at hs'
  subst hs'
  intro h
  obtain ⟨hlast, -⟩ := h.locked hlocked
  cases hlast

/-- **The state of the manager follows its lock** in every run in which it is not refused while it has a lock. -/
theorem followsLock_reachable (h : Reach (system false) (fun s a => keepsLock s a = true) s) : FollowsLock s :=
  (h.invariant (I := Inv) inv_init fun _ _ _ hi hk hs => hi.step hk hs).follows

/-- The lock is taken by others first, then acquired, extended and released. -/
def followedRun : List Action :=
  [.take "other", .acquireLock, .redis, .reply, .expire, .acquireLock, .redis, .reply, .acquireLock, .redis, .reply,
    .releaseLock, .redis, .reply]

theorem followsLock_followedRun : ∃ s, run (system false) (fun s a => keepsLock s a = true) (system false).init
    followedRun = some s ∧ FollowsLock s :=
  exists_run (by decide) (fun _ => followsLock_reachable)

/-- The lock expires before it is extended: the manager is locked although it was refused, and is refused again although
the resource is free. -/
theorem not_followsLock_expired :
    ∃ s, Reach (system false) (fun _ a => a ≠ Action.redisFails) s ∧ s.owner = none ∧ s.isLocked = true ∧ ¬FollowsLock s := by
  have hrun : (run (system false) (fun _ a => a ≠ Action.redisFails) (system false).init
      [.acquireLock, .redis, .reply, .expire, .acquireLock, .redis, .reply, .acquireLock, .redis, .reply]).map
        (fun s => (s.owner, s.isLocked, s.refused)) = some (none, true, true) := by
    decide
  obtain ⟨s, hreach, hs⟩ := exists_reach_of_run hrun
  obtain ⟨howner, hs⟩ := Prod.mk.inj hs
  obtain ⟨hlocked, hrefused⟩ := Prod.mk.inj hs
  refine ⟨s, hreach, howner, hlocked, fun h => ?_⟩
  rw [h.granted] at hrefused
  cases hrefused

end RedisSmq.Locks
