import RedisSmq.Workers.Phases

/-!
# What `quit` leaves behind

Each step of `quit` looks at its own component only: the ticker is stopped, workers are killed when the runner is up, the
lock is released when there is one. A request for the lock that is granted later, or a directory that is read later,
starts workers of an instance that has quit (`not_leavesNothing_acquiring`). If `quit` is called while neither is
outstanding, nothing is left (`leavesNothing_reachable`).
-/

namespace RedisSmq.Workers

open Transition

/-- Redis or the reply on its way may grant the lock. -/
def grantable (owner : Option LockValue) : Option (Request LockRequest RedlockReply) → Bool
  | some ⟨_, some (.lock _)⟩ => true
  | some ⟨.lock, none⟩ => true
  | some ⟨.extend lock, none⟩ => owner = some lock
  | _ => false

/-- `quit` of the instance is called while no request for the lock can be granted and the directory is not being read. -/
def quitsSettled (id : String) (s : State) : Action → Bool
  | .event id' .quit =>
    id' ≠ id || (!(s.instances id).reading && !grantable s.owner (s.instances id).acquiring)
  | _ => true

/-- Of the instance, no worker is alive, and it does not hold the lock. -/
structure LeavesNothing (s : State) (id : String) : Prop where
  workers : (s.instances id).alive = []
  acquiredLock : (s.instances id).lockerManager.acquiredLock = none
  lock : ∀ lock, s.owner = some lock → lock.holder ≠ id

/-- The invariant of an instance. -/
structure Inv (id : String) (s : State) : Prop where
  phase : Phase (s.instances id)
  mentions : ∀ lock, (s.instances id).Mentions lock → lock.holder = id ∧ lock.serial < s.serial
  settled : (s.instances id).teardown ≠ .notCalled → grantable s.owner (s.instances id).acquiring = false
  known : ∀ lock, s.owner = some lock → lock.holder = id → (s.instances id).claim = some lock
  unlocked : ∀ lock reply, (s.instances id).unlocking = some ⟨lock, some reply⟩ → s.owner ≠ some lock

section

variable {s s' : State} {id : String} {w w' : ConsumerWorkers} {e : Event} {lock : LockValue}
variable {owner : Option LockValue} {a : Option (Request LockRequest RedlockReply)}

open ConsumerWorkers

theorem granted_of_grantable (h : grantable owner w.acquiring = false) : w.granted = none := by
  unfold granted
  split
  · rename_i hreq
    rw [hreq] at h
    cases h
  · rfl

/-- A request that can not be granted can be granted later only if its lock is held later. -/
theorem grantable_eq_false {owner' : Option LockValue} (h : grantable owner a = false)
    (hlock : ∀ lock, a = some ⟨.extend lock, none⟩ → owner' = some lock → owner = some lock) :
    grantable owner' a = false := by
  match a, h with
  | none, _ => rfl
  | some ⟨_, some reply⟩, h => cases reply <;> exact h
  | some ⟨.extend lock, none⟩, h =>
    simp only [grantable, decide_eq_false_iff_not] at h ⊢
    exact fun ho => h (hlock lock rfl ho)

/-- What the lock may become by a step of another instance. -/
structure OwnerStep (id : String) (s s' : State) : Prop where
  serial : s.serial ≤ s'.serial
  owner : ∀ lock, s'.owner = some lock → s.owner = some lock ∨ lock.holder ≠ id ∧ s.serial ≤ lock.serial

/-- Steps of others keep the invariant. -/
theorem Inv.of_same (h : Inv id s) (hw : s'.instances id = s.instances id) (ho : OwnerStep id s s') : Inv id s' := by
  have hnew : ∀ lock, (s.instances id).Mentions lock → s'.owner = some lock → s.owner = some lock := by
    intro lock hm hlock
    rcases ho.owner lock hlock with hold | ⟨_, hle⟩
    · exact hold
    · exact absurd (h.mentions lock hm).2 (by omega)
  refine ⟨hw ▸ h.phase, fun lock hm => ?_, fun hcalled => ?_, fun lock hlock hid => ?_, fun lock reply hu hlock => ?_⟩
  · rw [hw] at hm
    exact ⟨(h.mentions lock hm).1, Nat.lt_of_lt_of_le (h.mentions lock hm).2 ho.serial⟩
  · rw [hw] at hcalled ⊢
    exact grantable_eq_false (h.settled hcalled) (fun lock ha hlock => hnew lock (.inr (.inl ⟨_, ha⟩)) hlock)
  · rw [hw]
    rcases ho.owner lock hlock with hold | ⟨hne, _⟩
    · exact h.known lock hold hid
    · exact absurd hid hne
  · rw [hw] at hu
    exact h.unlocked lock reply hu (hnew lock (.inr (.inr (.inr ⟨_, hu⟩))) hlock)

/-- The events of the instance keep the invariant. -/
theorem Inv.event {r : Except String ConsumerWorkers} (h : Inv id s) (hr : (s.instances id).handle e = some r)
    (hp : quitsSettled id s (.event id e) = true) :
    ∃ w', r = .ok w' ∧ Effect e (s.instances id) w' ∧ Inv id (s.set id w') := by
  have hquit : e = .quit → (s.instances id).reading = false ∧ grantable s.owner (s.instances id).acquiring = false := by
    rintro rfl
    simpa [quitsSettled] using hp
  obtain ⟨w', rfl, hphase, heffect⟩ :=
    h.phase.handle hr (fun hcalled => granted_of_grantable (h.settled hcalled)) (fun he => (hquit he).1)
  refine ⟨w', rfl, heffect, ?_, fun lock hm => ?_, fun hcalled => ?_, fun lock hlock hid => ?_, fun lock reply hu => ?_⟩
  · rwa [State.set_self]
  · rw [State.set_self] at hm
    exact h.mentions lock (heffect.mentions lock hm)
  · rw [State.set_self] at hcalled ⊢
    have hsettled : grantable s.owner (s.instances id).acquiring = false :=
      (heffect.called hcalled).elim h.settled (fun he => (hquit he).2)
    rcases heffect.acquiring hcalled with ha | ha <;> rw [ha]
    · exact hsettled
    · rfl
  · rw [State.set_self]
    have hclaim := h.known lock hlock hid
    rcases heffect.claim with heq | ⟨_, lock', reply, hu, hlock'⟩
    · rw [heq, hclaim]
    · rw [hclaim] at hlock'
      cases hlock'
      exact absurd hlock (h.unlocked lock reply hu)
  · rw [State.set_self] at hu
    exact h.unlocked lock reply (heffect.unlocking lock reply hu)

/-- An event of the instance is handled without an exception, and keeps the invariant. -/
theorem Inv.step_event (h : Inv id s) (hp : quitsSettled id s (.event id e) = true)
    (hs : Workers.step s (.event id e) = some s') :
    ∃ w', s' = s.set id w' ∧ Effect e (s.instances id) w' ∧ Inv id (s.set id w') := by
  simp only [Workers.step] at hs
  split at hs
  · cases hs
  · split at hs <;> rename_i hr <;> cases hs
    · obtain ⟨w', hw', heffect, hi⟩ := h.event hr hp
      cases hw'
      exact ⟨_, rfl, heffect, hi⟩
    · obtain ⟨w', hw', _⟩ := h.event hr hp
      cases hw'

/-- A reply that grants nothing leaves the claims of the instance as they are. -/
theorem claim_reply {request : LockRequest} {reply : RedlockReply} (ha : w.acquiring = some ⟨request, none⟩)
    (hreply : ∀ lock, reply ≠ .lock lock) :
    ({ w with acquiring := some ⟨request, some reply⟩ } : ConsumerWorkers).granted = none ∧
      ({ w with acquiring := some ⟨request, some reply⟩ } : ConsumerWorkers).claim = w.claim := by
  have hgranted : w.granted = none := by simp only [granted, ha]
  have hgranted' : ({ w with acquiring := some ⟨request, some reply⟩ } : ConsumerWorkers).granted = none := by
    cases reply with
    | lock lock => exact absurd rfl (hreply lock)
    | _ => rfl
  exact ⟨hgranted', by rw [claim, claim, hgranted, hgranted']⟩

/-- A reply to a request leaves the instance in its phase. -/
theorem Phase.setReply {request : LockRequest} {reply : RedlockReply} (h : Phase w)
    (ha : w.acquiring = some ⟨request, none⟩) : Phase { w with acquiring := some ⟨request, some reply⟩ } := by
  cases h with
  | acquiring hl hs hreq => cases ha; exact .acquiring hl hs hreq
  | shutdownWorkers hl ht hat hreq =>
    cases ha
    exact .shutdownWorkers hl ht (fun _ => hat (by simp)) (fun x hx => by cases hx; exact hreq ⟨request, none⟩ rfl)
  | releaseLock hl ht hat hi hlock hu => cases ha; exact .releaseLock hl ht (fun _ => hat (by simp)) hi hlock hu
  | done hl ht hat hi hlock => cases ha; exact .done hl ht (fun _ => hat (by simp)) hi hlock
  | _ => cases ha

/-- A reply that grants nothing keeps the invariant. -/
theorem Inv.refuse {request : LockRequest} {reply : RedlockReply} (h : Inv id s)
    (ha : (s.instances id).acquiring = some ⟨request, none⟩) (hreply : ∀ lock, reply ≠ .lock lock) :
    Inv id (s.setReply id request reply) := by
  obtain ⟨hgranted, hclaim⟩ := claim_reply ha hreply
  refine ⟨?_, fun lock hm => ?_, fun _ => ?_, fun lock hlock hid => ?_, fun lock reply hu => ?_⟩
  · rw [State.setReply, State.set_self]
    exact h.phase.setReply ha
  · rw [State.setReply, State.set_self] at hm
    refine h.mentions lock ?_
    rcases hm with hm | ⟨_, hm⟩ | hm | ⟨_, hm⟩
    · exact .inl hm
    · cases hm
      exact .inr (.inl ⟨_, ha⟩)
    · rw [hgranted] at hm
      cases hm
    · exact .inr (.inr (.inr ⟨_, hm⟩))
  · rw [State.setReply, State.set_self]
    cases reply with
    | lock lock => exact absurd rfl (hreply lock)
    | _ => cases request <;> rfl
  · rw [State.setReply, State.set_self, hclaim]
    exact h.known lock hlock hid
  · rw [State.setReply, State.set_self] at hu
    exact h.unlocked lock reply hu

/-- Granting the lock keeps the invariant of an instance that has not quit. -/
theorem Inv.grant {request : LockRequest} (h : Inv id s) (ha : (s.instances id).acquiring = some ⟨request, none⟩)
    (hcalled : (s.instances id).teardown = .notCalled) (hid : lock.holder = id) (howner : s'.owner = some lock)
    (hserial : s.serial ≤ s'.serial) (hlt : lock.serial < s'.serial)
    (hw : s'.instances id = { s.instances id with acquiring := some ⟨request, some (.lock lock)⟩ }) : Inv id s' := by
  have hunlocking : (s.instances id).unlocking = none := by
    have hphase := h.phase
    generalize s.instances id = w at hphase hcalled
    cases hphase <;> first | rfl | cases hcalled
  refine ⟨?_, fun lock' hm => ?_, fun hne => ?_, fun lock' hlock' _ => ?_, fun lock' reply hu => ?_⟩
  · rw [hw]
    exact h.phase.setReply ha
  · rw [hw] at hm
    have hold : (s.instances id).Mentions lock' → lock'.holder = id ∧ lock'.serial < s'.serial := fun hm =>
      ⟨(h.mentions lock' hm).1, Nat.lt_of_lt_of_le (h.mentions lock' hm).2 hserial⟩
    rcases hm with hm | ⟨_, hm⟩ | hm | ⟨_, hm⟩
    · exact hold (.inl hm)
    · cases hm
      exact hold (.inr (.inl ⟨_, ha⟩))
    · cases hm
      exact ⟨hid, hlt⟩
    · exact hold (.inr (.inr (.inr ⟨_, hm⟩)))
  · rw [hw] at hne
    exact absurd hcalled hne
  · rw [hw]
    rw [howner] at hlock'
    exact hlock'
  · rw [hw] at hu
    cases hunlocking.symm.trans hu

/-- Redis answers the request of the instance. -/
theorem Inv.redis (h : Inv id s) (hs : s.redis id = some s') : Inv id s' := by
  have hcalled : grantable s.owner (s.instances id).acquiring = true → (s.instances id).teardown = .notCalled := by
    intro hg
    by_contra hne
    rw [h.settled hne] at hg
    cases hg
  unfold State.redis at hs
  split at hs
  · rename_i ha
    split at hs <;> cases hs
    · exact h.grant ha (hcalled (by rw [ha]; rfl)) rfl rfl (Nat.le_succ _) (Nat.lt_succ_self _) (State.set_self ..)
    · exact h.refuse ha (by simp)
  · rename_i lock ha
    cases hs
    split
    · rename_i howner
      have hm := h.mentions lock (.inr (.inl ⟨_, ha⟩))
      exact h.grant ha (hcalled (by simp [ha, grantable, howner])) hm.1 howner (Nat.le_refl _) hm.2 (State.set_self ..)
    · exact h.refuse ha (by simp)
  · cases hs

/-- The answer to the request that releases the lock keeps the invariant: the lock is not held any more. -/
theorem Inv.unlockReply {reply : UnlockReply} (h : Inv id s) (hu : (s.instances id).unlocking = some ⟨lock, none⟩)
    (hreply : reply ≠ .otherError) (howner : ∀ lock', s'.owner = some lock' → s.owner = some lock' ∧ lock' ≠ lock)
    (hserial : s'.serial = s.serial)
    (hw : s'.instances id = { s.instances id with unlocking := some ⟨lock, some reply⟩ }) : Inv id s' := by
  refine ⟨?_, fun lock' hm => ?_, fun hcalled => ?_, fun lock' hlock' hid => ?_, fun lock' reply' hu' hlock' => ?_⟩
  · rw [hw]
    have hphase := h.phase
    generalize s.instances id = w at hphase hu
    cases hphase with
    | releaseLock hl ht hat hi hlock _ =>
      cases hu
      exact .releaseLock hl ht hat hi hlock (by simpa using hreply)
    | _ => cases hu
  · rw [hw] at hm
    rw [hserial]
    refine h.mentions lock' ?_
    rcases hm with hm | hm | hm | ⟨_, hm⟩
    · exact .inl hm
    · exact .inr (.inl hm)
    · exact .inr (.inr (.inl hm))
    · cases hm
      exact .inr (.inr (.inr ⟨_, hu⟩))
  · rw [hw] at hcalled ⊢
    exact grantable_eq_false (h.settled hcalled) (fun lock' _ hlock' => (howner lock' hlock').1)
  · rw [hw]
    exact h.known lock' (howner lock' hlock').1 hid
  · rw [hw] at hu'
    cases hu'
    exact (howner _ hlock').2 rfl

/-- Redis answers the request of the instance that releases the lock. -/
theorem Inv.redisUnlock (h : Inv id s) (hs : s.redisUnlock id = some s') : Inv id s' := by
  unfold State.redisUnlock at hs
  split at hs
  · rename_i lock hu
    split at hs <;> rename_i howner <;> cases hs
    · exact h.unlockReply hu (by simp) (fun lock' h' => by cases h') rfl (State.set_self ..)
    · refine h.unlockReply hu (by simp) (fun lock' h' => ⟨h', ?_⟩) rfl (State.set_self ..)
      rintro rfl
      exact howner h'
  · cases hs

/-- Redis draws a new value for another instance that it grants the lock. -/
theorem redis_other {id' : String} (hne : id' ≠ id) (hs : s.redis id' = some s') :
    s'.instances id = s.instances id ∧ OwnerStep id s s' := by
  unfold State.redis at hs
  split at hs
  · split at hs <;> cases hs
    · refine ⟨State.set_of_ne _ _ hne.symm, Nat.le_succ _, fun lock hlock => ?_⟩
      cases hlock
      exact .inr ⟨hne, Nat.le_refl _⟩
    · exact ⟨State.set_of_ne _ _ hne.symm, Nat.le_refl _, fun _ hlock => .inl hlock⟩
  · cases hs
    exact ⟨State.set_of_ne _ _ hne.symm, Nat.le_refl _, fun _ hlock => .inl hlock⟩
  · cases hs

theorem redisUnlock_other {id' : String} (hne : id' ≠ id) (hs : s.redisUnlock id' = some s') :
    s'.instances id = s.instances id ∧ OwnerStep id s s' := by
  unfold State.redisUnlock at hs
  split at hs
  · split at hs <;> cases hs
    · exact ⟨State.set_of_ne _ _ hne.symm, Nat.le_refl _, fun _ hlock => by cases hlock⟩
    · exact ⟨State.set_of_ne _ _ hne.symm, Nat.le_refl _, fun _ hlock => .inl hlock⟩
  · cases hs

/-- Every step keeps the invariant. -/
theorem Inv.step {action : Action} (h : Inv id s) (hp : quitsSettled id s action = true)
    (hs : Workers.step s action = some s') : Inv id s' := by
  have hset : ∀ {id' : String} {w : ConsumerWorkers}, id' ≠ id → Inv id (s.set id' w) := fun hne =>
    h.of_same (State.set_of_ne s _ hne.symm) ⟨Nat.le_refl _, fun _ hlock => .inl hlock⟩
  cases action with
  | event id' e =>
    by_cases hid : id' = id
    · subst hid
      obtain ⟨w', rfl, _, hi⟩ := h.step_event hp hs
      exact hi
    · obtain ⟨w', rfl⟩ := Workers.step_event hs
      exact hset hid
  | redis id' =>
    by_cases hid : id' = id
    · subst hid
      exact h.redis hs
    · obtain ⟨hw, ho⟩ := redis_other hid hs
      exact h.of_same hw ho
  | redisFails id' =>
    simp only [Workers.step] at hs
    split at hs <;> cases hs
    rename_i ha
    by_cases hid : id' = id
    · subst hid
      exact h.refuse ha (by simp)
    · exact hset hid
  | redisUnlock id' =>
    by_cases hid : id' = id
    · subst hid
      exact h.redisUnlock hs
    · obtain ⟨hw, ho⟩ := redisUnlock_other hid hs
      exact h.of_same hw ho
  | expire =>
    cases hs
    exact h.of_same rfl ⟨Nat.le_refl _, fun lock hlock => by cases hlock⟩

theorem Inv.init (id : String) : Inv id init := by
  refine ⟨.waiting rfl (.inl rfl), fun lock hm => ?_, fun h => absurd rfl h, nofun, nofun⟩
  rcases hm with h | ⟨_, h⟩ | h | ⟨_, h⟩ <;> cases h

theorem inv_reachable (h : Reach system (fun s a => quitsSettled id s a = true) s) : Inv id s :=
  h.invariant (Inv.init id) (fun _ _ _ hi hp hs => hi.step hp hs)

/-- An instance whose callback of `quit` was called has no worker and no lock. -/
theorem Inv.leavesNothing (h : Inv id s) (hdone : (s.instances id).teardown = .done) : LeavesNothing s id := by
  have hgranted : (s.instances id).granted = none := granted_of_grantable (h.settled (by rw [hdone]; simp))
  have hphase := h.phase
  have hrest : (s.instances id).alive = [] ∧ (s.instances id).lockerManager.acquiredLock = none := by
    generalize s.instances id = w at hphase hdone
    cases hphase with
    | done _ _ _ hi hlock => exact ⟨by rcases hi with rfl | rfl <;> rfl, hlock⟩
    | _ => cases hdone
  refine ⟨hrest.1, hrest.2, fun lock howner hid => ?_⟩
  have hclaim := h.known lock howner hid
  rw [claim, hgranted, hrest.2] at hclaim
  cases hclaim

/-- Only events of an instance change how far its `quit` has come. -/
theorem step_teardown (id : String) {action : Action} (hs : Workers.step s action = some s') :
    (∃ e, action = .event id e) ∨ (s'.instances id).teardown = (s.instances id).teardown := by
  have hset : ∀ {s₀ : State} {id' : String} {w : ConsumerWorkers}, s₀.instances = s.instances →
      w.teardown = (s.instances id').teardown → ((s₀.set id' w).instances id).teardown = (s.instances id).teardown := by
    intro s₀ id' w h₀ hw
    by_cases hid : id = id'
    · subst hid
      rw [State.set_self, hw]
    · rw [State.set_of_ne _ _ hid, h₀]
  cases action with
  | event id' e =>
    by_cases hid : id' = id
    · subst hid
      exact .inl ⟨e, rfl⟩
    · obtain ⟨w', rfl⟩ := step_event hs
      exact .inr (by rw [State.set_of_ne _ _ (Ne.symm hid)])
  | redis id' =>
    refine .inr ?_
    simp only [Workers.step, State.redis] at hs
    repeat' split at hs
    all_goals cases hs <;> exact hset rfl rfl
  | redisFails id' =>
    refine .inr ?_
    simp only [Workers.step] at hs
    split at hs <;> cases hs
    exact hset rfl rfl
  | redisUnlock id' =>
    refine .inr ?_
    simp only [Workers.step, State.redisUnlock] at hs
    repeat' split at hs
    all_goals cases hs <;> exact hset rfl rfl
  | expire => cases hs; exact .inr rfl

/-- The callback of `quit` was called once and for all. -/
theorem Inv.step_done {action : Action} (h : Inv id s) (hp : quitsSettled id s action = true)
    (hs : Workers.step s action = some s') (hdone : (s.instances id).teardown = .done) :
    (s'.instances id).teardown = .done := by
  rcases step_teardown id hs with ⟨e, rfl⟩ | hsame
  · obtain ⟨w', rfl, heffect, _⟩ := h.step_event hp hs
    rw [State.set_self]
    exact heffect.done hdone
  · rw [hsame, hdone]

/-- **`quit` leaves nothing behind** in every run in which it is called while no request for the lock can be granted and
the directory is not being read: once its callback was called, from then on no worker of the instance is alive, and it
does not hold the lock. -/
theorem leavesNothing_reachable {t : State} (h : Reach system (fun s a => quitsSettled id s a = true) s)
    (hdone : (s.instances id).teardown = .done) (ht : Path system (fun s a => quitsSettled id s a = true) s t) :
    (t.instances id).teardown = .done ∧ LeavesNothing t id := by
  have hinv : Inv id t ∧ (t.instances id).teardown = .done :=
    ht.invariant (I := fun t => Inv id t ∧ (t.instances id).teardown = .done) ⟨inv_reachable h, hdone⟩
      (fun s a s' hi hp hs => ⟨hi.1.step hp hs, hi.1.step_done hp hs hi.2⟩)
  exact ⟨hinv.2, hinv.1.leavesNothing hinv.2⟩

end

/-- A consumer starts its workers, and quits while its timer is pending. -/
def quitRun : List Action :=
  [.event "c" .timeout, .redis "c", .event "c" .reply, .event "c" (.listing (some ["gc.worker.js", "gc.worker.ts"])),
    .event "c" .quit, .event "c" .exit, .redisUnlock "c", .event "c" .unlocked]

theorem leavesNothing_quitRun : ∃ s,
    run system (fun s a => quitsSettled "c" s a = true) init quitRun = some s ∧ LeavesNothing s "c" := by
  have hrun : (run system (fun s a => quitsSettled "c" s a = true) init quitRun).map
      (fun s => (s.instances "c").teardown) = some .done := by decide
  obtain ⟨s, hs, hdone⟩ := Option.map_eq_some_iff.mp hrun
  exact ⟨s, hs, (leavesNothing_reachable (reach_of_run _ hs) hdone .refl).2⟩

/-! ## A lock that is granted after `quit` -/

/-- A consumer quits while its request for the lock is on its way. -/
def acquiringRun : List Action :=
  [.event "c" .timeout, .redis "c", .event "c" .quit, .event "c" .reply,
    .event "c" (.listing (some ["gc.worker.js"]))]

/-- The callback of `quit` was called, and after that the instance has got the lock and started a worker. -/
theorem not_leavesNothing_acquiring : ∃ s, Reach system (fun _ _ => True) s ∧ (s.instances "c").teardown = .done ∧
    (s.instances "c").alive = ["gc.worker.js"] ∧ s.owner = (s.instances "c").lockerManager.acquiredLock ∧
    ¬LeavesNothing s "c" := by
  have hrun : (run system (fun _ _ => True) init acquiringRun).map (fun s => ((s.instances "c").teardown,
      (s.instances "c").alive, decide (s.owner = (s.instances "c").lockerManager.acquiredLock))) =
        some (.done, ["gc.worker.js"], true) := by decide
  obtain ⟨s, hreach, hs⟩ := exists_reach_of_run hrun
  simp only [Prod.mk.injEq, decide_eq_true_eq] at hs
  refine ⟨s, hreach, hs.1, hs.2.1, hs.2.2, fun h => ?_⟩
  rw [h.workers] at hs
  cases hs.2.1

/-- A consumer that quits while it reads the directory starts a worker after that, too. -/
example : (run system (fun _ _ => True) init [.event "c" .timeout, .redis "c", .event "c" .reply, .event "c" .quit,
    .redisUnlock "c", .event "c" .unlocked, .event "c" (.listing (some ["gc.worker.js"]))]).map
    (fun s => ((s.instances "c").teardown, (s.instances "c").alive)) = some (.done, ["gc.worker.js"]) := by decide

end RedisSmq.Workers
