import RedisSmq.Workers.Quit

/-!
# Only one consumer runs workers

The lock is what keeps the workers of one consumer running alone. An instance that is told that it lost the lock goes on
as before: its workers run, and it asks for an extension of the lock that it does not have, while another instance takes
the lock and starts its own workers (`not_exclusive_expired`).

In the runs in which the lock does not expire while it is used, and `quit` finds nothing outstanding, an instance that
uses the lock holds it (`Owns`), so at most one has workers (`workersExclusive_reachable`).
-/

namespace RedisSmq.Workers

open Transition ConsumerWorkers

instance (w : ConsumerWorkers) : Decidable w.UsesLock :=
  inferInstanceAs (Decidable (w.alive ≠ [] ∨ w.reading = true ∨ w.granted ≠ none))

/-- The lock does not expire while its holder uses it, and `quit` is called while nothing is outstanding. -/
def keepsLock (s : State) : Action → Bool
  | .expire => decide (∀ lock ∈ s.owner, ¬(s.instances lock.holder).UsesLock)
  | .event id .quit => quitsSettled id s (.event id .quit)
  | _ => true

/-- The reply on its way makes `acquireLock` answer `false`. -/
def AnswersFalse (w : ConsumerWorkers) : Prop := ∃ request reply, w.acquiring = some ⟨request, some reply⟩ ∧
  (w.lockerManager.handleRedlockReply reply).2 = some (.locked false)

/-- At most one instance has workers, and an instance has none once `acquireLock` has answered `false`. -/
structure Exclusive (s : State) : Prop where
  one : ∀ i j, (s.instances i).alive ≠ [] → (s.instances j).alive ≠ [] → i = j
  answered : ∀ id s', AnswersFalse (s.instances id) → step s (.event id .reply) = some s' →
    (s'.instances id).alive = []

/-- The instance holds the lock when it uses it, and has no workers when it was refused the lock. -/
structure Owns (id : String) (s : State) : Prop where
  uses : (s.instances id).UsesLock → ∃ lock, s.owner = some lock ∧ (s.instances id).claim = some lock
  refused : (s.instances id).Refused → (s.instances id).alive = []

section

variable {s s' : State} {id id' : String} {w : ConsumerWorkers} {lock : LockValue} {action : Action}

/-- The lock that an instance claims was drawn by it. -/
theorem Inv.holder (h : Inv id s) (hclaim : (s.instances id).claim = some lock) : lock.holder = id := by
  refine (h.mentions lock ?_).1
  cases hg : (s.instances id).granted with
  | none =>
    rw [claim, hg] at hclaim
    exact .inl hclaim
  | some lock' =>
    rw [claim, hg] at hclaim
    cases hclaim
    exact .inr (.inr (.inl hg))

/-- An instance that releases the lock does not use it. -/
theorem Inv.not_uses (h : Inv id s) {request : Request LockValue UnlockReply}
    (hu : (s.instances id).unlocking = some request) : ¬(s.instances id).UsesLock := by
  have hphase := h.phase
  have hg : (s.instances id).teardown ≠ .notCalled → (s.instances id).granted = none :=
    fun hcalled => granted_of_grantable (h.settled hcalled)
  generalize s.instances id = w at hphase hg hu
  cases hphase with
  | releaseLock _ _ _ hi _ _ =>
    have hgranted := hg (by simp)
    rintro (hne | hne | hne)
    · rcases hi with rfl | rfl <;> exact hne rfl
    · cases hne
    · exact hne hgranted
  | _ => cases hu

/-- Steps of others keep what an instance owns, as long as they leave the lock alone that it uses. -/
theorem Owns.of_same (h : Owns id s) (hw : s'.instances id = s.instances id)
    (howner : ∀ lock, (s.instances id).UsesLock → s.owner = some lock → (s.instances id).claim = some lock →
      s'.owner = some lock) : Owns id s' := by
  refine ⟨fun hu => ?_, fun hr => ?_⟩
  · rw [hw] at hu ⊢
    obtain ⟨lock, ho, hclaim⟩ := h.uses hu
    exact ⟨lock, howner lock hu ho hclaim, hclaim⟩
  · rw [hw] at hr ⊢
    exact h.refused hr

/-- The events of an instance keep what it owns. -/
theorem Owns.event {e : Event} {w' : ConsumerWorkers} (h : Owns id s) (he : Effect e (s.instances id) w') :
    Owns id (s.set id w') := by
  refine ⟨fun hu => ?_, fun hr => ?_⟩
  · rw [State.set_self] at hu ⊢
    obtain ⟨lock, ho, hclaim⟩ := h.uses (he.uses hu)
    rcases he.claim with heq | ⟨hnot, _⟩
    · exact ⟨lock, ho, heq.trans hclaim⟩
    · exact absurd hu hnot
  · rw [State.set_self] at hr ⊢
    obtain ⟨hr', hkeep⟩ := he.refused hr
    exact hkeep (h.refused hr')

/-- A reply that grants nothing keeps what an instance owns; it has no workers when it is refused the lock. -/
theorem Owns.refuse {request : LockRequest} {reply : RedlockReply} (h : Owns id s)
    (ha : (s.instances id).acquiring = some ⟨request, none⟩) (hreply : ∀ lock, reply ≠ .lock lock)
    (halive : reply = .lockError → (s.instances id).alive = []) : Owns id (s.setReply id request reply) := by
  obtain ⟨hgranted, hclaim⟩ := claim_reply ha hreply
  refine ⟨fun hu => ?_, fun hr => ?_⟩
  · rw [State.setReply, State.set_self] at hu ⊢
    have huses : (s.instances id).UsesLock := by
      rcases hu with hu | hu | hu
      · exact .inl hu
      · exact .inr (.inl hu)
      · exact absurd hgranted hu
    rw [hclaim]
    exact h.uses huses
  · rw [State.setReply, State.set_self] at hr ⊢
    obtain ⟨_, hr⟩ := hr
    cases hr
    exact halive rfl

/-- A granted lock is held. -/
theorem Owns.grant {request : LockRequest} (howner : s'.owner = some lock)
    (hw : s'.instances id = { s.instances id with acquiring := some ⟨request, some (.lock lock)⟩ }) : Owns id s' := by
  refine ⟨fun _ => ⟨lock, howner, by rw [hw]; rfl⟩, fun hr => ?_⟩
  rw [hw] at hr
  obtain ⟨_, hr⟩ := hr
  cases hr

/-- An instance with workers asks for the lock that it has. -/
theorem Phase.request {request : LockRequest} {reply : Option RedlockReply} (h : Phase w)
    (ha : w.acquiring = some ⟨request, reply⟩) (halive : w.alive ≠ []) : request = w.lockerManager.acquireLock := by
  cases h with
  | acquiring _ _ hreq => cases ha; exact hreq
  | shutdownWorkers _ _ _ hreq => exact hreq _ ha
  | releaseLock _ _ _ hi | done _ _ _ hi => rcases hi with rfl | rfl <;> exact absurd rfl halive
  | _ => cases ha

/-- Redis answers an instance. -/
theorem Owns.redis (h : Owns id s) (hi : Inv id s) (hs : s.redis id = some s') : Owns id s' := by
  -- an instance with workers holds the lock, and asks for an extension of it
  have hextends : ∀ {request}, (s.instances id).acquiring = some ⟨request, none⟩ → (s.instances id).alive ≠ [] →
      ∃ lock, s.owner = some lock ∧ request = .extend lock := by
    intro request ha halive
    obtain ⟨lock, ho, hclaim⟩ := h.uses (.inl halive)
    have hgranted : (s.instances id).granted = none := by simp only [granted, ha]
    have hlock : (s.instances id).lockerManager.acquiredLock = some lock := by
      rw [claim, hgranted] at hclaim
      exact hclaim
    exact ⟨lock, ho, by rw [hi.phase.request ha halive, LockManager.acquireLock, hlock]; rfl⟩
  unfold State.redis at hs
  split at hs
  · rename_i ha
    split at hs <;> cases hs
    · exact Owns.grant rfl (State.set_self ..)
    · refine h.refuse ha (by simp) (fun _ => ?_)
      by_contra halive
      obtain ⟨lock, _, hreq⟩ := hextends ha halive
      cases hreq
  · rename_i lock ha
    cases hs
    split
    · rename_i howner
      exact Owns.grant howner (State.set_self ..)
    · rename_i howner
      refine h.refuse ha (by simp) (fun _ => ?_)
      by_contra halive
      obtain ⟨lock', ho, hreq⟩ := hextends ha halive
      cases hreq
      exact howner ho
  · cases hs

/-- What Redis answers another instance keeps what an instance owns. -/
theorem Owns.redis_other (h : Owns id s) (hne : id' ≠ id) (hs : s.redis id' = some s') : Owns id s' := by
  refine h.of_same (Workers.redis_other hne hs).1 (fun lock _ ho _ => ?_)
  unfold State.redis at hs
  split at hs
  · split at hs
    · rename_i howner
      rw [ho] at howner
      cases howner
    · cases hs
      exact ho
  · cases hs
    exact ho
  · cases hs

/-- A lock that is released is used by no instance. -/
theorem Owns.redisUnlock (h : Owns id s) (hi : ∀ id, Inv id s) (hs : s.redisUnlock id' = some s') : Owns id s' := by
  by_cases hid : id' = id
  · subst hid
    unfold State.redisUnlock at hs
    split at hs
    · rename_i hu
      have hnot := (hi id').not_uses hu
      split at hs <;> cases hs
      all_goals
        refine ⟨fun huses => ?_, fun hr => ?_⟩
        · rw [State.set_self] at huses
          exact absurd huses hnot
        · rw [State.set_self] at hr ⊢
          exact h.refused hr
    · cases hs
  · refine h.of_same (redisUnlock_other hid hs).1 (fun lock _ ho hclaim => ?_)
    unfold State.redisUnlock at hs
    split at hs
    · rename_i lock' hu
      split at hs <;> rename_i howner <;> cases hs
      · rw [ho] at howner
        cases howner
        have hholder := ((hi id').mentions lock (.inr (.inr (.inr ⟨_, hu⟩)))).1
        exact absurd (hholder.symm.trans ((hi id).holder hclaim)) hid
      · exact ho
    · cases hs

theorem quitsSettled_of_keepsLock (hp : keepsLock s action = true) (id : String) : quitsSettled id s action = true := by
  unfold quitsSettled
  split
  · rename_i id'
    by_cases hid : id' = id
    · subst hid
      simpa [keepsLock, quitsSettled] using hp
    · simp [hid]
  · rfl

/-- An instance without workers that was refused the lock does not use it. -/
theorem Phase.not_uses_of_refused (h : Phase w) (hr : w.Refused) (halive : w.alive = []) : ¬w.UsesLock := by
  obtain ⟨request, ha⟩ := hr
  rintro (hu | hu | hu)
  · exact hu halive
  · cases h with
    | reading => cases ha
    | _ => cases hu
  · simp [granted, ha] at hu

/-- Every step keeps what the instances own. -/
theorem Owns.step (h : ∀ id, Inv id s ∧ Owns id s) (hp : keepsLock s action = true)
    (hs : Workers.step s action = some s') : Owns id s' := by
  have hown := (h id).2
  have hset : ∀ {id' : String} {w : ConsumerWorkers}, id' ≠ id → Owns id (s.set id' w) := fun hne =>
    hown.of_same (State.set_of_ne s _ hne.symm) (fun _ _ ho _ => ho)
  cases action with
  | event id' e =>
    by_cases hid : id' = id
    · subst hid
      obtain ⟨w', rfl, heffect, _⟩ := (h id').1.step_event (quitsSettled_of_keepsLock hp id') hs
      exact hown.event heffect
    · obtain ⟨w', rfl⟩ := Workers.step_event hs
      exact hset hid
  | redis id' =>
    by_cases hid : id' = id
    · subst hid
      exact hown.redis (h id').1 hs
    · exact hown.redis_other hid hs
  | redisFails id' =>
    simp only [Workers.step] at hs
    split at hs <;> cases hs
    rename_i ha
    by_cases hid : id' = id
    · subst hid
      exact hown.refuse ha (by simp) (by simp)
    · exact hset hid
  | redisUnlock id' => exact hown.redisUnlock (fun id => (h id).1) hs
  | expire =>
    cases hs
    refine hown.of_same rfl (fun lock huses ho hclaim => ?_)
    -- the lock that is used belongs to the instance, and such a lock does not expire
    have hkeeps : ∀ lock ∈ s.owner, ¬(s.instances lock.holder).UsesLock := by simpa [keepsLock] using hp
    have hnot := hkeeps lock ho
    rw [(h id).1.holder hclaim] at hnot
    exact absurd huses hnot

/-- When `acquireLock` answers `false`, the request was refused. -/
theorem AnswersFalse.refused (h : AnswersFalse w) : w.Refused := by
  obtain ⟨request, reply, ha, hanswer⟩ := h
  cases reply with
  | lockError => exact ⟨request, ha⟩
  | _ => cases hanswer

/-- **Only one consumer runs workers** in every run in which the lock does not expire while its holder uses it, and in
which `quit` is called while no request for the lock can be granted and the directory is not being read. -/
theorem workersExclusive_reachable (h : Reach system (fun s a => keepsLock s a = true) s) : Exclusive s := by
  have hinv : ∀ id, Inv id s ∧ Owns id s := by
    refine h.invariant (I := fun s => ∀ id, Inv id s ∧ Owns id s) (fun id => ⟨Inv.init id, ?_, ?_⟩)
      (fun s a s' hi hp hs id => ⟨(hi id).1.step (quitsSettled_of_keepsLock hp id) hs, Owns.step hi hp hs⟩)
    · rintro (h | h | h)
      · exact absurd rfl h
      · cases h
      · exact absurd rfl h
    · rintro ⟨_, h⟩
      cases h
  refine ⟨fun i j hi hj => ?_, fun id s' hanswer hs => ?_⟩
  · obtain ⟨lock, ho, hclaim⟩ := (hinv i).2.uses (.inl hi)
    obtain ⟨lock', ho', hclaim'⟩ := (hinv j).2.uses (.inl hj)
    rw [ho] at ho'
    cases ho'
    exact ((hinv i).1.holder hclaim).symm.trans ((hinv j).1.holder hclaim')
  · obtain ⟨hi, ho⟩ := hinv id
    have hnot := hi.phase.not_uses_of_refused hanswer.refused (ho.refused hanswer.refused)
    obtain ⟨w', rfl, heffect, _⟩ := hi.step_event rfl hs
    rw [State.set_self]
    by_contra halive
    exact hnot (heffect.uses (.inl halive))

end

/-- A consumer starts its workers and extends its lock; another one is refused the lock. -/
def extendedRun : List Action :=
  [.event "a" .timeout, .redis "a", .event "a" .reply, .event "a" (.listing (some ["gc.worker.js"])),
    .event "b" .timeout, .event "a" .timeout, .redis "a", .redis "b", .event "a" .reply]

theorem exclusive_extendedRun : ∃ s, run system (fun s a => keepsLock s a = true) init extendedRun = some s ∧
    Exclusive s :=
  exists_run (by decide) (fun _ => workersExclusive_reachable)

/-! ## A lost lock -/

/-- The lock of a consumer with workers expires, another consumer takes it and starts its workers, and then the first one
is refused an extension. -/
def expiredRun : List Action :=
  [.event "a" .timeout, .redis "a", .event "a" .reply, .event "a" (.listing (some ["gc.worker.js"])), .expire,
    .event "b" .timeout, .redis "b", .event "b" .reply, .event "b" (.listing (some ["gc.worker.js"])),
    .event "a" .timeout, .redis "a"]

/-- Both have workers, and the first one still has when `acquireLock` has answered `false`. -/
theorem not_exclusive_expired : ∃ s, Reach system (fun _ _ => True) s ∧ ¬Exclusive s ∧
    (s.instances "a").alive ≠ [] ∧ (s.instances "b").alive ≠ [] ∧ AnswersFalse (s.instances "a") ∧
    ∃ s', step s (.event "a" .reply) = some s' ∧ (s'.instances "a").alive ≠ [] := by
  have hrun : (run system (fun _ _ => True) init expiredRun).map (fun s =>
      (((s.instances "a").alive, (s.instances "b").alive),
        decide ((s.instances "a").acquiring = some ⟨.extend ⟨"a", 0⟩, some .lockError⟩ ∧
          ((s.instances "a").lockerManager.handleRedlockReply .lockError).2 = some (.locked false)),
        (step s (.event "a" .reply)).map fun s' => (s'.instances "a").alive)) =
      some ((["gc.worker.js"], ["gc.worker.js"]), true, some ["gc.worker.js"]) := by
    decide
  obtain ⟨s, hreach, hs⟩ := exists_reach_of_run hrun
  simp only [Prod.mk.injEq, decide_eq_true_eq, Option.map_eq_some_iff] at hs
  obtain ⟨⟨ha, hb⟩, ⟨hacquiring, hanswer⟩, s', hs', ha'⟩ := hs
  have hne : ∀ {w : ConsumerWorkers}, w.alive = ["gc.worker.js"] → w.alive ≠ [] := by
    intro w h
    rw [h]
    simp
  refine ⟨s, hreach, fun h => ?_, hne ha, hne hb, ⟨_, _, hacquiring, hanswer⟩, s', hs', hne ha'⟩
  have heq := h.one "a" "b" (hne ha) (hne hb)
  simp at heq

end RedisSmq.Workers
