import Mathlib.Data.List.Nodup
import Mathlib.Data.Nat.Notation

/-!
# Timers of an event loop

An event loop has live timers: a timeout fires once, an interval again and again, until it is cleared. Setting a timer
gives a new identifier; clearing one that is not live does nothing.
-/

namespace Timers

inductive Kind
  | timeout | interval
deriving DecidableEq

/-- The live timers, and an identifier that was not given yet. -/
structure EventLoop where
  live : List (ℕ × Kind)
  next : ℕ
  nodup : (live.map Prod.fst).Nodup
  fresh : ∀ t ∈ live, t.1 < next

namespace EventLoop

variable {l : EventLoop} {id id' : ℕ} {kind : Kind}

def empty : EventLoop where
  live := []
  next := 0
  nodup := List.nodup_nil
  fresh _ h := absurd h List.not_mem_nil

/-- `setTimeout` and `setInterval`; the new timer has the identifier `l.next`. -/
def set (l : EventLoop) (kind : Kind) : EventLoop where
  live := l.live ++ [(l.next, kind)]
  next := l.next + 1
  nodup := by
    rw [List.map_append, List.nodup_append]
    refine ⟨l.nodup, List.nodup_singleton _, fun a ha b hb => ?_⟩
    obtain ⟨t, ht, rfl⟩ := List.mem_map.mp ha
    rw [List.mem_singleton.mp hb]
    exact Nat.ne_of_lt (l.fresh t ht)
  fresh t h := by
    rcases List.mem_append.mp h with h | h
    · exact Nat.lt_succ_of_lt (l.fresh t h)
    · rw [List.mem_singleton.mp h]
      exact Nat.lt_succ_self _

/-- `clearTimeout` and `clearInterval`. -/
def clear (l : EventLoop) (id : ℕ) : EventLoop where
  live := l.live.filter fun t => t.1 ≠ id
  next := l.next
  nodup := l.nodup.sublist (List.filter_sublist.map _)
  fresh t h := l.fresh t (List.mem_filter.mp h).1

/-- The kind of a timer that is live. -/
def kind? (l : EventLoop) (id : ℕ) : Option Kind := l.live.lookup id

/-- A timer fires, if it is live: a timeout is over, an interval goes on. -/
def fire (l : EventLoop) (id : ℕ) : Option (EventLoop × Kind) :=
  (l.kind? id).map fun
    | .timeout => (l.clear id, .timeout)
    | .interval => (l, .interval)

@[simp] theorem live_set (l : EventLoop) (kind : Kind) : (l.set kind).live = l.live ++ [(l.next, kind)] := rfl

@[simp] theorem live_clear (l : EventLoop) (id : ℕ) : (l.clear id).live = l.live.filter fun t => t.1 ≠ id := rfl

theorem kind?_mem (h : l.kind? id = some kind) : (id, kind) ∈ l.live := by
  obtain ⟨l₁, l₂, hlive, -⟩ := List.lookup_eq_some_iff.mp h
  rw [hlive]
  exact List.mem_append_right _ List.mem_cons_self

/-- The timer that was set last is live. -/
theorem kind?_set (l : EventLoop) (kind : Kind) : ((l.set kind).kind? l.next).isSome := by
  rw [kind?, live_set, List.lookup_isSome_iff]
  exact ⟨(l.next, kind), List.mem_append_right _ List.mem_cons_self, by simp⟩

/-- A timer that was cleared is not live. -/
theorem kind?_clear (l : EventLoop) (id : ℕ) : (l.clear id).kind? id = none := by
  rw [kind?, live_clear, List.lookup_eq_none_iff]
  intro t ht
  have hne : t.1 ≠ id := by simpa using (List.mem_filter.mp ht).2
  simpa using hne.symm

/-- What fires is live; a timeout is not live any more. -/
theorem fire_cases {l' : EventLoop} (h : l.fire id = some (l', kind)) :
    (id, kind) ∈ l.live ∧ ((kind = .timeout ∧ l' = l.clear id) ∨ (kind = .interval ∧ l' = l)) := by
  obtain ⟨k, hk, heq⟩ := Option.map_eq_some_iff.mp h
  cases k with
  | timeout =>
    cases heq
    exact ⟨kind?_mem hk, .inl ⟨rfl, rfl⟩⟩
  | interval =>
    cases heq
    exact ⟨kind?_mem hk, .inr ⟨rfl, rfl⟩⟩

end EventLoop

end Timers
