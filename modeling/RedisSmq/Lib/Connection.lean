/-!
# A connection to a server

The server executes the requests of a connection in the order in which they were sent, and replies in that order. A
request may also fail: before it was executed, then it is never executed, or after that.
-/

/-- `executed`: the requests that wait for their reply; `sent`: those that were not executed yet. The oldest comes
first. -/
structure Connection (ρ : Type) where
  executed : List ρ
  sent : List ρ
deriving DecidableEq

namespace Connection

variable {ρ : Type} {c c' : Connection ρ} {r : ρ}

def empty : Connection ρ := ⟨[], []⟩

/-- The requests without a reply. -/
def pending (c : Connection ρ) : List ρ := c.executed ++ c.sent

def send (c : Connection ρ) (r : ρ) : Connection ρ := { c with sent := c.sent ++ [r] }

/-- The server executes the next request. -/
def execute (c : Connection ρ) : Option (Connection ρ × ρ) :=
  match c.sent with
  | [] => none
  | r :: rest => some (⟨c.executed ++ [r], rest⟩, r)

/-- The oldest request has its reply. -/
def answer (c : Connection ρ) : Option (Connection ρ × ρ) :=
  match c.executed with
  | [] => none
  | r :: rest => some (⟨rest, c.sent⟩, r)

/-- The oldest request fails. -/
def fail (c : Connection ρ) : Option (Connection ρ × ρ) :=
  match c.executed with
  | r :: rest => some (⟨rest, c.sent⟩, r)
  | [] =>
    match c.sent with
    | r :: rest => some (⟨[], rest⟩, r)
    | [] => none

@[simp] theorem pending_send (c : Connection ρ) (r : ρ) : (c.send r).pending = c.pending ++ [r] :=
  (List.append_assoc ..).symm

theorem mem_pending_of_executed (h : r ∈ c.executed) : r ∈ c.pending := List.mem_append_left _ h

/-- Executing a request changes nothing for the client. -/
theorem execute_cases (h : c.execute = some (c', r)) : c'.pending = c.pending ∧ c'.executed = c.executed ++ [r] := by
  unfold execute at h
  split at h
  · cases h
  · rename_i r' rest hsent
    cases h
    exact ⟨by simp [pending, hsent], rfl⟩

theorem answer_cases (h : c.answer = some (c', r)) : c.pending = r :: c'.pending ∧ c.executed = r :: c'.executed := by
  unfold answer at h
  split at h
  · cases h
  · rename_i r' rest hexecuted
    cases h
    exact ⟨by simp [pending, hexecuted], hexecuted⟩

/-- The request that fails is the oldest one; what was executed of the others stays so. -/
theorem fail_cases (h : c.fail = some (c', r)) : c.pending = r :: c'.pending ∧ ∀ r' ∈ c'.executed, r' ∈ c.executed := by
  unfold fail at h
  split at h
  · rename_i r' rest hexecuted
    cases h
    exact ⟨by simp [pending, hexecuted], fun r' hr' => by rw [hexecuted]; exact List.mem_cons_of_mem _ hr'⟩
  · rename_i hexecuted
    split at h
    · rename_i r' rest hsent
      cases h
      exact ⟨by simp [pending, hexecuted, hsent], fun r' hr' => by cases hr'⟩
    · cases h

end Connection
