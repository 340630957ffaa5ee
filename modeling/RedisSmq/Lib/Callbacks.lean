import Mathlib.Data.List.Basic
import Mathlib.Data.Nat.Notation

/-!
# Code in callbacks

Code that makes a request and goes on in a callback, once there is a reply. A `Chain` is such code up to the callback of
its caller; a `Flow` may also have several chains under way at once, and goes on when all of them are done.

- `Settles`: every branch calls the callback, or throws;
- `Flow.advance`: what a flow does before it waits for a reply; a flow that settles either is over, or has made a request
  (`Flow.Settles.advance`);
- `Chain.reply`, `Flow.reply`: what a reply leaves to be done (`Flow.Settles.reply`);
- `Chain.run`: the requests of a chain whose replies are given, and how it ends.
-/

namespace Callbacks

/-- The requests, and what each of them is replied when there is no error. -/
structure Interface where
  Request : Type
  Reply : Request → Type

/-- The arguments of a callback: an error, or a result. -/
abbrev Result (α : Type) := Except String α

/-- What each request is replied. -/
abbrev Replies (I : Interface) := ∀ r : I.Request, Result (I.Reply r)

/-- Code that ends in calling a callback; `stop` is code that calls nothing. A reply comes at a clock value. -/
inductive Chain (I : Interface) (α : Type)
  | stop
  | throw (e : String)
  | call (a : α)
  | request (r : I.Request) (k : ℕ → Result (I.Reply r) → Chain I α)

/-- A task of `async.each`; its callback takes an error or nothing. -/
abbrev Task (I : Interface) := Chain I (Result Unit)

/-- `each` is `async.each` with tasks that have been started: its callback is called with the first error, or when all
tasks are done. -/
inductive Flow (I : Interface) (α : Type)
  | stop
  | throw (e : String)
  | call (a : α)
  | request (r : I.Request) (k : ℕ → Result (I.Reply r) → Flow I α)
  | each (tasks : List (Task I)) (k : Result Unit → Flow I α)

variable {I : Interface} {α : Type} {ts : List (Task I)} {f g : Flow I α}

/-! ## What code does before it waits -/

/-- Where tasks are that were started in this order. -/
inductive Verdict
  | pending
  | thrown (e : String)
  | called (r : Result Unit)

def verdict : List (Task I) → Verdict
  | [] => .called (.ok ())
  | .throw e :: _ => .thrown e
  | .call (.error e) :: _ => .called (.error e)
  | .call (.ok _) :: ts => verdict ts
  | .stop :: ts | .request _ _ :: ts =>
    match verdict ts with
    | .called (.ok _) => .pending
    | v => v

/-- `waiting` is code that is not over: what it will do is decided by replies. -/
inductive Outcome (I : Interface) (α : Type)
  | returned
  | thrown (e : String)
  | called (a : α)
  | waiting (f : Flow I α)

/-- Once a task has reported an error, the others are of no account. -/
def Flow.advance : Flow I α → Outcome I α
  | .stop => .returned
  | .throw e => .thrown e
  | .call a => .called a
  | .request r k => .waiting (.request r k)
  | .each ts k =>
    match verdict ts with
    | .pending => .waiting (.each ts k)
    | .thrown e => .thrown e
    | .called r => (k r).advance

/-! ## Replies -/

def Chain.requests : Chain I α → List I.Request
  | .request r _ => [r]
  | _ => []

/-- The requests that have no reply yet. -/
def Flow.requests : Flow I α → List I.Request
  | .request r _ => [r]
  | .each ts _ => ts.flatMap Chain.requests
  | _ => []

def Chain.reply (now : ℕ) (replies : Replies I) : Chain I α → Option (Chain I α)
  | .request r k => some (k now (replies r))
  | _ => none

/-- The reply to the request, or to that of the task `i`. -/
def Flow.reply (i now : ℕ) (replies : Replies I) : Flow I α → Option (Flow I α)
  | .request r k => some (k now (replies r))
  | .each ts k => (ts[i]?.bind (·.reply now replies)).map fun t => .each (ts.set i t) k
  | _ => none

/-! ## Runs -/

inductive Ending (α : Type)
  | returned
  | thrown (e : String)
  | called (a : α)

/-- The requests, each with its number, and how the code ends; a request is replied as the requests of its number are, at
the clock value of its number. -/
def Chain.run (now : ℕ → ℕ) (replies : ℕ → Replies I) : ℕ → Chain I α → List (ℕ × I.Request) × Ending α
  | _, .stop => ([], .returned)
  | _, .throw e => ([], .thrown e)
  | _, .call a => ([], .called a)
  | i, .request r k =>
    let rest := (k (now i) (replies i r)).run now replies (i + 1)
    ((i, r) :: rest.1, rest.2)

/-! ## Code that settles -/

/-- Every branch calls the callback or throws. -/
def Chain.Settles : Chain I α → Prop
  | .stop => False
  | .throw _ => True
  | .call _ => True
  | .request _ k => ∀ now reply, (k now reply).Settles

def Flow.Settles : Flow I α → Prop
  | .stop => False
  | .throw _ => True
  | .call _ => True
  | .request _ k => ∀ now reply, (k now reply).Settles
  | .each ts k => (∀ t ∈ ts, t.Settles) ∧ ∀ r, (k r).Settles

theorem Chain.Settles.reply {c d : Chain I α} {now : ℕ} {replies : Replies I} (h : c.Settles)
    (hd : c.reply now replies = some d) : d.Settles := by
  cases c with
  | request r k =>
    cases hd
    exact h now _
  | stop => cases hd
  | throw e => cases hd
  | call a => cases hd

theorem Flow.Settles.reply {i now : ℕ} {replies : Replies I} (h : f.Settles) (hg : f.reply i now replies = some g) :
    g.Settles := by
  cases f with
  | request r k =>
    cases hg
    exact h now _
  | each ts k =>
    obtain ⟨t, ht, rfl⟩ := Option.map_eq_some_iff.mp hg
    obtain ⟨t₀, ht₀, ht⟩ := Option.bind_eq_some_iff.mp ht
    refine ⟨fun t' ht' => ?_, h.2⟩
    rcases List.mem_or_eq_of_mem_set ht' with ht' | rfl
    · exact h.1 t' ht'
    · exact (h.1 t₀ (List.mem_of_getElem? ht₀)).reply ht
  | stop => cases hg
  | throw e => cases hg
  | call a => cases hg

/-- Tasks that settle and are not all done have made a request. -/
theorem requests_of_pending (h : ∀ t ∈ ts, t.Settles) (hv : verdict ts = .pending) :
    ts.flatMap Chain.requests ≠ [] := by
  fun_induction verdict ts with
  | case1 => cases hv
  | case2 e ts => cases hv
  | case3 e ts => cases hv
  | case4 u ts ih => exact ih (fun t ht => h t (List.mem_cons_of_mem _ ht)) hv
  | case5 ts => exact absurd (h _ List.mem_cons_self) id
  | case6 ts => exact absurd (h _ List.mem_cons_self) id
  | case7 ts r k => exact List.cons_ne_nil _ _
  | case8 ts r k => exact List.cons_ne_nil _ _

/-- **Code that settles** throws, calls its callback, or has made a request that it waits for. -/
theorem Flow.Settles.advance (h : f.Settles) : (∃ e, f.advance = .thrown e) ∨ (∃ a, f.advance = .called a) ∨
    ∃ g, f.advance = .waiting g ∧ g.Settles ∧ g.requests ≠ [] := by
  induction f with
  | stop => exact absurd h id
  | throw e => exact .inl ⟨e, rfl⟩
  | call a => exact .inr (.inl ⟨a, rfl⟩)
  | request r k => exact .inr (.inr ⟨_, rfl, h, List.cons_ne_nil _ _⟩)
  | each ts k ih =>
    rw [Flow.advance]
    cases hv : verdict ts with
    | pending => exact .inr (.inr ⟨_, rfl, h, requests_of_pending h.1 hv⟩)
    | thrown e => exact .inl ⟨e, rfl⟩
    | called r => exact ih r (h.2 r)

end Callbacks
