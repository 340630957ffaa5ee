import Mathlib.Logic.Function.Basic
import RedisSmq.Lib.Ranges

/-!
# Lists at keys

A store of lists as Redis has it: a key either has a list with elements, or does not exist. A list that loses its last
element is deleted with its key, and pushing to a key that does not exist creates it.
-/

namespace ListKeys

variable {κ α : Type*} [DecidableEq κ]

/-- The list of every key that exists. -/
abbrev Keyspace (κ α : Type*) := κ → Option { l : List α // l ≠ [] }

/-- An end of a list. -/
inductive Side
  | left | right
deriving DecidableEq

namespace Keyspace

/-- The list of a key, without elements when the key does not exist. -/
def get (db : Keyspace κ α) (key : κ) : List α := (db key).elim [] Subtype.val

/-- Store a list, or delete the key when there is nothing left. -/
def put (db : Keyspace κ α) (key : κ) (l : List α) : Keyspace κ α :=
  Function.update db key (if h : l = [] then none else some ⟨l, h⟩)

/-! ## Commands -/

/-- `EXISTS`. -/
def existsKey (db : Keyspace κ α) (key : κ) : ℕ := if (db key).isSome then 1 else 0

def lrange (db : Keyspace κ α) (key : κ) (start stop : ℤ) : List α := Ranges.lrange (db.get key) start stop

/-- `LREM key 1 element`. -/
def lrem [DecidableEq α] (db : Keyspace κ α) (key : κ) (element : α) : Keyspace κ α :=
  db.put key ((db.get key).erase element)

def push (db : Keyspace κ α) (key : κ) (element : α) : Side → Keyspace κ α
  | .left => db.put key (element :: db.get key)
  | .right => db.put key (db.get key ++ [element])

/-- The element at an end of a list, and the list without it. -/
def takeAway (l : List α) : Side → Option (α × List α)
  | .left => l.head?.map (·, l.tail)
  | .right => l.getLast?.map (·, l.dropLast)

/-- `LMOVE`: the element that is moved, if the source exists. -/
def lmove (db : Keyspace κ α) (source destination : κ) (whereFrom whereTo : Side) : Option α × Keyspace κ α :=
  match takeAway (db.get source) whereFrom with
  | none => (none, db)
  | some (element, rest) => (some element, (db.put source rest).push destination element whereTo)

/-! ## Lists and keys -/

variable {db : Keyspace κ α} {key : κ} {l : List α}

omit [DecidableEq κ] in
theorem existsKey_eq_zero : db.existsKey key = 0 ↔ db.get key = [] := by
  unfold existsKey get
  cases h : db key with
  | none => simp
  | some l => simp [l.property]

omit [DecidableEq κ] in
theorem existsKey_eq_one : db.existsKey key = 1 ↔ db.get key ≠ [] := by
  unfold existsKey get
  cases h : db key with
  | none => simp
  | some l => simp [l.property]

end Keyspace

end ListKeys
