import Mathlib.Data.Rat.Defs
import Mathlib.Tactic.Common

/-!
# Numbers to compute with

Numbers by their values, `NaN` and the infinities included, with `<` and `+`. Sums are exact here.

A number that is an integer of 64 bits can be an index of Redis (`Number.index`).
-/

namespace Js

inductive Number
  | finite (q : ℚ)
  | infinite (negative : Bool)
  | nan
deriving DecidableEq

namespace Number

def ofInt (z : ℤ) : Number := .finite z

/-- The operator `<`. -/
def lt : Number → Number → Bool
  | .finite a, .finite b => a < b
  | .finite _, .infinite negative => !negative
  | .infinite negative, .finite _ => negative
  | .infinite negative, .infinite negative' => negative && !negative'
  | .nan, _ | _, .nan => false

/-- The operator `+`. -/
def add : Number → Number → Number
  | .finite a, .finite b => .finite (a + b)
  | .finite _, .infinite negative | .infinite negative, .finite _ => .infinite negative
  | .infinite negative, .infinite negative' => if negative = negative' then .infinite negative else .nan
  | .nan, _ | _, .nan => .nan

/-- The integer that Redis takes as an index; other numbers are answered with an error. -/
def index : Number → Option ℤ
  | .finite q =>
    if q.den = 1 ∧ -9223372036854775808 ≤ q.num ∧ q.num ≤ 9223372036854775807 then some q.num else none
  | .infinite _ | .nan => none

end Number

end Js
