import Mathlib.Algebra.Order.Group.Multiset
import Mathlib.Tactic.Abel

/-!
# Bags of waiting items

Items are put into a bag and taken out of it, in any order. A keyed bag holds an item once: an item that is put while it
waits is merged with the one that waits. `Run keyed b es b'` says that the events `es` lead from `b` to `b'`.

Without keys, what was taken and what waits is what was put (`Run.accounts`); with keys, the merged items are missing
(`Run.accounts_keyed`).
-/

namespace Bags

variable {α : Type*} [DecidableEq α]

inductive Event (α : Type*)
  | put (x : α)
  | take (x : α)

/-- The bag after an item was put. -/
def put (keyed : Bool) (b : Multiset α) (x : α) : Multiset α := x ::ₘ if keyed then b.erase x else b

/-- Only an item that waits is taken. -/
inductive Run (keyed : Bool) : Multiset α → List (Event α) → Multiset α → Prop
  | nil {b} : Run keyed b [] b
  | put {b b' x es} : Run keyed (put keyed b x) es b' → Run keyed b (.put x :: es) b'
  | take {b b' x es} : x ∈ b → Run keyed (b.erase x) es b' → Run keyed b (.take x :: es) b'

/-- The items put. -/
def puts : List (Event α) → Multiset α
  | [] => 0
  | .put x :: es => x ::ₘ puts es
  | .take _ :: es => puts es

/-- The items taken. -/
def takes : List (Event α) → Multiset α
  | [] => 0
  | .put _ :: es => takes es
  | .take x :: es => x ::ₘ takes es

/-- The items put into a keyed bag while they waited. -/
def merged (b : Multiset α) : List (Event α) → Multiset α
  | [] => 0
  | .put x :: es => (if x ∈ b then {x} else 0) + merged (put true b x) es
  | .take x :: es => merged (b.erase x) es

variable {b b' : Multiset α} {x : α} {es : List (Event α)} {keyed : Bool}

/-- An item that waits is merged, any other is added. -/
theorem put_keyed (b : Multiset α) (x : α) : put true b x + (if x ∈ b then {x} else 0) = x ::ₘ b := by
  unfold put
  by_cases hx : x ∈ b
  · rw [if_pos rfl, if_pos hx, Multiset.cons_erase hx, ← Multiset.singleton_add, add_comm]
  · rw [if_pos rfl, if_neg hx, Multiset.erase_of_notMem hx, add_zero]

/-- No item is merged when none is put while it waits. -/
theorem merged_put_eq_zero : merged b (.put x :: es) = 0 ↔ x ∉ b ∧ merged (put true b x) es = 0 := by
  rw [merged]
  by_cases hx : x ∈ b <;> simp [hx, Multiset.singleton_add]

/-- Without keys, no item is lost. -/
theorem Run.accounts (h : Run false b es b') : takes es + b' = b + puts es := by
  induction h with
  | nil => simp [takes, puts]
  | put h ih => simpa [takes, puts, Bags.put] using ih
  | @take b b' x es hx h ih =>
    have hb : x ::ₘ b.erase x = b := Multiset.cons_erase hx
    calc takes (.take x :: es) + b' = x ::ₘ (takes es + b') := by simp [takes]
      _ = x ::ₘ (b.erase x + puts es) := by rw [ih]
      _ = b + puts (.take x :: es) := by rw [← Multiset.cons_add, hb]; rfl

/-- With keys, the items that were merged are lost, and no others. -/
theorem Run.accounts_keyed (h : Run true b es b') : takes es + b' + merged b es = b + puts es := by
  induction h with
  | nil => simp [takes, puts, merged]
  | @put b b' x es h ih =>
    calc takes (.put x :: es) + b' + merged b (.put x :: es)
        = takes es + b' + merged (Bags.put true b x) es + (if x ∈ b then {x} else 0) := by
          simp only [takes, merged]; abel
      _ = Bags.put true b x + (if x ∈ b then {x} else 0) + puts es := by rw [ih]; abel
      _ = b + puts (.put x :: es) := by rw [put_keyed]; simp [puts]
  | @take b b' x es hx h ih =>
    have hb : x ::ₘ b.erase x = b := Multiset.cons_erase hx
    calc takes (.take x :: es) + b' + merged b (.take x :: es) = x ::ₘ (takes es + b' + merged (b.erase x) es) := by
          simp [takes, merged]
      _ = x ::ₘ (b.erase x + puts es) := by rw [ih]
      _ = b + puts (.take x :: es) := by rw [← Multiset.cons_add, hb]; rfl

end Bags
