import Mathlib.Data.Int.Notation
import Mathlib.Data.List.Pairwise
import Mathlib.Data.Nat.Notation
import Mathlib.Logic.Function.Basic

/-!
# A list that is used from both ends

The top of the list is its right end. `Op` is what can be done to it; `stamp` gives every entry a height: the n-th
entry has height `n` when it is put on the top, and `-n` when it is put at the bottom. So a list that holds a name at
most once is sorted by the heights of the last entries of its names (`Sorted.foldl`), and what is taken from the top is
the highest (`Sorted.le_top`).

Only the names that satisfy `S` are looked at; the others may be in the list more than once.
-/

namespace Deque

variable {α κ : Type*}

inductive Op (α : Type*)
  | pushTop (a : α)
  | pushBottom (a : α)
  | popTop
  | erase (a : α)
  | clear
deriving DecidableEq

def Op.apply [DecidableEq α] (l : List α) : Op α → List α
  | .pushTop a => l ++ [a]
  | .pushBottom a => a :: l
  | .popTop => l.dropLast
  | .erase a => l.erase a
  | .clear => []

/-- What the operation puts on the list. -/
def Op.pushed : Op α → Option α
  | .pushTop a | .pushBottom a => some a
  | .popTop | .erase _ | .clear => none

/-- How many entries there were, and the height of the last entry of each name; `0` for none. -/
structure Stamps (κ : Type*) where
  entered : ℕ
  height : κ → ℤ

def Stamps.zero : Stamps κ := ⟨0, fun _ => 0⟩

/-- The list is sorted by the heights of its names. -/
structure Sorted (name : α → κ) (S : κ → Prop) (st : Stamps κ) (l : List α) : Prop where
  pairwise : l.Pairwise fun a b => S (name a) → S (name b) → st.height (name a) < st.height (name b)
  low : ∀ k, -(st.entered : ℤ) ≤ st.height k
  high : ∀ k, st.height k ≤ st.entered

variable {name : α → κ} {S : κ → Prop} {st : Stamps κ} {l l' : List α} {a b : α}

theorem Sorted.nil : Sorted name S .zero ([] : List α) :=
  ⟨.nil, fun _ => Int.le_refl 0, fun _ => Int.le_refl 0⟩

theorem Sorted.sublist (h : Sorted name S st l) (hl : l'.Sublist l) : Sorted name S st l' :=
  ⟨h.pairwise.sublist hl, h.low, h.high⟩

/-- What is at the top is the highest. -/
theorem Sorted.le_top (h : Sorted name S st l) (htop : l.getLast? = some a) (hb : b ∈ l) (ha : S (name a))
    (hb' : S (name b)) : st.height (name b) ≤ st.height (name a) := by
  obtain ⟨l₀, rfl⟩ := List.getLast?_eq_some_iff.mp htop
  rcases List.mem_append.mp hb with hb | hb
  · exact Int.le_of_lt ((List.pairwise_append.mp h.pairwise).2.2 b hb a (List.mem_singleton_self a) hb' ha)
  · exact Int.le_of_eq (congrArg st.height (congrArg name (List.mem_singleton.mp hb)))

variable [DecidableEq κ]

section

variable (name)

def stamp (st : Stamps κ) : Op α → Stamps κ
  | .pushTop a => ⟨st.entered + 1, Function.update st.height (name a) (st.entered + 1)⟩
  | .pushBottom a => ⟨st.entered + 1, Function.update st.height (name a) (-(st.entered + 1))⟩
  | .popTop | .erase _ | .clear => st

/-- The stamps after the operations of a log. -/
def stamps (ops : List (Op α)) : Stamps κ := ops.foldl (stamp name) .zero

theorem stamps_append (ops ops' : List (Op α)) :
    stamps name (ops ++ ops') = ops'.foldl (stamp name) (stamps name ops) := List.foldl_append

end

/-- An entry changes the height of its own name only. -/
theorem Sorted.update {n : ℤ} (h : Sorted name S st l) (hnew : ∀ b ∈ l, S (name a) → name b ≠ name a) :
    l.Pairwise fun b c => S (name b) → S (name c) →
      Function.update st.height (name a) n (name b) < Function.update st.height (name a) n (name c) := by
  have hkeep : ∀ b ∈ l, S (name b) → Function.update st.height (name a) n (name b) = st.height (name b) := by
    intro b hb hS
    exact Function.update_of_ne (fun heq : name b = name a => hnew b hb (heq ▸ hS) heq) _ _
  refine h.pairwise.imp_of_mem fun {b c} hb hc hlt hSb hSc => ?_
  rw [hkeep b hb hSb, hkeep c hc hSc]
  exact hlt hSb hSc

/-- A name that is put on the list is not yet there, if it is there at most once afterwards. -/
theorem ne_of_count (hone : (a :: l).countP (name · = name a) ≤ 1) : ∀ b ∈ l, name b ≠ name a := by
  intro b hb heq
  have hpos : 0 < l.countP (name · = name a) := List.countP_pos_iff.mpr ⟨b, hb, decide_eq_true heq⟩
  rw [List.countP_cons, if_pos (decide_eq_true rfl)] at hone
  omega

variable [DecidableEq α]

/-- **One operation**: the list stays sorted, if no name is there twice afterwards. -/
theorem Sorted.apply (h : Sorted name S st l) (op : Op α)
    (hone : ∀ k, S k → (op.apply l).countP (name · = k) ≤ 1) : Sorted name S (stamp name st op) (op.apply l) := by
  obtain ⟨hpairwise, hlow, hhigh⟩ := id h
  cases op with
  | pushTop a =>
    have hnew : ∀ b ∈ l, S (name a) → name b ≠ name a := by
      intro b hb hS
      refine ne_of_count ?_ b hb
      rw [← (List.perm_append_singleton a l).countP_eq]
      exact hone _ hS
    refine ⟨List.pairwise_append.mpr ⟨h.update hnew, List.pairwise_singleton _ _, ?_⟩, ?_, ?_⟩
    · intro b hb c hc hSb hSc
      rw [List.mem_singleton.mp hc] at hSc ⊢
      have hb' := hhigh (name b)
      simp only [stamp, Function.update_of_ne (hnew b hb hSc), Function.update_self]
      omega
    all_goals
      intro k
      have hk := hlow k
      have hk' := hhigh k
      by_cases heq : k = name a
      · subst heq
        simp only [stamp, Function.update_self]
        omega
      · simp only [stamp, Function.update_of_ne heq]
        omega
  | pushBottom a =>
    have hnew : ∀ b ∈ l, S (name a) → name b ≠ name a := fun b hb hS => ne_of_count (hone _ hS) b hb
    refine ⟨List.pairwise_cons.mpr ⟨?_, h.update hnew⟩, ?_, ?_⟩
    · intro b hb hSa hSb
      have hb' := hlow (name b)
      simp only [stamp, Function.update_of_ne (hnew b hb hSa), Function.update_self]
      omega
    all_goals
      intro k
      have hk := hlow k
      have hk' := hhigh k
      by_cases heq : k = name a
      · subst heq
        simp only [stamp, Function.update_self]
        omega
      · simp only [stamp, Function.update_of_ne heq]
        omega
  | popTop => exact h.sublist (List.dropLast_sublist l)
  | erase => exact h.sublist List.erase_sublist
  | clear => exact h.sublist (List.nil_sublist l)

/-- An operation that puts something on the list takes nothing from it. -/
theorem Op.sublist_apply {op : Op α} (hop : op.pushed.isSome) : l.Sublist (op.apply l) := by
  cases op with
  | pushTop => exact List.sublist_append_left l _
  | pushBottom => exact List.sublist_cons_self _ l
  | popTop | erase | clear => cases hop

theorem sublist_foldl : ∀ {ops : List (Op α)} {l : List α}, (∀ op ∈ ops, op.pushed.isSome) →
    l.Sublist (ops.foldl Op.apply l)
  | [], _, _ => .refl _
  | op :: ops, l, h => by
    have hop : l.Sublist (op.apply l) := Op.sublist_apply (h op List.mem_cons_self)
    exact hop.trans (sublist_foldl fun op' hop' => h op' (List.mem_cons_of_mem _ hop'))

/-- **A block of operations**, of which only the first one may take something from the list: the list stays sorted, if
no name is there twice after the block. -/
theorem Sorted.foldl : ∀ {ops : List (Op α)} {st : Stamps κ} {l : List α}, Sorted name S st l →
    (∀ op ∈ ops.tail, op.pushed.isSome) → (∀ k, S k → (ops.foldl Op.apply l).countP (name · = k) ≤ 1) →
    Sorted name S (ops.foldl (stamp name) st) (ops.foldl Op.apply l)
  | [], _, _, h, _, _ => h
  | op :: ops, st, l, h, hpush, hone => by
    have hsub : (op.apply l).Sublist (ops.foldl Op.apply (op.apply l)) := sublist_foldl hpush
    refine (h.apply op fun k hk => ?_).foldl (fun op' hop' => hpush op' (List.mem_of_mem_tail hop')) hone
    exact Nat.le_trans hsub.countP_le (hone k hk)

end Deque
