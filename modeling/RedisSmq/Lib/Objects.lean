import Mathlib.Algebra.BigOperators.Group.Finset.Basic
import Mathlib.Algebra.GroupWithZero.Nat
import Mathlib.Data.List.AList
import Mathlib.Data.Nat.Notation

/-!
# Objects as tables

The own properties of an object: values by distinct names, their order left out. All values are objects themselves, so a
test of `o[k]` fails only where nothing stands under the name.

A plain object also has the properties of its prototype: `proto` lists their names. A property that is inherited is found
where a test asks for it, and an assignment to what is found there does not reach the object (`lookup_touch`).

`total f o` is the sum of `f` over the own values. It is changed by what is put in place of what was there
(`total_insert`), and depends only on what stands under each name (`total_congr`).
-/

/-- The own values of an object by their names. -/
abbrev Objects (κ α : Type) : Type := AList fun _ : κ => α

namespace Objects

variable {κ α β : Type}

/-- The sum over the own values. -/
def total (f : α → ℕ) (o : Objects κ α) : ℕ := (o.entries.map fun s => f s.2).sum

theorem total_empty (f : α → ℕ) : total f (∅ : Objects κ α) = 0 := rfl

variable [DecidableEq κ] {f : α → ℕ} {g : β → ℕ}

/-! ## Setting, deleting and looking up -/

theorem lookup_insert_ite (o : Objects κ α) (k : κ) (v : α) (k' : κ) :
    (o.insert k v).lookup k' = if k' = k then some v else o.lookup k' := by
  by_cases h : k' = k
  · rw [if_pos h, h, AList.lookup_insert]
  · rw [if_neg h, AList.lookup_insert_ne h]

theorem lookup_erase_ite (o : Objects κ α) (k k' : κ) :
    (o.erase k).lookup k' = if k' = k then none else o.lookup k' := by
  by_cases h : k' = k
  · rw [if_pos h, h, AList.lookup_erase]
  · rw [if_neg h, AList.lookup_erase_ne h]

/-! ## Sums -/

/-- What is deleted is taken away. -/
theorem total_erase (f : α → ℕ) (o : Objects κ α) (k : κ) :
    total f (o.erase k) + (o.lookup k).elim 0 f = total f o := by
  by_cases h : k ∈ o
  · obtain ⟨b, l₁, l₂, hl₁, hentries, herase⟩ := List.exists_of_kerase h
    have hlookup : o.lookup k = some b := by
      refine AList.mem_lookup_iff.mpr ?_
      rw [hentries]
      exact List.mem_append_right _ List.mem_cons_self
    have htotal : total f (o.erase k) = ((l₁ ++ l₂).map fun s => f s.2).sum := by rw [← herase]; rfl
    rw [hlookup, htotal, total, hentries]
    simp only [Option.elim_some, List.map_append, List.map_cons, List.sum_append, List.sum_cons]
    omega
  · have hlookup : o.lookup k = none := AList.lookup_eq_none.mpr h
    have hentries : (o.erase k).entries = o.entries := List.kerase_of_notMem_keys h
    rw [hlookup, total, hentries]
    rfl

/-- What is set takes the place of what was there. -/
theorem total_insert (f : α → ℕ) (o : Objects κ α) (k : κ) (v : α) :
    total f (o.insert k v) + (o.lookup k).elim 0 f = total f o + f v := by
  have hinsert : total f (o.insert k v) = f v + total f (o.erase k) := by
    rw [total, AList.entries_insert]
    rfl
  have herase := total_erase f o k
  omega

/-- The sum, name by name. -/
theorem total_eq_sum (f : α → ℕ) (o : Objects κ α) {s : Finset κ} (h : o.keys.toFinset ⊆ s) :
    total f o = ∑ k ∈ s, (o.lookup k).elim 0 f := by
  have hkeys : ∑ k ∈ o.keys.toFinset, (o.lookup k).elim 0 f = (o.keys.map fun k => (o.lookup k).elim 0 f).sum :=
    List.sum_toFinset _ o.keys_nodup
  have hzero : ∑ k ∈ o.keys.toFinset, (o.lookup k).elim 0 f = ∑ k ∈ s, (o.lookup k).elim 0 f := by
    refine Finset.sum_subset h fun k _ hk => ?_
    rw [AList.lookup_eq_none.mpr fun hmem => hk (List.mem_toFinset.mpr hmem)]
    rfl
  rw [← hzero, hkeys, total, AList.keys, List.keys, List.map_map]
  refine congrArg List.sum (List.map_congr_left fun s hs => ?_)
  have hlookup : o.lookup s.1 = some s.2 := AList.mem_lookup_iff.mpr hs
  rw [Function.comp_apply, hlookup]
  rfl

/-- The sums agree when they do under each name. -/
theorem total_congr {o : Objects κ α} {o' : Objects κ β}
    (h : ∀ k, (o.lookup k).elim 0 f = (o'.lookup k).elim 0 g) : total f o = total g o' := by
  have hleft : o.keys.toFinset ⊆ o.keys.toFinset ∪ o'.keys.toFinset := Finset.subset_union_left
  have hright : o'.keys.toFinset ⊆ o.keys.toFinset ∪ o'.keys.toFinset := Finset.subset_union_right
  rw [total_eq_sum f o hleft, total_eq_sum g o' hright]
  exact Finset.sum_congr rfl fun k _ => h k

/-! ## Inherited properties -/

/-- `if (!o[k]) o[k] = new`. -/
def addIfNotExists (proto : List κ) (o : Objects κ α) (k : κ) (new : α) : Objects κ α :=
  if (o.lookup k).isSome ∨ k ∈ proto then o else o.insert k new

/-- Assignments to what stands under a name; what is inherited is not an own value. -/
def assign (o : Objects κ α) (k : κ) (f : α → α) : Objects κ α := (o.lookup k).elim o fun a => o.insert k (f a)

/-- What is assigned under the name reaches the object, once the name has been added. -/
def Reaches (proto : List κ) (o : Objects κ α) (k : κ) : Prop := (o.lookup k).isSome ∨ k ∉ proto

instance (proto : List κ) (o : Objects κ α) (k : κ) : Decidable (Reaches proto o k) := by
  unfold Reaches
  infer_instance

/-- The name is added if nothing stands there, and then there are assignments to what does. -/
def touch (proto : List κ) (o : Objects κ α) (k : κ) (new : α) (change : α → α) : Objects κ α :=
  assign (addIfNotExists proto o k new) k change

variable {proto : List κ} {o : Objects κ α} {k k' : κ} {new : α} {change : α → α}

/-- A name that is not reached has no own value. -/
theorem lookup_eq_none (h : ¬Reaches proto o k) : o.lookup k = none :=
  Option.not_isSome_iff_eq_none.mp fun hsome => h (Or.inl hsome)

theorem lookup_addIfNotExists : (addIfNotExists proto o k new).lookup k' =
    if k' = k ∧ Reaches proto o k then some ((o.lookup k).getD new) else o.lookup k' := by
  unfold addIfNotExists
  by_cases hadd : (o.lookup k).isSome ∨ k ∈ proto
  · rw [if_pos hadd]
    split
    case isTrue h =>
      obtain ⟨rfl, hreach⟩ := h
      have hown : (o.lookup k').isSome := hadd.elim id fun hproto => hreach.resolve_right fun h => h hproto
      obtain ⟨a, ha⟩ := Option.isSome_iff_exists.mp hown
      rw [ha, Option.getD_some]
    case isFalse h => rfl
  · have hnone : o.lookup k = none := Option.not_isSome_iff_eq_none.mp fun h => hadd (Or.inl h)
    have hreach : Reaches proto o k := Or.inr fun h => hadd (Or.inr h)
    rw [if_neg hadd, lookup_insert_ite, hnone, Option.getD_none]
    simp only [hreach, and_true]

theorem lookup_assign : (assign o k change).lookup k' = if k' = k then (o.lookup k).map change else o.lookup k' := by
  unfold assign
  cases h : o.lookup k with
  | none =>
    by_cases hk : k' = k
    · rw [if_pos hk, hk]
      exact h
    · rw [if_neg hk]
      rfl
  | some a => exact lookup_insert_ite o k (change a) k'

/-- An own value changes, or one that is new; where the name is inherited nothing does. -/
theorem lookup_touch : (touch proto o k new change).lookup k' =
    if k' = k ∧ Reaches proto o k then some (change ((o.lookup k).getD new)) else o.lookup k' := by
  rw [touch, lookup_assign, lookup_addIfNotExists, lookup_addIfNotExists]
  by_cases hk : k' = k
  · subst hk
    by_cases hreach : Reaches proto o k'
    · simp [hreach]
    · simp [hreach, lookup_eq_none hreach]
  · simp [hk]

/-- Adding names does not change which names are reached. -/
theorem reaches_touch : (touch proto o k new change).Reaches proto k' ↔ o.Reaches proto k' := by
  unfold Reaches
  rw [lookup_touch]
  split
  case isTrue h =>
    obtain ⟨rfl, hreach⟩ := h
    exact ⟨fun _ => hreach, fun _ => Or.inl rfl⟩
  case isFalse => exact Iff.rfl

/-- The assignments of two calls are made one after the other. -/
theorem assign_assign (o : Objects κ α) (k : κ) (f g : α → α) :
    assign (assign o k f) k g = assign o k fun a => g (f a) := by
  cases h : o.lookup k with
  | none => simp [assign, h]
  | some a => simp [assign, h]

/-- Changes of one name are made one after the other. -/
theorem touch_touch (proto : List κ) (o : Objects κ α) (k : κ) (new : α) (f g : α → α) :
    touch proto (touch proto o k new f) k new g = touch proto o k new fun a => g (f a) := by
  unfold touch
  rw [← assign_assign _ k f g]
  refine congrArg (fun o => assign o k g) ?_
  generalize ho : addIfNotExists proto o k new = o'
  rcases h : o'.lookup k with _ | a
  · have hsame : assign o' k f = o' := by rw [assign, h, Option.elim_none]
    have hproto : (o.lookup k).isSome ∨ k ∈ proto := by
      by_contra hadd
      rw [addIfNotExists, if_neg hadd] at ho
      rw [← ho, AList.lookup_insert] at h
      cases h
    have hself : addIfNotExists proto o k new = o := if_pos hproto
    rw [hsame, ← ho, hself, hself]
  · have hown : ((assign o' k f).lookup k).isSome ∨ k ∈ proto := by
      rw [assign, h, Option.elim_some, AList.lookup_insert]
      exact Or.inl rfl
    rw [addIfNotExists, if_pos hown]

/-- What is added and changed takes the place of what was there. -/
theorem total_touch (proto : List κ) (o : Objects κ α) (k : κ) (new : α) (change : α → α) (hnew : f new = 0) : total f (touch proto o k new change) + f ((o.lookup k).getD new) =
    total f o + if Reaches proto o k then f (change ((o.lookup k).getD new)) else 0 := by
  by_cases hreach : Reaches proto o k
  · have helim : (o.lookup k).elim 0 f = f ((o.lookup k).getD new) := by
      cases o.lookup k with
      | none => exact hnew.symm
      | some a => rfl
    have heq : total f (touch proto o k new change) = total f (o.insert k (change ((o.lookup k).getD new))) := by
      refine total_congr fun k' => ?_
      rw [lookup_touch, lookup_insert_ite]
      simp only [hreach, and_true]
    have hinsert := total_insert f o k (change ((o.lookup k).getD new))
    rw [if_pos hreach, heq]
    omega
  · have heq : total f (touch proto o k new change) = total f o := by
      refine total_congr fun k' => ?_
      rw [lookup_touch, if_neg fun h => hreach h.2]
    rw [if_neg hreach, heq, lookup_eq_none hreach, Option.getD_none, hnew]

end Objects
