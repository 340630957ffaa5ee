import Mathlib.Data.Int.Notation
import Mathlib.Data.List.Nodup
import Mathlib.Data.List.Perm.Basic

/-!
# Sorted sets

A sorted set lists its members in rank order: by score, and members of one score in the order `lt`, about which nothing
is assumed. Members are distinct.

- `zadd`, `zrem`, `zcard`, `zrange`, `zrangebyscore` and `first` (the member of rank `0`);
- what they do to the members: `members_zadd_perm`, `members_zrem`, `mem_zrangebyscore`;
- what they do to the scores: `score_zadd_self`, `score_zadd_of_ne`, `score_zrem_of_ne`; the first member has the least
  one (`score_first_le`);
- `Image`: a sorted set of the images of the members (`Image.zadd`, `Image.zrem`).
-/

/-- A sorted set: distinct members with their scores, in rank order. -/
structure SortedSet (α : Type*) where
  entries : List (α × ℕ)
  nodup : (entries.map Prod.fst).Nodup
  sorted : entries.Pairwise (fun x y => x.2 ≤ y.2)

namespace SortedSet

variable {α : Type*}

/-- Insert an entry before the first one that it precedes. -/
def insertEntry (lt : α → α → Bool) (e : α × ℕ) : List (α × ℕ) → List (α × ℕ)
  | [] => [e]
  | f :: l => if e.2 < f.2 ∨ (e.2 = f.2 ∧ lt e.1 f.1) then e :: f :: l else f :: insertEntry lt e l

theorem insertEntry_perm (lt : α → α → Bool) (e : α × ℕ) : ∀ l, (insertEntry lt e l).Perm (e :: l)
  | [] => .refl _
  | f :: l => by
    simp only [insertEntry]
    split
    · exact .refl _
    · exact ((insertEntry_perm lt e l).cons f).trans (.swap e f l)

theorem insertEntry_sorted (lt : α → α → Bool) (e : α × ℕ) : ∀ {l : List (α × ℕ)},
    l.Pairwise (fun x y => x.2 ≤ y.2) → (insertEntry lt e l).Pairwise (fun x y => x.2 ≤ y.2)
  | [], _ => by simp [insertEntry]
  | f :: l, h => by
    obtain ⟨hf, hl⟩ := List.pairwise_cons.mp h
    simp only [insertEntry]
    split
    · rename_i hc
      have he : e.2 ≤ f.2 := by omega
      refine List.pairwise_cons.mpr ⟨fun x hx => ?_, h⟩
      rcases List.mem_cons.mp hx with rfl | hx
      · exact he
      · exact Nat.le_trans he (hf x hx)
    · rename_i hc
      refine List.pairwise_cons.mpr ⟨fun x hx => ?_, insertEntry_sorted lt e hl⟩
      rcases List.mem_cons.mp ((insertEntry_perm lt e l).mem_iff.mp hx) with rfl | hx
      · omega
      · exact hf x hx

/-- The sorted set without members. -/
def empty : SortedSet α := ⟨[], by simp, by simp⟩

instance : Inhabited (SortedSet α) := ⟨empty⟩

/-- The members in rank order. -/
def members (z : SortedSet α) : List α := z.entries.map Prod.fst

theorem nodup_members (z : SortedSet α) : z.members.Nodup := z.nodup

/-- The member of rank `0`. -/
def first (z : SortedSet α) : Option α := z.members.head?

/-- The members with a score in an interval, in rank order. -/
def zrangebyscore (z : SortedSet α) (lo hi : ℕ) : List α :=
  (z.entries.filter (fun e => lo ≤ e.2 && e.2 ≤ hi)).map Prod.fst

/-- The members of the ranks from `start` to `stop`; a negative rank counts from the end. -/
def zrange (z : SortedSet α) (start stop : ℤ) : List α :=
  let first := (if start < 0 then start + z.members.length else start).toNat
  let last := if stop < 0 then stop + z.members.length else stop
  (z.members.drop first).take (last - first + 1).toNat

/-- The number of members. -/
def zcard (z : SortedSet α) : ℕ := z.members.length

variable [DecidableEq α]

/-- Remove a member. -/
def zrem (z : SortedSet α) (a : α) : SortedSet α where
  entries := z.entries.filter (fun e => e.1 ≠ a)
  nodup := z.nodup.sublist (List.filter_sublist.map _)
  sorted := z.sorted.sublist List.filter_sublist

/-- The score of a member. -/
def score (z : SortedSet α) (a : α) : Option ℕ := (z.entries.find? (fun e => e.1 = a)).map Prod.snd

theorem members_zrem (z : SortedSet α) (a : α) : (z.zrem a).members = z.members.erase a := by
  rw [z.nodup_members.erase_eq_filter]
  simp only [members, zrem, List.filter_map]
  congr 1
  exact List.filter_congr (fun e _ => by simp [bne, beq_eq_decide])

theorem mem_zrem {z : SortedSet α} {a b : α} : b ∈ (z.zrem a).members ↔ b ≠ a ∧ b ∈ z.members := by
  rw [members_zrem, z.nodup_members.mem_erase_iff]

/-- Add a member, or give a member another score. -/
def zadd (lt : α → α → Bool) (z : SortedSet α) (score : ℕ) (a : α) : SortedSet α where
  entries := insertEntry lt (a, score) (z.zrem a).entries
  nodup := by
    rw [((insertEntry_perm lt (a, score) _).map _).nodup_iff, List.map_cons, List.nodup_cons]
    exact ⟨fun h => (mem_zrem.mp h).1 rfl, (z.zrem a).nodup⟩
  sorted := insertEntry_sorted lt _ (z.zrem a).sorted

/-- Adding puts the member among the others. -/
theorem members_zadd_perm (lt : α → α → Bool) (z : SortedSet α) (n : ℕ) (a : α) :
    (z.zadd lt n a).members.Perm (a :: (z.zrem a).members) := (insertEntry_perm lt (a, n) _).map _

theorem mem_zadd {lt : α → α → Bool} {z : SortedSet α} {n : ℕ} {a b : α} :
    b ∈ (z.zadd lt n a).members ↔ b = a ∨ b ∈ z.members := by
  rw [(members_zadd_perm lt z n a).mem_iff, List.mem_cons, mem_zrem]
  by_cases h : b = a <;> simp [h]

/-- The scores are those of the entries. -/
theorem score_eq_some {z : SortedSet α} {a : α} {n : ℕ} : z.score a = some n ↔ (a, n) ∈ z.entries := by
  have key : ∀ l : List (α × ℕ), (l.map Prod.fst).Nodup →
      ((l.find? (fun e => e.1 = a)).map Prod.snd = some n ↔ (a, n) ∈ l) := by
    intro l
    induction l with
    | nil => simp
    | cons e l ih =>
      intro hn
      obtain ⟨he, hl⟩ := List.nodup_cons.mp hn
      obtain ⟨b, k⟩ := e
      by_cases hb : b = a
      · subst hb
        have hnot : (b, n) ∉ l := fun h => he (List.mem_map.mpr ⟨(b, n), h, rfl⟩)
        simp [hnot, eq_comm]
      · have hb' : ¬a = b := fun h => hb h.symm
        simp [hb, hb', ih hl]
  exact key z.entries z.nodup

theorem score_zadd_self (lt : α → α → Bool) (z : SortedSet α) (n : ℕ) (a : α) : (z.zadd lt n a).score a = some n :=
  score_eq_some.mpr ((insertEntry_perm lt (a, n) _).mem_iff.mpr List.mem_cons_self)

/-- Adding a member keeps the scores of the others. -/
theorem score_zadd_of_ne (lt : α → α → Bool) {z : SortedSet α} {n : ℕ} {a b : α} (h : b ≠ a) :
    (z.zadd lt n a).score b = z.score b := by
  refine Option.ext fun k => ?_
  rw [score_eq_some, score_eq_some]
  show (b, k) ∈ insertEntry lt (a, n) (z.zrem a).entries ↔ _
  rw [(insertEntry_perm lt (a, n) _).mem_iff, List.mem_cons]
  simp [zrem, h]

/-- Removing a member keeps the scores of the others. -/
theorem score_zrem_of_ne {z : SortedSet α} {a b : α} (h : b ≠ a) : (z.zrem a).score b = z.score b := by
  refine Option.ext fun k => ?_
  rw [score_eq_some, score_eq_some]
  simp [zrem, h]

theorem score_eq_none {z : SortedSet α} {a : α} : z.score a = none ↔ a ∉ z.members := by
  rw [Option.eq_none_iff_forall_ne_some]
  constructor
  · intro h hm
    obtain ⟨e, he, rfl⟩ := List.mem_map.mp hm
    exact h e.2 (score_eq_some.mpr he)
  · intro h n hn
    exact h (List.mem_map_of_mem (f := Prod.fst) (score_eq_some.mp hn))

/-- The members are those with a score. -/
theorem exists_score {z : SortedSet α} {a : α} : (∃ n, z.score a = some n) ↔ a ∈ z.members := by
  rw [← Option.isSome_iff_exists, ← Option.ne_none_iff_isSome, ne_eq, score_eq_none, not_not]

/-- The scores are bounded. -/
theorem exists_score_le (z : SortedSet α) : ∃ bound, ∀ a n, z.score a = some n → n ≤ bound := by
  have hlist : ∀ l : List (α × ℕ), ∃ bound, ∀ e ∈ l, e.2 ≤ bound := by
    intro l
    induction l with
    | nil => exact ⟨0, fun _ h => absurd h List.not_mem_nil⟩
    | cons e l ih =>
      obtain ⟨bound, hbound⟩ := ih
      refine ⟨max e.2 bound, fun e' he' => ?_⟩
      rcases List.mem_cons.mp he' with rfl | he'
      · exact Nat.le_max_left _ _
      · exact Nat.le_trans (hbound e' he') (Nat.le_max_right _ _)
  obtain ⟨bound, hbound⟩ := hlist z.entries
  exact ⟨bound, fun a n hn => hbound _ (score_eq_some.mp hn)⟩

/-- The members in a score interval are those whose score lies in it. -/
theorem mem_zrangebyscore {z : SortedSet α} {lo hi : ℕ} {a : α} :
    a ∈ z.zrangebyscore lo hi ↔ ∃ n, z.score a = some n ∧ lo ≤ n ∧ n ≤ hi := by
  simp only [zrangebyscore, List.mem_map, List.mem_filter, Bool.and_eq_true, decide_eq_true_eq, score_eq_some]
  constructor
  · rintro ⟨⟨b, n⟩, ⟨hmem, hle⟩, rfl⟩
    exact ⟨n, hmem, hle⟩
  · rintro ⟨n, hmem, hle⟩
    exact ⟨(a, n), ⟨hmem, hle⟩, rfl⟩

/-- The first member has the least score. -/
theorem score_first_le {z : SortedSet α} {a b : α} {n k : ℕ} (hf : z.first = some a) (ha : z.score a = some n)
    (hb : z.score b = some k) : n ≤ k := by
  rw [score_eq_some] at ha hb
  have hs := z.sorted
  have hn := z.nodup
  unfold first members at hf
  cases he : z.entries with
  | nil => rw [he] at ha; cases ha
  | cons e l =>
    rw [he] at hf ha hb hs hn
    have hea : e.1 = a := Option.some.inj hf
    have hne : ∀ e' ∈ l, e'.1 ≠ e.1 := fun e' hmem heq => (List.nodup_cons.mp hn).1 (heq ▸ List.mem_map_of_mem hmem)
    have hen : e = (a, n) := by
      rcases List.mem_cons.mp ha with h | h
      · exact h.symm
      · exact absurd hea.symm (hne _ h)
    rcases List.mem_cons.mp hb with h | h
    · rw [← h] at hen
      cases hen
      exact Nat.le_refl _
    · have hle := (List.pairwise_cons.mp hs).1 _ h
      rw [hen] at hle
      exact hle

/-! ## Images -/

section Image

variable {β : Type*} [DecidableEq β] {f : α → β} {z : SortedSet α} {z' : SortedSet β} {a : α}

/-- The members of the second sorted set are the images of those of the first one, with their scores. -/
def Image (f : α → β) (z : SortedSet α) (z' : SortedSet β) : Prop := z'.entries = z.entries.map fun e => (f e.1, e.2)

omit [DecidableEq α] [DecidableEq β] in
theorem image_empty (f : α → β) : Image f empty empty := rfl

/-- An image is removed with the member, when it is the image of no other one. -/
theorem Image.zrem (h : Image f z z') (ha : ∀ b ∈ z.members, f b = f a → b = a) : Image f (z.zrem a) (z'.zrem (f a)) := by
  show z'.entries.filter (fun e => e.1 ≠ f a) = (z.entries.filter (fun e => e.1 ≠ a)).map fun e => (f e.1, e.2)
  rw [h, List.filter_map]
  apply congrArg
  apply List.filter_congr
  intro e he
  simp only [Function.comp_apply, ne_eq, decide_not]
  apply congrArg
  apply decide_eq_decide.mpr
  exact ⟨ha e.1 (List.mem_map_of_mem he), congrArg f⟩

omit [DecidableEq α] [DecidableEq β] in
/-- Insertion goes by the scores and the order of the images. -/
theorem insertEntry_map (f : α → β) (lt : β → β → Bool) (e : α × ℕ) (l : List (α × ℕ)) :
    insertEntry lt (f e.1, e.2) (l.map fun e => (f e.1, e.2)) =
      (insertEntry (fun a b => lt (f a) (f b)) e l).map fun e => (f e.1, e.2) := by
  induction l with
  | nil => rfl
  | cons e' l ih =>
    rw [List.map_cons, insertEntry, insertEntry, ih]
    split <;> rfl

/-- An image is added with the member, when it is the image of no other one. -/
theorem Image.zadd (h : Image f z z') (ha : ∀ b ∈ z.members, f b = f a → b = a) (lt : β → β → Bool) (n : ℕ) :
    Image f (z.zadd (fun a b => lt (f a) (f b)) n a) (z'.zadd lt n (f a)) := by
  show insertEntry lt (f a, n) (z'.zrem (f a)).entries = _
  rw [h.zrem ha]
  exact insertEntry_map f lt (a, n) (z.zrem a).entries

end Image

omit [DecidableEq α] in
theorem mem_of_first {z : SortedSet α} {a : α} (h : z.first = some a) : a ∈ z.members := List.mem_of_head? h

omit [DecidableEq α] in
/-- The entries in a score interval are members, and distinct. -/
theorem zrangebyscore_sublist (z : SortedSet α) (lo hi : ℕ) : (z.zrangebyscore lo hi).Sublist z.members :=
  List.filter_sublist.map _

omit [DecidableEq α] in
@[simp] theorem members_empty : (empty : SortedSet α).members = [] := rfl

end SortedSet
