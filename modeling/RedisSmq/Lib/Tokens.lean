import Mathlib.Data.Multiset.Count
import Mathlib.Data.Multiset.AddSub
import Mathlib.Logic.Relation
import Mathlib.Data.Set.Insert

/-!
# Tokens on a board

A board holds a multiset of tokens at every place. A ledger is a board with the set of tokens issued so far; a token is
issued where no copy of it lies, moved from one place to another, and only tokens that were never issued may be copied
or dropped.

- `Single b x`: exactly one copy of `x` lies on the board `b`;
- moves and foreign tokens do not change it (`single_move`, `single_put_ne`), and issuing establishes it (`single_put`);
- `AtMostOne c`: the counts `c` of one token, which may be missing, and what may happen to them (`AtMostOne.shift`);
- every path of a ledger keeps every issued token single (`Ledger.path_balanced`).
-/

namespace Tokens

variable {ι α : Type*} [DecidableEq ι] [DecidableEq α]

/-- Add a token at a place. -/
def put (b : ι → Multiset α) (i : ι) (x : α) : ι → Multiset α := Function.update b i (x ::ₘ b i)

/-- Remove a token from a place. -/
def take (b : ι → Multiset α) (i : ι) (x : α) : ι → Multiset α := Function.update b i ((b i).erase x)

/-- Move a token. -/
def move (b : ι → Multiset α) (i j : ι) (x : α) : ι → Multiset α := put (take b i x) j x

/-- Exactly one copy of `x` lies on the board. -/
def Single (b : ι → Multiset α) (x : α) : Prop := ∃ i, (b i).count x = 1 ∧ ∀ j, j ≠ i → x ∉ b j

variable {b : ι → Multiset α} {i j : ι} {x y : α}

omit [DecidableEq α] in
theorem mem_put : y ∈ put b i x j ↔ (j = i ∧ y = x) ∨ y ∈ b j := by
  by_cases h : j = i
  · subst h; simp [put]
  · simp [put, h]

theorem count_put : (put b i x j).count y = (b j).count y + if j = i ∧ y = x then 1 else 0 := by
  by_cases h : j = i
  · subst h; simp [put, Multiset.count_cons]
  · simp [put, h]

theorem count_take : (take b i x j).count y = (b j).count y - if j = i ∧ y = x then 1 else 0 := by
  by_cases h : j = i
  · subst h
    by_cases hy : y = x
    · subst hy; simp [take]
    · simp [take, hy, Multiset.count_erase_of_ne hy]
  · simp [take, h]

/-- A single token lies at most once anywhere. -/
theorem Single.count_le (h : Single b x) (k : ι) : (b k).count x ≤ 1 := by
  obtain ⟨i, hi, hne⟩ := h
  by_cases hk : k = i
  · subst hk; omega
  · rw [Multiset.count_eq_zero_of_notMem (hne k hk)]; omega

/-- Two places that hold a single token are the same place. -/
theorem Single.place_unique (h : Single b x) (hi : x ∈ b i) (hj : x ∈ b j) : i = j := by
  obtain ⟨k, _, hne⟩ := h
  have h1 : i = k := by by_contra hn; exact hne i hn hi
  have h2 : j = k := by by_contra hn; exact hne j hn hj
  rw [h1, h2]

/-- Issuing: a token that lies nowhere is single once it is put somewhere. -/
theorem single_put (h : ∀ k, x ∉ b k) (i : ι) : Single (put b i x) x := by
  refine ⟨i, ?_, fun j hj => ?_⟩
  · rw [count_put, Multiset.count_eq_zero_of_notMem (h i)]; simp
  · rw [mem_put]; rintro (⟨e, _⟩ | e)
    · exact hj e
    · exact h j e

/-- Putting another token somewhere changes nothing. -/
theorem single_put_ne (hxy : x ≠ y) (h : Single b x) : Single (put b i y) x := by
  obtain ⟨k, hk, hne⟩ := h
  refine ⟨k, ?_, fun j hj => ?_⟩
  · rw [count_put, hk, if_neg (fun e => hxy e.2)]
  · rw [mem_put]; rintro (⟨_, e⟩ | e)
    · exact hxy e
    · exact hne j hj e

/-- Dropping another token changes nothing. -/
theorem single_take_ne (hxy : x ≠ y) (h : Single b x) : Single (take b i y) x := by
  obtain ⟨k, hk, hne⟩ := h
  refine ⟨k, ?_, fun j hj => ?_⟩
  · rw [count_take, if_neg (fun e => hxy e.2), hk]
  · rw [← Multiset.count_eq_zero, count_take, if_neg (fun e => hxy e.2)]
    exact Multiset.count_eq_zero_of_notMem (hne j hj)

/-- Moving keeps every token single. -/
theorem single_move (hy : y ∈ b i) (h : Single b x) : Single (move b i j y) x := by
  by_cases hxy : x = y
  · subst hxy
    -- the only place of `x` is `i`, which the move empties of it
    have hcount : (b i).count x = 1 := by
      have := Multiset.count_pos.mpr hy
      have := h.count_le i
      omega
    have hnone : ∀ k, x ∉ take b i x k := by
      intro k hk
      have hpos := Multiset.count_pos.mpr hk
      rw [count_take] at hpos
      by_cases hki : k = i
      · subst hki; simp [hcount] at hpos
      · have hmem : x ∈ b k := by rw [← Multiset.count_pos]; omega
        exact hki (h.place_unique hmem hy)
    exact single_put hnone j
  · exact single_put_ne hxy (single_take_ne hxy h)

/-- Taking from one place and putting at another do not depend on their order. -/
theorem take_put (h : i ≠ j) : take (put b j y) i x = put (take b i x) j y := by
  funext k
  by_cases hi : k = i
  · subst hi; simp [take, put, h]
  · by_cases hj : k = j
    · subst hj; simp [take, put, hi]
    · simp [take, put, hi, hj]

/-! ## One token that may be missing -/

section AtMostOne

variable {c c' : ι → ℕ}

/-- The counts of one token, of which there is at most one copy. -/
def AtMostOne (c : ι → ℕ) : Prop := ∃ i, c i ≤ 1 ∧ ∀ j, j ≠ i → c j = 0

/-- How the counts of one token change: copies are dropped, one is moved, or the first one is put. -/
inductive Shift (c c' : ι → ℕ) : Prop
  | drop : (∀ k, c' k ≤ c k) → Shift c c'
  | move (i j : ι) : 0 < c i → (∀ k, c' k + (if k = i then 1 else 0) ≤ c k + if k = j then 1 else 0) → Shift c c'
  | fresh (j : ι) : (∀ k, c k = 0) → (∀ k, c' k ≤ if k = j then 1 else 0) → Shift c c'

omit [DecidableEq ι] in
/-- Two places that have a copy are the same. -/
theorem AtMostOne.place_unique (h : AtMostOne c) (hi : c i ≠ 0) (hj : c j ≠ 0) : i = j := by
  obtain ⟨k, _, hne⟩ := h
  have h1 : i = k := by by_contra hn; exact hi (hne i hn)
  have h2 : j = k := by by_contra hn; exact hj (hne j hn)
  rw [h1, h2]

omit [DecidableEq ι] in
theorem AtMostOne.le_one (h : AtMostOne c) (k : ι) : c k ≤ 1 := by
  obtain ⟨i, hi, hne⟩ := h
  by_cases hk : k = i
  · rw [hk]; exact hi
  · rw [hne k hk]; omega

/-- A shift keeps at most one copy. -/
theorem AtMostOne.shift (h : AtMostOne c) (hs : Shift c c') : AtMostOne c' := by
  cases hs with
  | drop hle =>
    obtain ⟨i, hi, hne⟩ := h
    refine ⟨i, (hle i).trans hi, fun j hj => ?_⟩
    have := hle j
    rw [hne j hj] at this
    omega
  | move i j hpos hle =>
    have hone := h.le_one
    have hzero : ∀ k, k ≠ i → c k = 0 := by
      intro k hk
      by_contra hc
      exact hk (h.place_unique hc (Nat.pos_iff_ne_zero.mp hpos))
    refine ⟨j, ?_, fun k hk => ?_⟩
    · have hj := hle j
      have hi := hone i
      by_cases hji : j = i
      · subst hji
        rw [if_pos rfl] at hj
        omega
      · rw [if_neg hji, if_pos rfl, hzero j hji] at hj
        omega
    · have hk' := hle k
      have hi := hone i
      by_cases hki : k = i
      · subst hki
        rw [if_pos rfl, if_neg hk] at hk'
        omega
      · rw [if_neg hki, if_neg hk, hzero k hki] at hk'
        omega
  | fresh j _ hle =>
    refine ⟨j, ?_, fun k hk => ?_⟩
    · have := hle j
      rwa [if_pos rfl] at this
    · have := hle k
      rw [if_neg hk] at this
      omega

end AtMostOne

/-! ## Ledgers -/

/-- A board and the set of the tokens issued so far. -/
structure Ledger (ι α : Type*) where
  board : ι → Multiset α
  issued : Set α

/-- One transaction of a ledger. -/
inductive Ledger.Step : Ledger ι α → Ledger ι α → Prop
  | issue {l : Ledger ι α} (i : ι) (x : α) : (∀ j, x ∉ l.board j) → Step l ⟨put l.board i x, insert x l.issued⟩
  | move {l : Ledger ι α} (i j : ι) (x : α) : x ∈ l.board i → Step l ⟨Tokens.move l.board i j x, l.issued⟩
  | copy {l : Ledger ι α} (i : ι) (x : α) : x ∉ l.issued → Step l ⟨put l.board i x, l.issued⟩
  | drop {l : Ledger ι α} (i : ι) (x : α) : x ∉ l.issued → Step l ⟨take l.board i x, l.issued⟩

/-- Every issued token lies on the board in exactly one copy. -/
def Ledger.Balanced (l : Ledger ι α) : Prop := ∀ x ∈ l.issued, Single l.board x

/-- One transaction keeps the ledger balanced. -/
theorem Ledger.step_balanced {l l' : Ledger ι α} (h : Ledger.Step l l') (hl : l.Balanced) : l'.Balanced := by
  cases h with
  | issue i x hx =>
    intro y hy
    by_cases hyx : y = x
    · subst hyx; exact single_put hx i
    · exact single_put_ne hyx (hl y (Set.mem_of_mem_insert_of_ne hy hyx))
  | move i j x hx => exact fun y hy => single_move hx (hl y hy)
  | copy i x hx =>
    intro y hy
    have hyx : y ≠ x := by rintro rfl; exact hx hy
    exact single_put_ne hyx (hl y hy)
  | drop i x hx =>
    intro y hy
    have hyx : y ≠ x := by rintro rfl; exact hx hy
    exact single_take_ne hyx (hl y hy)

/-- Every sequence of transactions keeps the ledger balanced. -/
theorem Ledger.path_balanced {l l' : Ledger ι α} (h : Relation.ReflTransGen Ledger.Step l l') (hl : l.Balanced) :
    l'.Balanced := by
  induction h with
  | refl => exact hl
  | tail _ hs ih => exact step_balanced hs ih

end Tokens
