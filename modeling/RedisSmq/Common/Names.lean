import Mathlib.Data.List.Basic
import RedisSmq.RedisKeys

/-!
# Accepted names

`validateRedisKey` accepts a text when nothing is filtered out of its lower case, and returns the lower case.

- a text is accepted exactly when it is not empty and every character of it leaves one character
  (`validateRedisKey_eq_ok`);
- no accepted name has the separator of keys in it (`separator_not_mem`);
- what is returned is accepted, and returned again (`validateRedisKey_idem`, `setNamespace_idem`).
-/

namespace RedisSmq.RedisKeys

variable {c d : Char} {key name ns : String}

/-! ## Characters -/

/-- A character leaves at most one. -/
theorem length_filterRedisChar_le (c : Char) : (filterRedisChar c).length ≤ 1 := by
  unfold filterRedisChar
  repeat' split
  all_goals simp

/-- The characters of normal names. -/
def isKeyChar (c : Char) : Bool := c.isLower || c.isDigit || c == '_' || c == '-'

theorem filterRedisChar_of_isKeyChar (h : isKeyChar c) : filterRedisChar c = [c] := if_pos h

theorem isLower_iff : c.isLower ↔ 'a'.val ≤ c.val ∧ c.val ≤ 'z'.val := by
  have hdef : c.isLower = (decide (c.val ≥ 'a'.val) && decide (c.val ≤ 'z'.val)) := rfl
  rw [hdef, Bool.and_eq_true, decide_eq_true_eq, decide_eq_true_eq, ge_iff_le]

theorem isUpper_iff : c.isUpper ↔ 'A'.val ≤ c.val ∧ c.val ≤ 'Z'.val := by
  have hdef : c.isUpper = decide (c.val ≥ 'A'.val ∧ c.val ≤ 'Z'.val) := rfl
  rw [hdef, decide_eq_true_eq, ge_iff_le]

theorem isDigit_iff : c.isDigit ↔ '0'.val ≤ c.val ∧ c.val ≤ '9'.val := by
  have hdef : c.isDigit = (decide (c.val ≥ '0'.val) && decide (c.val ≤ '9'.val)) := rfl
  rw [hdef, Bool.and_eq_true, decide_eq_true_eq, decide_eq_true_eq, ge_iff_le]

theorem val_lt_of_isKeyChar (h : isKeyChar c) : c.val < 0x10000 := by
  simp only [isKeyChar, Bool.or_eq_true, beq_iff_eq] at h
  rcases h with ((h | h) | rfl) | rfl
  · exact Nat.lt_of_le_of_lt (isLower_iff.mp h).2 (by decide)
  · exact Nat.lt_of_le_of_lt (isDigit_iff.mp h).2 (by decide)
  · decide
  · decide

theorem isLower_toLower (h : c.isUpper) : c.toLower.isLower := by
  have hb := isUpper_iff.mp h
  have hlower : c.toLower.val = c.val + ('a'.val - 'A'.val) := congrArg Char.val (dif_pos hb)
  obtain ⟨hlo, hhi⟩ := hb
  rw [isLower_iff, hlower]
  rw [UInt32.le_iff_toNat_le] at hlo hhi
  simp only [UInt32.le_iff_toNat_le, UInt32.toNat_add]
  have h1 : ('A'.val).toNat = 65 := rfl
  have h2 : ('Z'.val).toNat = 90 := rfl
  have h3 : ('a'.val - 'A'.val).toNat = 32 := rfl
  have h4 : ('a'.val).toNat = 97 := rfl
  have h5 : ('z'.val).toNat = 122 := rfl
  omega

/-- What is left of a character is of this kind. -/
theorem isKeyChar_of_mem (h : d ∈ filterRedisChar c) : isKeyChar d := by
  unfold filterRedisChar at h
  split at h
  · rename_i hc
    rwa [List.mem_singleton.mp h]
  · split at h
    · rename_i hu
      rw [List.mem_singleton.mp h, isKeyChar, isLower_toLower hu]
      rfl
    · split at h
      · rw [List.mem_singleton.mp h]
        decide
      · split at h
        · rw [List.mem_singleton.mp h]
          decide
        · cases h

/-- The separator is filtered out. -/
theorem filterRedisChar_separator : filterRedisChar '|' = [] := by decide

/-! ## Texts -/

theorem length_filtered_le : ∀ l : List Char, (l.flatMap filterRedisChar).length ≤ utf16Length l
  | [] => Nat.le_refl _
  | c :: l => by
    have hc := length_filterRedisChar_le c
    have hl := length_filtered_le l
    simp only [List.flatMap_cons, List.length_append, utf16Length]
    split <;> omega

/-- Nothing is filtered out: every character leaves one. -/
theorem filterRedisChar_length_eq {l : List Char} (h : (l.flatMap filterRedisChar).length = utf16Length l) :
    ∀ c ∈ l, (filterRedisChar c).length = 1 := by
  induction l with
  | nil => intro c hc; cases hc
  | cons a l ih =>
    have ha := length_filterRedisChar_le a
    have hl := length_filtered_le l
    simp only [List.flatMap_cons, List.length_append, utf16Length] at h
    intro c hc
    rcases List.mem_cons.mp hc with rfl | hc
    · split at h <;> omega
    · refine ih ?_ c hc
      split at h <;> omega

/-- A text of such characters is left as it is. -/
theorem filtered_fixed {l : List Char} (h : ∀ c ∈ l, isKeyChar c) :
    l.flatMap filterRedisChar = l ∧ utf16Length l = l.length := by
  induction l with
  | nil => exact ⟨rfl, rfl⟩
  | cons c l ih =>
    obtain ⟨hc, hl⟩ := List.forall_mem_cons.mp h
    obtain ⟨h1, h2⟩ := ih hl
    constructor
    · rw [List.flatMap_cons, filterRedisChar_of_isKeyChar hc, h1, List.singleton_append]
    · rw [utf16Length, if_pos (val_lt_of_isKeyChar hc), h2, List.length_cons, Nat.add_comm]

/-! ## Names -/

/-- The texts that are accepted, and what is returned. -/
theorem validateRedisKey_eq_ok : validateRedisKey key = .ok name ↔ key ≠ "" ∧
    (key.toList.flatMap filterRedisChar).length = utf16Length key.toList ∧
    name = String.ofList (key.toList.flatMap filterRedisChar) := by
  unfold validateRedisKey
  split
  · rename_i h
    simp [String.isEmpty_iff.mp h]
  · rename_i h
    have hne : key ≠ "" := fun he => h (String.isEmpty_iff.mpr he)
    dsimp only
    split
    · rename_i hlen
      constructor
      · intro he
        cases he
      · intro he
        exact absurd he.2.1 hlen
    · rename_i hlen
      simp [hne, Decidable.not_not.mp hlen, eq_comm]

/-- No accepted name has the separator in it. -/
theorem separator_not_mem (h : validateRedisKey key = .ok name) : '|' ∉ key.toList := by
  obtain ⟨-, hlen, -⟩ := validateRedisKey_eq_ok.mp h
  intro hmem
  have h1 := filterRedisChar_length_eq hlen _ hmem
  rw [filterRedisChar_separator] at h1
  cases h1

/-- What is returned is accepted, and returned again. -/
theorem validateRedisKey_idem (h : validateRedisKey key = .ok name) : validateRedisKey name = .ok name := by
  obtain ⟨hne, hlen, rfl⟩ := validateRedisKey_eq_ok.mp h
  have hchars : ∀ c ∈ key.toList.flatMap filterRedisChar, isKeyChar c := by
    intro c hc
    obtain ⟨a, -, hca⟩ := List.mem_flatMap.mp hc
    exact isKeyChar_of_mem hca
  obtain ⟨h1, h2⟩ := filtered_fixed hchars
  refine validateRedisKey_eq_ok.mpr ⟨?_, ?_, ?_⟩
  · -- a text that is not empty has at least one unit, and so something is left of it
    intro hempty
    have hnil : key.toList.flatMap filterRedisChar = [] := by simpa using congrArg String.toList hempty
    obtain ⟨c, l, hkey⟩ := List.exists_cons_of_ne_nil (fun he => hne (String.toList_eq_nil_iff.mp he))
    rw [hnil, hkey, utf16Length, List.length_nil] at hlen
    split at hlen <;> omega
  · rw [String.toList_ofList, h1, h2]
  · rw [String.toList_ofList, h1]

/-- A namespace that is set can be set again. -/
theorem setNamespace_eq_ok : setNamespace ns = .ok name ↔ validateRedisKey ns = .ok name ∧ name ≠ globalNamespace := by
  unfold setNamespace
  cases h : validateRedisKey ns with
  | error e => simp [bind, Except.bind]
  | ok n =>
    by_cases hn : n = globalNamespace
    · subst hn
      simp [bind, Except.bind, eq_comm]
    · simp only [bind, Except.bind, if_neg hn, pure, Except.pure, Except.ok.injEq]
      constructor
      · rintro rfl
        exact ⟨rfl, hn⟩
      · exact And.left

theorem setNamespace_idem (h : setNamespace ns = .ok name) : setNamespace name = .ok name := by
  obtain ⟨hv, hg⟩ := setNamespace_eq_ok.mp h
  exact setNamespace_eq_ok.mpr ⟨validateRedisKey_idem hv, hg⟩

/-- A namespace that can be set is not the reserved one. -/
theorem ne_globalNamespace (h : setNamespace ns = .ok name) : ns ≠ globalNamespace := by
  rintro rfl
  obtain ⟨hv, hg⟩ := setNamespace_eq_ok.mp h
  have hok : validateRedisKey globalNamespace = .ok globalNamespace := by decide
  rw [hok] at hv
  exact hg (Except.ok.inj hv).symm

end RedisSmq.RedisKeys
