import RedisSmq.Lib.Js.Strings

/-!
# Lower case

`toLowerCase` maps the code points of a string by the default case conversion of Unicode. The conversion is a parameter
here: `LowerCase` has what Unicode says of the characters whose lower case has one of ASCII in it. These are the
characters of ASCII, `U+0130`, whose lower case is `i` and a combining dot, and `U+212A`, whose lower case is `k`.

- `codePoints`, `units`: a string by its code points, where a surrogate without the other one stands for itself;
- `filter_toLowerCase`: what a filter for characters of ASCII leaves of the lower case, unit by unit.
-/

namespace Js

/-! ## Code points -/

/-- The code point of two surrogates. -/
def combine (u v : UInt16) : ℕ := 0x10000 + (u.toNat - 0xD800) * 0x400 + (v.toNat - 0xDC00)

/-- `StringToCodePoints`. -/
def codePoints : JsString → List ℕ
  | [] => []
  | [u] => [u.toNat]
  | u :: v :: s => if isLead u && isTrail v then combine u v :: codePoints s else u.toNat :: codePoints (v :: s)

/-- The code units of a code point. -/
def units (c : ℕ) : JsString :=
  if c < 0x10000 then [UInt16.ofNat c]
  else [UInt16.ofNat (0xD800 + (c - 0x10000) / 0x400), UInt16.ofNat (0xDC00 + (c - 0x10000) % 0x400)]

/-! ## The conversion -/

/-- The lower case of a letter of ASCII, and the other characters of ASCII. -/
def asciiLower (c : ℕ) : ℕ := if 0x41 ≤ c ∧ c ≤ 0x5A then c + 0x20 else c

/-- The default conversion to lower case: what a code point is mapped to, between the ones before and after it. -/
structure LowerCase where
  lower : List ℕ → ℕ → List ℕ → List ℕ
  ascii : ∀ before c after, c < 0x80 → lower before c after = [asciiLower c]
  dottedI : ∀ before after, lower before 0x130 after = [0x69, 0x307]
  kelvin : ∀ before after, lower before 0x212A after = [0x6B]
  others : ∀ before c after, 0x80 ≤ c → c ≠ 0x130 → c ≠ 0x212A →
    ∀ d ∈ lower before c after, 0x80 ≤ d ∧ d < 0x110000

/-- A conversion that changes nothing else. -/
def LowerCase.basic : LowerCase where
  lower _ c _ :=
    if c < 0x80 then [asciiLower c] else if c = 0x130 then [0x69, 0x307] else if c = 0x212A then [0x6B]
    else if c < 0x110000 then [c] else []
  ascii _ c _ h := if_pos h
  dottedI _ _ := rfl
  kelvin _ _ := rfl
  others _ c _ h h1 h2 d hd := by
    rw [if_neg (Nat.not_lt.mpr h), if_neg h1, if_neg h2] at hd
    split at hd
    · rename_i hlt
      rw [List.mem_singleton.mp hd]
      exact ⟨h, hlt⟩
    · cases hd

namespace LowerCase

variable (U : LowerCase)

/-- `toLowercase` of the code points `after`, behind `before`. -/
def lowerAll (before : List ℕ) : List ℕ → List ℕ
  | [] => []
  | c :: after => U.lower before c after ++ lowerAll (before ++ [c]) after

/-- `toLowerCase`. -/
def toLowerCase (s : JsString) : JsString := (U.lowerAll [] (codePoints s)).flatMap units

end LowerCase

/-! ## Filters for ASCII -/

/-- The character of ASCII in the lower case of a code unit. -/
def asciiOf (u : UInt16) : JsString :=
  if u.toNat < 0x80 then [UInt16.ofNat (asciiLower u.toNat)]
  else if u = 0x130 then [0x69]
  else if u = 0x212A then [0x6B]
  else []

/-- The predicate holds of characters of ASCII only. -/
def OfAscii (p : UInt16 → Bool) : Prop := ∀ u, p u = true → u.toNat < 0x80

variable {p : UInt16 → Bool} {U : LowerCase}

/-- Nothing is left of a code point outside of ASCII. -/
theorem filter_units (hp : OfAscii p) {c : ℕ} (h : 0x80 ≤ c) (hc : c < 0x110000) : (units c).filter p = [] := by
  rw [List.filter_eq_nil_iff]
  intro u hu hpu
  have hu' := hp u hpu
  unfold units at hu
  split at hu
  · rw [List.mem_singleton.mp hu, UInt16.toNat_ofNat'] at hu'
    omega
  · simp only [List.mem_cons, List.not_mem_nil, or_false] at hu
    rcases hu with rfl | rfl
    · rw [UInt16.toNat_ofNat'] at hu'
      omega
    · rw [UInt16.toNat_ofNat'] at hu'
      omega

theorem filter_flatMap_units (hp : OfAscii p) {l : List ℕ} (h : ∀ d ∈ l, 0x80 ≤ d ∧ d < 0x110000) :
    (l.flatMap units).filter p = [] := by
  rw [List.filter_flatMap, List.flatMap_eq_nil_iff]
  exact fun d hd => filter_units hp (h d hd).1 (h d hd).2

/-- What is left of the lower case of a code unit that stands for itself. -/
theorem filter_lower_unit (hp : OfAscii p) (before after : List ℕ) (u : UInt16) :
    ((U.lower before u.toNat after).flatMap units).filter p = (asciiOf u).filter p := by
  unfold asciiOf
  by_cases hascii : u.toNat < 0x80
  · have hlt : asciiLower u.toNat < 0x10000 := by
      unfold asciiLower
      split <;> omega
    rw [if_pos hascii, U.ascii _ _ _ hascii]
    simp [units, hlt]
  · rw [if_neg hascii]
    by_cases hi : u = 0x130
    · have hlower : U.lower before u.toNat after = [0x69] ++ [0x307] := by
        rw [hi]
        exact U.dottedI before after
      have hdot : ([0x307].flatMap units).filter p = [] := filter_flatMap_units hp (by decide)
      rw [if_pos hi, hlower, List.flatMap_append, List.filter_append, hdot, List.append_nil]
      rfl
    · rw [if_neg hi]
      by_cases hk : u = 0x212A
      · have hlower : U.lower before u.toNat after = [0x6B] := by
          rw [hk]
          exact U.kelvin before after
        rw [if_pos hk, hlower]
        rfl
      · have hi' : u.toNat ≠ 0x130 := fun h => hi (UInt16.toNat_inj.mp h)
        have hk' : u.toNat ≠ 0x212A := fun h => hk (UInt16.toNat_inj.mp h)
        rw [if_neg hk, List.filter_nil]
        exact filter_flatMap_units hp (U.others _ _ _ (Nat.le_of_not_lt hascii) hi' hk')

theorem isLead_iff {u : UInt16} : isLead u = true ↔ 0xD800 ≤ u.toNat ∧ u.toNat ≤ 0xDBFF := by
  simp [isLead]

theorem isTrail_iff {u : UInt16} : isTrail u = true ↔ 0xDC00 ≤ u.toNat ∧ u.toNat ≤ 0xDFFF := by
  simp [isTrail]

/-- Surrogates have nothing of ASCII. -/
theorem asciiOf_surrogate {u : UInt16} (h : 0xD800 ≤ u.toNat) : asciiOf u = [] := by
  have hi : u ≠ 0x130 := by
    rintro rfl
    exact absurd h (by decide)
  have hk : u ≠ 0x212A := by
    rintro rfl
    exact absurd h (by decide)
  rw [asciiOf, if_neg (by omega), if_neg hi, if_neg hk]

/-- Nothing is left of the lower case of two surrogates. -/
theorem filter_lower_combine (hp : OfAscii p) (before after : List ℕ) {u v : UInt16} (hu : isLead u) (hv : isTrail v) :
    ((U.lower before (combine u v) after).flatMap units).filter p = [] := by
  have hlead := isLead_iff.mp hu
  have htrail := isTrail_iff.mp hv
  refine filter_flatMap_units hp (U.others _ _ _ ?_ ?_ ?_) <;> unfold combine <;> omega

theorem filter_lowerAll (hp : OfAscii p) (s : JsString) : ∀ before,
    ((U.lowerAll before (codePoints s)).flatMap units).filter p = s.flatMap fun u => (asciiOf u).filter p := by
  induction s using codePoints.induct with
  | case1 => exact fun _ => rfl
  | case2 u =>
    intro before
    simp [codePoints, LowerCase.lowerAll, filter_lower_unit hp]
  | case3 u v s h ih =>
    intro before
    obtain ⟨hu, hv⟩ := (Bool.and_eq_true _ _).mp h
    rw [codePoints, if_pos h, LowerCase.lowerAll, List.flatMap_append, List.filter_append, ih,
      filter_lower_combine hp before _ hu hv, List.flatMap_cons, List.flatMap_cons,
      asciiOf_surrogate (isLead_iff.mp hu).1, asciiOf_surrogate (Nat.le_trans (by decide) (isTrail_iff.mp hv).1)]
    rfl
  | case4 u v s h ih =>
    intro before
    rw [List.flatMap_cons, codePoints, if_neg h, LowerCase.lowerAll, List.flatMap_append, List.filter_append, ih,
      filter_lower_unit hp]

/-- A filter for characters of ASCII leaves of the lower case what it leaves of that of each code unit. -/
theorem filter_toLowerCase (hp : OfAscii p) (s : JsString) :
    (U.toLowerCase s).filter p = s.flatMap fun u => (asciiOf u).filter p :=
  filter_lowerAll hp s []

end Js
