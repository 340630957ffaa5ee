import RedisSmq.Common.Names
import RedisSmq.Lib.Js.LowerCase

/-!
# The grammar of names

`validateRedisKey` on the strings of JavaScript: it takes the lower case, filters it, and compares the lengths. The names
that are meant are made of letters and digits of ASCII, `_` and `-`. Two more characters are accepted, since their lower
case has one letter of ASCII in it: `U+0130` counts as `i`, and `U+212A` as `k` (`validateRedisKey_eq_ok`).

So a string is accepted exactly when it is a name, with the lower case of ASCII as its key, unless it has one of the two
characters among those of a name (`exact_iff`). The names of texts are these (`validateRedisKey_ofText`).
-/

namespace RedisSmq.NameGrammar

open Js

/-- The class `[a-z0-9_-]`. -/
def isKeyUnit (u : UInt16) : Bool :=
  let n := u.toNat
  decide ((0x61 ≤ n ∧ n ≤ 0x7A) ∨ (0x30 ≤ n ∧ n ≤ 0x39) ∨ n = 0x5F ∨ n = 0x2D)

/-- `validateRedisKey`. -/
def validateRedisKey (U : LowerCase) (key : JsString) : Except String JsString :=
  if key.length = 0 then .error "Invalid Redis key. Expected be a non empty string."
  else
    let filtered := (U.toLowerCase key).filter isKeyUnit
    if filtered.length ≠ key.length then
      .error "Invalid Redis key. Only letters (a-z), numbers (0-9) and (-_) are allowed."
    else .ok filtered

/-! ## Names -/

/-- A letter or digit of ASCII, `_` or `-`. -/
def IsNameUnit (u : UInt16) : Prop :=
  let n := u.toNat
  (0x41 ≤ n ∧ n ≤ 0x5A) ∨ (0x61 ≤ n ∧ n ≤ 0x7A) ∨ (0x30 ≤ n ∧ n ≤ 0x39) ∨ n = 0x5F ∨ n = 0x2D

/-- The characters outside of ASCII whose lower case has a letter of ASCII. -/
def IsLookalike (u : UInt16) : Prop := u = 0x130 ∨ u = 0x212A

/-- The documented names. -/
def IsName (s : JsString) : Prop := s ≠ [] ∧ ∀ u ∈ s, IsNameUnit u

/-- The letters of ASCII in lower case. -/
def lowerLetters (s : JsString) : JsString := s.map fun u => UInt16.ofNat (asciiLower u.toNat)

/-- The string is accepted exactly when it is a name, and then its key is the name in lower case. -/
structure Exact (U : LowerCase) (s : JsString) : Prop where
  accepted : (∃ key, validateRedisKey U s = .ok key) ↔ IsName s
  key : ∀ key, validateRedisKey U s = .ok key → key = lowerLetters s

/-- The string has one of the two characters, and all others are those of a name. -/
def HasLookalike (s : JsString) : Prop := (∀ u ∈ s, IsNameUnit u ∨ IsLookalike u) ∧ ∃ u ∈ s, IsLookalike u

variable {U : LowerCase} {s t key : JsString} {u : UInt16}

/-! ## What is left of a character -/

theorem isKeyUnit_ofAscii : OfAscii isKeyUnit := by
  intro u hu
  simp only [isKeyUnit, decide_eq_true_eq] at hu
  omega

/-- What is left of a code unit. -/
def kept (u : UInt16) : JsString := (asciiOf u).filter isKeyUnit

theorem kept_nameUnit (h : IsNameUnit u) : kept u = [UInt16.ofNat (asciiLower u.toNat)] := by
  have hascii : u.toNat < 0x80 := by
    simp only [IsNameUnit] at h
    omega
  have hkey : isKeyUnit (UInt16.ofNat (asciiLower u.toNat)) = true := by
    simp only [IsNameUnit] at h
    simp only [isKeyUnit, decide_eq_true_eq, UInt16.toNat_ofNat', asciiLower]
    split <;> omega
  rw [kept, asciiOf, if_pos hascii, List.filter_cons_of_pos hkey, List.filter_nil]

theorem kept_lookalike (h : IsLookalike u) : (kept u).length = 1 := by
  rcases h with rfl | rfl <;> decide

/-- Of other characters nothing is left. -/
theorem kept_other (hn : ¬IsNameUnit u) (hl : ¬IsLookalike u) : kept u = [] := by
  obtain ⟨hi, hk⟩ := not_or.mp hl
  unfold kept asciiOf
  by_cases hascii : u.toNat < 0x80
  · have hkey : ¬isKeyUnit (UInt16.ofNat (asciiLower u.toNat)) = true := by
      simp only [IsNameUnit] at hn
      simp only [isKeyUnit, decide_eq_true_eq, UInt16.toNat_ofNat', asciiLower]
      split <;> omega
    rw [if_pos hascii, List.filter_cons_of_neg hkey, List.filter_nil]
  · rw [if_neg hascii, if_neg hi, if_neg hk, List.filter_nil]

/-- Of surrogates nothing is left. -/
theorem kept_surrogate (h : 0xD800 ≤ u.toNat) : kept u = [] := by
  rw [kept, asciiOf_surrogate h, List.filter_nil]

theorem length_kept_le (u : UInt16) : (kept u).length ≤ 1 := by
  by_cases hn : IsNameUnit u
  · rw [kept_nameUnit hn]
    exact Nat.le_refl 1
  · by_cases hl : IsLookalike u
    · exact Nat.le_of_eq (kept_lookalike hl)
    · rw [kept_other hn hl]
      exact Nat.zero_le 1

/-- One character is left of those of a name and of the two others. -/
theorem length_kept_eq_one : (kept u).length = 1 ↔ IsNameUnit u ∨ IsLookalike u := by
  constructor
  · intro h
    by_contra hother
    obtain ⟨hn, hl⟩ := not_or.mp hother
    rw [kept_other hn hl] at h
    cases h
  · rintro (hn | hl)
    · rw [kept_nameUnit hn]
      rfl
    · exact kept_lookalike hl

/-! ## What is left of a string -/

theorem length_flatMap_le {f : UInt16 → JsString} (hf : ∀ u, (f u).length ≤ 1) :
    ∀ s : JsString, (s.flatMap f).length ≤ s.length
  | [] => Nat.le_refl _
  | u :: s => by
    have hu := hf u
    have hs := length_flatMap_le hf s
    simp only [List.flatMap_cons, List.length_append, List.length_cons]
    omega

/-- When each unit leaves at most one, the length stays exactly when each of them leaves one. -/
theorem length_flatMap_eq {f : UInt16 → JsString} (hf : ∀ u, (f u).length ≤ 1) (s : JsString) :
    (s.flatMap f).length = s.length ↔ ∀ u ∈ s, (f u).length = 1 := by
  induction s with
  | nil => simp
  | cons u s ih =>
    have hu := hf u
    have hs := length_flatMap_le hf s
    rw [List.flatMap_cons, List.length_append, List.length_cons, List.forall_mem_cons, ← ih]
    omega

/-- What is accepted, and its key. -/
theorem validateRedisKey_eq_ok : validateRedisKey U s = .ok key ↔
    s ≠ [] ∧ (∀ u ∈ s, IsNameUnit u ∨ IsLookalike u) ∧ key = s.flatMap kept := by
  have hfiltered : (U.toLowerCase s).filter isKeyUnit = s.flatMap kept := filter_toLowerCase isKeyUnit_ofAscii s
  have hlength := length_flatMap_eq length_kept_le s
  simp only [length_kept_eq_one] at hlength
  unfold validateRedisKey
  rw [hfiltered, ← hlength]
  by_cases hnil : s = []
  · simp [hnil]
  · by_cases hlen : (s.flatMap kept).length = s.length
    · simp only [List.length_eq_zero_iff, hnil, hlen, if_false, ne_eq, not_true, not_false_eq_true, Except.ok.injEq,
        true_and]
      exact eq_comm
    · simp only [List.length_eq_zero_iff, hnil, hlen, if_false, if_true, ne_eq, not_false_eq_true, reduceCtorEq,
        false_and, and_false]

/-- A name is its own key, in lower case. -/
theorem flatMap_kept (h : ∀ u ∈ s, IsNameUnit u) : s.flatMap kept = lowerLetters s := by
  induction s with
  | nil => rfl
  | cons u s ih =>
    obtain ⟨hu, hs⟩ := List.forall_mem_cons.mp h
    rw [List.flatMap_cons, kept_nameUnit hu, ih hs]
    rfl

/-! ## Texts -/

/-- The code units of a text. -/
def ofText (text : String) : JsString := text.toList.flatMap fun c => units c.toNat

theorem toNat_unit {c : Char} (h : c.toNat < 0x10000) : (unit c).toNat = c.toNat := by
  rw [unit, UInt16.toNat_ofNat']
  omega

theorem units_char {c : Char} (h : c.toNat < 0x10000) : units c.toNat = [unit c] := if_pos h

theorem isTrail_units {c : Char} {u : UInt16} (h : (units c.toNat).head? = some u) : isTrail u = false := by
  have hvalid : c.toNat < 0xD800 ∨ (0xDFFF < c.toNat ∧ c.toNat < 0x110000) := c.valid
  unfold units at h
  split at h
  · cases h
    simp only [isTrail, UInt16.toNat_ofNat', Bool.and_eq_false_iff, decide_eq_false_iff_not]
    omega
  · cases h
    simp only [isTrail, UInt16.toNat_ofNat', Bool.and_eq_false_iff, decide_eq_false_iff_not]
    omega

/-- A character is the code point of its units, whatever follows them. -/
theorem codePoints_units (c : Char) {s : JsString} (h : ∀ u ∈ s.head?, isTrail u = false) :
    codePoints (units c.toNat ++ s) = c.toNat :: codePoints s := by
  have hvalid : c.toNat < 0xD800 ∨ (0xDFFF < c.toNat ∧ c.toNat < 0x110000) := c.valid
  generalize c.toNat = n at hvalid
  unfold units
  split
  · rename_i hn
    have hunit : (UInt16.ofNat n).toNat = n := UInt16.toNat_ofNat_of_lt' hn
    rw [List.singleton_append]
    cases s with
    | nil => rw [codePoints, codePoints, hunit]
    | cons v s =>
      rw [codePoints, h v rfl, Bool.and_false, hunit]
      rfl
  · have hfirst : (UInt16.ofNat (0xD800 + (n - 0x10000) / 0x400)).toNat = 0xD800 + (n - 0x10000) / 0x400 := by
      rw [UInt16.toNat_ofNat']
      omega
    have hsecond : (UInt16.ofNat (0xDC00 + (n - 0x10000) % 0x400)).toNat = 0xDC00 + (n - 0x10000) % 0x400 := by
      rw [UInt16.toNat_ofNat']
      omega
    generalize UInt16.ofNat (0xD800 + (n - 0x10000) / 0x400) = u at hfirst
    generalize UInt16.ofNat (0xDC00 + (n - 0x10000) % 0x400) = v at hsecond
    have hlead : isLead u = true := by
      rw [isLead, hfirst, Bool.and_eq_true, decide_eq_true_eq, decide_eq_true_eq]
      omega
    have htrail : isTrail v = true := by
      rw [isTrail, hsecond, Bool.and_eq_true, decide_eq_true_eq, decide_eq_true_eq]
      omega
    have hcombine : combine u v = n := by
      unfold combine
      omega
    rw [List.cons_append, List.singleton_append, codePoints, hlead, htrail, hcombine, Bool.and_self, if_pos rfl]

/-- The code points of a text are its characters. -/
theorem codePoints_ofText (text : String) : codePoints (ofText text) = text.toList.map Char.toNat := by
  unfold ofText
  induction text.toList with
  | nil => rfl
  | cons c l ih =>
    rw [List.flatMap_cons, codePoints_units, List.map_cons, ih]
    intro u hu
    cases l with
    | nil => cases hu
    | cons c' l =>
      rw [List.flatMap_cons] at hu
      apply @isTrail_units c'
      rw [← hu]
      unfold units
      split <;> rfl

/-- The text with given code units; there is none when a surrogate stands alone. -/
def textOf (s : JsString) : Option String :=
  if (codePoints s).all (fun n => decide n.isValidChar) then some (String.ofList ((codePoints s).map Char.ofNat))
  else none

/-- A text is found again from its code units. -/
theorem textOf_ofText (text : String) : textOf (ofText text) = some text := by
  have hall : (text.toList.map Char.toNat).all (fun n => decide n.isValidChar) = true := by
    rw [List.all_map, List.all_eq_true]
    intro c _
    exact decide_eq_true c.valid
  have hchars : (text.toList.map Char.toNat).map Char.ofNat = text.toList := by
    rw [List.map_map]
    conv_rhs => rw [← List.map_id text.toList]
    apply List.map_congr_left
    intro c _
    exact Char.ofNat_toNat c
  unfold textOf
  rw [codePoints_ofText, if_pos hall, hchars]
  exact congrArg some String.ofList_toList

theorem ofText_injective : Function.Injective ofText := fun text text' h => by
  apply Option.some.inj
  rw [← textOf_ofText text, ← textOf_ofText text', h]

theorem length_ofText (text : String) : (ofText text).length = RedisKeys.utf16Length text.toList := by
  unfold ofText
  induction text.toList with
  | nil => rfl
  | cons c l ih =>
    have hc : c.val < 0x10000 ↔ c.toNat < 0x10000 := UInt32.lt_iff_toNat_lt
    rw [List.flatMap_cons, List.length_append, ih, RedisKeys.utf16Length]
    by_cases h : c.toNat < 0x10000
    · rw [units_char h, if_pos (hc.mpr h)]
      rfl
    · rw [units, if_neg h, if_neg (mt hc.mp h)]
      rfl

theorem isKeyChar_iff {c : Char} : RedisKeys.isKeyChar c = true ↔
    (0x61 ≤ c.toNat ∧ c.toNat ≤ 0x7A) ∨ (0x30 ≤ c.toNat ∧ c.toNat ≤ 0x39) ∨ c.toNat = 0x5F ∨ c.toNat = 0x2D := by
  have hdash : c = '-' ↔ c.toNat = 0x2D := Char.toNat_inj.symm
  have hline : c = '_' ↔ c.toNat = 0x5F := Char.toNat_inj.symm
  simp only [RedisKeys.isKeyChar, Bool.or_eq_true, RedisKeys.isLower_iff, RedisKeys.isDigit_iff, beq_iff_eq, hdash, hline,
    UInt32.le_iff_toNat_le, or_assoc]
  exact Iff.rfl

theorem isUpper_iff {c : Char} : c.isUpper = true ↔ 0x41 ≤ c.toNat ∧ c.toNat ≤ 0x5A := by
  rw [RedisKeys.isUpper_iff, UInt32.le_iff_toNat_le, UInt32.le_iff_toNat_le]
  exact Iff.rfl

theorem toNat_toLower {c : Char} (h : c.isUpper = true) : c.toLower.toNat = c.toNat + 0x20 := by
  have hlower : c.toLower.val = c.val + ('a'.val - 'A'.val) := congrArg Char.val (dif_pos (RedisKeys.isUpper_iff.mp h))
  have hsum : c.toLower.val.toNat = (c.val.toNat + 0x20) % 2 ^ 32 := by
    rw [hlower, UInt32.toNat_add]
    rfl
  obtain ⟨-, hhi⟩ := isUpper_iff.mp h
  have hval : c.val.toNat = c.toNat := rfl
  exact hsum.trans (by omega)

/-- Of other characters nothing is left. -/
theorem filterRedisChar_other {c : Char} (hkey : ¬RedisKeys.isKeyChar c = true) (hupper : ¬c.isUpper = true)
    (hk : c ≠ '\u212a') (hi : c ≠ '\u0130') : RedisKeys.filterRedisChar c = [] :=
  (((if_neg hkey).trans (if_neg hupper)).trans (if_neg hk)).trans (if_neg hi)

/-- What is left of the units of a character. -/
theorem kept_units (c : Char) : (units c.toNat).flatMap kept = (RedisKeys.filterRedisChar c).map unit := by
  by_cases hbig : c.toNat < 0x10000
  · have hu := toNat_unit hbig
    rw [units_char hbig, List.flatMap_singleton]
    by_cases hkey : RedisKeys.isKeyChar c = true
    · have hc := isKeyChar_iff.mp hkey
      have hname : IsNameUnit (unit c) := by
        simp only [IsNameUnit, hu]
        omega
      have hsame : asciiLower c.toNat = c.toNat := if_neg (by omega)
      rw [kept_nameUnit hname, hu, hsame, RedisKeys.filterRedisChar_of_isKeyChar hkey]
      rfl
    · by_cases hupper : c.isUpper = true
      · have hc := isUpper_iff.mp hupper
        have hname : IsNameUnit (unit c) := by
          simp only [IsNameUnit, hu]
          omega
        have hlower : asciiLower c.toNat = c.toLower.toNat := (if_pos hc).trans (toNat_toLower hupper).symm
        have hfilter : RedisKeys.filterRedisChar c = [c.toLower] := (if_neg hkey).trans (if_pos hupper)
        rw [kept_nameUnit hname, hu, hlower, hfilter]
        rfl
      · by_cases hl : c = '\u212a' ∨ c = '\u0130'
        · rcases hl with rfl | rfl <;> decide
        · obtain ⟨hk, hi⟩ := not_or.mp hl
          rw [filterRedisChar_other hkey hupper hk hi]
          rw [isKeyChar_iff] at hkey
          rw [isUpper_iff] at hupper
          rw [kept_other, List.map_nil]
          · simp only [IsNameUnit, hu]
            omega
          · rintro (h | h)
            · exact hi (Char.toNat_inj.mp (hu.symm.trans (congrArg UInt16.toNat h)))
            · exact hk (Char.toNat_inj.mp (hu.symm.trans (congrArg UInt16.toNat h)))
  · have hkey : ¬RedisKeys.isKeyChar c = true := by
      rw [isKeyChar_iff]
      omega
    have hupper : ¬c.isUpper = true := by
      rw [isUpper_iff]
      omega
    have hk : c ≠ '\u212a' := by
      rintro rfl
      exact hbig (by decide)
    have hi : c ≠ '\u0130' := by
      rintro rfl
      exact hbig (by decide)
    have hmax : c.toNat < 0xD800 ∨ (0xDFFF < c.toNat ∧ c.toNat < 0x110000) := c.valid
    rw [filterRedisChar_other hkey hupper hk hi, units, if_neg hbig, List.flatMap_cons, List.flatMap_singleton,
      kept_surrogate, kept_surrogate]
    · rfl
    · rw [UInt16.toNat_ofNat']
      omega
    · rw [UInt16.toNat_ofNat']
      omega

/-- The names of texts. -/
theorem validateRedisKey_ofText (U : LowerCase) (text : String) : validateRedisKey U (ofText text) =
    (RedisKeys.validateRedisKey text).map fun name => name.toList.map unit := by
  have hkept : (ofText text).flatMap kept = (text.toList.flatMap RedisKeys.filterRedisChar).map unit := by
    unfold ofText
    rw [List.flatMap_assoc, List.map_flatMap]
    simp only [kept_units]
  have hempty : (ofText text).length = 0 ↔ text.isEmpty = true := by
    rw [length_ofText, String.isEmpty_iff, ← String.toList_eq_nil_iff]
    cases text.toList with
    | nil => exact iff_of_true rfl rfl
    | cons c l =>
      refine iff_of_false ?_ (List.cons_ne_nil c l)
      rw [RedisKeys.utf16Length]
      split <;> omega
  have hfiltered : (U.toLowerCase (ofText text)).filter isKeyUnit =
      (text.toList.flatMap RedisKeys.filterRedisChar).map unit := (filter_toLowerCase isKeyUnit_ofAscii _).trans hkept
  unfold validateRedisKey RedisKeys.validateRedisKey
  rw [hfiltered]
  dsimp only
  by_cases h : text.isEmpty = true
  · rw [if_pos h, if_pos (hempty.mpr h)]
    rfl
  · rw [if_neg h, if_neg (mt hempty.mp h), List.length_map, length_ofText]
    split
    · rfl
    · rw [Except.map, String.toList_ofList]

/-! ## When the grammar is that of names -/

theorem not_nameUnit_of_lookalike (h : IsLookalike u) : ¬IsNameUnit u := by
  rcases h with rfl | rfl <;> exact fun h => absurd h (by unfold IsNameUnit; decide)

theorem exact_of_ordinary (h : ¬HasLookalike s) : Exact U s := by
  have hiff : (∀ u ∈ s, IsNameUnit u ∨ IsLookalike u) ↔ ∀ u ∈ s, IsNameUnit u := by
    constructor
    · intro hall u hu
      refine (hall u hu).resolve_right fun hl => h ⟨hall, u, hu, hl⟩
    · exact fun hall u hu => .inl (hall u hu)
  constructor
  · simp only [validateRedisKey_eq_ok, hiff, IsName, exists_and_left, exists_eq, and_true]
  · intro key hkey
    obtain ⟨-, hall, rfl⟩ := validateRedisKey_eq_ok.mp hkey
    exact flatMap_kept (hiff.mp hall)

/-- A string with one of the two characters among those of a name is accepted, and is no name. -/
theorem not_exact_of_lookalike (h : HasLookalike s) : ¬Exact U s := by
  obtain ⟨hall, u, hu, hl⟩ := h
  intro hexact
  have hname := hexact.accepted.mp ⟨_, validateRedisKey_eq_ok.mpr ⟨List.ne_nil_of_mem hu, hall, rfl⟩⟩
  exact not_nameUnit_of_lookalike hl (hname.2 u hu)

/-- **The names that are accepted** are the documented ones exactly for the strings without the two characters, or with
another one that is filtered out. Of these, two that have the same key differ in the case of letters at most. -/
theorem exact_iff (U : LowerCase) (s : JsString) : (Exact U s ↔ ¬HasLookalike s) ∧
    ∀ t key, ¬HasLookalike s → ¬HasLookalike t → validateRedisKey U s = .ok key → validateRedisKey U t = .ok key →
      lowerLetters s = lowerLetters t := by
  refine ⟨⟨fun h hl => not_exact_of_lookalike hl h, exact_of_ordinary⟩, ?_⟩
  intro t key hs ht hskey htkey
  rw [← (exact_of_ordinary hs).key key hskey, (exact_of_ordinary ht).key key htkey]

/-- The Kelvin sign is accepted, with the key of the letter `k`. -/
theorem not_exact_kelvin : validateRedisKey .basic [0x212A] = .ok (ascii "k") ∧ ¬Exact .basic [0x212A] := by
  refine ⟨by decide, not_exact_of_lookalike ⟨?_, 0x212A, List.mem_singleton_self _, .inr rfl⟩⟩
  intro u hu
  exact .inr (.inr (List.mem_singleton.mp hu))

end RedisSmq.NameGrammar
