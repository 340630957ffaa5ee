import Mathlib.Data.List.DropRight
import Mathlib.Data.Nat.Digits.Defs
import Mathlib.Tactic.Common
import RedisSmq.Lib.Js.Strings

/-!
# Numerals

The digits of a number, and the text that JSON has for it.

- `Decimal`: sign, significant digits and the place of the point; `Decimal.ofDigits` strips zeros (`ofDigits_pad`);
- `Numeral`: a numeral as written; `readNumeral` reads back what `Numeral.text` writes (`readNumeral_text`);
- `Decimal.numeral`: where the point is put, and when an exponent is written; no digit is lost
  (`Decimal.numeral_value`).
-/

namespace Js

/-! ## Significant digits -/

/-- The number `0.d₁d₂…` times ten to the `point`, without leading and trailing zeros; zero has no digits. -/
structure Decimal where
  negative : Bool
  digits : List (Fin 10)
  point : ℤ
  leading : digits.head? ≠ some 0
  trailing : digits.getLast? ≠ some 0
  zero : digits = [] → point = 0
deriving DecidableEq

def isZero (d : Fin 10) : Bool := d = 0

/-- The digits without the zeros around them. -/
def strip (ds : List (Fin 10)) : List (Fin 10) := (ds.dropWhile isZero).rdropWhile isZero

theorem strip_head (ds : List (Fin 10)) : (strip ds).head? ≠ some 0 := by
  intro h
  obtain ⟨rest, hrest⟩ := List.rdropWhile_prefix isZero (ds.dropWhile isZero)
  have hhead : (ds.dropWhile isZero).head? = some 0 := by
    rw [← hrest, List.head?_append]
    exact Option.or_eq_some_iff.mpr (.inl h)
  have hnot := List.head?_dropWhile_not isZero ds
  rw [hhead] at hnot
  cases hnot

theorem strip_last (ds : List (Fin 10)) : (strip ds).getLast? ≠ some 0 := by
  intro h
  have hne : strip ds ≠ [] := by
    intro hnil
    rw [hnil] at h
    cases h
  rw [List.getLast?_eq_some_getLast hne] at h
  exact List.rdropWhile_last_not isZero (ds.dropWhile isZero) hne (decide_eq_true (Option.some.inj h))

theorem isZero_replicate (n : ℕ) : ∀ d ∈ List.replicate n (0 : Fin 10), isZero d = true := by
  intro d hd
  rw [List.eq_of_mem_replicate hd]
  rfl

/-- The zeros before a digit that is not zero. -/
theorem zeros_pad {ds : List (Fin 10)} (h : ds.head? ≠ some 0) (hne : ds ≠ []) (z : ℕ) (rest : List (Fin 10)) :
    (List.replicate z 0 ++ (ds ++ rest)).takeWhile isZero = List.replicate z 0 ∧
      (List.replicate z 0 ++ (ds ++ rest)).dropWhile isZero = ds ++ rest := by
  cases ds with
  | nil => exact absurd rfl hne
  | cons d ds =>
    have hd : ¬isZero d = true := by
      intro hd
      exact h (congrArg some (of_decide_eq_true hd))
    constructor
    · rw [List.takeWhile_append_of_pos (isZero_replicate z), List.cons_append, List.takeWhile_cons_of_neg hd,
        List.append_nil]
    · rw [List.dropWhile_append_of_pos (isZero_replicate z), List.cons_append, List.dropWhile_cons_of_neg hd]

/-- Nothing but zeros is stripped. -/
theorem strip_pad {ds : List (Fin 10)} (h1 : ds.head? ≠ some 0) (h2 : ds.getLast? ≠ some 0) (hne : ds ≠ []) (z t : ℕ) :
    strip (List.replicate z 0 ++ (ds ++ List.replicate t 0)) = ds := by
  have hne' : ds.reverse ≠ [] := List.reverse_ne_nil_iff.mpr hne
  rw [← List.head?_reverse] at h2
  have hlast := (zeros_pad h2 hne' t []).2
  rw [List.append_nil] at hlast
  rw [strip, (zeros_pad h1 hne z _).2, List.rdropWhile, List.reverse_append, List.reverse_replicate, hlast,
    List.reverse_reverse]

def Decimal.nought (negative : Bool) : Decimal :=
  ⟨negative, [], 0, by decide, by decide, fun _ => rfl⟩

/-- The number `0.d₁d₂…` times ten to the `point`, whatever zeros there are. -/
def Decimal.ofDigits (negative : Bool) (ds : List (Fin 10)) (point : ℤ) : Decimal :=
  if h : strip ds = [] then .nought negative
  else ⟨negative, strip ds, point - (ds.takeWhile isZero).length, strip_head ds, strip_last ds, fun hs => absurd hs h⟩

/-- Zeros around the digits move the point, and nothing else. -/
theorem Decimal.ofDigits_pad {d : Decimal} (h : d.digits ≠ []) (z t : ℕ) (point : ℤ) (hp : point = d.point + z) :
    Decimal.ofDigits d.negative (List.replicate z 0 ++ (d.digits ++ List.replicate t 0)) point = d := by
  have hs := strip_pad d.leading d.trailing h z t
  have hz := (zeros_pad d.leading h z (List.replicate t 0)).1
  unfold Decimal.ofDigits
  rw [dif_neg (by rwa [hs])]
  obtain ⟨negative, digits, point', _, _, _⟩ := d
  simp only [Decimal.mk.injEq, hs, hz, List.length_replicate, true_and]
  simp only at hp
  omega

theorem Decimal.ofDigits_negative (negative : Bool) (ds : List (Fin 10)) (point : ℤ) :
    (Decimal.ofDigits negative ds point).negative = negative := by
  unfold Decimal.ofDigits
  split <;> rfl

/-! ## Digits of natural numbers -/

def natDigits (n : ℕ) : List (Fin 10) := (Nat.digits 10 n).reverse.map (Fin.ofNat 10)

def natValue (ds : List (Fin 10)) : ℕ := Nat.ofDigits 10 (ds.reverse.map Fin.val)

theorem natValue_natDigits (n : ℕ) : natValue (natDigits n) = n := by
  have hdigits : (Nat.digits 10 n).map (fun d => (Fin.ofNat 10 d).val) = Nat.digits 10 n := by
    conv_rhs => rw [← List.map_id (Nat.digits 10 n)]
    apply List.map_congr_left
    intro d hd
    exact Nat.mod_eq_of_lt (Nat.digits_lt_base (by decide) hd)
  rw [natValue, natDigits, ← List.map_reverse, List.reverse_reverse, List.map_map]
  exact (congrArg (Nat.ofDigits 10) hdigits).trans (Nat.ofDigits_digits 10 n)

theorem natDigits_ne_nil {n : ℕ} (h : n ≠ 0) : natDigits n ≠ [] := by
  intro hnil
  have hv := natValue_natDigits n
  rw [hnil] at hv
  exact h hv.symm

/-- The absolute value of a number without a fraction. -/
def Decimal.magnitude (d : Decimal) : Option ℕ :=
  if d.digits.length ≤ d.point then
    some (Js.natValue (d.digits ++ List.replicate (d.point - d.digits.length).toNat 0))
  else none

/-! ## Numerals as written -/

/-- A numeral: the digits before and after the point, and the exponent; an exponent of zero is not written. -/
structure Numeral where
  negative : Bool
  int : List (Fin 10)
  frac : List (Fin 10)
  exponent : ℤ

/-- The number that a numeral stands for. -/
def Numeral.value (n : Numeral) : Decimal := .ofDigits n.negative (n.int ++ n.frac) (n.int.length + n.exponent)

/-- There is a digit before the point, and no needless zero. -/
def Numeral.WellFormed (n : Numeral) : Prop := n.int ≠ [] ∧ (n.int.head? = some 0 → n.int.length = 1)

def digitUnit (d : Fin 10) : UInt16 := UInt16.ofNat (0x30 + d.val)

def digitOf (u : UInt16) : Option (Fin 10) :=
  if h : 0x30 ≤ u.toNat ∧ u.toNat ≤ 0x39 then some ⟨u.toNat - 0x30, by omega⟩ else none

theorem digitOf_digitUnit : ∀ d : Fin 10, digitOf (digitUnit d) = some d := by decide

theorem digitUnit_ne_minus : ∀ d : Fin 10, digitUnit d ≠ unit '-' := by decide

def signText (negative : Bool) : JsString := if negative then [unit '-'] else []

def fracText (frac : List (Fin 10)) : JsString := if frac = [] then [] else unit '.' :: frac.map digitUnit

def exponentText (e : ℤ) : JsString :=
  if e = 0 then []
  else unit 'e' :: (if e < 0 then unit '-' else unit '+') :: (natDigits e.natAbs).map digitUnit

def Numeral.text (n : Numeral) : JsString :=
  signText n.negative ++ (n.int.map digitUnit ++ (fracText n.frac ++ exponentText n.exponent))

/-! ## Reading numerals -/

def readDigits : JsString → List (Fin 10) × JsString
  | [] => ([], [])
  | u :: rest =>
    match digitOf u with
    | some d => (d :: (readDigits rest).1, (readDigits rest).2)
    | none => ([], u :: rest)

/-- At least one digit. -/
def readDigits1 (s : JsString) : Option (List (Fin 10) × JsString) :=
  if (readDigits s).1 = [] then none else some (readDigits s)

def readMinus : JsString → Bool × JsString
  | [] => (false, [])
  | u :: rest => if u = unit '-' then (true, rest) else (false, u :: rest)

def readSign : JsString → Bool × JsString
  | [] => (false, [])
  | u :: rest => if u = unit '-' then (true, rest) else if u = unit '+' then (false, rest) else (false, u :: rest)

def readFrac : JsString → Option (List (Fin 10) × JsString)
  | [] => some ([], [])
  | u :: rest => if u = unit '.' then readDigits1 rest else some ([], u :: rest)

def readExponent : JsString → Option (ℤ × JsString)
  | [] => some (0, [])
  | u :: rest =>
    if u = unit 'e' ∨ u = unit 'E' then
      (readDigits1 (readSign rest).2).map fun p => (if (readSign rest).1 then -natValue p.1 else natValue p.1, p.2)
    else some (0, u :: rest)

def readInt (s : JsString) : Option (List (Fin 10) × JsString) :=
  (readDigits1 s).filter fun p => !(p.1.head? = some 0 && p.1.length != 1)

def readNumeral (s : JsString) : Option (Numeral × JsString) :=
  (readInt (readMinus s).2).bind fun i =>
    (readFrac i.2).bind fun f =>
      (readExponent f.2).map fun e => (⟨(readMinus s).1, i.1, f.1, e.1⟩, e.2)

/-! ## What is written is read -/

/-- The text does not go on with a digit. -/
def NoDigit (s : JsString) : Prop := ∀ u ∈ s.head?, digitOf u = none

/-- The text does not go on with a part of a numeral. -/
def Stop (s : JsString) : Prop := ∀ u ∈ s.head?, digitOf u = none ∧ u ≠ unit '.' ∧ u ≠ unit 'e' ∧ u ≠ unit 'E'

theorem Stop.noDigit {s : JsString} (h : Stop s) : NoDigit s := fun u hu => (h u hu).1

theorem readDigits_map (ds : List (Fin 10)) {rest : JsString} (h : NoDigit rest) :
    readDigits (ds.map digitUnit ++ rest) = (ds, rest) := by
  induction ds with
  | nil =>
    cases rest with
    | nil => rfl
    | cons u rest => simp only [List.map_nil, List.nil_append, readDigits, h u rfl]
  | cons d ds ih => simp only [List.map_cons, List.cons_append, readDigits, digitOf_digitUnit, ih]

theorem readDigits1_map {ds : List (Fin 10)} (hne : ds ≠ []) {rest : JsString} (h : NoDigit rest) :
    readDigits1 (ds.map digitUnit ++ rest) = some (ds, rest) := by
  rw [readDigits1, readDigits_map ds h, if_neg hne]

theorem noDigit_exponentText (e : ℤ) {rest : JsString} (h : NoDigit rest) : NoDigit (exponentText e ++ rest) := by
  unfold exponentText
  split
  · exact h
  · intro u hu
    cases hu
    decide

theorem noDigit_fracText (frac : List (Fin 10)) {rest : JsString} (h : NoDigit rest) :
    NoDigit (fracText frac ++ rest) := by
  unfold fracText
  split
  · exact h
  · intro u hu
    cases hu
    decide

theorem readExponent_text (e : ℤ) {rest : JsString} (h : Stop rest) :
    readExponent (exponentText e ++ rest) = some (e, rest) := by
  unfold exponentText
  split
  · rename_i he
    subst he
    cases rest with
    | nil => rfl
    | cons u rest =>
      obtain ⟨-, -, h1, h2⟩ := h u rfl
      simp only [List.nil_append, readExponent, h1, h2, or_self, if_false]
  · rename_i he
    have hread := readDigits1_map (natDigits_ne_nil (Int.natAbs_ne_zero.mpr he)) h.noDigit
    have hv := natValue_natDigits e.natAbs
    have hplus : unit '+' ≠ unit '-' := by decide
    by_cases hneg : e < 0
    · simp only [if_pos hneg, List.cons_append, readExponent, true_or, if_true, readSign, hread, Option.map_some, hv]
      rw [Int.ofNat_natAbs_of_nonpos (by omega), Int.neg_neg]
    · simp only [if_neg hneg, List.cons_append, readExponent, true_or, if_true, readSign, if_neg hplus, hread,
        Option.map_some, hv]
      rw [Int.natAbs_of_nonneg (by omega)]
      rfl

theorem readFrac_text (frac : List (Fin 10)) {rest : JsString} (h : NoDigit rest) (hp : ∀ u ∈ rest.head?, u ≠ unit '.') :
    readFrac (fracText frac ++ rest) = some (frac, rest) := by
  unfold fracText
  split
  · rename_i hf
    subst hf
    cases rest with
    | nil => rfl
    | cons u rest => simp only [List.nil_append, readFrac, if_neg (hp u rfl)]
  · rename_i hf
    simp only [List.cons_append, readFrac, if_true, readDigits1_map hf h]

theorem readMinus_text (negative : Bool) (ds : List (Fin 10)) (hne : ds ≠ []) (rest : JsString) :
    readMinus (signText negative ++ (ds.map digitUnit ++ rest)) = (negative, ds.map digitUnit ++ rest) := by
  cases negative with
  | true => rfl
  | false =>
    cases ds with
    | nil => exact absurd rfl hne
    | cons d ds =>
      have hd : digitUnit d ≠ unit '-' := digitUnit_ne_minus d
      simp only [signText, Bool.false_eq_true, if_false, List.nil_append, List.map_cons, List.cons_append, readMinus,
        if_neg hd]

/-- A numeral is read back, and what follows it is left. -/
theorem readNumeral_text {n : Numeral} (hn : n.WellFormed) {rest : JsString} (h : Stop rest) :
    readNumeral (n.text ++ rest) = some (n, rest) := by
  obtain ⟨negative, int, frac, e⟩ := n
  obtain ⟨hne, hlead⟩ := hn
  have hexp := noDigit_exponentText e h.noDigit
  have hpoint : ∀ u ∈ (exponentText e ++ rest).head?, u ≠ unit '.' := by
    unfold exponentText
    split
    · exact fun u hu => (h u hu).2.1
    · intro u hu
      cases hu
      decide
  have hint : readInt (int.map digitUnit ++ (fracText frac ++ (exponentText e ++ rest))) =
      some (int, fracText frac ++ (exponentText e ++ rest)) := by
    rw [readInt, readDigits1_map hne (noDigit_fracText frac hexp), Option.filter_some, if_pos]
    simp only [Bool.not_and, Bool.or_eq_true, Bool.not_eq_true', decide_eq_false_iff_not, bne_eq_false_iff_eq]
    exact (em (int.head? = some 0)).elim (fun h0 => .inr (hlead h0)) .inl
  have htext : Numeral.text ⟨negative, int, frac, e⟩ ++ rest =
      signText negative ++ (int.map digitUnit ++ (fracText frac ++ (exponentText e ++ rest))) := by
    simp only [Numeral.text, List.append_assoc]
  rw [htext, readNumeral, readMinus_text negative int hne]
  simp only [hint, Option.bind_some, readFrac_text frac hexp hpoint, readExponent_text e h, Option.map_some]

/-! ## The numeral of a number -/

/-- `Number::toString`: the point is put among the digits for numbers that are neither large nor small. -/
def Decimal.numeral (d : Decimal) : Numeral :=
  if d.digits = [] then ⟨d.negative, [0], [], 0⟩
  else if d.digits.length ≤ d.point ∧ d.point ≤ 21 then
    ⟨d.negative, d.digits ++ List.replicate (d.point - d.digits.length).toNat 0, [], 0⟩
  else if 0 < d.point ∧ d.point ≤ 21 then
    ⟨d.negative, d.digits.take d.point.toNat, d.digits.drop d.point.toNat, 0⟩
  else if -6 < d.point ∧ d.point ≤ 0 then
    ⟨d.negative, [0], List.replicate (-d.point).toNat 0 ++ d.digits, 0⟩
  else ⟨d.negative, d.digits.take 1, d.digits.drop 1, d.point - 1⟩

/-- A numeral that begins with digits of the number has no needless zero. -/
theorem Decimal.wellFormed_take {d : Decimal} (h : d.digits ≠ []) {n : ℕ} (hn : 0 < n) (frac : List (Fin 10)) (e : ℤ) :
    Numeral.WellFormed ⟨d.negative, d.digits.take n, frac, e⟩ := by
  have hhead : (d.digits.take n).head? ≠ some 0 := by
    rw [List.head?_take, if_neg (by omega)]
    exact d.leading
  exact ⟨by simp [h, Nat.ne_of_gt hn], fun h0 => absurd h0 hhead⟩

theorem Decimal.numeral_wellFormed (d : Decimal) : d.numeral.WellFormed := by
  have hzero : ∀ frac, Numeral.WellFormed ⟨d.negative, [0], frac, 0⟩ :=
    fun frac => ⟨List.cons_ne_nil 0 [], fun _ => rfl⟩
  unfold Decimal.numeral
  split
  · exact hzero []
  · rename_i h
    split
    · have hhead : (d.digits ++ List.replicate (d.point - d.digits.length).toNat 0).head? ≠ some 0 := by
        rw [List.head?_append_of_ne_nil _ h]
        exact d.leading
      exact ⟨by simp [h], fun h0 => absurd h0 hhead⟩
    · split
      · exact wellFormed_take h (by omega) _ _
      · split
        · exact hzero _
        · exact wellFormed_take h Nat.one_pos _ _

/-- The digits are those of the number wherever the point is put. -/
theorem Decimal.value_take {d : Decimal} (h : d.digits ≠ []) {n : ℕ} (hn : n ≤ d.digits.length) {e : ℤ}
    (he : d.point = n + e) : Numeral.value ⟨d.negative, d.digits.take n, d.digits.drop n, e⟩ = d := by
  have hpad := ofDigits_pad h 0 0 d.point (by omega)
  rw [List.replicate_zero, List.nil_append, List.append_nil] at hpad
  rw [Numeral.value, List.take_append_drop, List.length_take, Nat.min_eq_left hn, ← he]
  exact hpad

/-- No digit is lost. -/
theorem Decimal.numeral_value (d : Decimal) : d.numeral.value = d := by
  unfold Decimal.numeral
  split
  · rename_i h
    obtain ⟨negative, digits, point, h1, h2, h3⟩ := d
    cases h
    cases h3 rfl
    rfl
  · rename_i h
    have hlen := List.length_pos_iff.mpr h
    split
    · have hpad := ofDigits_pad h 0 (d.point - d.digits.length).toNat d.point (by omega)
      rw [List.replicate_zero, List.nil_append] at hpad
      have hpoint : ((d.digits.length + (d.point - d.digits.length).toNat : ℕ) : ℤ) + 0 = d.point := by omega
      simp only [Numeral.value, List.append_nil, List.length_append, List.length_replicate]
      rw [hpoint]
      exact hpad
    · split
      · exact value_take h (by omega) (by omega)
      · split
        · have hpad := ofDigits_pad h ((-d.point).toNat + 1) 0 1 (by omega)
          rw [List.replicate_zero, List.append_nil, List.replicate_succ, List.cons_append] at hpad
          exact hpad
        · exact value_take h hlen (by omega)

end Js
