import Mathlib.Data.Nat.Digits.Lemmas
import RedisSmq.Lib.Js.Json

/-!
# Integers in JSON

The decimal number of an integer, and the integer of a decimal number that is one: no digit is lost, however many zeros the
digits end in (`toInt_ofInt`). `Json.integer` and `Json.natural` are JSON values, `Json.toInt` and `Json.toNat` read them.
`natText` is the text of a natural number, and `readNat` reads it.
-/

namespace Js

/-- The digits of a positive number begin with none that is zero. -/
theorem head?_natDigits (n : ℕ) : (natDigits n).head? ≠ some 0 := by
  intro h
  by_cases hn : n = 0
  · subst hn
    cases h
  · have hne : Nat.digits 10 n ≠ [] := Nat.digits_ne_nil_iff_ne_zero.mpr hn
    have hlast := Nat.getLast_digit_ne_zero 10 hn
    have hlt : (Nat.digits 10 n).getLast hne < 10 := Nat.digits_lt_base (by decide) (List.getLast_mem hne)
    rw [natDigits, List.head?_map, List.head?_reverse, List.getLast?_eq_some_getLast hne, Option.map_some,
      Option.some.injEq] at h
    have hzero : (Nat.digits 10 n).getLast hne % 10 = 0 := congrArg Fin.val h
    omega

/-- The zeros at the end of digits are dropped, and nothing else. -/
theorem rdropWhile_isZero (ds : List (Fin 10)) :
    ds.rdropWhile isZero ++ List.replicate (ds.length - (ds.rdropWhile isZero).length) 0 = ds := by
  induction ds using List.reverseRecOn with
  | nil => rfl
  | append_singleton ds d ih =>
    rw [List.rdropWhile_concat]
    split
    · rename_i hd
      have hzero : d = 0 := of_decide_eq_true hd
      have hle : (ds.rdropWhile isZero).length ≤ ds.length := (List.rdropWhile_prefix isZero ds).length_le
      have hlength : (ds ++ [d]).length - (ds.rdropWhile isZero).length =
          ds.length - (ds.rdropWhile isZero).length + 1 := by
        rw [List.length_append, List.length_singleton]
        omega
      rw [hlength, List.replicate_succ', ← List.append_assoc, ih, hzero]
    · rw [Nat.sub_self, List.replicate_zero, List.append_nil]

/-- The number of an integer; only numbers below zero have a sign. -/
def Decimal.ofInt (i : ℤ) : Decimal := .ofDigits (decide (i < 0)) (natDigits i.natAbs) (natDigits i.natAbs).length

/-- The integer that a number is. -/
def Decimal.toInt (d : Decimal) : Option ℤ := d.magnitude.map fun n : ℕ => if d.negative then -(n : ℤ) else n

theorem Decimal.magnitude_ofDigits (negative : Bool) (n : ℕ) :
    (Decimal.ofDigits negative (natDigits n) (natDigits n).length).magnitude = some n := by
  have hstrip : strip (natDigits n) = (natDigits n).rdropWhile isZero := by
    have hdrop : (natDigits n).dropWhile isZero = natDigits n := by
      cases hds : natDigits n with
      | nil => rfl
      | cons d ds =>
        have hhead := head?_natDigits n
        rw [hds, List.head?_cons] at hhead
        apply List.dropWhile_cons_of_neg
        intro hd
        exact hhead (congrArg some (of_decide_eq_true hd))
    rw [strip, hdrop]
  have htake : (natDigits n).takeWhile isZero = [] := by
    cases hds : natDigits n with
    | nil => rfl
    | cons d ds =>
      have hhead := head?_natDigits n
      rw [hds, List.head?_cons] at hhead
      apply List.takeWhile_cons_of_neg
      intro hd
      exact hhead (congrArg some (of_decide_eq_true hd))
  have hdigits := rdropWhile_isZero (natDigits n)
  have hle : ((natDigits n).rdropWhile isZero).length ≤ (natDigits n).length :=
    (List.rdropWhile_prefix isZero (natDigits n)).length_le
  unfold ofDigits
  split
  · rename_i hnil
    rw [hstrip] at hnil
    rw [hnil, List.nil_append] at hdigits
    have hzero : natValue (natDigits n) = 0 := by
      cases hds : natDigits n with
      | nil => rfl
      | cons d ds =>
        have hhead := head?_natDigits n
        rw [← hdigits] at hhead
        rw [hds] at hhead
        exact absurd rfl hhead
    rw [natValue_natDigits] at hzero
    rw [hzero]
    rfl
  · simp only [magnitude, hstrip, htake, List.length_nil]
    rw [if_pos (by omega)]
    have hcount : (((natDigits n).length : ℤ) - (0 : ℕ) - ((natDigits n).rdropWhile isZero).length).toNat =
        (natDigits n).length - ((natDigits n).rdropWhile isZero).length := by omega
    rw [hcount, hdigits, natValue_natDigits]

/-- An integer is found again from its number. -/
theorem Decimal.toInt_ofInt (i : ℤ) : (Decimal.ofInt i).toInt = some i := by
  unfold toInt ofInt
  rw [magnitude_ofDigits, ofDigits_negative, Option.map_some, Option.some.injEq]
  split
  · rename_i h
    have hneg := of_decide_eq_true h
    omega
  · rename_i h
    rw [decide_eq_true_eq] at h
    omega

/-! ## Texts of natural numbers -/

/-- `${n}`. -/
def natText (n : ℕ) : JsString := (Decimal.ofInt n).numeral.text

/-- `+text`, for the text of a natural number. -/
def readNat (text : JsString) : Option ℕ :=
  match readNumeral text with
  | some (n, []) => n.value.toInt.bind fun i => if 0 ≤ i then some i.toNat else none
  | _ => none

theorem readNat_natText (n : ℕ) : readNat (natText n) = some n := by
  have hread := readNumeral_text (Decimal.ofInt n).numeral_wellFormed (show Stop [] from fun u hu => by cases hu)
  rw [List.append_nil] at hread
  unfold readNat natText
  rw [hread]
  dsimp only
  rw [Decimal.numeral_value, Decimal.toInt_ofInt, Option.bind_some, if_pos (by omega), Int.toNat_natCast]

/-- What is not a digit, a sign, a point or an `e` is not in a numeral. -/
theorem Numeral.notMem_text {u : UInt16} (h : digitOf u = none) (hs : u ∉ [unit '-', unit '+', unit '.', unit 'e'])
    (n : Numeral) : u ∉ n.text := by
  obtain ⟨hminus, hplus, hpoint, he⟩ : u ≠ unit '-' ∧ u ≠ unit '+' ∧ u ≠ unit '.' ∧ u ≠ unit 'e' := by
    simpa using hs
  have hdigits : ∀ ds : List (Fin 10), u ∉ ds.map digitUnit := by
    intro ds hu
    obtain ⟨d, _, rfl⟩ := List.mem_map.mp hu
    rw [digitOf_digitUnit] at h
    cases h
  have hsign : u ∉ signText n.negative := by
    unfold signText
    split
    · exact fun hu => hminus (List.mem_singleton.mp hu)
    · exact List.not_mem_nil
  have hfrac : u ∉ fracText n.frac := by
    unfold fracText
    split
    · exact List.not_mem_nil
    · exact fun hu => (List.mem_cons.mp hu).elim hpoint (hdigits _)
  have hexp : u ∉ exponentText n.exponent := by
    unfold exponentText
    split
    · exact List.not_mem_nil
    · intro hu
      rcases List.mem_cons.mp hu with hu | hu
      · exact he hu
      · rcases List.mem_cons.mp hu with hu | hu
        · split at hu
          · exact hminus hu
          · exact hplus hu
        · exact hdigits _ hu
  intro hu
  rcases List.mem_append.mp hu with hu | hu
  · exact hsign hu
  · rcases List.mem_append.mp hu with hu | hu
    · exact hdigits _ hu
    · exact (List.mem_append.mp hu).elim hfrac hexp

end Js

namespace Json

open Js

def integer (i : ℤ) : Json := .number (.ofInt i)

def natural (n : ℕ) : Json := .integer n

def toInt : Json → Option ℤ
  | .number d => d.toInt
  | _ => none

def toNat (j : Json) : Option ℕ := j.toInt.bind fun i => if 0 ≤ i then some i.toNat else none

@[simp] theorem toInt_integer (i : ℤ) : (integer i).toInt = some i := Decimal.toInt_ofInt i

@[simp] theorem toNat_natural (n : ℕ) : (natural n).toNat = some n := by
  rw [toNat, natural, toInt_integer, Option.bind_some, if_pos (by omega), Int.toNat_natCast]

end Json
