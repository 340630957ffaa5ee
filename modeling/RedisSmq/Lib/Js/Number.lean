import Mathlib.Data.Nat.Log
import RedisSmq.Lib.Js.Decimal

/-!
# Numbers

A finite number of JavaScript is a double. It is represented here by the digits that `Number::toString` chooses for it:
the fewest digits that are read as this double, and among those the ones closest to it.

- `Decimal.double`: the double that is nearest to a decimal number;
- `Decimal.shortest`: the digits of that double; choosing them again changes nothing (`Decimal.shortest_shortest`);
- `JsNumber`: a finite number.
-/

namespace Js

/-- A nonnegative finite double: the mantissa, and the power of two that it is multiplied by. -/
abbrev Double := ℕ × ℤ

/-- The natural number nearest to `p / q`; the even one of two. -/
def roundHalfEven (p q : ℕ) : ℕ :=
  let m := p / q
  if 2 * (p % q) < q then m else if q < 2 * (p % q) then m + 1 else m + m % 2

/-- The power of two below `p / q`. -/
def binaryExponent (p q : ℕ) : ℤ :=
  let e := (Nat.log 2 p : ℤ) - Nat.log 2 q
  if q * 2 ^ e.toNat ≤ p * 2 ^ (-e).toNat then e else e - 1

/-- The double nearest to `p / q`; there is none when it overflows. -/
def nearest (p q : ℕ) : Option Double :=
  let e := max (binaryExponent p q - 52) (-1074)
  let m := roundHalfEven (p * 2 ^ (-e).toNat) (q * 2 ^ e.toNat)
  let x := if m = 2 ^ 53 then (2 ^ 52, e + 1) else (m, e)
  if 971 < x.2 then none else some x

/-- The double that is read for a decimal number, its sign apart. -/
def Decimal.double (d : Decimal) : Option Double :=
  let e := d.point - d.digits.length
  nearest (natValue d.digits * 10 ^ e.toNat) (10 ^ (-e).toNat)

/-! ## The digits of a double -/

/-- The number of digits before the point of `p / q`; below one, how many zeros follow the point, negated. -/
def decimalExponent (p q : ℕ) : ℤ := if q ≤ p then Nat.log 10 (p / q) + 1 else -Nat.log 10 ((q - 1) / p)

/-- The two numbers of `k` digits around the double, the closer one first. -/
def candidates (negative : Bool) (x : Double) (k : ℕ) : List Decimal :=
  let p := x.1 * 2 ^ x.2.toNat
  let q := 2 ^ (-x.2).toNat
  let n := decimalExponent p q
  let p' := p * 10 ^ (k - n).toNat
  let q' := q * 10 ^ (n - k).toNat
  let s := p' / q'
  let order := if roundHalfEven p' q' = s then [s, s + 1] else [s + 1, s]
  order.map fun s => .ofDigits negative (natDigits s) ((natDigits s).length + (n - k))

/-- Seventeen digits are enough for every double. -/
def Double.digits (negative : Bool) (x : Double) : Option Decimal :=
  ((List.range 17).flatMap fun k => candidates negative x (k + 1)).find? fun c => c.double = some x

/-- The digits of the double that is read for a decimal number; there are none when it overflows. -/
def Decimal.shortest (d : Decimal) : Option Decimal :=
  if d.digits = [] then some d
  else d.double.map fun x => if x.1 = 0 then .nought d.negative else (Double.digits d.negative x).getD d

theorem Double.digits_spec {negative : Bool} {x : Double} {c : Decimal} (h : Double.digits negative x = some c) :
    c.double = some x ∧ c.negative = negative := by
  unfold Double.digits at h
  have hdouble := List.find?_some h
  obtain ⟨k, -, hc⟩ := List.mem_flatMap.mp (List.mem_of_find?_eq_some h)
  obtain ⟨s, -, rfl⟩ := List.mem_map.mp hc
  exact ⟨of_decide_eq_true hdouble, Decimal.ofDigits_negative _ _ _⟩

/-- The digits of a double are read as this double, so they are chosen again. -/
theorem Decimal.shortest_shortest {d c : Decimal} (h : d.shortest = some c) : c.shortest = some c := by
  have hsame := h
  unfold Decimal.shortest at h
  split at h
  · cases h
    exact hsame
  · obtain ⟨x, hx, hc⟩ := Option.map_eq_some_iff.mp h
    split at hc
    · subst hc
      rfl
    · rename_i hm
      cases hd : Double.digits d.negative x with
      | none =>
        rw [hd] at hc
        cases hc
        exact hsame
      | some c' =>
        rw [hd] at hc
        obtain rfl : c' = c := hc
        obtain ⟨hdouble, hneg⟩ := Double.digits_spec hd
        unfold Decimal.shortest
        split
        · rfl
        · rw [hdouble, Option.map_some, if_neg hm, hneg, hd]
          rfl

end Js

/-- A finite number: a decimal number whose digits are those of a double. -/
structure JsNumber where
  decimal : Js.Decimal
  exact : decimal.shortest = some decimal

/-- The number that is read for a decimal number; there is none when it overflows. -/
def JsNumber.ofDecimal (d : Js.Decimal) : Option JsNumber :=
  match h : d.shortest with
  | none => none
  | some c => some ⟨c, Js.Decimal.shortest_shortest h⟩

/-- A number is read as itself. -/
theorem JsNumber.ofDecimal_decimal (x : JsNumber) : JsNumber.ofDecimal x.decimal = some x := by
  obtain ⟨d, hd⟩ := x
  unfold JsNumber.ofDecimal
  split
  · rename_i h
    rw [hd] at h
    cases h
  · rename_i c h
    rw [hd] at h
    cases h
    rfl
