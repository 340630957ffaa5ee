import Mathlib.Data.Nat.Notation
import Mathlib.Tactic.Common

/-!
# Strings of JavaScript, and their JSON texts

A string is a list of code units of UTF-16. Its JSON text has it between quotes: a pair of surrogates as it is, other
surrogates and control characters escaped.

- `quote`, `readString`: writing the text, and reading one up to its last quote;
- `readString_escapeAll`: what was written is read back.
-/

/-- A string: its code units. -/
abbrev JsString := List UInt16

namespace Js

/-- The code unit of a character of ASCII. -/
def unit (c : Char) : UInt16 := UInt16.ofNat c.toNat

/-- A string of ASCII characters. -/
def ascii (s : String) : JsString := s.toList.map unit

/-! ## Escapes -/

def isLead (u : UInt16) : Bool := 0xD800 ≤ u.toNat && u.toNat ≤ 0xDBFF

def isTrail (u : UInt16) : Bool := 0xDC00 ≤ u.toNat && u.toNat ≤ 0xDFFF

/-- The letter of a short escape. -/
def shortEscape (u : UInt16) : Option UInt16 :=
  if u = 0x22 then some (unit '"')
  else if u = 0x5C then some (unit '\\')
  else if u = 0x08 then some (unit 'b')
  else if u = 0x09 then some (unit 't')
  else if u = 0x0A then some (unit 'n')
  else if u = 0x0C then some (unit 'f')
  else if u = 0x0D then some (unit 'r')
  else none

/-- The unit that a short escape stands for. -/
def unescape (e : UInt16) : Option UInt16 :=
  if e = unit '"' then some 0x22
  else if e = unit '\\' then some 0x5C
  else if e = unit '/' then some 0x2F
  else if e = unit 'b' then some 0x08
  else if e = unit 't' then some 0x09
  else if e = unit 'n' then some 0x0A
  else if e = unit 'f' then some 0x0C
  else if e = unit 'r' then some 0x0D
  else none

def hexDigit (n : ℕ) : UInt16 := UInt16.ofNat (if n < 10 then 0x30 + n else 0x61 + (n - 10))

/-- The value of a hexadecimal digit. -/
def hexValue (u : UInt16) : Option ℕ :=
  let n := u.toNat
  if 0x30 ≤ n ∧ n ≤ 0x39 then some (n - 0x30)
  else if 0x61 ≤ n ∧ n ≤ 0x66 then some (n - 0x61 + 10)
  else if 0x41 ≤ n ∧ n ≤ 0x46 then some (n - 0x41 + 10)
  else none

/-- The escape with four hexadecimal digits. -/
def unicodeEscape (u : UInt16) : JsString :=
  let n := u.toNat
  [unit '\\', unit 'u', hexDigit (n / 4096), hexDigit (n / 256 % 16), hexDigit (n / 16 % 16), hexDigit (n % 16)]

/-- The text of one code unit. -/
def escape (u : UInt16) : JsString :=
  match shortEscape u with
  | some e => [unit '\\', e]
  | none => if u.toNat < 0x20 || isLead u || isTrail u then unicodeEscape u else [u]

/-- The text between the quotes. -/
def escapeAll : JsString → JsString
  | [] => []
  | [u] => escape u
  | u :: v :: s => if isLead u && isTrail v then u :: v :: escapeAll s else escape u ++ escapeAll (v :: s)

/-- `QuoteJSONString`. -/
def quote (s : JsString) : JsString := unit '"' :: escapeAll s ++ [unit '"']

/-! ## Reading -/

/-- Read four hexadecimal digits. -/
def readHex (a b c d : UInt16) : Option UInt16 := do
  let n₁ ← hexValue a
  let n₂ ← hexValue b
  let n₃ ← hexValue c
  let n₄ ← hexValue d
  return UInt16.ofNat (n₁ * 4096 + n₂ * 256 + n₃ * 16 + n₄)

/-- A unit before what was read after it. -/
def consUnit (u : UInt16) (p : JsString × JsString) : JsString × JsString := (u :: p.1, p.2)

/-- Read a string up to its last quote. -/
def readString : JsString → Option (JsString × JsString)
  | [] => none
  | u :: rest =>
    if u = unit '"' then some ([], rest)
    else if u = unit '\\' then
      match rest with
      | [] => none
      | e :: rest =>
        if e = unit 'u' then
          match rest with
          | a :: b :: c :: d :: rest => (readHex a b c d).bind fun v => (readString rest).map (consUnit v)
          | _ => none
        else (unescape e).bind fun v => (readString rest).map (consUnit v)
    else if u.toNat < 0x20 then none
    else (readString rest).map (consUnit u)

/-! ## What is written is read -/

theorem hexValue_hexDigit : ∀ n < 16, hexValue (hexDigit n) = some n := by decide

theorem unescape_shortEscape {u e : UInt16} (h : shortEscape u = some e) : unescape e = some u ∧ e ≠ unit 'u' := by
  unfold shortEscape at h
  repeat' split at h
  all_goals cases h
  all_goals
    subst_vars
    decide

/-- The last quote ends the string. -/
theorem readString_end (rest : JsString) : readString (unit '"' :: rest) = some ([], rest) := by
  rw [readString.eq_def]
  rfl

/-- A unit that needs no escape is read as it is. -/
theorem readString_raw {u : UInt16} (hs : shortEscape u = none) (hu : 0x20 ≤ u.toNat) (rest : JsString) :
    readString (u :: rest) = (readString rest).map (consUnit u) := by
  have hq : u ≠ unit '"' := by
    rintro rfl
    cases hs
  have hb : u ≠ unit '\\' := by
    rintro rfl
    cases hs
  rw [readString.eq_def]
  simp only [if_neg hq, if_neg hb, if_neg (Nat.not_lt.mpr hu)]

theorem readString_shortEscape {e u : UInt16} (he : unescape e = some u) (hne : e ≠ unit 'u') (rest : JsString) :
    readString (unit '\\' :: e :: rest) = (readString rest).map (consUnit u) := by
  have hb : unit '\\' ≠ unit '"' := by decide
  rw [readString.eq_def]
  simp only [if_neg hb, if_pos, if_neg hne, he, Option.bind_some]

theorem readString_hex {a b c d u : UInt16} (h : readHex a b c d = some u) (rest : JsString) :
    readString (unit '\\' :: unit 'u' :: a :: b :: c :: d :: rest) = (readString rest).map (consUnit u) := by
  have hb : unit '\\' ≠ unit '"' := by decide
  rw [readString.eq_def]
  simp only [if_neg hb, if_pos, h, Option.bind_some]

theorem readString_unicodeEscape (u : UInt16) (rest : JsString) :
    readString (unicodeEscape u ++ rest) = (readString rest).map (consUnit u) := by
  have hlt : u.toNat < 65536 := u.toNat_lt
  have h1 := hexValue_hexDigit (u.toNat / 4096) (by omega)
  have h2 := hexValue_hexDigit (u.toNat / 256 % 16) (by omega)
  have h3 := hexValue_hexDigit (u.toNat / 16 % 16) (by omega)
  have h4 := hexValue_hexDigit (u.toNat % 16) (by omega)
  have hsum : u.toNat / 4096 * 4096 + u.toNat / 256 % 16 * 256 + u.toNat / 16 % 16 * 16 + u.toNat % 16 = u.toNat := by
    omega
  apply readString_hex
  simp only [readHex, h1, h2, h3, h4, hsum, UInt16.ofNat_toNat, Option.bind_eq_bind, Option.bind_some]
  rfl

theorem readString_escape (u : UInt16) (rest : JsString) :
    readString (escape u ++ rest) = (readString rest).map (consUnit u) := by
  unfold escape
  cases hs : shortEscape u with
  | some e =>
    obtain ⟨he, hne⟩ := unescape_shortEscape hs
    exact readString_shortEscape he hne rest
  | none =>
    simp only
    split
    · exact readString_unicodeEscape u rest
    · rename_i h
      simp only [Bool.or_eq_true, decide_eq_true_eq, not_or] at h
      exact readString_raw hs (by omega) rest

/-- A surrogate needs no escape to be read. -/
theorem shortEscape_surrogate {u : UInt16} (h : isLead u = true ∨ isTrail u = true) :
    shortEscape u = none ∧ 0x20 ≤ u.toNat := by
  have hn : 0xD800 ≤ u.toNat := by
    rcases h with h | h
    · simp only [isLead, Bool.and_eq_true, decide_eq_true_eq] at h
      exact h.1
    · simp only [isTrail, Bool.and_eq_true, decide_eq_true_eq] at h
      omega
  refine ⟨?_, by omega⟩
  unfold shortEscape
  repeat' split
  all_goals first
    | rfl
    | (exfalso; subst_vars; revert hn; decide)

/-- The string is read back, and what follows it is left. -/
theorem readString_escapeAll (s rest : JsString) : readString (escapeAll s ++ unit '"' :: rest) = some (s, rest) := by
  fun_induction escapeAll s with
  | case1 => exact readString_end rest
  | case2 u =>
    rw [readString_escape, readString_end]
    rfl
  | case3 u v s h ih =>
    obtain ⟨hu, hv⟩ := Bool.and_eq_true_iff.mp h
    obtain ⟨hu1, hu2⟩ := shortEscape_surrogate (.inl hu)
    obtain ⟨hv1, hv2⟩ := shortEscape_surrogate (.inr hv)
    rw [List.cons_append, List.cons_append, readString_raw hu1 hu2, readString_raw hv1 hv2, ih]
    rfl
  | case4 u v s h ih =>
    rw [List.append_assoc, readString_escape, ih]
    rfl

end Js
