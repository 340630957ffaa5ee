import RedisSmq.Lib.Js.Decimal

/-!
# JSON texts

- `Json.print`: the text of a JSON value, without white space;
- `readValue`: a reader of the grammar, members of objects in the order of the text, with repeated names;
- `readJson_print`: what was printed is read back.
-/

/-- A JSON value: the tree of its text. -/
inductive Json
  | null
  | bool (b : Bool)
  | number (d : Js.Decimal)
  | string (s : JsString)
  | array (items : List Json)
  | object (members : List (JsString × Json))

namespace Js

/-! ## Printing -/

/-- A comma, but not before the first element. -/
def comma (first : Bool) : JsString := if first then [] else [unit ',']

mutual

def print : Json → JsString
  | .null => ascii "null"
  | .bool true => ascii "true"
  | .bool false => ascii "false"
  | .number d => d.numeral.text
  | .string s => quote s
  | .array items => unit '[' :: printItems true items
  | .object members => unit '{' :: printMembers true members

/-- The elements of an array, with the bracket that ends it. -/
def printItems (first : Bool) : List Json → JsString
  | [] => [unit ']']
  | j :: items => comma first ++ (print j ++ printItems false items)

/-- The members of an object, with the brace that ends it. -/
def printMembers (first : Bool) : List (JsString × Json) → JsString
  | [] => [unit '}']
  | (k, j) :: members => comma first ++ (quote k ++ unit ':' :: (print j ++ printMembers false members))

end

/-! ## Reading -/

def isSpace (u : UInt16) : Bool := u = 0x20 || u = 0x09 || u = 0x0A || u = 0x0D

def skipSpaces (s : JsString) : JsString := s.dropWhile isSpace

/-- Read a given word. -/
def readWord (word s : JsString) : Option JsString :=
  if s.take word.length = word then some (s.drop word.length) else none

/-- What follows the comma, or all of it before the first element. -/
def readComma : Bool → JsString → Option JsString
  | true, s => some s
  | false, s => (readWord [unit ','] s).map skipSpaces

/-- Read the name of a member and the colon. -/
def readName : JsString → Option (JsString × JsString)
  | [] => none
  | u :: rest =>
    if u = unit '"' then
      (readString rest).bind fun p => (readWord [unit ':'] (skipSpaces p.2)).map fun s => (p.1, skipSpaces s)
    else none

mutual

def readValue : ℕ → JsString → Option (Json × JsString)
  | 0, _ => none
  | _ + 1, [] => none
  | fuel + 1, u :: rest =>
    if u = unit 'n' then (readWord (ascii "null") (u :: rest)).map fun s => (.null, s)
    else if u = unit 't' then (readWord (ascii "true") (u :: rest)).map fun s => (.bool true, s)
    else if u = unit 'f' then (readWord (ascii "false") (u :: rest)).map fun s => (.bool false, s)
    else if u = unit '"' then (readString rest).map fun p => (.string p.1, p.2)
    else if u = unit '[' then (readItems fuel true (skipSpaces rest)).map fun p => (.array p.1, p.2)
    else if u = unit '{' then (readMembers fuel true (skipSpaces rest)).map fun p => (.object p.1, p.2)
    else (readNumeral (u :: rest)).map fun p => (.number p.1.value, p.2)

/-- Read the elements of an array, with the bracket that ends it. -/
def readItems : ℕ → Bool → JsString → Option (List Json × JsString)
  | 0, _, _ => none
  | fuel + 1, first, s =>
    if s.head? = some (unit ']') then some ([], s.tail)
    else
      (readComma first s).bind fun s => (readValue fuel s).bind fun j =>
        (readItems fuel false (skipSpaces j.2)).map fun p => (j.1 :: p.1, p.2)

/-- Read the members of an object, with the brace that ends it. -/
def readMembers : ℕ → Bool → JsString → Option (List (JsString × Json) × JsString)
  | 0, _, _ => none
  | fuel + 1, first, s =>
    if s.head? = some (unit '}') then some ([], s.tail)
    else
      (readComma first s).bind fun s => (readName s).bind fun k => (readValue fuel k.2).bind fun j =>
        (readMembers fuel false (skipSpaces j.2)).map fun p => ((k.1, j.1) :: p.1, p.2)

end

/-- The value of a text; between two units of it the reader goes at most two levels down. -/
def readJson (text : JsString) : Option Json :=
  (readValue (2 * text.length + 1) (skipSpaces text)).bind fun p => if skipSpaces p.2 = [] then some p.1 else none

/-! ## How texts begin -/

theorem skipSpaces_cons {u : UInt16} (h : isSpace u = false) (rest : JsString) : skipSpaces (u :: rest) = u :: rest :=
  List.dropWhile_cons_of_neg (by simp [h])

/-- The text begins with a unit of a value. -/
def Opens (s : JsString) : Prop := ∃ u rest, s = u :: rest ∧ isSpace u = false ∧ u ≠ unit ']' ∧ u ≠ unit '}'

/-- The text begins with a comma or a bracket, as what follows an element does. -/
def Closes (s : JsString) : Prop := ∃ u rest, s = u :: rest ∧ (u = unit ',' ∨ u = unit ']' ∨ u = unit '}')

theorem Opens.append {s : JsString} (h : Opens s) (rest : JsString) : Opens (s ++ rest) := by
  obtain ⟨u, tail, rfl, hu⟩ := h
  exact ⟨u, tail ++ rest, rfl, hu⟩

theorem Opens.skipSpaces {s : JsString} (h : Opens s) : skipSpaces s = s := by
  obtain ⟨u, tail, rfl, hu, -⟩ := h
  exact skipSpaces_cons hu tail

theorem Closes.append {s : JsString} (h : Closes s) (rest : JsString) : Closes (s ++ rest) := by
  obtain ⟨u, tail, rfl, hu⟩ := h
  exact ⟨u, tail ++ rest, rfl, hu⟩

theorem Closes.skipSpaces {s : JsString} (h : Closes s) : skipSpaces s = s := by
  obtain ⟨u, tail, rfl, rfl | rfl | rfl⟩ := h <;> exact skipSpaces_cons (by decide) tail

theorem Closes.stop {s : JsString} (h : Closes s) : Stop s := by
  obtain ⟨u, tail, rfl, rfl | rfl | rfl⟩ := h <;>
  · intro u hu
    cases hu
    decide

/-- The unit begins no other value than a number. -/
def Plain (u : UInt16) : Prop :=
  (isSpace u = false ∧ u ≠ unit ']' ∧ u ≠ unit '}') ∧
    u ≠ unit 'n' ∧ u ≠ unit 't' ∧ u ≠ unit 'f' ∧ u ≠ unit '"' ∧ u ≠ unit '[' ∧ u ≠ unit '{'

instance (u : UInt16) : Decidable (Plain u) := by
  unfold Plain
  infer_instance

theorem plain_digitUnit : ∀ d : Fin 10, Plain (digitUnit d) := by decide

/-- A numeral begins with a minus sign or a digit. -/
theorem numeral_cons {n : Numeral} (h : n.WellFormed) : ∃ u rest, n.text = u :: rest ∧ Plain u := by
  obtain ⟨negative, int, frac, e⟩ := n
  cases negative with
  | true => exact ⟨_, _, rfl, by decide⟩
  | false =>
    cases int with
    | nil => exact absurd rfl h.1
    | cons d int => exact ⟨_, _, rfl, plain_digitUnit d⟩

theorem opens_print (j : Json) : Opens (print j) := by
  cases j with
  | null => exact ⟨_, _, by rw [print]; rfl, by decide⟩
  | bool b => cases b <;> exact ⟨_, _, by rw [print]; rfl, by decide⟩
  | number d =>
    obtain ⟨u, rest, htext, hu⟩ := numeral_cons d.numeral_wellFormed
    exact ⟨u, rest, by rw [print, htext], hu.1⟩
  | string s => exact ⟨_, _, by rw [print]; rfl, by decide⟩
  | array items => exact ⟨_, _, by rw [print], by decide⟩
  | object members => exact ⟨_, _, by rw [print], by decide⟩

theorem closes_printItems (items : List Json) : Closes (printItems false items) := by
  cases items with
  | nil => exact ⟨_, _, by rw [printItems], .inr (.inl rfl)⟩
  | cons j items => exact ⟨_, _, by rw [printItems]; rfl, .inl rfl⟩

theorem closes_printMembers (members : List (JsString × Json)) : Closes (printMembers false members) := by
  cases members with
  | nil => exact ⟨_, _, by rw [printMembers], .inr (.inr rfl)⟩
  | cons m members => exact ⟨_, _, by rw [printMembers]; rfl, .inl rfl⟩

/-! ## What is printed is read -/

theorem readWord_append (word rest : JsString) : readWord word (word ++ rest) = some rest := by
  rw [readWord, List.take_left, if_pos rfl, List.drop_left]

theorem readComma_comma (first : Bool) {s : JsString} (h : Opens s) : readComma first (comma first ++ s) = some s := by
  cases first with
  | true => rfl
  | false =>
    have hword := readWord_append [unit ','] s
    rw [comma, if_neg Bool.false_ne_true, readComma, hword, Option.map_some, h.skipSpaces]

theorem opens_quote (k rest : JsString) : Opens (quote k ++ rest) := ⟨_, _, rfl, by decide⟩

theorem readName_quote (k : JsString) {s : JsString} (h : Opens s) :
    readName (quote k ++ unit ':' :: s) = some (k, s) := by
  have hquote : quote k ++ unit ':' :: s = unit '"' :: (escapeAll k ++ unit '"' :: (unit ':' :: s)) := by
    simp [quote]
  have hcolon := readWord_append [unit ':'] s
  rw [List.singleton_append] at hcolon
  rw [hquote, readName, if_pos rfl, readString_escapeAll, Option.bind_some,
    skipSpaces_cons (by decide : isSpace (unit ':') = false), hcolon, Option.map_some, h.skipSpaces]

/-- With this fuel, the text of every value that is no longer is read back. -/
def ReadsValue (fuel : ℕ) : Prop :=
  ∀ j rest, (print j).length ≤ fuel → Stop rest → readValue fuel (print j ++ rest) = some (j, rest)

def ReadsItems (fuel : ℕ) : Prop :=
  ∀ first items rest, (printItems first items).length ≤ fuel →
    readItems fuel first (printItems first items ++ rest) = some (items, rest)

def ReadsMembers (fuel : ℕ) : Prop :=
  ∀ first members rest, (printMembers first members).length ≤ fuel →
    readMembers fuel first (printMembers first members ++ rest) = some (members, rest)

theorem readValue_number (fuel : ℕ) (d : Decimal) {rest : JsString} (h : Stop rest) :
    readValue (fuel + 1) (d.numeral.text ++ rest) = some (.number d, rest) := by
  obtain ⟨u, tail, htext, -, h1, h2, h3, h4, h5, h6⟩ := numeral_cons d.numeral_wellFormed
  have hread := readNumeral_text d.numeral_wellFormed h
  rw [htext, List.cons_append] at hread ⊢
  rw [readValue, if_neg h1, if_neg h2, if_neg h3, if_neg h4, if_neg h5, if_neg h6, hread, Option.map_some,
    d.numeral_value]

theorem readValue_null (fuel : ℕ) (rest : JsString) :
    readValue (fuel + 1) (ascii "null" ++ rest) = some (.null, rest) := by
  have hcons : ascii "null" ++ rest = unit 'n' :: (ascii "ull" ++ rest) := rfl
  have hword := readWord_append (ascii "null") rest
  rw [hcons] at hword ⊢
  rw [readValue, if_pos rfl, hword, Option.map_some]

theorem readValue_bool (fuel : ℕ) (b : Bool) (rest : JsString) :
    readValue (fuel + 1) (print (.bool b) ++ rest) = some (.bool b, rest) := by
  cases b with
  | true =>
    have hcons : ascii "true" ++ rest = unit 't' :: (ascii "rue" ++ rest) := rfl
    have hword := readWord_append (ascii "true") rest
    have hn : unit 't' ≠ unit 'n' := by decide
    rw [print, hcons]
    rw [hcons] at hword
    rw [readValue, if_neg hn, if_pos rfl, hword, Option.map_some]
  | false =>
    have hcons : ascii "false" ++ rest = unit 'f' :: (ascii "alse" ++ rest) := rfl
    have hword := readWord_append (ascii "false") rest
    have hn : unit 'f' ≠ unit 'n' := by decide
    have ht : unit 'f' ≠ unit 't' := by decide
    rw [print, hcons]
    rw [hcons] at hword
    rw [readValue, if_neg hn, if_neg ht, if_pos rfl, hword, Option.map_some]

theorem readValue_string (fuel : ℕ) (s rest : JsString) :
    readValue (fuel + 1) (quote s ++ rest) = some (.string s, rest) := by
  have hquote : quote s ++ rest = unit '"' :: (escapeAll s ++ unit '"' :: rest) := by simp [quote]
  have hn : unit '"' ≠ unit 'n' := by decide
  have ht : unit '"' ≠ unit 't' := by decide
  have hf : unit '"' ≠ unit 'f' := by decide
  rw [hquote, readValue, if_neg hn, if_neg ht, if_neg hf, if_pos rfl, readString_escapeAll, Option.map_some]

/-- After a bracket, the elements. -/
theorem readValue_array (fuel : ℕ) (s : JsString) :
    readValue (fuel + 1) (unit '[' :: s) = (readItems fuel true (skipSpaces s)).map fun p => (.array p.1, p.2) := by
  have hn : unit '[' ≠ unit 'n' := by decide
  have ht : unit '[' ≠ unit 't' := by decide
  have hf : unit '[' ≠ unit 'f' := by decide
  have hq : unit '[' ≠ unit '"' := by decide
  rw [readValue, if_neg hn, if_neg ht, if_neg hf, if_neg hq, if_pos rfl]

/-- After a brace, the members. -/
theorem readValue_object (fuel : ℕ) (s : JsString) :
    readValue (fuel + 1) (unit '{' :: s) = (readMembers fuel true (skipSpaces s)).map fun p => (.object p.1, p.2) := by
  have hn : unit '{' ≠ unit 'n' := by decide
  have ht : unit '{' ≠ unit 't' := by decide
  have hf : unit '{' ≠ unit 'f' := by decide
  have hq : unit '{' ≠ unit '"' := by decide
  have hb : unit '{' ≠ unit '[' := by decide
  rw [readValue, if_neg hn, if_neg ht, if_neg hf, if_neg hq, if_neg hb, if_pos rfl]

theorem skipSpaces_printItems (items : List Json) (rest : JsString) :
    skipSpaces (printItems true items ++ rest) = printItems true items ++ rest := by
  cases items with
  | nil => rfl
  | cons j items =>
    rw [printItems]
    exact (((opens_print j).append _).append rest).skipSpaces

theorem skipSpaces_printMembers (members : List (JsString × Json)) (rest : JsString) :
    skipSpaces (printMembers true members ++ rest) = printMembers true members ++ rest := by
  cases members with
  | nil => rfl
  | cons m members =>
    rw [printMembers, List.append_assoc, comma, if_pos rfl, List.nil_append, List.append_assoc]
    exact (opens_quote m.1 _).skipSpaces

/-- One level more: a value whose elements are read. -/
theorem ReadsValue.succ {fuel : ℕ} (hitems : ReadsItems fuel) (hmembers : ReadsMembers fuel) : ReadsValue (fuel + 1) := by
  intro j rest hlen hstop
  cases j with
  | null =>
    rw [print]
    exact readValue_null fuel rest
  | bool b => exact readValue_bool fuel b rest
  | number d =>
    rw [print]
    exact readValue_number fuel d hstop
  | string s =>
    rw [print]
    exact readValue_string fuel s rest
  | array items =>
    rw [print, List.length_cons] at hlen
    rw [print, List.cons_append, readValue_array, skipSpaces_printItems, hitems true items rest (by omega),
      Option.map_some]
  | object members =>
    rw [print, List.length_cons] at hlen
    rw [print, List.cons_append, readValue_object, skipSpaces_printMembers, hmembers true members rest (by omega),
      Option.map_some]

theorem Opens.head?_ne {s : JsString} (h : Opens s) :
    s.head? ≠ some (unit ']') ∧ s.head? ≠ some (unit '}') := by
  obtain ⟨u, rest, rfl, -, h1, h2⟩ := h
  exact ⟨fun he => h1 (Option.some.inj he), fun he => h2 (Option.some.inj he)⟩

/-- Neither a comma nor an element ends an array or an object. -/
theorem comma_head?_ne (first : Bool) {s : JsString} (h : Opens s) :
    (comma first ++ s).head? ≠ some (unit ']') ∧ (comma first ++ s).head? ≠ some (unit '}') := by
  cases first with
  | true => exact h.head?_ne
  | false =>
    rw [comma, if_neg Bool.false_ne_true, List.singleton_append, List.head?_cons]
    decide

theorem print_length_pos (j : Json) : 0 < (print j).length := by
  obtain ⟨u, rest, htext, -⟩ := opens_print j
  rw [htext, List.length_cons]
  omega

theorem printItems_length_pos (first : Bool) (items : List Json) : 0 < (printItems first items).length := by
  cases items with
  | nil => exact Nat.one_pos
  | cons j items =>
    have hpos := print_length_pos j
    rw [printItems, List.length_append, List.length_append]
    omega

theorem printMembers_length_pos (first : Bool) (members : List (JsString × Json)) :
    0 < (printMembers first members).length := by
  cases members with
  | nil => exact Nat.one_pos
  | cons m members =>
    rw [printMembers, List.length_append, List.length_append, List.length_cons]
    omega

theorem ReadsItems.succ {fuel : ℕ} (hvalue : ReadsValue fuel) (hitems : ReadsItems fuel) : ReadsItems (fuel + 1) := by
  intro first items rest hlen
  cases items with
  | nil => rfl
  | cons j items =>
    have hcloses := (closes_printItems items).append rest
    have hopens := (opens_print j).append (printItems false items ++ rest)
    have hpos := print_length_pos j
    have hpos' := printItems_length_pos false items
    rw [printItems, List.length_append, List.length_append] at hlen
    rw [printItems, List.append_assoc, List.append_assoc, readItems, if_neg (comma_head?_ne first hopens).1,
      readComma_comma first hopens, Option.bind_some, hvalue j _ (by omega) hcloses.stop, Option.bind_some,
      hcloses.skipSpaces, hitems false items rest (by omega), Option.map_some]

theorem ReadsMembers.succ {fuel : ℕ} (hvalue : ReadsValue fuel) (hmembers : ReadsMembers fuel) :
    ReadsMembers (fuel + 1) := by
  intro first members rest hlen
  cases members with
  | nil => rfl
  | cons m members =>
    obtain ⟨k, j⟩ := m
    have hcloses := (closes_printMembers members).append rest
    have hopens := (opens_print j).append (printMembers false members ++ rest)
    have hpos := printMembers_length_pos false members
    rw [printMembers, List.length_append, List.length_append, List.length_cons, List.length_append] at hlen
    rw [printMembers, List.append_assoc, List.append_assoc, List.cons_append, List.append_assoc, readMembers,
      if_neg (comma_head?_ne first (opens_quote k _)).2, readComma_comma first (opens_quote k _), Option.bind_some,
      readName_quote k hopens, Option.bind_some, hvalue j _ (by omega) hcloses.stop, Option.bind_some,
      hcloses.skipSpaces, hmembers false members rest (by omega), Option.map_some]

/-- What was printed is read, on every level. -/
theorem reads (fuel : ℕ) : ReadsValue fuel ∧ ReadsItems fuel ∧ ReadsMembers fuel := by
  induction fuel with
  | zero =>
    refine ⟨fun j rest hlen => ?_, fun first items rest hlen => ?_, fun first members rest hlen => ?_⟩
    · exact absurd hlen (Nat.not_le.mpr (print_length_pos j))
    · exact absurd hlen (Nat.not_le.mpr (printItems_length_pos first items))
    · exact absurd hlen (Nat.not_le.mpr (printMembers_length_pos first members))
  | succ fuel ih =>
    obtain ⟨hvalue, hitems, hmembers⟩ := ih
    exact ⟨.succ hitems hmembers, .succ hvalue hitems, .succ hvalue hmembers⟩

/-- The text of a value is read as this value. -/
theorem readJson_print (j : Json) : readJson (print j) = some j := by
  have hread := (reads (2 * (print j).length + 1)).1 j [] (by omega) (fun u hu => nomatch hu)
  rw [List.append_nil] at hread
  rw [readJson, (opens_print j).skipSpaces, hread]
  rfl

theorem print_injective : Function.Injective print := by
  intro j k h
  have hread := readJson_print j
  rw [h, readJson_print k] at hread
  exact (Option.some.inj hread).symm

end Js
