import RedisSmq.Lib.Js.Json
import RedisSmq.Lib.Js.Number
import RedisSmq.Lib.Js.Properties

/-!
# Values of JavaScript and JSON

A value as `JSON.stringify` sees it: one with a method `toJSON` stands for what the method returns, a boxed value for what
is in the box, and an object for its own enumerable properties, as they are enumerated.

- `stringify` (`JSON.stringify`) and `parse` (`JSON.parse`);
- `Canonical`: a JSON value as `JSON.parse` leaves it; the JSON of ordinary values is canonical (`Ordinary.canonical`);
- `toJson_fromJson_iff`: JSON survives parsing and serialising exactly when it is canonical;
- `propertiesToJson_eq_ok`: the members that are written for the properties of an object.
-/

/-- A value. -/
inductive JsValue
  /-- `undefined`, and functions and symbols, which have no JSON either. -/
  | undefined
  /-- A value that is refused with an error, such as a `bigint` or one that contains itself. -/
  | refused (error : String)
  | null
  | bool (b : Bool)
  | number (x : JsNumber)
  /-- `NaN` and the infinities. -/
  | nonFinite
  | string (s : JsString)
  | array (items : List JsValue)
  | object (properties : List (JsString × JsValue))

namespace Js

/-! ## Serialising -/

/-- Zero has no sign in JSON. -/
def unsigned (d : Decimal) : Decimal := if d.digits = [] then .nought false else d

mutual

/-- The JSON of a value, or an error; some values have none. -/
def toJson : JsValue → Except String (Option Json)
  | .undefined => .ok none
  | .refused error => .error error
  | .null => .ok (some .null)
  | .bool b => .ok (some (.bool b))
  | .number x => .ok (some (.number (unsigned x.decimal)))
  | .nonFinite => .ok (some .null)
  | .string s => .ok (some (.string s))
  | .array items => (itemsToJson items).map fun js => some (.array js)
  | .object properties => (propertiesToJson properties).map fun ms => some (.object ms)

/-- In an array, `null` stands for a value that has no JSON. -/
def itemsToJson : List JsValue → Except String (List Json)
  | [] => .ok []
  | v :: items => do
    let j ← toJson v
    let js ← itemsToJson items
    return j.getD .null :: js

/-- A property whose value has no JSON is left out. -/
def propertiesToJson : List (JsString × JsValue) → Except String (List (JsString × Json))
  | [] => .ok []
  | (k, v) :: properties => do
    let j ← toJson v
    let ms ← propertiesToJson properties
    return (j.map fun j => (k, j)).toList ++ ms

end

/-- `JSON.stringify`. -/
def stringify (v : JsValue) : Except String (Option JsString) := (toJson v).map fun j => j.map print

/-! ## Parsing -/

mutual

/-- The value of a JSON value. -/
def fromJson : Json → JsValue
  | .null => .null
  | .bool b => .bool b
  | .number d => ((JsNumber.ofDecimal d).map .number).getD .nonFinite
  | .string s => .string s
  | .array items => .array (itemsFromJson items)
  | .object members => .object (ofMembers (membersFromJson members))

def itemsFromJson : List Json → List JsValue
  | [] => []
  | j :: items => fromJson j :: itemsFromJson items

def membersFromJson : List (JsString × Json) → List (JsString × JsValue)
  | [] => []
  | (k, j) :: members => (k, fromJson j) :: membersFromJson members

end

/-- `JSON.parse`; there is no value for a text that is no JSON. -/
def parse (text : JsString) : Option JsValue := (readJson text).map fromJson

/-- The number of a natural number. -/
def ofNat (n : ℕ) : JsValue := fromJson (.number (.ofDigits false (natDigits n) (natDigits n).length))

/-- The name that an index is. -/
def indexName (i : ℕ) : JsString := if i = 0 then [unit '0'] else (natDigits i).map digitUnit

/-- What `Object.assign` copies from a value. -/
def ownProperties : JsValue → List (JsString × JsValue)
  | .object properties => properties
  | .array items => items.mapIdx fun i v => (indexName i, v)
  | .string s => s.mapIdx fun i u => (indexName i, .string [u])
  | _ => []

/-! ## JSON that survives -/

/-- Numbers are doubles and zero has no sign; members of objects are in order and have distinct names. -/
inductive Canonical : Json → Prop
  | null : Canonical .null
  | bool (b : Bool) : Canonical (.bool b)
  | number {d : Decimal} (hd : d.shortest = some d) (hz : unsigned d = d) : Canonical (.number d)
  | string (s : JsString) : Canonical (.string s)
  | array {items : List Json} (h : ∀ j ∈ items, Canonical j) : Canonical (.array items)
  | object {members : List (JsString × Json)} (ho : InOrder (members.map Prod.fst))
    (h : ∀ m ∈ members, Canonical m.2) : Canonical (.object members)

theorem itemsFromJson_eq (items : List Json) : itemsFromJson items = items.map fromJson := by
  induction items with
  | nil => rfl
  | cons j items ih => rw [itemsFromJson, ih, List.map_cons]

theorem membersFromJson_eq (members : List (JsString × Json)) : membersFromJson members = mapValues fromJson members := by
  induction members with
  | nil => rfl
  | cons m members ih =>
    rw [membersFromJson, ih]
    rfl

theorem itemsToJson_map {f : Json → Json} {items : List Json}
    (h : ∀ j ∈ items, toJson (fromJson j) = .ok (some (f j))) :
    itemsToJson (items.map fromJson) = .ok (items.map f) := by
  induction items with
  | nil => rfl
  | cons j items ih =>
    rw [List.map_cons, itemsToJson, h j List.mem_cons_self, ih fun j' hj' => h j' (List.mem_cons_of_mem j hj')]
    rfl

theorem propertiesToJson_mapValues {f : Json → Json} {members : List (JsString × Json)}
    (h : ∀ m ∈ members, toJson (fromJson m.2) = .ok (some (f m.2))) :
    propertiesToJson (mapValues fromJson members) = .ok (mapValues f members) := by
  induction members with
  | nil => rfl
  | cons m members ih =>
    have htail := ih fun m' hm' => h m' (List.mem_cons_of_mem m hm')
    rw [mapValues] at htail ⊢
    rw [List.map_cons, propertiesToJson, h m List.mem_cons_self, htail]
    rfl

/-- An object that is in order is parsed member by member. -/
theorem fromJson_object {members : List (JsString × Json)} (h : InOrder (members.map Prod.fst)) :
    fromJson (.object members) = .object (mapValues fromJson members) := by
  rw [fromJson, membersFromJson_eq, ofMembers_mapValues, ofMembers_of_inOrder h]

/-- Canonical JSON survives parsing and serialising. -/
theorem Canonical.toJson_fromJson {j : Json} (h : Canonical j) : toJson (fromJson j) = .ok (some j) := by
  induction h with
  | null => rfl
  | bool b => rfl
  | @number d hd hz =>
    rw [fromJson, JsNumber.ofDecimal_decimal ⟨d, hd⟩, Option.map_some, Option.getD_some, toJson, hz]
  | string s => rfl
  | @array items h ih =>
    have hitems := itemsToJson_map (f := id) ih
    rw [fromJson, toJson, itemsFromJson_eq, hitems, List.map_id]
    rfl
  | @object members ho h ih =>
    have hmembers := propertiesToJson_mapValues (f := id) ih
    rw [fromJson_object ho, toJson, hmembers]
    simp [mapValues, Except.map]

/-- What was serialised is parsed. -/
theorem parse_print (j : Json) : parse (print j) = some (fromJson j) := by
  rw [parse, readJson_print, Option.map_some]

/-! ## What is parsed is canonical -/

/-- What is left of a JSON value. -/
def settled (j : Json) : Json :=
  match toJson (fromJson j) with
  | .ok (some j') => j'
  | _ => .null

def Settles (j : Json) : Prop := toJson (fromJson j) = .ok (some (settled j)) ∧ Canonical (settled j)

theorem Settles.of_eq {j : Json} (j' : Json) (h : toJson (fromJson j) = .ok (some j')) (hc : Canonical j') : Settles j := by
  have hs : settled j = j' := by
    unfold settled
    rw [h]
  rw [Settles, hs]
  exact ⟨h, hc⟩

theorem unsigned_canonical {d : Decimal} (h : d.shortest = some d) : Canonical (.number (unsigned d)) := by
  unfold unsigned
  split
  · exact .number rfl rfl
  · rename_i hd
    exact .number h (if_neg hd)

theorem settles_number (d : Decimal) : Settles (.number d) := by
  cases h : JsNumber.ofDecimal d with
  | none =>
    refine .of_eq .null ?_ .null
    rw [fromJson, h]
    rfl
  | some x =>
    refine .of_eq (.number (unsigned x.decimal)) ?_ (unsigned_canonical x.exact)
    rw [fromJson, h]
    rfl

theorem settles_array {items : List Json} (h : ∀ j ∈ items, Settles j) : Settles (.array items) := by
  have hitems := itemsToJson_map fun j hj => (h j hj).1
  refine .of_eq (.array (items.map settled)) ?_ (.array ?_)
  · rw [fromJson, toJson, itemsFromJson_eq, hitems]
    rfl
  · intro j hj
    obtain ⟨j', hj', rfl⟩ := List.mem_map.mp hj
    exact (h j' hj').2

theorem settles_object {members : List (JsString × Json)} (h : ∀ m ∈ members, Settles m.2) :
    Settles (.object members) := by
  have hmembers := propertiesToJson_mapValues fun m hm => (h m (mem_ofMembers hm)).1
  refine .of_eq (.object (mapValues settled (ofMembers members))) ?_ (.object ?_ ?_)
  · rw [fromJson, toJson, membersFromJson_eq, ofMembers_mapValues, hmembers]
    rfl
  · rw [map_fst_mapValues]
    exact inOrder_ofMembers members
  · intro m hm
    obtain ⟨m', hm', rfl⟩ := List.mem_map.mp hm
    exact (h m' (mem_ofMembers hm')).2

mutual

theorem settles : ∀ j, Settles j
  | .null => .of_eq .null rfl .null
  | .bool b => .of_eq (.bool b) rfl (.bool b)
  | .number d => settles_number d
  | .string s => .of_eq (.string s) rfl (.string s)
  | .array items => settles_array (settles_items items)
  | .object members => settles_object (settles_members members)

theorem settles_items : ∀ (items : List Json) (j : Json), j ∈ items → Settles j
  | [], _, hj => absurd hj List.not_mem_nil
  | j :: items, _, hj => (List.mem_cons.mp hj).elim (fun he => he ▸ settles j) (settles_items items _)

theorem settles_members : ∀ (members : List (JsString × Json)) (m : JsString × Json), m ∈ members → Settles m.2
  | [], _, hm => absurd hm List.not_mem_nil
  | (_, j) :: members, _, hm => (List.mem_cons.mp hm).elim (fun he => he ▸ settles j) (settles_members members _)

end

/-- A JSON value survives parsing and serialising exactly when it is canonical. -/
theorem toJson_fromJson_iff (j : Json) : toJson (fromJson j) = .ok (some j) ↔ Canonical j := by
  constructor
  · intro h
    obtain ⟨hs, hc⟩ := settles j
    rw [hs] at h
    have hj : settled j = j := Option.some.inj (Except.ok.inj h)
    rwa [hj] at hc
  · exact Canonical.toJson_fromJson

/-- The value has a JSON, which survives. -/
def Survives (v : JsValue) : Prop := ∃ j, toJson v = .ok (some j) ∧ Canonical j

theorem survives_null : Survives .null := ⟨.null, rfl, .null⟩

theorem survives_bool (b : Bool) : Survives (.bool b) := ⟨.bool b, rfl, .bool b⟩

theorem survives_string (s : JsString) : Survives (.string s) := ⟨.string s, rfl, .string s⟩

theorem survives_ofNat (n : ℕ) : Survives (ofNat n) := ⟨_, settles _⟩

/-! ## Ordinary values -/

/-- Objects enumerate their properties in order, as all do but those that say themselves what properties they have. -/
inductive Ordinary : JsValue → Prop
  | undefined : Ordinary .undefined
  | refused (error : String) : Ordinary (.refused error)
  | null : Ordinary .null
  | bool (b : Bool) : Ordinary (.bool b)
  | number (x : JsNumber) : Ordinary (.number x)
  | nonFinite : Ordinary .nonFinite
  | string (s : JsString) : Ordinary (.string s)
  | array {items : List JsValue} (h : ∀ v ∈ items, Ordinary v) : Ordinary (.array items)
  | object {properties : List (JsString × JsValue)} (ho : InOrder (properties.map Prod.fst))
    (h : ∀ p ∈ properties, Ordinary p.2) : Ordinary (.object properties)

/-- The JSON of a value; `none` also for one that is refused. -/
def jsonOf (v : JsValue) : Option Json :=
  match toJson v with
  | .ok j => j
  | .error _ => none

theorem jsonOf_eq {v : JsValue} {j : Option Json} (h : toJson v = .ok j) : jsonOf v = j := by
  unfold jsonOf
  rw [h]

theorem except_bind_eq_ok {ε α β : Type} {x : Except ε α} {f : α → Except ε β} {b : β} :
    (x >>= f) = .ok b ↔ ∃ a, x = .ok a ∧ f a = .ok b := by
  cases x with
  | error e => simp [bind, Except.bind]
  | ok a => simp [bind, Except.bind]

theorem except_map_eq_ok {ε α β : Type} {x : Except ε α} {f : α → β} {b : β} :
    x.map f = .ok b ↔ ∃ a, x = .ok a ∧ f a = b := by
  cases x with
  | error e => simp [Except.map]
  | ok a => simp [Except.map]

theorem toJson_eq_none_iff (v : JsValue) : toJson v = .ok none ↔ v = .undefined := by
  cases v <;> simp [toJson, except_map_eq_ok]

theorem itemsToJson_eq_ok {items : List JsValue} {js : List Json} (h : itemsToJson items = .ok js) :
    ∀ j ∈ js, j = .null ∨ ∃ v ∈ items, toJson v = .ok (some j) := by
  induction items generalizing js with
  | nil =>
    cases h
    exact fun j hj => absurd hj List.not_mem_nil
  | cons v items ih =>
    rw [itemsToJson] at h
    obtain ⟨j', hv, h⟩ := except_bind_eq_ok.mp h
    obtain ⟨js', hitems, h⟩ := except_bind_eq_ok.mp h
    obtain rfl := Except.ok.inj h
    intro j hj
    rcases List.mem_cons.mp hj with rfl | hj
    · cases j' with
      | none => exact .inl rfl
      | some j' => exact .inr ⟨v, List.mem_cons_self, hv⟩
    · rcases ih hitems j hj with h0 | ⟨w, hw, hj⟩
      · exact .inl h0
      · exact .inr ⟨w, List.mem_cons_of_mem v hw, hj⟩

/-- The members that are written: those of the properties that have a JSON. -/
def written (ps : List (JsString × JsValue)) : List (JsString × Json) :=
  ps.filterMap fun p => (jsonOf p.2).map fun j => (p.1, j)

theorem written_cons {v : JsValue} {j : Option Json} (h : toJson v = .ok j) (k : JsString)
    (ps : List (JsString × JsValue)) : written ((k, v) :: ps) = (j.map fun j => (k, j)).toList ++ written ps := by
  rw [written, List.filterMap_cons, jsonOf_eq h]
  cases j <;> rfl

/-- An object is written when none of its properties is refused. -/
theorem propertiesToJson_eq_ok {ps : List (JsString × JsValue)} {ms : List (JsString × Json)} :
    propertiesToJson ps = .ok ms ↔ (∀ p ∈ ps, toJson p.2 = .ok (jsonOf p.2)) ∧ ms = written ps := by
  induction ps generalizing ms with
  | nil => simp [propertiesToJson, written, eq_comm]
  | cons p ps ih =>
    obtain ⟨k, v⟩ := p
    rw [propertiesToJson]
    constructor
    · intro h
      obtain ⟨j, hv, h⟩ := except_bind_eq_ok.mp h
      obtain ⟨ms', hps, h⟩ := except_bind_eq_ok.mp h
      obtain ⟨hall, rfl⟩ := ih.mp hps
      obtain rfl := Except.ok.inj h
      refine ⟨fun p hp => ?_, (written_cons hv k ps).symm⟩
      rcases List.mem_cons.mp hp with rfl | hp
      · rw [hv, jsonOf_eq hv]
      · exact hall p hp
    · rintro ⟨hall, rfl⟩
      have hv : toJson v = .ok (jsonOf v) := hall (k, v) List.mem_cons_self
      have hps := ih.mpr ⟨fun p hp => hall p (List.mem_cons_of_mem (k, v) hp), rfl⟩
      refine except_bind_eq_ok.mpr ⟨jsonOf v, hv, except_bind_eq_ok.mpr ⟨written ps, hps, ?_⟩⟩
      rw [written_cons hv]
      rfl

theorem written_sublist (ps : List (JsString × JsValue)) :
    List.Sublist ((written ps).map Prod.fst) (ps.map Prod.fst) := by
  induction ps with
  | nil => exact .slnil
  | cons p ps ih =>
    rw [written, List.filterMap_cons]
    cases jsonOf p.2 with
    | none => exact .cons p.1 ih
    | some j => exact .cons_cons p.1 ih

theorem lookup_written {ps : List (JsString × JsValue)} (h : (ps.map Prod.fst).Nodup) {p : JsString × JsValue}
    (hp : p ∈ ps) : (written ps).lookup p.1 = jsonOf p.2 := by
  cases hj : jsonOf p.2 with
  | some j =>
    have hmem : (p.1, j) ∈ written ps := List.mem_filterMap.mpr ⟨p, hp, by rw [hj]; rfl⟩
    exact lookup_of_mem (h.sublist (written_sublist ps)) hmem
  | none =>
    refine List.lookup_eq_none_iff.mpr fun m hm => bne_iff_ne.mpr fun he => ?_
    obtain ⟨q, hq, hqm⟩ := List.mem_filterMap.mp hm
    obtain ⟨j, hqj, rfl⟩ := Option.map_eq_some_iff.mp hqm
    have hlp := lookup_of_mem h hp
    have hlq := lookup_of_mem h hq
    rw [he, hlq] at hlp
    rw [Option.some.inj hlp, hj] at hqj
    cases hqj

/-- The JSON of an ordinary value is canonical. -/
theorem Ordinary.canonical {v : JsValue} (h : Ordinary v) : ∀ j, toJson v = .ok (some j) → Canonical j := by
  induction h with
  | undefined => exact fun j hj => nomatch hj
  | refused error => exact fun j hj => nomatch hj
  | null =>
    rintro j hj
    cases hj
    exact .null
  | bool b =>
    rintro j hj
    cases hj
    exact .bool b
  | number x =>
    rintro j hj
    cases hj
    exact unsigned_canonical x.exact
  | nonFinite =>
    rintro j hj
    cases hj
    exact .null
  | string s =>
    rintro j hj
    cases hj
    exact .string s
  | @array items h ih =>
    intro j hj
    rw [toJson] at hj
    obtain ⟨js, hjs, hj⟩ := except_map_eq_ok.mp hj
    cases hj
    refine .array fun j hj => ?_
    rcases itemsToJson_eq_ok hjs j hj with rfl | ⟨v, hv, hj⟩
    · exact .null
    · exact ih v hv j hj
  | @object ps ho h ih =>
    intro j hj
    rw [toJson] at hj
    obtain ⟨ms, hms, hj⟩ := except_map_eq_ok.mp hj
    cases hj
    obtain ⟨hall, rfl⟩ := propertiesToJson_eq_ok.mp hms
    refine .object (ho.sublist (written_sublist ps)) fun m hm => ?_
    obtain ⟨p, hp, hm⟩ := List.mem_filterMap.mp hm
    obtain ⟨j, hj, rfl⟩ := Option.map_eq_some_iff.mp hm
    exact ih p hp j (by rw [hall p hp, hj])

end Js
