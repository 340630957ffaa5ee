import RedisSmq.Lib.Js.Value

/-!
# The texts of messages

A message as the object that it is, and the text that is stored for it.

- `MessageObject`: a value for each property of a message, whatever its setters were called with;
- `toString` and `createFromMessage`: the text of a message, and the message of a text;
- `reserialises_iff`: when the message of a text has this text.
-/

namespace RedisSmq

open Js

/-- The properties of a message, in the order in which they are added to a new one. -/
inductive MessageField
  | body | priority | scheduledCron | scheduledDelay | scheduledPeriod | scheduledRepeat
  | queue | publishedAt | scheduledAt | scheduledCronFired | attempts | scheduledRepeatCount | delayed | expired
  | createdAt | uuid | ttl | retryDelay | retryThreshold | consumeTimeout
deriving DecidableEq

namespace MessageField

def name : MessageField → JsString
  | .body => ascii "body"
  | .priority => ascii "priority"
  | .scheduledCron => ascii "scheduledCron"
  | .scheduledDelay => ascii "scheduledDelay"
  | .scheduledPeriod => ascii "scheduledPeriod"
  | .scheduledRepeat => ascii "scheduledRepeat"
  | .queue => ascii "queue"
  | .publishedAt => ascii "publishedAt"
  | .scheduledAt => ascii "scheduledAt"
  | .scheduledCronFired => ascii "scheduledCronFired"
  | .attempts => ascii "attempts"
  | .scheduledRepeatCount => ascii "scheduledRepeatCount"
  | .delayed => ascii "delayed"
  | .expired => ascii "expired"
  | .createdAt => ascii "createdAt"
  | .uuid => ascii "uuid"
  | .ttl => ascii "ttl"
  | .retryDelay => ascii "retryDelay"
  | .retryThreshold => ascii "retryThreshold"
  | .consumeTimeout => ascii "consumeTimeout"

def all : List MessageField :=
  [.body, .priority, .scheduledCron, .scheduledDelay, .scheduledPeriod, .scheduledRepeat, .queue, .publishedAt,
    .scheduledAt, .scheduledCronFired, .attempts, .scheduledRepeatCount, .delayed, .expired, .createdAt, .uuid, .ttl,
    .retryDelay, .retryThreshold, .consumeTimeout]

theorem mem_all (f : MessageField) : f ∈ all := by
  cases f <;> decide

theorem inOrder_names : InOrder (all.map name) := by
  unfold InOrder
  decide

end MessageField

/-- A message: the value of each of its properties. -/
abbrev MessageObject := MessageField → JsValue

/-- `Message.defaultOpts`, with whatever `setDefaultOptions` was called with. -/
structure DefaultOptions where
  consumeTimeout : JsValue
  retryThreshold : JsValue
  retryDelay : JsValue
  ttl : JsValue

/-- The options before `setDefaultOptions` is called. -/
def DefaultOptions.initial : DefaultOptions where
  consumeTimeout := ofNat 0
  retryThreshold := ofNat 3
  retryDelay := ofNat 60000
  ttl := ofNat 0

namespace MessageObject

/-- `new Message()`, with the identifier and the clock value it takes. -/
def new (opts : DefaultOptions) (uuid : JsString) (now : ℕ) : MessageObject
  | .body => .null
  | .priority => .null
  | .scheduledCron => .null
  | .scheduledDelay => .null
  | .scheduledPeriod => .null
  | .scheduledRepeat => ofNat 0
  | .queue => .null
  | .publishedAt => .null
  | .scheduledAt => .null
  | .scheduledCronFired => .bool false
  | .attempts => ofNat 0
  | .scheduledRepeatCount => ofNat 0
  | .delayed => .bool false
  | .expired => .bool false
  | .createdAt => ofNat now
  | .uuid => .string uuid
  | .ttl => opts.ttl
  | .retryDelay => opts.retryDelay
  | .retryThreshold => opts.retryThreshold
  | .consumeTimeout => opts.consumeTimeout

def set (m : MessageObject) (f : MessageField) (v : JsValue) : MessageObject := fun g => if g = f then v else m g

def setBody (m : MessageObject) (body : JsValue) : MessageObject := m.set .body body

def setQueue (m : MessageObject) (ns name : JsString) : MessageObject :=
  m.set .queue (.object [(ascii "name", .string name), (ascii "ns", .string ns)])

def setPublishedAt (m : MessageObject) (timestamp : ℕ) : MessageObject := m.set .publishedAt (ofNat timestamp)

def reset (m : MessageObject) : MessageObject :=
  ((((((((m.set .publishedAt .null).set .scheduledAt .null).set .attempts (ofNat 0)).set .expired (.bool false)).set
    .delayed (.bool false)).set .scheduledCronFired (.bool false)).set .scheduledRepeatCount (ofNat 0)).set .queue .null)

/-- A message as `produceMessage` enqueues it: `reset`, `setQueue`, and `setPublishedAt` in `enqueue`. -/
def produced (m : MessageObject) (ns queueName : JsString) (now : ℕ) : MessageObject :=
  (m.reset.setQueue ns queueName).setPublishedAt now

/-- The own properties of a message. -/
def properties (m : MessageObject) : List (JsString × JsValue) := MessageField.all.map fun f => (f.name, m f)

/-- `toString` of an object with the methods of a message. -/
def toString (properties : List (JsString × JsValue)) : Except String JsString :=
  (stringify (.object properties)).map fun text => text.getD []

/-- `createFromMessage` of a text: the properties of the message; there is none for a text that is no JSON. -/
def createFromMessage (opts : DefaultOptions) (uuid : JsString) (now : ℕ) (message : JsString) :
    Option (List (JsString × JsValue)) :=
  (parse message).map fun messageJSON => assign (new opts uuid now).properties (ownProperties messageJSON)

/-- `getId` of an object with the methods of a message. -/
def getId (properties : List (JsString × JsValue)) : JsValue :=
  (properties.lookup MessageField.uuid.name).getD .undefined

/-! ## Reading a text -/

theorem names_properties (m : MessageObject) : m.properties.map Prod.fst = MessageField.all.map MessageField.name := by
  rw [properties, List.map_map]
  rfl

theorem nodup_properties (m : MessageObject) : (m.properties.map Prod.fst).Nodup := by
  rw [names_properties]
  exact MessageField.inOrder_names.imp And.right

theorem mem_properties (m : MessageObject) (f : MessageField) : (f.name, m f) ∈ m.properties :=
  List.mem_map_of_mem (MessageField.mem_all f)

theorem getId_properties (m : MessageObject) : getId m.properties = m .uuid := by
  rw [getId, lookup_of_mem m.nodup_properties (m.mem_properties .uuid)]
  rfl

theorem toString_eq_ok {ps : List (JsString × JsValue)} {s : JsString} :
    toString ps = .ok s ↔ (∀ p ∈ ps, toJson p.2 = .ok (jsonOf p.2)) ∧ s = print (.object (written ps)) := by
  rw [toString, stringify, toJson]
  constructor
  · intro h
    obtain ⟨text, htext, rfl⟩ := except_map_eq_ok.mp h
    obtain ⟨j, hj, rfl⟩ := except_map_eq_ok.mp htext
    obtain ⟨ms, hms, rfl⟩ := except_map_eq_ok.mp hj
    obtain ⟨hall, rfl⟩ := propertiesToJson_eq_ok.mp hms
    exact ⟨hall, rfl⟩
  · rintro ⟨hall, rfl⟩
    rw [propertiesToJson_eq_ok.mpr ⟨hall, rfl⟩]
    rfl

/-- What `createFromMessage` makes of the text of a message, from a new message. -/
def restored (m fresh : MessageObject) : MessageObject := fun f => ((jsonOf (m f)).map fromJson).getD (fresh f)

theorem createFromMessage_toString {m : MessageObject} {s : JsString} (hs : toString m.properties = .ok s)
    (opts : DefaultOptions) (uuid : JsString) (now : ℕ) :
    createFromMessage opts uuid now s = some (m.restored (new opts uuid now)).properties := by
  obtain ⟨-, rfl⟩ := toString_eq_ok.mp hs
  have hsublist := written_sublist m.properties
  have horder : InOrder ((written m.properties).map Prod.fst) := by
    refine List.Pairwise.sublist hsublist ?_
    rw [names_properties]
    exact MessageField.inOrder_names
  have hsub : ∀ p ∈ mapValues fromJson (written m.properties), p.1 ∈ (new opts uuid now).properties.map Prod.fst := by
    intro p hp
    have hmem := List.mem_map_of_mem (f := Prod.fst) hp
    rw [map_fst_mapValues] at hmem
    rw [names_properties, ← names_properties m]
    exact hsublist.subset hmem
  have hnodup : ((mapValues fromJson (written m.properties)).map Prod.fst).Nodup := by
    rw [map_fst_mapValues]
    exact m.nodup_properties.sublist hsublist
  have hlookup : ∀ f : MessageField,
      (mapValues fromJson (written m.properties)).lookup f.name = (jsonOf (m f)).map fromJson := by
    intro f
    rw [lookup_mapValues]
    exact congrArg _ (lookup_written m.nodup_properties (m.mem_properties f))
  rw [createFromMessage, parse_print, Option.map_some, fromJson_object horder, ownProperties,
    assign_of_subset hsub hnodup]
  generalize mapValues fromJson (written m.properties) = ms at hlookup
  rw [properties, properties, List.map_map]
  refine congrArg some (List.map_congr_left fun f hf => ?_)
  simp only [Function.comp_apply, hlookup, restored]

/-! ## The text of what was read -/

theorem written_congr {m m' : MessageObject} (h : ∀ f, jsonOf (m f) = jsonOf (m' f)) :
    written m.properties = written m'.properties := by
  rw [written, written, properties, properties, List.filterMap_map, List.filterMap_map]
  refine List.filterMap_congr fun f hf => ?_
  simp only [Function.comp_apply, h f]

/-- The JSON of a restored property is that of the property when nothing takes its place, and it survives. -/
theorem toJson_restored_iff {m fresh : MessageObject} {f : MessageField} (h : toJson (m f) = .ok (jsonOf (m f))) :
    toJson (m.restored fresh f) = .ok (jsonOf (m f)) ↔
      (m f = .undefined → fresh f = .undefined) ∧ ∀ j, toJson (m f) = .ok (some j) → Canonical j := by
  unfold restored
  cases hj : jsonOf (m f) with
  | none =>
    rw [hj] at h
    have hundefined := (toJson_eq_none_iff _).mp h
    rw [Option.map_none, Option.getD_none, toJson_eq_none_iff]
    constructor
    · intro hfresh
      refine ⟨fun _ => hfresh, fun j hm => ?_⟩
      rw [h] at hm
      cases hm
    · exact fun hcond => hcond.1 hundefined
  | some j =>
    rw [hj] at h
    rw [Option.map_some, Option.getD_some, toJson_fromJson_iff]
    constructor
    · intro hcanonical
      refine ⟨fun hundefined => ?_, fun j' hj' => ?_⟩
      · rw [hundefined] at h
        cases h
      · rw [h] at hj'
        cases hj'
        exact hcanonical
    · exact fun hcond => hcond.2 j h

/-- The message of a text has this text when each property of the message restored from it has the JSON that was written. -/
theorem toString_restored_iff {m fresh : MessageObject} {s : JsString} (hs : toString m.properties = .ok s) :
    toString (m.restored fresh).properties = .ok s ↔ ∀ f, toJson (m.restored fresh f) = .ok (jsonOf (m f)) := by
  obtain ⟨-, rfl⟩ := toString_eq_ok.mp hs
  rw [toString_eq_ok]
  constructor
  · rintro ⟨hall, htext⟩ f
    have hwritten := Json.object.inj (print_injective htext)
    have hrestored := lookup_written (m.restored fresh).nodup_properties ((m.restored fresh).mem_properties f)
    have hm := lookup_written m.nodup_properties (m.mem_properties f)
    rw [← hwritten] at hrestored
    rw [hall _ ((m.restored fresh).mem_properties f)]
    exact congrArg Except.ok (hrestored.symm.trans hm)
  · intro h
    refine ⟨fun p hp => ?_, ?_⟩
    · obtain ⟨f, -, rfl⟩ := List.mem_map.mp hp
      rw [jsonOf_eq (h f), h f]
    · rw [written_congr fun f => jsonOf_eq (h f)]

/-! ## Messages that survive -/

/-- Every property has a JSON that survives. -/
def AllSurvive (m : MessageObject) : Prop := ∀ f, Survives (m f)

theorem allSurvive_new {opts : DefaultOptions} (h1 : Survives opts.consumeTimeout) (h2 : Survives opts.retryThreshold)
    (h3 : Survives opts.retryDelay) (h4 : Survives opts.ttl) (uuid : JsString) (now : ℕ) :
    AllSurvive (new opts uuid now) := by
  intro f
  cases f <;> first
    | assumption
    | exact survives_null
    | exact survives_bool false
    | exact survives_string uuid
    | exact survives_ofNat _

theorem allSurvive_initial (uuid : JsString) (now : ℕ) : AllSurvive (new .initial uuid now) :=
  allSurvive_new (survives_ofNat 0) (survives_ofNat 3) (survives_ofNat 60000) (survives_ofNat 0) uuid now

/-- A setter that is given a value that survives. -/
theorem AllSurvive.set {m : MessageObject} (h : AllSurvive m) (f : MessageField) {v : JsValue} (hv : Survives v) :
    AllSurvive (m.set f v) := by
  intro g
  unfold MessageObject.set
  split
  · exact hv
  · exact h g

theorem survives_queue (ns name : JsString) :
    Survives (.object [(ascii "name", .string name), (ascii "ns", .string ns)]) := by
  have hnames : InOrder [ascii "name", ascii "ns"] := by
    unfold InOrder
    decide
  refine ⟨.object [(ascii "name", .string name), (ascii "ns", .string ns)], rfl, .object hnames fun m hm => ?_⟩
  simp only [List.mem_cons, List.not_mem_nil, or_false] at hm
  rcases hm with rfl | rfl
  · exact .string name
  · exact .string ns

/-- Producing a message sets properties to values that survive. -/
theorem AllSurvive.produced {m : MessageObject} (h : AllSurvive m) (ns queueName : JsString) (now : ℕ) :
    AllSurvive (m.produced ns queueName now) := by
  have hreset : AllSurvive m.reset :=
    (((((((h.set _ survives_null).set _ survives_null).set _ (survives_ofNat 0)).set _ (survives_bool false)).set _
      (survives_bool false)).set _ (survives_bool false)).set _ (survives_ofNat 0)).set _ survives_null
  exact (hreset.set _ (survives_queue ns queueName)).set _ (survives_ofNat now)

/-- Such a message is stored. -/
theorem AllSurvive.toString_ok {m : MessageObject} (h : AllSurvive m) :
    toString m.properties = .ok (print (.object (written m.properties))) := by
  refine toString_eq_ok.mpr ⟨fun p hp => ?_, rfl⟩
  obtain ⟨f, -, rfl⟩ := List.mem_map.mp hp
  obtain ⟨j, hj, -⟩ := h f
  rw [jsonOf_eq hj, hj]

theorem reserialises_iff_restored {m : MessageObject} {s : JsString} (hs : toString m.properties = .ok s)
    (opts : DefaultOptions) (uuid : JsString) (now : ℕ) :
    (createFromMessage opts uuid now s).map toString = some (.ok s) ↔
      ∀ f, toJson (m.restored (new opts uuid now) f) = .ok (jsonOf (m f)) := by
  rw [createFromMessage_toString hs, Option.map_some, Option.some.injEq, toString_restored_iff hs]

theorem toJson_property {m : MessageObject} {s : JsString} (hs : toString m.properties = .ok s) (f : MessageField) :
    toJson (m f) = .ok (jsonOf (m f)) :=
  (toString_eq_ok.mp hs).1 _ (m.mem_properties f)

/-- The message of a text has this text exactly when what has no JSON has none in a new message either, and the JSON of
the rest survives. -/
theorem reserialises_iff (m : MessageObject) {s : JsString} (hs : toString m.properties = .ok s)
    (opts : DefaultOptions) (uuid : JsString) (now : ℕ) :
    (createFromMessage opts uuid now s).map toString = some (.ok s) ↔
      ∀ f, (m f = .undefined → new opts uuid now f = .undefined) ∧
        ∀ j, toJson (m f) = .ok (some j) → Canonical j := by
  rw [reserialises_iff_restored hs]
  exact forall_congr' fun f => toJson_restored_iff (toJson_property hs f)

/-- When the values enumerate their properties in order, this is a matter of what has no JSON. -/
theorem reserialises_iff_of_ordinary {m : MessageObject} (hm : ∀ f, Ordinary (m f)) {s : JsString}
    (hs : toString m.properties = .ok s) (opts : DefaultOptions) (uuid : JsString) (now : ℕ) :
    (createFromMessage opts uuid now s).map toString = some (.ok s) ↔
      ∀ f, m f = .undefined → new opts uuid now f = .undefined := by
  rw [reserialises_iff_restored hs]
  exact forall_congr' fun f => (toJson_restored_iff (toJson_property hs f)).trans (and_iff_left (hm f).canonical)

theorem AllSurvive.survives {m : MessageObject} (h : AllSurvive m) (fresh : MessageObject) (f : MessageField) :
    (m f = .undefined → fresh f = .undefined) ∧ ∀ j, toJson (m f) = .ok (some j) → Canonical j := by
  obtain ⟨j, hj, hc⟩ := h f
  refine ⟨fun hundefined => ?_, fun j' hj' => ?_⟩
  · rw [hundefined] at hj
    cases hj
  · rw [hj] at hj'
    cases hj'
    exact hc

/-- What is read for the text of such a message has this text. -/
theorem AllSurvive.toString_restored {m : MessageObject} (h : AllSurvive m) (fresh : MessageObject) :
    toString (m.restored fresh).properties = .ok (print (.object (written m.properties))) := by
  refine (toString_restored_iff h.toString_ok).mpr fun f => ?_
  exact (toJson_restored_iff (toJson_property h.toString_ok f)).mpr (h.survives fresh f)

/-- A message with a text as its body. -/
def helloMessage : MessageObject :=
  ((new .initial (ascii "1") 0).setBody (.string (ascii "hello"))).produced (ascii "ns") (ascii "q") 0

theorem allSurvive_helloMessage : AllSurvive helloMessage :=
  ((allSurvive_initial _ _).set .body (survives_string _)).produced _ _ _

theorem reserialise_hello : ∃ s, toString helloMessage.properties = .ok s ∧
    (createFromMessage .initial (ascii "2") 1 s).map toString = some (.ok s) :=
  ⟨_, allSurvive_helloMessage.toString_ok,
    (reserialises_iff _ allSurvive_helloMessage.toString_ok _ _ _).mpr (allSurvive_helloMessage.survives _)⟩

/-- A message without a body, as `setBody(undefined)` makes it. -/
def emptyMessage : MessageObject :=
  ((new .initial (ascii "1") 0).setBody .undefined).produced (ascii "ns") (ascii "q") 0

theorem emptyMessage_toString :
    toString emptyMessage.properties = .ok (print (.object (written emptyMessage.properties))) := by
  refine toString_eq_ok.mpr ⟨fun p hp => ?_, rfl⟩
  obtain ⟨f, -, rfl⟩ := List.mem_map.mp hp
  by_cases hf : f = .body
  · subst hf
    rfl
  · have hsame : emptyMessage f = helloMessage f := by
      cases f <;> first
        | rfl
        | exact absurd rfl hf
    obtain ⟨j, hj, -⟩ := allSurvive_helloMessage f
    rw [hsame, jsonOf_eq hj, hj]

/-- The text of the message that is read has a body, `null`. -/
theorem reserialise_undefined : ∃ s, toString emptyMessage.properties = .ok s ∧
    (createFromMessage .initial (ascii "2") 1 s).map toString ≠ some (.ok s) := by
  refine ⟨_, emptyMessage_toString, fun h => ?_⟩
  have hbody : toJson .null = .ok none := (reserialises_iff_restored emptyMessage_toString _ _ _).mp h .body
  cases hbody

end MessageObject

end RedisSmq
