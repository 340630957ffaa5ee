import RedisSmq.Common.NameGrammar
import RedisSmq.Lib.Js.Integers
import RedisSmq.Message
import RedisSmq.MessageText

/-!
# The JSON of messages

The text that is stored for a message of the data model, and the message that is read from a text. The properties of a
message are those of `MessageField`, in their order; the body has its JSON text already, and numbers are integers.

A message whose body is the text of a JSON value is found again from its text (`parse_text`), so no two of them have the
same text (`text_injective`), and its text is the one that `toString` makes of its properties (`toString_field`).
-/

namespace RedisSmq

open Js NameGrammar

namespace Message

/-- The JSON value of a property. -/
def field (m : Message) : MessageField → Json
  | .body => (readJson (ofText m.body)).getD .null
  | .priority => m.priority.elim .null fun p => .natural p.value
  | .scheduledCron => m.scheduledCron.elim .null fun c => .string (ofText c.text)
  | .scheduledDelay => m.scheduledDelay.elim .null fun p => .natural p.ms
  | .scheduledPeriod => m.scheduledPeriod.elim .null fun p => .natural p.ms
  | .scheduledRepeat => .integer m.scheduledRepeat
  | .queue => m.queue.elim .null fun q =>
    .object [(ascii "name", .string (ofText q.name)), (ascii "ns", .string (ofText q.ns))]
  | .publishedAt => m.publishedAt.elim .null .natural
  | .scheduledAt => m.scheduledAt.elim .null .natural
  | .scheduledCronFired => .bool m.scheduledCronFired
  | .attempts => .natural m.attempts
  | .scheduledRepeatCount => .natural m.scheduledRepeatCount
  | .delayed => .bool m.delayed
  | .expired => .bool m.expired
  | .createdAt => .natural m.createdAt
  | .uuid => .string (ofText m.uuid)
  | .ttl => .natural m.ttl.ms
  | .retryDelay => .natural m.retryDelay.ms
  | .retryThreshold => .integer m.retryThreshold
  | .consumeTimeout => .natural m.consumeTimeout.ms

/-- The members of the JSON object of a message. -/
def members (m : Message) : List (JsString × Json) := MessageField.all.map fun f => (f.name, m.field f)

/-- `JSON.stringify(message)`. -/
def text (m : Message) : JsString := print (.object m.members)

/-- The body is the text of a JSON value. -/
def Storable (m : Message) : Prop := (readJson (ofText m.body)).map print = some (ofText m.body)

instance (m : Message) : Decidable m.Storable := by
  unfold Storable
  infer_instance

/-! ## Reading -/

/-- A property that may be `null`. -/
def readOptional {α : Type} (read : Json → Option α) : Json → Option (Option α)
  | .null => some none
  | j => (read j).map some

def readBool : Json → Option Bool
  | .bool b => some b
  | _ => none

def readText : Json → Option String
  | .string s => textOf s
  | _ => none

def readPriority (j : Json) : Option MessagePriority := j.toNat.bind MessagePriority.ofValue

def readPeriod (j : Json) : Option Period := j.toNat.bind fun n => if h : 1000 ≤ n then some ⟨n, h⟩ else none

def readTimeout (j : Json) : Option Timeout :=
  j.toNat.bind fun n => if h : n = 0 ∨ 1000 ≤ n then some ⟨n, h⟩ else none

def readCron (j : Json) : Option CronExpression := (readText j).bind fun t => if h : t ≠ "" then some ⟨t, h⟩ else none

def readQueue : Json → Option TMessageQueue
  | .object ms => do
    let name ← (ms.lookup (ascii "name")).bind readText
    let ns ← (ms.lookup (ascii "ns")).bind readText
    return ⟨name, ns⟩
  | _ => none

/-- The message with given values of its properties. -/
def ofFields (get : MessageField → Option Json) : Option Message := do
  let ttl ← (get .ttl).bind readTimeout
  let retryThreshold ← (get .retryThreshold).bind Json.toInt
  let retryDelay ← (get .retryDelay).bind readTimeout
  let consumeTimeout ← (get .consumeTimeout).bind readTimeout
  let body ← (get .body).bind fun j => textOf (print j)
  let priority ← (get .priority).bind (readOptional readPriority)
  let scheduledCron ← (get .scheduledCron).bind (readOptional readCron)
  let scheduledDelay ← (get .scheduledDelay).bind (readOptional readPeriod)
  let scheduledPeriod ← (get .scheduledPeriod).bind (readOptional readPeriod)
  let scheduledRepeat ← (get .scheduledRepeat).bind Json.toInt
  let uuid ← (get .uuid).bind readText
  let createdAt ← (get .createdAt).bind Json.toNat
  let queue ← (get .queue).bind (readOptional readQueue)
  let publishedAt ← (get .publishedAt).bind (readOptional Json.toNat)
  let scheduledAt ← (get .scheduledAt).bind (readOptional Json.toNat)
  let scheduledCronFired ← (get .scheduledCronFired).bind readBool
  let attempts ← (get .attempts).bind Json.toNat
  let scheduledRepeatCount ← (get .scheduledRepeatCount).bind Json.toNat
  let delayed ← (get .delayed).bind readBool
  let expired ← (get .expired).bind readBool
  return { ttl, retryThreshold, retryDelay, consumeTimeout, body, priority, scheduledCron, scheduledDelay,
           scheduledPeriod, scheduledRepeat, uuid, createdAt, queue, publishedAt, scheduledAt, scheduledCronFired,
           attempts, scheduledRepeatCount, delayed, expired }

/-- The message of a text, as `createFromMessage` reads it; there is none for a text that is not one of a message. -/
def parse (s : JsString) : Option Message :=
  match readJson s with
  | some (.object ms) => ofFields fun f => ms.lookup f.name
  | _ => none

/-! ## Values that are found again -/

theorem readOptional_elim {α : Type} {read : Json → Option α} {write : α → Json} (hread : ∀ a, read (write a) = some a)
    (hnull : ∀ a, write a ≠ .null) (o : Option α) : readOptional read (o.elim .null write) = some o := by
  cases o with
  | none => rfl
  | some a =>
    show readOptional read (write a) = some (some a)
    rw [← Option.map_some (f := some), ← hread a]
    unfold readOptional
    split
    · rename_i h
      exact absurd h (hnull a)
    · rfl

theorem readText_string (t : String) : readText (.string (ofText t)) = some t := textOf_ofText t

theorem readPriority_value (p : MessagePriority) : readPriority (.natural p.value) = some p := by
  rw [readPriority, Json.toNat_natural]
  exact MessagePriority.ofValue_value p

theorem readPeriod_ms (p : Period) : readPeriod (.natural p.ms) = some p := by
  rw [readPeriod, Json.toNat_natural, Option.bind_some, dif_pos p.min]

theorem readTimeout_ms (t : Timeout) : readTimeout (.natural t.ms) = some t := by
  rw [readTimeout, Json.toNat_natural, Option.bind_some, dif_pos t.ok]

theorem readCron_text (c : CronExpression) : readCron (.string (ofText c.text)) = some c := by
  rw [readCron, readText_string, Option.bind_some, dif_pos c.nonempty]

theorem readQueue_object (q : TMessageQueue) :
    readQueue (.object [(ascii "name", .string (ofText q.name)), (ascii "ns", .string (ofText q.ns))]) = some q := by
  have hname : ((ascii "name" : JsString) == ascii "name") = true := by decide
  have hother : ((ascii "ns" : JsString) == ascii "name") = false := by decide
  have hns : ((ascii "ns" : JsString) == ascii "ns") = true := by decide
  simp only [readQueue, List.lookup_cons, hname, hother, hns, Option.bind_some, readText_string]
  rfl

variable {m m' : Message}

theorem print_body (h : m.Storable) : print (m.field .body) = ofText m.body := by
  obtain ⟨j, hj, hprint⟩ := Option.map_eq_some_iff.mp h
  rw [field, hj]
  exact hprint

/-- A message is found again from the values of its properties. -/
theorem ofFields_field (h : m.Storable) : ofFields (fun f => some (m.field f)) = some m := by
  have hbody : textOf (print (m.field .body)) = some m.body := by
    rw [print_body h]
    exact textOf_ofText m.body
  have hpriority := readOptional_elim readPriority_value (fun _ h => by cases h) m.priority
  have hcron := readOptional_elim readCron_text (fun _ h => by cases h) m.scheduledCron
  have hdelay := readOptional_elim readPeriod_ms (fun _ h => by cases h) m.scheduledDelay
  have hperiod := readOptional_elim readPeriod_ms (fun _ h => by cases h) m.scheduledPeriod
  have hqueue := readOptional_elim readQueue_object (fun _ h => by cases h) m.queue
  have hpublished := readOptional_elim Json.toNat_natural (fun _ h => by cases h) m.publishedAt
  have hscheduled := readOptional_elim Json.toNat_natural (fun _ h => by cases h) m.scheduledAt
  unfold ofFields
  simp only [Option.bind_some, hbody]
  simp only [field, hpriority, hcron, hdelay, hperiod, hqueue, hpublished, hscheduled, readTimeout_ms,
    Json.toInt_integer, Json.toNat_natural, readText_string, readBool]
  rfl

theorem names_members (m : Message) : m.members.map Prod.fst = MessageField.all.map MessageField.name := by
  rw [members, List.map_map]
  rfl

theorem lookup_members (m : Message) (f : MessageField) : m.members.lookup f.name = some (m.field f) := by
  have hnodup : (m.members.map Prod.fst).Nodup := by
    rw [names_members]
    exact MessageField.inOrder_names.imp And.right
  have hmem : (f.name, m.field f) ∈ m.members := List.mem_map_of_mem (MessageField.mem_all f)
  exact lookup_of_mem hnodup hmem

/-- **A message is found again from its text.** -/
theorem parse_text (h : m.Storable) : parse m.text = some m := by
  rw [parse, text, readJson_print]
  simp only [lookup_members]
  exact ofFields_field h

/-- Messages with the same text are the same. -/
theorem text_injective (h : m.Storable) (h' : m'.Storable) (heq : m.text = m'.text) : m = m' := by
  apply Option.some.inj
  rw [← parse_text h, ← parse_text h', heq]

/-- The text of a message opens with a brace. -/
theorem head?_text (m : Message) : m.text.head? = some (unit '\x7b') := rfl

/-- The text is the one of an object with these properties, when their JSON survives. -/
theorem toString_field (h : ∀ f, Canonical (m.field f)) :
    MessageObject.toString (MessageObject.properties fun f => fromJson (m.field f)) = .ok m.text := by
  have hjson : ∀ f, toJson (fromJson (m.field f)) = .ok (some (m.field f)) := fun f => (h f).toJson_fromJson
  refine MessageObject.toString_eq_ok.mpr ⟨fun p hp => ?_, ?_⟩
  · obtain ⟨f, -, rfl⟩ := List.mem_map.mp hp
    rw [jsonOf_eq (hjson f), hjson f]
  · have hwritten : written (MessageObject.properties fun f => fromJson (m.field f)) = m.members := by
      rw [written, MessageObject.properties, members, List.filterMap_map, ← List.filterMap_eq_map]
      apply List.filterMap_congr
      intro f _
      simp only [Function.comp_apply, jsonOf_eq (hjson f), Option.map_some]
    rw [hwritten]
    rfl

end Message

end RedisSmq
