import RedisSmq.Management.Calls

/-!
# When management calls report

A call that re-queues a message throws in the callback of `LRANGE`, with the callback of the caller never called, when the
text at the index is no JSON, when a property of its own takes the place of a method, and when the priority that is given is
none; a call that reads a page throws in the callback of `LLEN` when its parameters are invalid and the list is not empty, and
in that of `LRANGE` when a text is no JSON.

- `ok_requeueMulti`: when the transaction of a call that re-queues is made;
- `reports_requeueListMessage` and `reports_getPaginatedListMessages`: when the calls report;
- `accepted_of_stored`: when a list has texts of messages, only the priority matters.
-/

namespace RedisSmq.Management

open Js Callbacks

/-! ## Objects that have been read -/

/-- The methods that are called of a message to re-queue it; `stored` is its priority. -/
def methodsCalled (withPriority : Bool) (priority : Option Number) (stored : JsValue) : List String :=
  ["reset", "setQueue", "getQueue", "setPublishedAt"] ++
    if withPriority then
      ["getId", "getSetPriority", "getPriority"] ++
        if priority.isSome || MessageInstance.isNullish stored then ["setPriority"] else []
    else []

/-- All of these. -/
def methodNames : List String :=
  ["reset", "setQueue", "getQueue", "setPublishedAt", "getId", "getSetPriority", "getPriority", "setPriority"]

/-- There is a JSON for the value, or none is written. -/
def Writable (v : JsValue) : Prop := ∃ j, toJson v = .ok j

/-- No error. -/
def Ok {α : Type} (x : Except String α) : Prop := ∃ a, x = .ok a

section

variable {α β : Type} {m m' : MessageInstance} {f g : MessageField} {v priority : JsValue} {name : String}
variable {x : Except String α} {k : α → Except String β}

theorem ok_pure {a : α} : Ok (pure a : Except String α) := ⟨a, rfl⟩

theorem ok_bind : Ok (x >>= k) ↔ ∃ a, x = .ok a ∧ Ok (k a) := by
  unfold Ok
  simp only [except_bind_eq_ok]
  constructor
  · rintro ⟨b, a, ha, hb⟩
    exact ⟨a, ha, b, hb⟩
  · rintro ⟨a, ha, b, hb⟩
    exact ⟨b, a, ha, hb⟩

theorem ok_bind_of_eq {a : α} (h : x = .ok a) : Ok (x >>= k) ↔ Ok (k a) := by
  rw [h]
  rfl

/-- What comes after depends on nothing that was computed. -/
theorem ok_bind_iff {P : Prop} (h : ∀ a, x = .ok a → (Ok (k a) ↔ P)) : Ok (x >>= k) ↔ Ok x ∧ P := by
  rw [ok_bind]
  constructor
  · rintro ⟨a, ha, hk⟩
    exact ⟨⟨a, ha⟩, (h a ha).mp hk⟩
  · rintro ⟨⟨a, ha⟩, hP⟩
    exact ⟨a, ha, (h a ha).mpr hP⟩

/-- What comes after does not fail. -/
theorem ok_bind_of_forall (h : ∀ a, x = .ok a → Ok (k a)) : Ok (x >>= k) ↔ Ok x :=
  (ok_bind_iff fun a ha => iff_of_true (h a ha) trivial).trans (and_iff_left trivial)

theorem method_bind_of_has (h : m.Has name) (x : Except String α) : (m.method name >>= fun _ => x) = x := by
  unfold MessageInstance.method
  rw [if_pos h]
  rfl

theorem ok_method {x : Except String α} : Ok (m.method name >>= fun _ => x) ↔ m.Has name ∧ Ok x := by
  unfold MessageInstance.method
  split
  · rename_i h
    exact (and_iff_right h).symm
  · rename_i h
    refine iff_of_false ?_ fun hok => h hok.1
    rintro ⟨a, ha⟩
    cases ha

/-! ### Properties of messages -/

theorem name_ne_proto : ∀ f ∈ MessageField.all, f.name ≠ ascii "__proto__" := by
  decide

theorem methodNames_ne : ∀ name ∈ methodNames, ∀ f ∈ MessageField.all, f.name ≠ ascii name := by
  decide

theorem name_injective : Function.Injective MessageField.name := by
  have h : (MessageField.all.map MessageField.name).Nodup := MessageField.inOrder_names.imp And.right
  intro f g hfg
  exact List.inj_on_of_nodup_map h (MessageField.mem_all f) (MessageField.mem_all g) hfg

theorem get_set (m : MessageInstance) (f g : MessageField) (v : JsValue) :
    (m.set f v).get g = if g = f then v else m.get g := by
  unfold MessageInstance.get MessageInstance.set
  rw [lookup_setProperty]
  by_cases h : g = f
  · rw [if_pos h, if_pos (congrArg _ h)]
    rfl
  · rw [if_neg h, if_neg fun he => h (name_injective he)]

theorem has_set (hname : name ∈ methodNames) : (m.set f v).Has name ↔ m.Has name := by
  have hne := methodNames_ne name hname f (MessageField.mem_all f)
  unfold MessageInstance.Has MessageInstance.set
  rw [lookup_setProperty, if_neg hne.symm]

theorem ok_toString {ps : List (JsString × JsValue)} (h : ∀ p ∈ ps, Writable p.2) : Ok (MessageObject.toString ps) := by
  refine ⟨_, MessageObject.toString_eq_ok.mpr ⟨fun p hp => ?_, rfl⟩⟩
  obtain ⟨j, hj⟩ := h p hp
  rw [jsonOf_eq hj, hj]

theorem writable_ofNat (n : ℕ) : Writable (ofNat n) := ⟨_, (settles _).1⟩

theorem isNullish_ofNat (n : ℕ) : MessageInstance.isNullish (ofNat n) = false := by
  unfold ofNat fromJson
  cases JsNumber.ofDecimal (.ofDigits false (natDigits n) (natDigits n).length) <;> rfl

/-- A message that is made of `m`: the methods that can be called of it, its JSON, and its priority. -/
structure Follows (m m' : MessageInstance) (priority : JsValue) : Prop where
  has : ∀ name ∈ methodNames, m'.Has name ↔ m.Has name
  writable : ∀ p ∈ m'.properties, Writable p.2
  priority : m'.get .priority = priority

theorem Follows.writable_set (h : Follows m m' priority) (hv : Writable v) :
    ∀ p ∈ (m'.set f v).properties, Writable p.2 := by
  intro p hp
  rcases mem_setProperty hp with rfl | hp
  · exact hv
  · exact h.writable p hp

theorem Follows.set (h : Follows m m' priority) (hf : f ≠ .priority) (hv : Writable v) :
    Follows m (m'.set f v) priority := by
  refine ⟨fun name hname => (has_set hname).trans (h.has name hname), h.writable_set hv, ?_⟩
  rw [get_set, if_neg hf.symm, h.priority]

theorem Follows.setPriority (h : Follows m m' priority) (n : ℕ) :
    Follows m (m'.set .priority (ofNat n)) (ofNat n) := by
  refine ⟨fun name hname => (has_set hname).trans (h.has name hname), h.writable_set (writable_ofNat n), ?_⟩
  rw [get_set, if_pos rfl]

theorem Follows.reset (h : Follows m m' priority) :
    Follows m (MessageInstance.resetValues.foldl (fun m p => m.set p.1 p.2) m') priority :=
  (((((((h.set (by decide) ⟨_, rfl⟩).set (by decide) ⟨_, rfl⟩).set (by decide) (writable_ofNat 0)).set (by decide)
    ⟨_, rfl⟩).set (by decide) ⟨_, rfl⟩).set (by decide) ⟨_, rfl⟩).set (by decide) (writable_ofNat 0)).set (by decide)
      ⟨_, rfl⟩

/-! ### Reading -/

/-- An object that was made of a text. -/
structure Read (m : MessageInstance) : Prop where
  nodup : (m.properties.map Prod.fst).Nodup
  noProto : ∀ p ∈ m.properties, p.1 ≠ ascii "__proto__"
  fields : ∀ f : MessageField, (m.properties.lookup f.name).isSome = true
  writable : ∀ p ∈ m.properties, Writable p.2

variable {opts : NumberOptions} {uuid : JsString} {now : ℕ}

theorem writable_new : ∀ p ∈ (MessageObject.new opts.toDefaultOptions uuid now).properties, Writable p.2 := by
  intro p hp
  obtain ⟨f, -, rfl⟩ := List.mem_map.mp hp
  cases f <;> first
    | exact ⟨_, rfl⟩
    | exact writable_ofNat _

/-- What is copied from the value of a JSON text. -/
theorem writable_ownProperties (j : Json) : ∀ p ∈ ownProperties (fromJson j), Writable p.2 := by
  have hjson : ∀ j, Writable (fromJson j) := fun j => ⟨_, (settles j).1⟩
  intro p hp
  cases j with
  | null => exact absurd hp List.not_mem_nil
  | bool b => exact absurd hp List.not_mem_nil
  | number d =>
    rw [fromJson] at hp
    cases hx : JsNumber.ofDecimal d with
    | none =>
      rw [hx] at hp
      exact absurd hp List.not_mem_nil
    | some x =>
      rw [hx] at hp
      exact absurd hp List.not_mem_nil
  | string s =>
    obtain ⟨i, hi, rfl⟩ := List.exists_of_mem_mapIdx hp
    exact ⟨_, rfl⟩
  | array items =>
    rw [fromJson, itemsFromJson_eq] at hp
    obtain ⟨i, hi, rfl⟩ := List.exists_of_mem_mapIdx hp
    rw [List.getElem_map]
    exact hjson _
  | object members =>
    rw [fromJson, membersFromJson_eq] at hp
    obtain ⟨q, hq, rfl⟩ := List.mem_map.mp (mem_ofMembers hp)
    exact hjson _

theorem lookup_new (f : MessageField) :
    ((MessageObject.new opts.toDefaultOptions uuid now).properties.lookup f.name).isSome = true := by
  rw [lookup_of_mem (MessageObject.nodup_properties _) (MessageObject.mem_properties _ f)]
  rfl

theorem read_ofProperties {own : List (JsString × JsValue)} (h : ∀ p ∈ own, Writable p.2) :
    Read (.ofProperties (MessageObject.new opts.toDefaultOptions uuid now) own) := by
  have hmem : ∀ p ∈ own.filter fun p => p.1 ≠ ascii "__proto__", p ∈ own ∧ p.1 ≠ ascii "__proto__" := by
    intro p hp
    obtain ⟨hp, hne⟩ := List.mem_filter.mp hp
    exact ⟨hp, of_decide_eq_true hne⟩
  constructor
  · refine List.Pairwise.imp And.right (inOrder_assign ?_ _)
    rw [MessageObject.names_properties]
    exact MessageField.inOrder_names
  · intro p hp
    rcases mem_assign hp with hp | hp
    · obtain ⟨f, hf, rfl⟩ := List.mem_map.mp hp
      exact name_ne_proto f hf
    · exact (hmem p hp).2
  · exact fun f => isSome_lookup_assign (lookup_new f) _
  · intro p hp
    rcases mem_assign hp with hp | hp
    · exact writable_new p hp
    · exact h p (hmem p hp).1

theorem read_createFromText {text : JsString} (h : createFromText opts uuid now text = .ok m) : Read m := by
  unfold createFromText at h
  cases htext : parse text with
  | none =>
    rw [htext] at h
    cases h
  | some v =>
    rw [htext] at h
    obtain rfl := Except.ok.inj h
    obtain ⟨j, -, rfl⟩ := Option.map_eq_some_iff.mp htext
    exact read_ofProperties (writable_ownProperties j)

/-- The message that is made of a message that was read. -/
theorem Read.follows (h : Read m) (hi : m.inherits = true) (opts : NumberOptions) (uuid : JsString) (now : ℕ) :
    Follows m (.ofProperties (MessageObject.new opts.toDefaultOptions uuid now) m.properties) (m.get .priority) := by
  have hfilter : (m.properties.filter fun p => p.1 ≠ ascii "__proto__") = m.properties :=
    List.filter_eq_self.mpr fun p hp => decide_eq_true (h.noProto p hp)
  have hlookup : ∀ k, (MessageInstance.ofProperties (MessageObject.new opts.toDefaultOptions uuid now)
      m.properties).properties.lookup k = (m.properties.lookup k).or
        ((MessageObject.new opts.toDefaultOptions uuid now).properties.lookup k) := by
    intro k
    rw [MessageInstance.ofProperties, hfilter, lookup_assign h.nodup]
  constructor
  · intro name hname
    have hinherits : (MessageInstance.ofProperties (MessageObject.new opts.toDefaultOptions uuid now)
        m.properties).inherits = true := by
      simp only [MessageInstance.ofProperties, Bool.not_eq_true', List.any_eq_false, Bool.and_eq_true, decide_eq_true_eq]
      exact fun p hp hproto => h.noProto p hp hproto.1
    have hnone : (MessageObject.new opts.toDefaultOptions uuid now).properties.lookup (ascii name) = none := by
      refine List.lookup_eq_none_iff.mpr fun p hp => bne_iff_ne.mpr ?_
      obtain ⟨f, hf, rfl⟩ := List.mem_map.mp hp
      exact (methodNames_ne name hname f hf).symm
    unfold MessageInstance.Has
    rw [hinherits, hlookup, hnone, Option.or_none, hi]
  · intro p hp
    rw [MessageInstance.ofProperties, hfilter] at hp
    exact (mem_assign hp).elim (writable_new p) (h.writable p)
  · unfold MessageInstance.get
    rw [hlookup]
    obtain ⟨v, hv⟩ := Option.isSome_iff_exists.mp (h.fields .priority)
    rw [hv]
    rfl

/-! ### Calling methods -/

theorem priorityOf_ofInt (p : MessagePriority) : MessageInstance.priorityOf (.ofInt p.value) = some p := by
  cases p <;> decide

theorem priorityOf_eq_some {priority : Number} {p : MessagePriority} (h : MessageInstance.priorityOf priority = some p) :
    priority = .ofInt p.value := by
  unfold MessageInstance.priorityOf at h
  have hfound := List.find?_some h
  exact of_decide_eq_true hfound

theorem ok_setPriority {priority : Number} :
    Ok (m.setPriority priority) ↔ m.Has "setPriority" ∧ ∃ p : MessagePriority, priority = .ofInt p.value := by
  unfold MessageInstance.setPriority
  rw [ok_method]
  refine and_congr_right' ?_
  cases h : MessageInstance.priorityOf priority with
  | none =>
    refine iff_of_false (fun ⟨_, h⟩ => nomatch h) ?_
    rintro ⟨p, rfl⟩
    rw [priorityOf_ofInt] at h
    cases h
  | some p => exact iff_of_true ok_pure ⟨p, priorityOf_eq_some h⟩

/-- What `setPriority` returns. -/
theorem Follows.setPriority_eq_ok (h : Follows m m' priority) {n : Number} {m'' : MessageInstance}
    (hm : m'.setPriority n = .ok m'') : ∃ p : MessagePriority, Follows m m'' (ofNat p.value) := by
  unfold MessageInstance.setPriority at hm
  obtain ⟨-, -, hm⟩ := except_bind_eq_ok.mp hm
  cases hn : MessageInstance.priorityOf n with
  | none =>
    rw [hn] at hm
    cases hm
  | some p =>
    rw [hn] at hm
    cases hm
    exact ⟨p, h.setPriority p.value⟩

theorem ok_getSetPriority (h : Follows m m' priority) : Ok m'.getSetPriority ↔
    m.Has "getSetPriority" ∧ m.Has "getPriority" ∧ (MessageInstance.isNullish priority = true → m.Has "setPriority") := by
  unfold MessageInstance.getSetPriority MessageInstance.getPriority
  rw [ok_method, h.has _ (by decide), bind_assoc, ok_method, h.has _ (by decide), pure_bind, h.priority]
  refine and_congr_right' (and_congr_right' ?_)
  split
  · rename_i hnullish
    rw [ok_bind_of_forall fun _ _ => ok_pure, ok_setPriority, h.has _ (by decide)]
    exact ⟨fun hok _ => hok.1, fun hok => ⟨hok hnullish, .normal, rfl⟩⟩
  · rename_i hnullish
    exact iff_of_true ok_pure fun hn => absurd hn hnullish

theorem Follows.getSetPriority_eq_ok (h : Follows m m' priority) {p : JsValue × MessageInstance}
    (hp : m'.getSetPriority = .ok p) : ∀ q ∈ p.2.properties, Writable q.2 := by
  unfold MessageInstance.getSetPriority at hp
  obtain ⟨-, -, hp⟩ := except_bind_eq_ok.mp hp
  obtain ⟨v, -, hp⟩ := except_bind_eq_ok.mp hp
  split at hp
  · obtain ⟨m'', hm, hp⟩ := except_bind_eq_ok.mp hp
    obtain ⟨n, hn⟩ := h.setPriority_eq_ok hm
    cases hp
    exact hn.writable
  · cases hp
    exact h.writable

variable {argument : JsValue → JsString} {ns queueName : String}

theorem ok_enqueueMessageWithPriorityMulti (h : Follows m m' priority) :
    Ok (enqueueMessageWithPriorityMulti argument ns queueName m') ↔
      m.Has "getId" ∧ m.Has "getSetPriority" ∧ m.Has "getPriority" ∧
        (MessageInstance.isNullish priority = true → m.Has "setPriority") := by
  unfold enqueueMessageWithPriorityMulti MessageInstance.getId
  rw [bind_assoc, ok_method, h.has _ (by decide), pure_bind, ok_bind_of_forall, ok_getSetPriority h]
  intro p hp
  rw [ok_bind_of_forall fun _ _ => ok_pure]
  exact ok_toString (h.getSetPriority_eq_ok hp)

theorem ok_enqueueMulti (h : Follows m m' priority) (withPriority : Bool) :
    Ok (enqueueMulti argument ns queueName m' withPriority now) ↔ m.Has "getQueue" ∧ m.Has "setPublishedAt" ∧
      (withPriority = true → m.Has "getId" ∧ m.Has "getSetPriority" ∧ m.Has "getPriority" ∧
        (MessageInstance.isNullish priority = true → m.Has "setPriority")) := by
  have hset : Follows m (m'.set .publishedAt (ofNat now)) priority := h.set (by decide) (writable_ofNat now)
  unfold enqueueMulti MessageInstance.getQueue MessageInstance.setPublishedAt
  rw [bind_assoc, ok_method, h.has _ (by decide), pure_bind, bind_assoc, ok_method, h.has _ (by decide), pure_bind]
  refine and_congr_right' (and_congr_right' ?_)
  cases withPriority with
  | true => simpa using ok_enqueueMessageWithPriorityMulti hset
  | false =>
    refine iff_of_true ?_ fun hfalse => nomatch hfalse
    exact (ok_bind_of_forall fun _ _ => ok_pure).mpr (ok_toString hset.writable)

end

/-! ## Re-queueing -/

section

variable {opts : NumberOptions} {uuid : ℕ → JsString} {argument : JsValue → JsString} {client : Client}
variable {env : ℕ → Moment} {r : Requeue} {m : MessageInstance} {source ns : String}

/-- Nothing is thrown for the message: it has the methods that are called, and a priority that is given is one. -/
structure Requeueable (r : Requeue) (m : MessageInstance) : Prop where
  methods : ∀ name ∈ methodsCalled r.withPriority r.priority (m.get .priority), m.Has name
  priority : r.withPriority = true → ∀ n, r.priority = some n → ∃ p : MessagePriority, n = .ofInt p.value

theorem writable_queue (ns queueName : String) : Writable
    (.object [(ascii "name", .string (NameGrammar.ofText queueName)), (ascii "ns", .string (NameGrammar.ofText ns))]) :=
  ⟨_, rfl⟩

theorem ok_prioritise {m' : MessageInstance} {priority : JsValue} (h : Follows m m' priority) :
    Ok (prioritise r m') ↔ (r.withPriority = true → ∀ n, r.priority = some n →
      m.Has "setPriority" ∧ ∃ p : MessagePriority, n = .ofInt p.value) := by
  unfold prioritise
  cases r.withPriority with
  | false => exact iff_of_true ok_pure fun hfalse => nomatch hfalse
  | true =>
    cases r.priority with
    | none => exact iff_of_true ok_pure fun _ _ hn => nomatch hn
    | some n =>
      simp only [forall_const, Option.some.injEq, forall_eq']
      rw [ok_setPriority, h.has _ (by decide)]

/-- The priority of the message is the one that was given, or else the stored one. -/
theorem Follows.prioritise_eq_ok {m' m'' : MessageInstance} {priority : JsValue} (h : Follows m m' priority)
    (hm : prioritise r m' = .ok m'') : ∃ priority', Follows m m'' priority' ∧ (r.withPriority = true →
      MessageInstance.isNullish priority' = (r.priority.isNone && MessageInstance.isNullish priority)) := by
  unfold prioritise at hm
  cases hw : r.withPriority with
  | false =>
    rw [hw] at hm
    cases hm
    exact ⟨priority, h, fun hfalse => nomatch hfalse⟩
  | true =>
    rw [hw] at hm
    cases hp : r.priority with
    | none =>
      rw [hp] at hm
      cases hm
      exact ⟨priority, h, fun _ => rfl⟩
    | some n =>
      rw [hp] at hm
      obtain ⟨p, hset⟩ := h.setPriority_eq_ok hm
      exact ⟨_, hset, fun _ => isNullish_ofNat p.value⟩

/-- The transaction, from where the queue of the message is set. -/
theorem ok_enqueuePrioritised {m' : MessageInstance} {priority : JsValue} (h : Follows m m' priority) (now : ℕ)
    (cmds : List Command → List Command) :
    Ok (prioritise r m' >>= fun m' =>
        enqueueMulti argument ns r.queueName m' r.withPriority now >>= fun x => pure (cmds x)) ↔
      (r.withPriority = true → ∀ n, r.priority = some n →
        m.Has "setPriority" ∧ ∃ p : MessagePriority, n = .ofInt p.value) ∧
      m.Has "getQueue" ∧ m.Has "setPublishedAt" ∧
      (r.withPriority = true → m.Has "getId" ∧ m.Has "getSetPriority" ∧ m.Has "getPriority" ∧
        ((r.priority.isNone && MessageInstance.isNullish priority) = true → m.Has "setPriority")) := by
  rw [ok_bind_iff, ok_prioritise h]
  intro m'' hm
  obtain ⟨priority', hfollows, hnullish⟩ := h.prioritise_eq_ok hm
  rw [ok_bind_of_forall fun _ _ => ok_pure, ok_enqueueMulti hfollows]
  refine and_congr_right' (and_congr_right' (forall_congr' fun hw => ?_))
  rw [hnullish hw]

theorem requeueable_iff : Requeueable r m ↔ m.Has "reset" ∧ m.Has "setQueue" ∧
    (r.withPriority = true → ∀ n, r.priority = some n →
      m.Has "setPriority" ∧ ∃ p : MessagePriority, n = .ofInt p.value) ∧
    m.Has "getQueue" ∧ m.Has "setPublishedAt" ∧
    (r.withPriority = true → m.Has "getId" ∧ m.Has "getSetPriority" ∧ m.Has "getPriority" ∧
      ((r.priority.isNone && MessageInstance.isNullish (m.get .priority)) = true → m.Has "setPriority")) := by
  have hiff : Requeueable r m ↔ (∀ name ∈ methodsCalled r.withPriority r.priority (m.get .priority), m.Has name) ∧
      (r.withPriority = true → ∀ n, r.priority = some n → ∃ p : MessagePriority, n = .ofInt p.value) :=
    ⟨fun h => ⟨h.methods, h.priority⟩, fun h => ⟨h.1, h.2⟩⟩
  rw [hiff, methodsCalled]
  generalize m.Has = has
  cases r.withPriority with
  | false => simp
  | true =>
    cases r.priority with
    | none =>
      cases MessageInstance.isNullish (m.get .priority) with
      | false => simp
      | true => simp
    | some n =>
      simp
      tauto

/-- The transaction is made when nothing is thrown for the message. -/
theorem ok_requeueMulti (h : Read m) (hi : m.inherits = true) (now : ℕ) :
    Ok (requeueMulti opts uuid argument r source ns now m) ↔ Requeueable r m := by
  have h1 := h.follows hi opts (uuid 1) now
  have h2 := h1.reset.set (f := .queue) (by decide) (writable_queue ns r.queueName)
  obtain ⟨text, htext⟩ := ok_toString h.writable
  unfold requeueMulti createFromInstance MessageInstance.reset MessageInstance.setQueue
  rw [ok_bind_of_eq htext, bind_assoc, ok_method, h1.has _ (by decide), pure_bind, bind_assoc, ok_method,
    h1.reset.has _ (by decide), pure_bind, ok_enqueuePrioritised h2, requeueable_iff]

/-- A transaction that is answered with an error has changed nothing. -/
def Moment.Honest (client : Client) (m : Moment) (cmds : List Command) : Prop :=
  ∀ e, m.reply client (.execMulti cmds) = .error e → m.after (.execMulti cmds) = m.store

/-- If there is a text at the index, it is that of a message that has an identifier; and if it is the one that was asked for,
nothing is thrown for the message, and the transaction is answered honestly. -/
def Requeue.Accepted (opts : NumberOptions) (uuid : ℕ → JsString) (argument : JsValue → JsString) (client : Client)
    (env : ℕ → Moment) (r : Requeue) (source ns : String) : Prop :=
  ∀ text rest, (env 0).reply client (.lrange source r.index r.index) = .ok (text :: rest) →
    ∃ m, createFromText opts (uuid 0) (env 0).now text = .ok m ∧ m.Has "getId" ∧
      (m.get .uuid = .string (NameGrammar.ofText r.messageId) → Requeueable r m ∧
        ∀ cmds, requeueMulti opts uuid argument r source ns (env 0).now m = .ok cmds → (env 1).Honest client cmds)

/-! ## Runs -/

variable {i : ℕ} {a : Result Reply} {e : String}

theorem reports_call : Reports client env i (.call a) :=
  ⟨⟨a, rfl⟩, fun _ _ _ hp => absurd hp List.not_mem_nil⟩

theorem not_reports_throw : ¬Reports client env i (.throw e) := by
  rintro ⟨⟨result, h⟩, -⟩
  cases h

/-- A request that does not write. -/
theorem reports_read {req : Request} (hreq : (env i).after req = (env i).store) (k : ℕ → Result req.Reply → Call) :
    Reports client env i (.request req k) ↔
      Reports client env (i + 1) (k (env i).now ((env i).reply client req)) := by
  constructor
  · rintro ⟨hcalled, hunchanged⟩
    exact ⟨hcalled, fun e he p hp => hunchanged e he p (List.mem_cons_of_mem _ hp)⟩
  · rintro ⟨hcalled, hunchanged⟩
    refine ⟨hcalled, fun e he p hp => ?_⟩
    rcases List.mem_cons.mp hp with rfl | hp
    · exact hreq
    · exact hunchanged e he p hp

/-- A transaction, whose reply is passed on. -/
theorem reports_execMulti {cmds : List Command} :
    Reports client env i (.request (.execMulti cmds) fun _ reply => .call (reply.map fun _ => .void)) ↔
      (env i).Honest client cmds := by
  constructor
  · rintro ⟨-, hunchanged⟩ e he
    refine hunchanged e ?_ (i, .execMulti cmds) List.mem_cons_self
    change Ending.called (((env i).reply client (.execMulti cmds)).map fun _ => Reply.void) = _
    rw [he]
    rfl
  · intro h
    refine ⟨⟨_, rfl⟩, fun e he p hp => ?_⟩
    obtain rfl := List.mem_singleton.mp hp
    cases hreply : (env i).reply client (.execMulti cmds) with
    | error e' => exact h e' hreply
    | ok u =>
      change Ending.called (((env i).reply client (.execMulti cmds)).map fun _ => Reply.void) = _ at he
      rw [hreply] at he
      cases he

theorem getId_of_has (h : m.Has "getId") : m.getId = .ok (m.get .uuid) :=
  method_bind_of_has h _

theorem getId_of_not_has (h : ¬m.Has "getId") : m.getId = .error "TypeError: getId is not a function" := by
  unfold MessageInstance.getId MessageInstance.method
  rw [if_neg h]
  rfl

/-- With the message that was found. -/
theorem reports_requeueMulti :
    Reports client env i (
      match requeueMulti opts uuid argument r source ns (env 0).now m with
      | .error e => .throw e
      | .ok cmds => .request (.execMulti cmds) fun _ reply => .call (reply.map fun _ => .void)) ↔
    Ok (requeueMulti opts uuid argument r source ns (env 0).now m) ∧
      ∀ cmds, requeueMulti opts uuid argument r source ns (env 0).now m = .ok cmds → (env i).Honest client cmds := by
  cases requeueMulti opts uuid argument r source ns (env 0).now m with
  | error e => exact iff_of_false not_reports_throw fun ⟨⟨_, h⟩, _⟩ => nomatch h
  | ok cmds =>
    refine reports_execMulti.trans ?_
    simp [Ok]

/-- A call that re-queues reports when what it finds is accepted, and only then. -/
theorem reports_requeueListMessage (processNs : String) :
    Reports client env 0 (requeueListMessage opts uuid argument processNs r source) ↔
      r.Accepted opts uuid argument client env source (r.ns.getD processNs) := by
  unfold requeueListMessage getListMessageAtSequenceId Requeue.Accepted
  rw [reports_read rfl]
  generalize (env 0).reply client (.lrange source r.index r.index) = reply
  cases reply with
  | error e => exact iff_of_true reports_call fun _ _ h => nomatch h
  | ok texts =>
    cases texts with
    | nil => exact iff_of_true reports_call fun _ _ h => nomatch h
    | cons text rest =>
      simp only [Except.ok.injEq, List.cons.injEq, and_imp, forall_eq', forall_apply_eq_imp_iff]
      cases hread : createFromText opts (uuid 0) (env 0).now text with
      | error e => exact iff_of_false not_reports_throw fun ⟨_, h, _⟩ => nomatch h
      | ok m =>
        simp only [Except.ok.injEq, exists_eq_left']
        by_cases hid : m.Has "getId"
        · rw [getId_of_has hid, and_iff_right hid, ← SequenceId.isString_iff]
          dsimp only
          split
          · rename_i hmatch
            rw [forall_prop_of_true hmatch, ← ok_requeueMulti (read_createFromText hread) hid.1]
            exact reports_requeueMulti
          · rename_i hmatch
            exact iff_of_true reports_call fun h => absurd h hmatch
        · rw [getId_of_not_has hid]
          exact iff_of_false not_reports_throw fun h => hid h.1

end

/-! ## Pages -/

section

variable {opts : NumberOptions} {uuid : ℕ → JsString} {client : Client} {env : ℕ → Moment} {key : String}
variable {skip take : Number} {i : ℕ}

/-- If the list is not empty, the parameters are not rejected, and the texts of the page are JSON. -/
def PageAccepted (client : Client) (env : ℕ → Moment) (key : String) (skip take : Number) : Prop :=
  ∀ total, (env 0).reply client (.llen key) = .ok total → total ≠ 0 →
    (skip.lt (.ofInt 0) || take.lt (.ofInt 1)) = false ∧
      ∀ texts, (env 1).reply client (.lrange key skip ((skip.add take).add (.ofInt (-1)))) = .ok texts →
        ∀ text ∈ texts, (parse text).isSome = true

theorem ok_mapM_id {α : Type} (l : List (Except String α)) : Ok (l.mapM id) ↔ ∀ x ∈ l, Ok x := by
  induction l with
  | nil => exact iff_of_true ok_pure fun _ hx => absurd hx List.not_mem_nil
  | cons x l ih =>
    rw [List.mapM_cons, id, List.forall_mem_cons]
    refine ok_bind_iff fun a _ => ?_
    rw [ok_bind_of_forall fun _ _ => ok_pure]
    exact ih

theorem ok_createFromText {uuid : JsString} {now : ℕ} {text : JsString} :
    Ok (createFromText opts uuid now text) ↔ (parse text).isSome = true := by
  unfold createFromText
  cases parse text with
  | none => exact iff_of_false (fun ⟨_, h⟩ => nomatch h) (by decide)
  | some v => exact iff_of_true ⟨_, rfl⟩ rfl

theorem ok_createMessages (opts : NumberOptions) (uuid : ℕ → JsString) (now : ℕ) (texts : List JsString) :
    Ok (createMessages opts uuid now texts) ↔ ∀ text ∈ texts, (parse text).isSome = true := by
  unfold createMessages
  rw [ok_mapM_id]
  constructor
  · intro h text ht
    obtain ⟨j, hj, rfl⟩ := List.mem_iff_getElem.mp ht
    exact ok_createFromText.mp (h _ (List.mem_mapIdx.mpr ⟨j, hj, rfl⟩))
  · intro h x hx
    obtain ⟨j, hj, rfl⟩ := List.mem_mapIdx.mp hx
    exact ok_createFromText.mpr (h _ (List.getElem_mem hj))

/-- A call that reads a page reports when the page is accepted, and only then. -/
theorem reports_getPaginatedListMessages :
    Reports client env 0 (getPaginatedListMessages opts uuid key skip take) ↔ PageAccepted client env key skip take := by
  unfold getPaginatedListMessages PageAccepted
  rw [reports_read rfl]
  generalize (env 0).reply client (.llen key) = reply
  cases reply with
  | error e => exact iff_of_true reports_call fun _ h => nomatch h
  | ok total =>
    simp only [Except.ok.injEq, forall_eq']
    split
    · rename_i hzero
      exact iff_of_true reports_call fun h => absurd hzero h
    · rename_i hne
      rw [forall_prop_of_true hne]
      unfold getListMessages validatePaginationParams
      cases hinvalid : skip.lt (.ofInt 0) || take.lt (.ofInt 1) with
      | true => exact iff_of_false not_reports_throw fun h => nomatch h.1
      | false =>
        rw [and_iff_right rfl]
        simp only [Bool.false_eq_true, if_false]
        rw [reports_read rfl]
        generalize (env (0 + 1)).reply client _ = reply
        cases reply with
        | error e => exact iff_of_true reports_call fun _ h => nomatch h
        | ok texts =>
          simp only [Except.ok.injEq, forall_eq']
          rw [← ok_createMessages opts uuid (env (0 + 1)).now]
          cases createMessages opts uuid (env (0 + 1)).now texts with
          | error e => exact iff_of_false not_reports_throw fun ⟨_, h⟩ => nomatch h
          | ok items => exact iff_of_true reports_call ⟨items, rfl⟩

end

/-! ## Texts of messages -/

section

open MessageObject

variable {opts : NumberOptions} {uuid : ℕ → JsString} {argument : JsValue → JsString} {client : Client}
variable {env : ℕ → Moment} {r : Requeue} {source ns : String}

/-- A message that is read from the text of a message has its properties, and inherits its methods. -/
theorem createFromText_toString {m : MessageObject} {text : JsString} (h : toString m.properties = .ok text)
    (opts : NumberOptions) (uuid : JsString) (now : ℕ) : createFromText opts uuid now text =
      .ok ⟨(m.restored (new opts.toDefaultOptions uuid now)).properties, true⟩ := by
  have hread := createFromMessage_toString h opts.toDefaultOptions uuid now
  have htext : parse text = some (fromJson (.object (written m.properties))) := by
    rw [(toString_eq_ok.mp h).2, parse_print]
  have hproto : ∀ p ∈ ownProperties (fromJson (.object (written m.properties))), p.1 ≠ ascii "__proto__" := by
    intro p hp
    rw [fromJson, membersFromJson_eq] at hp
    have hname := List.mem_map_of_mem (f := Prod.fst) (mem_ofMembers hp)
    rw [map_fst_mapValues] at hname
    have hfield := (written_sublist m.properties).subset hname
    rw [names_properties] at hfield
    obtain ⟨f, hf, hfp⟩ := List.mem_map.mp hfield
    rw [← hfp]
    exact name_ne_proto f hf
  have hfilter : ((ownProperties (fromJson (.object (written m.properties)))).filter fun p => p.1 ≠ ascii "__proto__") =
      ownProperties (fromJson (.object (written m.properties))) :=
    List.filter_eq_self.mpr fun p hp => decide_eq_true (hproto p hp)
  have hinherits : (ownProperties (fromJson (.object (written m.properties)))).any
      (fun p => p.1 = ascii "__proto__" && MessageInstance.isPrototype p.2) = false := by
    simp only [List.any_eq_false, Bool.and_eq_true, decide_eq_true_eq]
    exact fun p hp hpp => hproto p hp hpp.1
  rw [createFromMessage, htext, Option.map_some] at hread
  rw [createFromText, htext, ← Option.some.inj hread]
  simp only [MessageInstance.ofProperties, hfilter, hinherits]
  rfl

/-- No property of a message takes the place of a method. -/
theorem has_properties (m : MessageObject) {name : String} (hname : name ∈ methodNames) :
    MessageInstance.Has ⟨m.properties, true⟩ name := by
  refine ⟨rfl, Option.isNone_iff_eq_none.mpr (List.lookup_eq_none_iff.mpr fun p hp => bne_iff_ne.mpr ?_)⟩
  obtain ⟨f, hf, rfl⟩ := List.mem_map.mp hp
  exact (methodNames_ne name hname f hf).symm

theorem get_properties (m : MessageObject) (f : MessageField) : MessageInstance.get ⟨m.properties, true⟩ f = m f := by
  unfold MessageInstance.get
  rw [lookup_of_mem m.nodup_properties (m.mem_properties f)]
  rfl

theorem methodsCalled_subset (withPriority : Bool) (priority : Option Number) (stored : JsValue) :
    ∀ name ∈ methodsCalled withPriority priority stored, name ∈ methodNames := by
  unfold methodsCalled
  cases withPriority with
  | false =>
    simp only [Bool.false_eq_true, if_false]
    decide
  | true => cases priority.isSome || MessageInstance.isNullish stored <;> decide

theorem reply_lrange {moment : Moment} (h : moment.unavailable = none) {start stop : Number} {a b : ℤ}
    (hstart : start.index = some a) (hstop : stop.index = some b) :
    moment.reply client (.lrange source start stop) = .ok (Ranges.lrange (moment.store.lists source) a b) := by
  simp only [Moment.reply, Moment.read, h, hstart, hstop]
  rfl

theorem mem_of_lrange {moment : Moment} {start stop : Number} {texts : List JsString}
    (h : moment.reply client (.lrange source start stop) = .ok texts) :
    ∀ text ∈ texts, text ∈ moment.store.lists source := by
  simp only [Moment.reply, Moment.read] at h
  cases hu : moment.unavailable with
  | some e =>
    rw [hu] at h
    cases h
  | none =>
    simp only [hu, Option.map_none, Option.getD_none] at h
    split at h
    · cases h
      exact fun text ht => Ranges.mem_of_mem_lrange ht
    · cases h

/-- A list of texts of messages: only a priority that is none makes a call that re-queues throw. -/
theorem accepted_of_stored (hstored : ∀ text ∈ ((env 0).store.lists source), SequenceId.Stored text)
    (hpriority : r.withPriority = true → ∀ n, r.priority = some n → ∃ p : MessagePriority, n = .ofInt p.value)
    (hhonest : ∀ cmds, (env 1).Honest client cmds) : r.Accepted opts uuid argument client env source ns := by
  intro text rest hreply
  obtain ⟨m, hm⟩ := hstored text (mem_of_lrange hreply text List.mem_cons_self)
  refine ⟨_, createFromText_toString hm opts (uuid 0) (env 0).now, has_properties _ (by decide), fun _ => ⟨⟨?_, hpriority⟩,
    fun cmds _ => hhonest cmds⟩⟩
  exact fun name hname => has_properties _ (methodsCalled_subset _ _ _ name hname)

end

/-! ## All calls -/

section

variable (opts : NumberOptions) (uuid : ℕ → JsString) (argument : JsValue → JsString) (client : Client)
variable (env : ℕ → Moment) (processNs : String)

/-- When a call reports. -/
def Operation.Accepted : Operation → Prop
  | .requeueMessageFromDLQueue r => r.Accepted opts uuid argument client env
      (KeyText.getKeys processNs r.queueName r.ns (.inr .keyQueueDL)) (r.ns.getD processNs)
  | .requeueMessageFromAcknowledgedQueue r => r.Accepted opts uuid argument client env
      (KeyText.getKeys processNs r.queueName r.ns (.inr .keyQueueAcknowledgedMessages)) (r.ns.getD processNs)
  | .getAcknowledgedMessages p => PageAccepted client env
      (KeyText.getKeys processNs p.queueName p.ns (.inr .keyQueueAcknowledgedMessages)) p.skip p.take
  | .getDeadLetteredMessages p => PageAccepted client env
      (KeyText.getKeys processNs p.queueName p.ns (.inr .keyQueueDL)) p.skip p.take
  | .getPendingMessages p => PageAccepted client env
      (KeyText.getKeys processNs p.queueName p.ns (.inr .keyQueue)) p.skip p.take

/-- When management calls report. -/
theorem reports_iff (o : Operation) : Reports client env 0 (o.call opts uuid argument processNs) ↔
    o.Accepted opts uuid argument client env processNs := by
  cases o with
  | requeueMessageFromDLQueue r => exact reports_requeueListMessage processNs
  | requeueMessageFromAcknowledgedQueue r => exact reports_requeueListMessage processNs
  | getAcknowledgedMessages p => exact reports_getPaginatedListMessages
  | getDeadLetteredMessages p => exact reports_getPaginatedListMessages
  | getPendingMessages p => exact reports_getPaginatedListMessages

end

/-- Options, with all of them unset. -/
def NumberOptions.unset : NumberOptions :=
  let zero : JsNumber := ⟨.nought false, rfl⟩
  ⟨zero, zero, zero, zero⟩

/-- The lists of a queue have one message, and nothing fails. -/
def exampleMoment : Moment where
  store := ⟨fun _ => [print (.object (written MessageObject.helloMessage.properties))], fun _ _ => none, fun _ _ => none⟩
  now := 0
  unavailable := none
  execution := .executed
  failed := fun _ => none

/-- A priority that is none: the call that re-queues a message throws. A page before the first message: the call that reads it
throws. -/
theorem not_reports_invalid :
    ¬Reports .ioredis (fun _ => exampleMoment) 0 (Operation.call .unset (fun _ => ascii "2") (fun _ => []) "ns"
      (.requeueMessageFromDLQueue ⟨"q", none, .ofInt 0, "1", true, some (.ofInt 99)⟩)) ∧
    ¬Reports .ioredis (fun _ => exampleMoment) 0 (Operation.call .unset (fun _ => ascii "2") (fun _ => []) "ns"
      (.getPendingMessages ⟨"q", none, .ofInt (-1), .ofInt 10⟩)) := by
  constructor
  · intro h
    have hreply : exampleMoment.reply .ioredis (.lrange (KeyText.getKeys "ns" "q" none (.inr .keyQueueDL)) (.ofInt 0)
        (.ofInt 0)) = .ok [print (.object (written MessageObject.helloMessage.properties))] :=
      reply_lrange (a := 0) (b := 0) rfl rfl rfl
    simp only [Operation.call, requeueMessageFromDLQueue] at h
    rw [reports_requeueListMessage] at h
    obtain ⟨m, hm, -, hrequeue⟩ := h _ [] hreply
    rw [createFromText_toString MessageObject.allSurvive_helloMessage.toString_ok] at hm
    obtain rfl := Except.ok.inj hm
    obtain ⟨-, hpriority⟩ := (hrequeue (get_properties _ _)).1
    obtain ⟨p, hp⟩ := hpriority rfl _ rfl
    cases p <;> exact absurd hp (by decide)
  · intro h
    simp only [Operation.call, getPendingMessages] at h
    rw [reports_getPaginatedListMessages] at h
    have hvalid := (h 1 rfl (by decide)).1
    exact absurd hvalid (by decide)

end RedisSmq.Management
