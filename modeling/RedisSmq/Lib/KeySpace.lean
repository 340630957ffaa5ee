import Mathlib.Logic.Function.Basic
import RedisSmq.Lib.Objects
import RedisSmq.Lib.SortedSet

/-!
# Key spaces

A key space has at most one value under a key: a list, a sorted set or a hash. A command that finds a value of another type
than its own fails (`wrongType`), and a value that gets empty is removed together with its key.

- `Command` and `exec`, `execAll`;
- `views`: for each type, what a client that only uses this type sees under the keys, and `Views.exec`, which has no types;
- `exec_typed`: when every key is used with one type only, no command fails, and the views are changed as if each type
  had a store of its own.
-/

/-- The types of values. -/
inductive KeySpace.Kind
  | list | zset | hash
deriving DecidableEq

/-- A value of a key space, with elements and fields that are texts `τ`. -/
inductive KeySpace.Value (τ : Type)
  | list (l : List τ)
  | zset (z : SortedSet τ)
  | hash (h : Objects τ τ)

def KeySpace.Value.kind {τ : Type} : KeySpace.Value τ → KeySpace.Kind
  | .list _ => .list
  | .zset _ => .zset
  | .hash _ => .hash

/-- What is under each key. -/
structure KeySpace (κ τ : Type) where
  value : κ → Option (KeySpace.Value τ)

namespace KeySpace

/-- The commands that write; `lrem` removes one occurrence, and `lmove` takes from the left and puts on the right. -/
inductive Command (κ τ : Type)
  | rpush (key : κ) (element : τ)
  | lpush (key : κ) (element : τ)
  | lrem (key : κ) (element : τ)
  | rpoplpush (source destination : κ)
  | lmove (source destination : κ)
  | zadd (key : κ) (score : ℕ) (member : τ)
  | zrem (key : κ) (member : τ)
  | hset (key : κ) (field value : τ)
  | hdel (key : κ) (field : τ)
  | del (key : κ)

/-- The keys that a command uses, and with which type; `DEL` works with every type. -/
def Command.uses {κ τ : Type} : Command κ τ → List (κ × Kind)
  | .rpush key _ | .lpush key _ | .lrem key _ => [(key, .list)]
  | .rpoplpush source destination | .lmove source destination => [(source, .list), (destination, .list)]
  | .zadd key _ _ | .zrem key _ => [(key, .zset)]
  | .hset key _ _ | .hdel key _ => [(key, .hash)]
  | .del _ => []

def wrongType : String := "WRONGTYPE Operation against a key holding the wrong kind of value"

variable {κ τ : Type} [DecidableEq κ] [DecidableEq τ]

/-- The key space without keys. -/
def empty : KeySpace κ τ := ⟨fun _ => none⟩

def set (ks : KeySpace κ τ) (key : κ) (v : Option (Value τ)) : KeySpace κ τ := ⟨Function.update ks.value key v⟩

def getList (ks : KeySpace κ τ) (key : κ) : Except String (List τ) :=
  match ks.value key with
  | none => .ok []
  | some (.list l) => .ok l
  | some _ => .error wrongType

def getZset (ks : KeySpace κ τ) (key : κ) : Except String (SortedSet τ) :=
  match ks.value key with
  | none => .ok .empty
  | some (.zset z) => .ok z
  | some _ => .error wrongType

def getHash (ks : KeySpace κ τ) (key : κ) : Except String (Objects τ τ) :=
  match ks.value key with
  | none => .ok ∅
  | some (.hash h) => .ok h
  | some _ => .error wrongType

def putList (ks : KeySpace κ τ) (key : κ) (l : List τ) : KeySpace κ τ :=
  ks.set key (if l.isEmpty then none else some (.list l))

def putZset (ks : KeySpace κ τ) (key : κ) (z : SortedSet τ) : KeySpace κ τ :=
  ks.set key (if z.entries.isEmpty then none else some (.zset z))

def putHash (ks : KeySpace κ τ) (key : κ) (h : Objects τ τ) : KeySpace κ τ :=
  ks.set key (if h.entries.isEmpty then none else some (.hash h))

/-- The effect of a command; `lt` is the order that breaks ties in sorted sets. A move out of an empty list does not look at
its destination. -/
def exec (lt : τ → τ → Bool) (ks : KeySpace κ τ) : Command κ τ → Except String (KeySpace κ τ)
  | .rpush key x => (ks.getList key).map fun l => ks.putList key (l ++ [x])
  | .lpush key x => (ks.getList key).map fun l => ks.putList key (x :: l)
  | .lrem key x => (ks.getList key).map fun l => ks.putList key (l.erase x)
  | .rpoplpush source destination => do
    let l ← ks.getList source
    match l.getLast? with
    | none => return ks
    | some x =>
      let ks := ks.putList source l.dropLast
      let l ← ks.getList destination
      return ks.putList destination (x :: l)
  | .lmove source destination => do
    let l ← ks.getList source
    match l with
    | [] => return ks
    | x :: rest =>
      let ks := ks.putList source rest
      let l ← ks.getList destination
      return ks.putList destination (l ++ [x])
  | .zadd key score x => (ks.getZset key).map fun z => ks.putZset key (z.zadd lt score x)
  | .zrem key x => (ks.getZset key).map fun z => ks.putZset key (z.zrem x)
  | .hset key field value => (ks.getHash key).map fun h => ks.putHash key (h.insert field value)
  | .hdel key field => (ks.getHash key).map fun h => ks.putHash key (h.erase field)
  | .del key => .ok (ks.set key none)

/-- The effect of commands, one after the other, up to the first one that fails. -/
def execAll (lt : τ → τ → Bool) (ks : KeySpace κ τ) (cs : List (Command κ τ)) : Except String (KeySpace κ τ) :=
  cs.foldlM (exec lt) ks

/-! ## Views -/

/-- A store for each type. -/
@[ext] structure Views (κ τ : Type) where
  lists : κ → List τ
  zsets : κ → SortedSet τ
  hashes : κ → τ → Option τ

def listOf : Option (Value τ) → List τ
  | some (.list l) => l
  | _ => []

def zsetOf : Option (Value τ) → SortedSet τ
  | some (.zset z) => z
  | _ => .empty

def hashOf : Option (Value τ) → τ → Option τ
  | some (.hash h), field => h.lookup field
  | _, _ => none

/-- A value of another type counts as an empty one. -/
def views (ks : KeySpace κ τ) : Views κ τ where
  lists key := listOf (ks.value key)
  zsets key := zsetOf (ks.value key)
  hashes key := hashOf (ks.value key)

namespace Views

def setList (v : Views κ τ) (key : κ) (l : List τ) : Views κ τ := { v with lists := Function.update v.lists key l }

def setZset (v : Views κ τ) (key : κ) (z : SortedSet τ) : Views κ τ :=
  { v with zsets := Function.update v.zsets key z }

def setHash (v : Views κ τ) (key : κ) (field : τ) (value : Option τ) : Views κ τ :=
  { v with hashes := Function.update v.hashes key (Function.update (v.hashes key) field value) }

/-- The effect of a command when each type has a store of its own. -/
def exec (lt : τ → τ → Bool) (v : Views κ τ) : Command κ τ → Views κ τ
  | .rpush key x => v.setList key (v.lists key ++ [x])
  | .lpush key x => v.setList key (x :: v.lists key)
  | .lrem key x => v.setList key ((v.lists key).erase x)
  | .rpoplpush source destination =>
    match (v.lists source).getLast? with
    | none => v
    | some x =>
      let v := v.setList source (v.lists source).dropLast
      v.setList destination (x :: v.lists destination)
  | .lmove source destination =>
    match v.lists source with
    | [] => v
    | x :: rest =>
      let v := v.setList source rest
      v.setList destination (v.lists destination ++ [x])
  | .zadd key score x => v.setZset key ((v.zsets key).zadd lt score x)
  | .zrem key x => v.setZset key ((v.zsets key).zrem x)
  | .hset key field value => v.setHash key field (some value)
  | .hdel key field => v.setHash key field none
  | .del key =>
    { lists := Function.update v.lists key []
      zsets := Function.update v.zsets key .empty
      hashes := Function.update v.hashes key (fun _ => none) }

end Views

/-! ## One type for each key -/

/-- Under each key there is nothing, or a value of the type of the key. -/
def Typed (kind : κ → Kind) (ks : KeySpace κ τ) : Prop := ∀ key v, ks.value key = some v → v.kind = kind key

/-- The command uses each key with its type. -/
def Command.Fits (kind : κ → Kind) (c : Command κ τ) : Prop := ∀ p ∈ c.uses, kind p.1 = p.2

variable {kind : κ → Kind} {ks ks' : KeySpace κ τ} {key : κ} {lt : τ → τ → Bool}

omit [DecidableEq κ] [DecidableEq τ] in
theorem typed_empty (kind : κ → Kind) : Typed kind (empty : KeySpace κ τ) := fun _ _ h => by cases h

omit [DecidableEq τ] in
/-- A key gets nothing, or a value of its type. -/
theorem Typed.set (h : Typed kind ks) {v : Option (Value τ)} (hv : ∀ w, v = some w → w.kind = kind key) :
    Typed kind (ks.set key v) := by
  intro key' w hw
  change Function.update ks.value key v key' = some w at hw
  by_cases hk : key' = key
  · rw [hk, Function.update_self] at hw
    rw [hk]
    exact hv w hw
  · rw [Function.update_of_ne hk] at hw
    exact h key' w hw

/-- What is under a key of one type is seen by the clients of this type only. -/
theorem views_set (ks : KeySpace κ τ) (key : κ) (v : Option (Value τ)) :
    (ks.set key v).views.lists = Function.update ks.views.lists key (listOf v) ∧
      (ks.set key v).views.zsets = Function.update ks.views.zsets key (zsetOf v) ∧
      (ks.set key v).views.hashes = Function.update ks.views.hashes key (hashOf v) := by
  refine ⟨funext fun key' => ?_, funext fun key' => ?_, funext fun key' => ?_⟩
  all_goals
    by_cases hk : key' = key
    · subst hk
      simp [views, set]
    · simp [views, set, hk]

/-! ## Reading and writing a value of the right type -/

omit [DecidableEq κ] in
theorem getList_typed (h : Typed kind ks) (hk : kind key = .list) : ks.getList key = .ok (ks.views.lists key) := by
  simp only [getList, views]
  cases hv : ks.value key with
  | none => rfl
  | some v =>
    have hkind := (h key v hv).trans hk
    cases v with
    | list l => rfl
    | zset | hash => cases hkind

omit [DecidableEq κ] in
theorem getZset_typed (h : Typed kind ks) (hk : kind key = .zset) : ks.getZset key = .ok (ks.views.zsets key) := by
  simp only [getZset, views]
  cases hv : ks.value key with
  | none => rfl
  | some v =>
    have hkind := (h key v hv).trans hk
    cases v with
    | zset z => rfl
    | list | hash => cases hkind

omit [DecidableEq κ] in
theorem getHash_typed (h : Typed kind ks) (hk : kind key = .hash) :
    ∃ o, ks.getHash key = .ok o ∧ o.lookup = ks.views.hashes key := by
  simp only [getHash, views]
  cases hv : ks.value key with
  | none => exact ⟨_, rfl, funext fun field => AList.lookup_empty field⟩
  | some v =>
    have hkind := (h key v hv).trans hk
    cases v with
    | hash o => exact ⟨o, rfl, rfl⟩
    | list | zset => cases hkind

theorem putList_typed (h : Typed kind ks) (hk : kind key = .list) (l : List τ) :
    Typed kind (ks.putList key l) ∧ (ks.putList key l).views = ks.views.setList key l := by
  have hz : ks.views.zsets key = .empty ∧ ks.views.hashes key = fun _ => none := by
    simp only [views]
    cases hv : ks.value key with
    | none => exact ⟨rfl, rfl⟩
    | some v =>
      have hkind := (h key v hv).trans hk
      cases v with
      | list l => exact ⟨rfl, rfl⟩
      | zset | hash => cases hkind
  unfold putList
  obtain ⟨h1, h2, h3⟩ := views_set ks key (if l.isEmpty then none else some (.list l))
  refine ⟨h.set fun w hw => ?_, Views.ext ?_ ?_ ?_⟩
  · split at hw <;> cases hw
    exact hk.symm
  · rw [h1]
    apply congrArg (Function.update _ _)
    cases l <;> rfl
  · rw [h2]
    apply Function.update_eq_self_iff.mpr
    rw [hz.1]
    split <;> rfl
  · rw [h3]
    apply Function.update_eq_self_iff.mpr
    rw [hz.2]
    split <;> rfl

theorem putZset_typed (h : Typed kind ks) (hk : kind key = .zset) (z : SortedSet τ) :
    Typed kind (ks.putZset key z) ∧ (ks.putZset key z).views = ks.views.setZset key z := by
  have hz : ks.views.lists key = [] ∧ ks.views.hashes key = fun _ => none := by
    simp only [views]
    cases hv : ks.value key with
    | none => exact ⟨rfl, rfl⟩
    | some v =>
      have hkind := (h key v hv).trans hk
      cases v with
      | zset z => exact ⟨rfl, rfl⟩
      | list | hash => cases hkind
  unfold putZset
  obtain ⟨h1, h2, h3⟩ := views_set ks key (if z.entries.isEmpty then none else some (.zset z))
  refine ⟨h.set fun w hw => ?_, Views.ext ?_ ?_ ?_⟩
  · split at hw <;> cases hw
    exact hk.symm
  · rw [h1]
    apply Function.update_eq_self_iff.mpr
    rw [hz.1]
    split <;> rfl
  · rw [h2]
    apply congrArg (Function.update _ _)
    obtain ⟨entries, _, _⟩ := z
    cases entries <;> rfl
  · rw [h3]
    apply Function.update_eq_self_iff.mpr
    rw [hz.2]
    split <;> rfl

theorem putHash_typed (h : Typed kind ks) (hk : kind key = .hash) (o : Objects τ τ) :
    Typed kind (ks.putHash key o) ∧
      (ks.putHash key o).views = { ks.views with hashes := Function.update ks.views.hashes key o.lookup } := by
  have hz : ks.views.lists key = [] ∧ ks.views.zsets key = .empty := by
    simp only [views]
    cases hv : ks.value key with
    | none => exact ⟨rfl, rfl⟩
    | some v =>
      have hkind := (h key v hv).trans hk
      cases v with
      | hash o => exact ⟨rfl, rfl⟩
      | list | zset => cases hkind
  unfold putHash
  obtain ⟨h1, h2, h3⟩ := views_set ks key (if o.entries.isEmpty then none else some (.hash o))
  refine ⟨h.set fun w hw => ?_, Views.ext ?_ ?_ ?_⟩
  · split at hw <;> cases hw
    exact hk.symm
  · rw [h1]
    apply Function.update_eq_self_iff.mpr
    rw [hz.1]
    split <;> rfl
  · rw [h2]
    apply Function.update_eq_self_iff.mpr
    rw [hz.2]
    split <;> rfl
  · rw [h3]
    apply congrArg (Function.update _ _)
    obtain ⟨entries, _⟩ := o
    cases entries <;> rfl

/-! ## Commands that use the right types -/

/-- A hash with a field set is a hash whose lookups are updated. -/
theorem lookup_insert_update (o : Objects τ τ) (field value : τ) :
    (o.insert field value).lookup = Function.update o.lookup field (some value) := by
  funext field'
  rw [Objects.lookup_insert_ite, Function.update_apply]

theorem lookup_erase_update (o : Objects τ τ) (field : τ) :
    (o.erase field).lookup = Function.update o.lookup field none := by
  funext field'
  rw [Objects.lookup_erase_ite, Function.update_apply]

/-- **A command that uses each key with its type** does not fail; it does to the views what it does to separate stores. -/
theorem exec_typed (h : Typed kind ks) {c : Command κ τ} (hc : c.Fits kind) :
    ∃ ks', ks.exec lt c = .ok ks' ∧ Typed kind ks' ∧ ks'.views = ks.views.exec lt c := by
  cases c with
  | rpush key x =>
    have hk : kind key = .list := hc (key, .list) List.mem_cons_self
    refine ⟨_, by rw [exec, getList_typed h hk]; rfl, putList_typed h hk _⟩
  | lpush key x =>
    have hk : kind key = .list := hc (key, .list) List.mem_cons_self
    refine ⟨_, by rw [exec, getList_typed h hk]; rfl, putList_typed h hk _⟩
  | lrem key x =>
    have hk : kind key = .list := hc (key, .list) List.mem_cons_self
    refine ⟨_, by rw [exec, getList_typed h hk]; rfl, putList_typed h hk _⟩
  | rpoplpush source destination =>
    have hs : kind source = .list := hc (source, .list) List.mem_cons_self
    have hd : kind destination = .list := hc (destination, .list) (List.mem_cons_of_mem _ List.mem_cons_self)
    simp only [exec, getList_typed h hs, Views.exec]
    cases hx : (ks.views.lists source).getLast? with
    | none => exact ⟨ks, by simp [bind, Except.bind, hx]; rfl, h, rfl⟩
    | some x =>
      obtain ⟨ht, hv⟩ := putList_typed h hs (ks.views.lists source).dropLast
      obtain ⟨ht', hv'⟩ := putList_typed ht hd
        (x :: (ks.putList source (ks.views.lists source).dropLast).views.lists destination)
      refine ⟨_, ?_, ht', ?_⟩
      · simp only [bind, Except.bind, hx, getList_typed ht hd]
        rfl
      · rw [hv', hv]
  | lmove source destination =>
    have hs : kind source = .list := hc (source, .list) List.mem_cons_self
    have hd : kind destination = .list := hc (destination, .list) (List.mem_cons_of_mem _ List.mem_cons_self)
    simp only [exec, getList_typed h hs, Views.exec]
    cases hx : ks.views.lists source with
    | nil => exact ⟨ks, by simp [bind, Except.bind]; rfl, h, rfl⟩
    | cons x rest =>
      obtain ⟨ht, hv⟩ := putList_typed h hs rest
      obtain ⟨ht', hv'⟩ := putList_typed ht hd ((ks.putList source rest).views.lists destination ++ [x])
      refine ⟨_, ?_, ht', ?_⟩
      · simp only [bind, Except.bind, getList_typed ht hd]
        rfl
      · rw [hv', hv]
  | zadd key score x =>
    have hk : kind key = .zset := hc (key, .zset) List.mem_cons_self
    refine ⟨_, by rw [exec, getZset_typed h hk]; rfl, putZset_typed h hk _⟩
  | zrem key x =>
    have hk : kind key = .zset := hc (key, .zset) List.mem_cons_self
    refine ⟨_, by rw [exec, getZset_typed h hk]; rfl, putZset_typed h hk _⟩
  | hset key field value =>
    have hk : kind key = .hash := hc (key, .hash) List.mem_cons_self
    obtain ⟨o, ho, hlookup⟩ := getHash_typed h hk
    obtain ⟨ht, hv⟩ := putHash_typed h hk (o.insert field value)
    refine ⟨_, by rw [exec, ho]; rfl, ht, ?_⟩
    rw [hv, lookup_insert_update, hlookup]
    rfl
  | hdel key field =>
    have hk : kind key = .hash := hc (key, .hash) List.mem_cons_self
    obtain ⟨o, ho, hlookup⟩ := getHash_typed h hk
    obtain ⟨ht, hv⟩ := putHash_typed h hk (o.erase field)
    refine ⟨_, by rw [exec, ho]; rfl, ht, ?_⟩
    rw [hv, lookup_erase_update, hlookup]
    rfl
  | del key =>
    obtain ⟨h1, h2, h3⟩ := views_set ks key none
    exact ⟨_, rfl, h.set fun w hw => (by cases hw), Views.ext h1 h2 h3⟩

end KeySpace
