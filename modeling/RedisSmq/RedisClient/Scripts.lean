import RedisSmq.Effects

/-!
# The Lua scripts

A script runs without other requests in between, but it is no transaction: when a call fails, what the calls before it
wrote stays. `zpophgetrpush` takes the member and the payload away before it appends the payload, so a member without a
payload is lost with an error. It is all or nothing exactly when the first member has its payload (`allOrNothing_iff`).

Each script has the effect of the operation of `Db` with its name (`run_lpoprpush`, `run_zpushhset`,
`run_zpophgetrpush`).
-/

namespace RedisSmq

/-- A script: the database, and the error of the first call that failed. -/
abbrev Script (α : Type) := ExceptT String (StateM Db) α

/-- The values of a script: `nil`, booleans, numbers and texts. -/
inductive LuaValue
  | nil
  | boolean (b : Bool)
  | integer (n : ℕ)
  | text (t : Text)
  | message (m : Message)
deriving DecidableEq

/-- All values but `nil` and `false` are true, `0` as well. -/
def LuaValue.truthy : LuaValue → Bool
  | .nil => false
  | .boolean b => b
  | _ => true

namespace Script

open Db (Reply)

/-- The error of a call with an argument that is no text and no number. -/
def argumentError : String := "Lua redis() command arguments must be strings or integers"

/-! ## `redis.call` -/

/-- `EXISTS` of a sorted set. -/
def existsZset (key : RedisKey) : Script ℕ := do
  let db ← get
  return if (db.zsets key).members = [] then 0 else 1

/-- `EXISTS` of a list. -/
def existsList (key : RedisKey) : Script ℕ := do
  let db ← get
  return if db.lists key = [] then 0 else 1

def zrange (key : RedisKey) (start stop : ℤ) : Script (List Text) := do
  let db ← get
  return (db.zsets key).zrange start stop

/-- `LRANGE` of the first element. -/
def lrangeFirst (key : RedisKey) : Script (List Message) := do
  let db ← get
  return (db.lists key).take 1

/-- `HGET`: `false` for a missing field. -/
def hget (key : RedisKey) (field : Text) : Script LuaValue := do
  let db ← get
  return (db.hashes key field).elim (.boolean false) .message

def zrem (key : RedisKey) (member : Text) : Script Unit := modify fun db => db.setZset key ((db.zsets key).zrem member)

def zadd (lt : Text → Text → Bool) (key : RedisKey) (score : ℕ) (member : Text) : Script Unit :=
  modify fun db => db.setZset key ((db.zsets key).zadd lt score member)

def hdel (key : RedisKey) (field : Text) : Script Unit := modify fun db => db.setHash key field none

def hset (key : RedisKey) (field : Text) (value : Message) : Script Unit :=
  modify fun db => db.setHash key field (some value)

/-- `LREM` of one occurrence. -/
def lrem (key : RedisKey) (element : Message) : Script Unit :=
  modify fun db => db.setList key ((db.lists key).erase element)

def rpush (key : RedisKey) : LuaValue → Script Unit
  | .message m => modify fun db => db.setList key (db.lists key ++ [m])
  | _ => throw argumentError

/-! ## The scripts -/

def lpoprpush (source destination : RedisKey) : Script LuaValue := do
  if (← existsList source) = 1 then
    let result ← lrangeFirst source
    if (LuaValue.integer result.length).truthy then
      match result with
      | [] => throw argumentError
      | message :: _ =>
        lrem source message
        rpush destination (.message message)
        return .message message
  return .nil

def zpushhset (lt : Text → Text → Bool) (sortedSet hash : RedisKey) (score : ℕ) (keyId : Text) (keyValue : Message) :
    Script LuaValue := do
  zadd lt sortedSet score keyId
  hset hash keyId keyValue
  return .integer 1

def zpophgetrpush (sortedSet hash list : RedisKey) : Script LuaValue := do
  if (← existsZset sortedSet) = 1 then
    let result ← zrange sortedSet 0 0
    if (LuaValue.integer result.length).truthy then
      match result with
      | [] => throw argumentError
      | messageId :: _ =>
        let message ← hget hash messageId
        zrem sortedSet messageId
        hdel hash messageId
        rpush list message
        return message
  return .nil

/-! ## Runs -/

/-- A script goes on after a call that answers, whatever it works on. -/
theorem bind_ok {σ α β : Type} {x : ExceptT String (StateM σ) α} {f : α → ExceptT String (StateM σ) β} {s s' : σ}
    {a : α} (h : x.run.run s = (.ok a, s')) : (x >>= f).run.run s = (f a).run.run s' := by
  rw [ExceptT.run_bind, StateT.run_bind, h]
  rfl

variable {lt : Text → Text → Bool} {db : Db} {zk hk lk source destination : RedisKey} {t : Text} {m : Message}

/-- A key without members does not exist. -/
theorem run_existsZset_nil (h : (db.zsets zk).members = []) : (existsZset zk).run.run db = (.ok 0, db) := by
  have h1 : (existsZset zk).run.run db = (.ok (if (db.zsets zk).members = [] then 0 else 1), db) := rfl
  rw [h1, if_pos h]

theorem run_existsZset_cons {l : List Text} (h : (db.zsets zk).members = t :: l) :
    (existsZset zk).run.run db = (.ok 1, db) := by
  have h1 : (existsZset zk).run.run db = (.ok (if (db.zsets zk).members = [] then 0 else 1), db) := rfl
  rw [h1, if_neg (by rw [h]; exact List.cons_ne_nil _ _)]

theorem run_existsList_nil (h : db.lists lk = []) : (existsList lk).run.run db = (.ok 0, db) := by
  have h1 : (existsList lk).run.run db = (.ok (if db.lists lk = [] then 0 else 1), db) := rfl
  rw [h1, if_pos h]

theorem run_existsList_cons {l : List Message} (h : db.lists lk = m :: l) :
    (existsList lk).run.run db = (.ok 1, db) := by
  have h1 : (existsList lk).run.run db = (.ok (if db.lists lk = [] then 0 else 1), db) := rfl
  rw [h1, if_neg (by rw [h]; exact List.cons_ne_nil _ _)]

/-- `ZRANGE key 0 0` is the member of rank `0`. -/
theorem run_zrange_cons {l : List Text} (h : (db.zsets zk).members = t :: l) :
    (zrange zk 0 0).run.run db = (.ok [t], db) := by
  have h1 : (zrange zk 0 0).run.run db = (.ok ((db.zsets zk).zrange 0 0), db) := rfl
  have h2 : (db.zsets zk).zrange 0 0 = [t] := by simp [SortedSet.zrange, h]
  rw [h1, h2]

theorem run_lrangeFirst_cons {l : List Message} (h : db.lists lk = m :: l) :
    (lrangeFirst lk).run.run db = (.ok [m], db) := by
  have h1 : (lrangeFirst lk).run.run db = (.ok ((db.lists lk).take 1), db) := rfl
  rw [h1, h]
  rfl

/-- `lpoprpush` has the effect of `Db.lpoprpush`, and returns the message. -/
theorem run_lpoprpush (source destination : RedisKey) (db : Db) : (lpoprpush source destination).run.run db =
    (.ok ((db.lists source).head?.elim .nil .message), db.lpoprpush source destination) := by
  cases h : db.lists source with
  | nil =>
    rw [lpoprpush, bind_ok (run_existsList_nil h)]
    simp only [Db.lpoprpush, h]
    rfl
  | cons m l =>
    have hrem : (lrem source m).run.run db = (.ok (), db.setList source l) := by
      have h1 : (lrem source m).run.run db = (.ok (), db.setList source ((db.lists source).erase m)) := rfl
      rw [h1, h, List.erase_cons_head]
    rw [lpoprpush, bind_ok (run_existsList_cons h), if_pos rfl, bind_ok (run_lrangeFirst_cons h)]
    simp only [LuaValue.truthy, if_true]
    rw [bind_ok hrem]
    simp only [Db.lpoprpush, h]
    rfl

/-- `zpushhset` has the effect of its two commands. -/
theorem run_zpushhset (score : ℕ) (t : Text) (m : Message) (db : Db) : (zpushhset lt zk hk score t m).run.run db =
    (.ok (.integer 1), db.execAll lt [.zadd zk score t, .hset hk t m]) := rfl

/-- What `zpophgetrpush` returns. -/
def replyOf : Except String LuaValue → Reply
  | .ok (.message m) => .message m
  | .ok _ => .nil
  | .error _ => .error

/-- A sorted set without members: `zpophgetrpush` returns `nil` and writes nothing. -/
theorem run_zpophgetrpush_nil (h : (db.zsets zk).first = none) :
    (zpophgetrpush zk hk lk).run.run db = (.ok .nil, db) := by
  rw [SortedSet.first, List.head?_eq_none_iff] at h
  rw [zpophgetrpush, bind_ok (run_existsZset_nil h)]
  rfl

/-- What `zpophgetrpush` has written before it appends to the list. -/
def zpophdel (zk hk : RedisKey) (t : Text) (db : Db) : Db :=
  (db.setZset zk ((db.zsets zk).zrem t)).setHash hk t none

/-- A first member with a payload: `zpophgetrpush` moves the payload to the list and returns it. -/
theorem run_zpophgetrpush_some (h : (db.zsets zk).first = some t) (hm : db.hashes hk t = some m) :
    (zpophgetrpush zk hk lk).run.run db =
      (.ok (.message m), (zpophdel zk hk t db).setList lk (db.lists lk ++ [m])) := by
  obtain ⟨l, hl⟩ := List.head?_eq_some_iff.mp h
  have hget : (hget hk t).run.run db = (.ok (.message m), db) := by
    have h1 : (hget hk t).run.run db = (.ok ((db.hashes hk t).elim (.boolean false) .message), db) := rfl
    rw [h1, hm]
    rfl
  rw [zpophgetrpush, bind_ok (run_existsZset_cons hl), if_pos rfl, bind_ok (run_zrange_cons hl)]
  simp only [LuaValue.truthy, if_true]
  rw [bind_ok hget]
  rfl

/-- A first member without a payload: `zpophgetrpush` removes the member before it ends with an error. -/
theorem run_zpophgetrpush_none (h : (db.zsets zk).first = some t) (hm : db.hashes hk t = none) :
    (zpophgetrpush zk hk lk).run.run db = (.error argumentError, zpophdel zk hk t db) := by
  obtain ⟨l, hl⟩ := List.head?_eq_some_iff.mp h
  have hget : (hget hk t).run.run db = (.ok (.boolean false), db) := by
    have h1 : (hget hk t).run.run db = (.ok ((db.hashes hk t).elim (.boolean false) .message), db) := rfl
    rw [h1, hm]
    rfl
  rw [zpophgetrpush, bind_ok (run_existsZset_cons hl), if_pos rfl, bind_ok (run_zrange_cons hl)]
  simp only [LuaValue.truthy, if_true]
  rw [bind_ok hget]
  rfl

/-- `zpophgetrpush` has the effect and the reply of `Db.zpophgetrpush`. -/
theorem run_zpophgetrpush (zk hk lk : RedisKey) (db : Db) : (db.zpophgetrpush zk hk lk).1 =
    ((zpophgetrpush zk hk lk).run.run db).2 ∧
      (db.zpophgetrpush zk hk lk).2 = replyOf ((zpophgetrpush zk hk lk).run.run db).1 := by
  cases h : (db.zsets zk).first with
  | none =>
    rw [run_zpophgetrpush_nil h, Db.zpophgetrpush, h]
    exact ⟨rfl, rfl⟩
  | some t =>
    cases hm : db.hashes hk t with
    | none =>
      rw [run_zpophgetrpush_none h hm, Db.zpophgetrpush, h]
      simp only [hm]
      exact ⟨rfl, rfl⟩
    | some m =>
      rw [run_zpophgetrpush_some h hm, Db.zpophgetrpush, h]
      simp only [hm]
      exact ⟨rfl, rfl⟩

/-! ## All or nothing -/

/-- The first member is gone with its payload, and the payload is returned and at the end of the list. -/
def PopsFirst (zk hk lk : RedisKey) (db : Db) (result : Except String LuaValue) (db' : Db) : Prop :=
  ∃ t m, (db.zsets zk).first = some t ∧ db.hashes hk t = some m ∧ result = .ok (.message m) ∧
    db'.zsets zk = (db.zsets zk).zrem t ∧ db'.hashes hk = Function.update (db.hashes hk) t none ∧
    db'.lists lk = db.lists lk ++ [m]

/-- The script ends with `nil` or an error, and the three keys are as they were. -/
def LeavesKeys (zk hk lk : RedisKey) (db : Db) (result : Except String LuaValue) (db' : Db) : Prop :=
  (result = .ok .nil ∨ ∃ e, result = .error e) ∧
    db'.zsets zk = db.zsets zk ∧ db'.hashes hk = db.hashes hk ∧ db'.lists lk = db.lists lk

/-- `zpophgetrpush` does all of its work on the three keys, or nothing. -/
def AllOrNothing (zk hk lk : RedisKey) (db : Db) : Prop :=
  PopsFirst zk hk lk db ((zpophgetrpush zk hk lk).run.run db).1 ((zpophgetrpush zk hk lk).run.run db).2 ∨
    LeavesKeys zk hk lk db ((zpophgetrpush zk hk lk).run.run db).1 ((zpophgetrpush zk hk lk).run.run db).2

/-- The first member has its payload. -/
def FirstStored (zk hk : RedisKey) (db : Db) : Prop :=
  ∀ t, (db.zsets zk).first = some t → (db.hashes hk t).isSome

/-- With a payload, everything is done. -/
theorem popsFirst_of_stored (h : (db.zsets zk).first = some t) (hm : db.hashes hk t = some m) :
    AllOrNothing zk hk lk db := by
  refine .inl ⟨t, m, h, hm, ?_⟩
  rw [run_zpophgetrpush_some h hm]
  simp [zpophdel]

/-- Without a payload, the member is gone, and so neither half holds. -/
theorem not_allOrNothing_of_missing (h : (db.zsets zk).first = some t) (hm : db.hashes hk t = none) :
    ¬ AllOrNothing zk hk lk db := by
  unfold AllOrNothing
  rw [run_zpophgetrpush_none h hm]
  rintro (⟨t', m, -, -, hr, -⟩ | ⟨-, hz, -⟩)
  · cases hr
  · have hmem : t ∈ (db.zsets zk).members := List.mem_of_head? h
    have hz' : (db.zsets zk).zrem t = db.zsets zk := by simpa [zpophdel] using hz
    rw [← hz', SortedSet.mem_zrem] at hmem
    exact hmem.1 rfl

/-- `zpophgetrpush` is all or nothing exactly when the first member, if there is one, has its payload. -/
theorem allOrNothing_iff (zk hk lk : RedisKey) (db : Db) : AllOrNothing zk hk lk db ↔ FirstStored zk hk db := by
  constructor
  · intro hall t h
    rw [Option.isSome_iff_ne_none]
    intro hm
    exact not_allOrNothing_of_missing h hm hall
  · intro hstored
    cases h : (db.zsets zk).first with
    | none =>
      refine .inr ?_
      rw [run_zpophgetrpush_nil h]
      exact ⟨.inl rfl, rfl, rfl, rfl⟩
    | some t =>
      obtain ⟨m, hm⟩ := Option.isSome_iff_exists.mp (hstored t h)
      exact popsFirst_of_stored h hm

/-- The sorted set of the queue `q` has the member `m`, and there is no payload. -/
def loneMember : Db :=
  Db.empty.setZset (RedisKeys.getKeys "ns" "q" none).keyQueuePriority (SortedSet.empty.zadd (fun _ _ => false) 4 (.id "m"))

/-- The member is removed, and the script fails. -/
theorem not_allOrNothing_loneMember : ¬AllOrNothing (RedisKeys.getKeys "ns" "q" none).keyQueuePriority
    (RedisKeys.getKeys "ns" "q" none).keyPendingMessagesWithPriority
    (RedisKeys.getInstanceKeys "ns" "q" "c").keyQueueProcessing loneMember :=
  not_allOrNothing_of_missing (t := .id "m") (by decide) rfl

end Script

end RedisSmq
