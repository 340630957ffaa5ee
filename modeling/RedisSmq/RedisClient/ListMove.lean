import RedisSmq.Lib.ListKeys
import RedisSmq.RedisClient.Scripts

/-!
# Moving the first element of a list

`RedisClient.lpoprpush` is `LMOVE source destination LEFT RIGHT` on a server that has this command, and the script of the
same name on an older one. The script reads the first element and removes its first occurrence, which is the same element;
so both leave the same lists and have the same reply, also when the source is the destination, has one element, or does
not exist (`lpoprpush_agree`).

`Script.lpoprpush`, the script on the database of messages, is this script on its lists (`lists_run_lpoprpush`).
-/

namespace RedisSmq

open ListKeys

/-! ## Servers -/

/-- The version that the server reports. -/
structure Version where
  major : ℕ
  feature : ℕ
  minor : ℕ
deriving DecidableEq

/-- The versions from `6.2` on, which have `LMOVE`. -/
def Version.HasLmove (v : Version) : Prop := 6 < v.major ∨ (v.major = 6 ∧ 2 ≤ v.feature)

instance (v : Version) : Decidable v.HasLmove := inferInstanceAs (Decidable (_ ∨ _))

namespace ListMove

variable {κ α : Type} [DecidableEq κ] [DecidableEq α]

/-! ## The script -/

/-- A script on lists: the keyspace, and the error of the first call that failed. -/
abbrev Script (κ α β : Type) := ExceptT String (StateM (Keyspace κ α)) β

/-- `redis.call` of a command that reads. -/
def reads {β : Type} (f : Keyspace κ α → β) : Script κ α β := return f (← get)

/-- `redis.call` of a command that writes; `nil` is no argument. -/
def writes (f : α → Keyspace κ α → Keyspace κ α) : Option α → Script κ α Unit
  | none => throw RedisSmq.Script.argumentError
  | some element => modify (f element)

/-- `lpoprpush.lua`; the length of the result is a number, and every number is true. -/
def lpoprpush (source destination : κ) : Script κ α (Option α) := do
  if (← reads fun db => db.existsKey source) = 1 then
    let result ← reads fun db => db.lrange source 0 0
    if (LuaValue.integer result.length).truthy then
      let message := result[0]?
      writes (fun message db => db.lrem source message) message
      writes (fun message db => db.push destination message .right) message
      return message
  return none

/-! ## The client -/

/-- What the callback is called with, and the keyspace after the call. -/
abbrev Reply (κ α : Type) := Except String (Option α) × Keyspace κ α

/-- `validateRedisVersion`; the version is unknown until a client has asked for it. -/
def validateRedisVersion (redisServerVersion : Option Version) (major feature minor : ℕ) : Except String Bool :=
  match redisServerVersion with
  | none => .error "Unknown Redis server version."
  | some v => .ok (v.major > major || (v.major = major && v.feature ≥ feature && v.minor ≥ minor))

def lmove (redisServerVersion : Option Version) (source destination : κ) (whereFrom whereTo : Side)
    (db : Keyspace κ α) : Except String (Reply κ α) := do
  if !(← validateRedisVersion redisServerVersion 6 2 0) then
    return (.error
      "Command not supported by your Redis server. Minimal required Redis server version is 6.2.0.", db)
  else
    let (reply, db) := db.lmove source destination whereFrom whereTo
    return (.ok reply, db)

/-- `RedisClient.lpoprpush`. -/
def clientLpoprpush (redisServerVersion : Option Version) (source destination : κ) (db : Keyspace κ α) :
    Except String (Reply κ α) := do
  if ← validateRedisVersion redisServerVersion 6 2 0 then
    lmove redisServerVersion source destination .left .right db
  else return (lpoprpush source destination).run.run db

/-! ## Agreement -/

variable {source destination : κ} {db : Keyspace κ α} {v : Version}

theorem validateRedisVersion_eq (v : Version) : validateRedisVersion (some v) 6 2 0 = .ok (decide v.HasLmove) := by
  rw [validateRedisVersion, Except.ok.injEq, Bool.eq_iff_iff, decide_eq_true_iff]
  simp [Version.HasLmove]

/-- The first occurrence of the first element is the first element. -/
theorem lrem_head {m : α} {l : List α} (h : db.get source = m :: l) : db.lrem source m = db.put source l := by
  rw [Keyspace.lrem, h, List.erase_cons_head]

omit [DecidableEq κ] [DecidableEq α] in
theorem lrange_head {m : α} {l : List α} (h : db.get source = m :: l) : db.lrange source 0 0 = [m] := by
  rw [Keyspace.lrange, h]
  exact Ranges.lrange_self (m :: l) 0

/-- The script is `LMOVE` from the left to the right: it has its reply, and leaves its keyspace. -/
theorem run_lpoprpush (source destination : κ) (db : Keyspace κ α) : (lpoprpush source destination).run.run db =
    (.ok (db.lmove source destination .left .right).1, (db.lmove source destination .left .right).2) := by
  cases h : db.get source with
  | nil =>
    -- the source does not exist
    have hexists : (reads fun db : Keyspace κ α => db.existsKey source).run.run db = (.ok 0, db) := by
      rw [← Keyspace.existsKey_eq_zero.mpr h]
      rfl
    rw [lpoprpush, Script.bind_ok hexists, Keyspace.lmove, h]
    rfl
  | cons m l =>
    have hexists : (reads fun db : Keyspace κ α => db.existsKey source).run.run db = (.ok 1, db) := by
      rw [← Keyspace.existsKey_eq_one.mpr (by rw [h]; exact List.cons_ne_nil _ _)]
      rfl
    have hrange : (reads fun db : Keyspace κ α => db.lrange source 0 0).run.run db = (.ok [m], db) := by
      rw [← lrange_head h]
      rfl
    have hrem : (writes (fun message db => db.lrem source message) (some m)).run.run db =
        (.ok (), db.put source l) := by
      rw [← lrem_head h]
      rfl
    rw [lpoprpush, Script.bind_ok hexists, if_pos rfl, Script.bind_ok hrange]
    simp only [LuaValue.truthy, if_true, List.getElem?_cons_zero]
    rw [Script.bind_ok hrem, Keyspace.lmove, h]
    rfl

/-- Whatever the version, the call is `LMOVE`. -/
theorem clientLpoprpush_eq (v : Version) (source destination : κ) (db : Keyspace κ α) :
    clientLpoprpush (some v) source destination db =
      .ok (.ok (db.lmove source destination .left .right).1, (db.lmove source destination .left .right).2) := by
  rw [clientLpoprpush, validateRedisVersion_eq]
  by_cases hv : v.HasLmove
  · simp [lmove, validateRedisVersion_eq, hv, bind, Except.bind, pure, Except.pure]
  · simp [hv, run_lpoprpush, bind, Except.bind, pure, Except.pure]

/-- **The script and the command agree.** On an old server the call runs the script, on a new one `LMOVE`; the replies and
the keyspaces are the same. -/
theorem lpoprpush_agree {old new : Version} (hold : ¬old.HasLmove) (hnew : new.HasLmove) (source destination : κ)
    (db : Keyspace κ α) :
    clientLpoprpush (some old) source destination db = .ok ((lpoprpush source destination).run.run db) ∧
    clientLpoprpush (some new) source destination db = lmove (some new) source destination .left .right db ∧
    clientLpoprpush (some old) source destination db = clientLpoprpush (some new) source destination db := by
  refine ⟨?_, ?_, ?_⟩
  · simp [clientLpoprpush, validateRedisVersion_eq, hold, bind, Except.bind, pure, Except.pure]
  · simp [clientLpoprpush, validateRedisVersion_eq, hnew, bind, Except.bind]
  · rw [clientLpoprpush_eq, clientLpoprpush_eq]

/-- A list with a repeated element, moved to itself. -/
theorem lpoprpush_agree_repeated :
    ¬(Version.mk 6 0 9).HasLmove ∧ (Version.mk 6 2 0).HasLmove ∧
    (clientLpoprpush (some ⟨6, 0, 9⟩) "l" "l" (Keyspace.put (fun _ => none) "l" ["a", "b", "a"]) =
        .ok ((lpoprpush "l" "l").run.run (Keyspace.put (fun _ => none) "l" ["a", "b", "a"])) ∧
      clientLpoprpush (some ⟨6, 2, 0⟩) "l" "l" (Keyspace.put (fun _ => none) "l" ["a", "b", "a"]) =
        lmove (some ⟨6, 2, 0⟩) "l" "l" .left .right (Keyspace.put (fun _ => none) "l" ["a", "b", "a"]) ∧
      clientLpoprpush (some ⟨6, 0, 9⟩) "l" "l" (Keyspace.put (fun _ => none) "l" ["a", "b", "a"]) =
        clientLpoprpush (some ⟨6, 2, 0⟩) "l" "l" (Keyspace.put (fun _ => none) "l" ["a", "b", "a"])) :=
  ⟨by decide, by decide, lpoprpush_agree (by decide) (by decide) _ _ _⟩

/-! ## The database of messages -/

/-- The lists of a database. -/
def lists (db : Db) : Keyspace RedisKey Message := fun key => if h : db.lists key = [] then none else some ⟨db.lists key, h⟩

theorem get_lists (db : Db) (key : RedisKey) : (lists db).get key = db.lists key := by
  unfold Keyspace.get lists
  by_cases h : db.lists key = [] <;> simp [h]

theorem lists_setList (db : Db) (key : RedisKey) (l : List Message) : lists (db.setList key l) = (lists db).put key l := by
  funext key'
  by_cases hk : key' = key
  · subst hk
    simp [lists, Keyspace.put]
  · simp [lists, Keyspace.put, hk]

/-- `Db.lpoprpush` is `LMOVE` on the lists. -/
theorem lists_lpoprpush (db : Db) (source destination : RedisKey) :
    lists (db.lpoprpush source destination) = ((lists db).lmove source destination .left .right).2 := by
  rw [Db.lpoprpush, Keyspace.lmove, get_lists]
  cases h : db.lists source with
  | nil => rfl
  | cons m l =>
    simp only [Keyspace.takeAway, List.head?_cons, Option.map_some, List.tail_cons, lists_setList, Keyspace.push,
      ← get_lists]

/-- The script on the database and the script on its lists leave the same lists. -/
theorem lists_run_lpoprpush (db : Db) (source destination : RedisKey) :
    lists ((RedisSmq.Script.lpoprpush source destination).run.run db).2 =
      ((lpoprpush source destination).run.run (lists db)).2 := by
  rw [RedisSmq.Script.run_lpoprpush, run_lpoprpush, lists_lpoprpush]

end ListMove

end RedisSmq
