import Mathlib.Logic.Function.Basic
import Mathlib.Tactic.Simps.Basic
import RedisSmq.Lib.SortedSet
import RedisSmq.Message
import RedisSmq.RedisKeys

/-!
# The database

What the Redis server stores and what the commands in use do to it. Every list holds the JSON texts of messages; a text
that is a member of a sorted set or a field of a hash is the identifier of a message or the JSON text of one (`Text`).
A command, a transaction (`execAll`) and a script are each one atomic step; the replies that the callers read are
separate functions.
-/

namespace RedisSmq

/-- A text: the identifier of a message, or `JSON.stringify(message)`. -/
inductive Text
  | id (uuid : String)
  | json (message : Message)
deriving DecidableEq

/-- The identifier of a text that is one. -/
def Text.getId : Text → Option String
  | .id uuid => some uuid
  | .json _ => none

/-- `lists`: lists of messages; `zsets`: sorted sets of texts; `hashes`: hashes of messages; `sets`: sets of processing
keys; `indexes`: hashes from processing keys to consumers; `heartbeats`: hashes from heartbeat keys to timestamps. -/
structure Db where
  lists : RedisKey → List Message
  zsets : RedisKey → SortedSet Text
  hashes : RedisKey → Text → Option Message
  sets : RedisKey → List RedisKey
  indexes : RedisKey → RedisKey → Option String
  heartbeats : RedisKey → RedisKey → Option ℕ

namespace Db

/-- The database without keys. -/
def empty : Db where
  lists := fun _ => []
  zsets := fun _ => .empty
  hashes := fun _ _ => none
  sets := fun _ => []
  indexes := fun _ _ => none
  heartbeats := fun _ _ => none

@[simps -fullyApplied] def setList (db : Db) (key : RedisKey) (l : List Message) : Db :=
  { db with lists := Function.update db.lists key l }

@[simps -fullyApplied] def setZset (db : Db) (key : RedisKey) (z : SortedSet Text) : Db :=
  { db with zsets := Function.update db.zsets key z }

@[simps -fullyApplied] def setHash (db : Db) (key : RedisKey) (field : Text) (value : Option Message) : Db :=
  { db with hashes := Function.update db.hashes key (Function.update (db.hashes key) field value) }

@[simps -fullyApplied] def setSet (db : Db) (key : RedisKey) (members : List RedisKey) : Db :=
  { db with sets := Function.update db.sets key members }

@[simps -fullyApplied] def setIndex (db : Db) (key field : RedisKey) (value : Option String) : Db :=
  { db with indexes := Function.update db.indexes key (Function.update (db.indexes key) field value) }

@[simps -fullyApplied] def setHeartbeat (db : Db) (key field : RedisKey) (value : Option ℕ) : Db :=
  { db with heartbeats := Function.update db.heartbeats key (Function.update (db.heartbeats key) field value) }

/-- `RPOPLPUSH`; what a `BRPOPLPUSH` does once its source is not empty. -/
def rpoplpush (db : Db) (source destination : RedisKey) : Db :=
  match (db.lists source).getLast? with
  | none => db
  | some m =>
    let db := db.setList source (db.lists source).dropLast
    db.setList destination (m :: db.lists destination)

/-- `LMOVE source destination LEFT RIGHT`. -/
def lpoprpush (db : Db) (source destination : RedisKey) : Db :=
  match db.lists source with
  | [] => db
  | m :: rest =>
    let db := db.setList source rest
    db.setList destination (db.lists destination ++ [m])

/-- `DEL key`. -/
@[simps -fullyApplied] def del (db : Db) (key : RedisKey) : Db where
  lists := Function.update db.lists key []
  zsets := Function.update db.zsets key .empty
  hashes := Function.update db.hashes key (fun _ => none)
  sets := Function.update db.sets key []
  indexes := Function.update db.indexes key (fun _ => none)
  heartbeats := Function.update db.heartbeats key (fun _ => none)

end Db

/-- The commands that write; `lrem` removes one occurrence. -/
inductive Cmd
  | rpush (key : RedisKey) (element : Message)
  | lpush (key : RedisKey) (element : Message)
  | lrem (key : RedisKey) (element : Message)
  | rpoplpush (source destination : RedisKey)
  | lpoprpush (source destination : RedisKey)
  | zadd (key : RedisKey) (score : ℕ) (member : Text)
  | zrem (key : RedisKey) (member : Text)
  | hset (key : RedisKey) (field : Text) (value : Message)
  | hdel (key : RedisKey) (field : Text)
  | sadd (key member : RedisKey)
  | srem (key member : RedisKey)
  | hsetIndex (key field : RedisKey) (value : String)
  | hdelIndex (key field : RedisKey)
  | hsetHeartbeat (key field : RedisKey) (timestamp : ℕ)
  | hdelHeartbeat (key field : RedisKey)
  | del (key : RedisKey)
deriving DecidableEq

namespace Db

variable (lt : Text → Text → Bool)

/-- The effect of a command; `lt` is the order of the texts that breaks ties in sorted sets. -/
def exec (db : Db) : Cmd → Db
  | .rpush key m => db.setList key (db.lists key ++ [m])
  | .lpush key m => db.setList key (m :: db.lists key)
  | .lrem key m => db.setList key ((db.lists key).erase m)
  | .rpoplpush source destination => db.rpoplpush source destination
  | .lpoprpush source destination => db.lpoprpush source destination
  | .zadd key score t => db.setZset key ((db.zsets key).zadd lt score t)
  | .zrem key t => db.setZset key ((db.zsets key).zrem t)
  | .hset key field m => db.setHash key field (some m)
  | .hdel key field => db.setHash key field none
  | .sadd key k => db.setSet key ((db.sets key).insert k)
  | .srem key k => db.setSet key ((db.sets key).erase k)
  | .hsetIndex key field id => db.setIndex key field (some id)
  | .hdelIndex key field => db.setIndex key field none
  | .hsetHeartbeat key field t => db.setHeartbeat key field (some t)
  | .hdelHeartbeat key field => db.setHeartbeat key field none
  | .del key => db.del key

/-- The effect of the commands of one transaction. -/
def execAll (db : Db) (cmds : List Cmd) : Db := cmds.foldl (exec lt) db

@[simp] theorem execAll_nil (db : Db) : db.execAll lt [] = db := rfl

@[simp] theorem execAll_cons (db : Db) (c : Cmd) (cmds : List Cmd) :
    db.execAll lt (c :: cmds) = (db.exec lt c).execAll lt cmds := rfl

theorem execAll_append (db : Db) (cmds cmds' : List Cmd) :
    db.execAll lt (cmds ++ cmds') = (db.execAll lt cmds).execAll lt cmds' := List.foldl_append

/-- The reply of a script: an error, `nil`, or a message. -/
inductive Reply
  | error
  | nil
  | message (m : Message)
deriving DecidableEq

/-- `zpophgetrpush.lua`. A member without a payload is removed before the `RPUSH` of `false` fails. -/
def zpophgetrpush (db : Db) (sortedSet hash list : RedisKey) : Db × Reply :=
  match (db.zsets sortedSet).first with
  | none => (db, .nil)
  | some messageId =>
    let message := db.hashes hash messageId
    let db := db.setZset sortedSet ((db.zsets sortedSet).zrem messageId)
    let db := db.setHash hash messageId none
    match message with
    | none => (db, .error)
    | some m => (db.setList list (db.lists list ++ [m]), .message m)

end Db

end RedisSmq
