import RedisSmq.Lib.Tokens
import RedisSmq.Queue.Steps

/-!
# The messages of a database as tokens

The lists and the scheduled store are places, and the identifiers of the messages in them are tokens (`board`). The
commands that move messages around move, put and take tokens:

- `board_rpush`, `board_lpush`, `board_lrem`, `board_rpoplpush`, `board_lpoprpush` for lists;
- `board_zadd_new`, `board_zadd_old`, `board_zrem` for the scheduled store.
-/

namespace RedisSmq.Queue

open RedisKeys Db Tokens

/-- A place where messages are. -/
inductive Place
  | list (key : RedisKey)
  | scheduled
deriving DecidableEq

/-- The types of the lists that messages are kept in. -/
def containerTypes : List ERedisKey :=
  [.keyQueue, .keyQueueProcessing, .keyQueueDelay, .keyQueueRequeue, .keyQueueAcknowledgedMessages, .keyQueueDL]

/-- The pending, processing, delay, re-queue, acknowledged and dead-letter lists, and the scheduled store. -/
def Place.IsContainer : Place → Prop
  | .list key => key.type ∈ containerTypes
  | .scheduled => True

/-- The identifiers of the messages at a place. -/
def board (db : Db) : Place → Multiset String
  | .list key => ((db.lists key).map (·.uuid) : List String)
  | .scheduled => ((db.zsets getGlobalKeys.keyQueueScheduled).members.filterMap Text.getId : List String)

variable {lt : Text → Text → Bool} {db : Db} {k source destination : RedisKey} {m : Message} {x : String}

theorem mem_board_scheduled :
    x ∈ board db .scheduled ↔ .id x ∈ (db.zsets getGlobalKeys.keyQueueScheduled).members := by
  simp only [board, Multiset.mem_coe, List.mem_filterMap]
  constructor
  · rintro ⟨t, ht, hx⟩
    cases t with
    | id y => cases hx; exact ht
    | json m => cases hx
  · exact fun h => ⟨_, h, rfl⟩

/-! ## Lists -/

theorem board_setList {l : List Message} :
    board (db.setList k l) = Function.update (board db) (.list k) ((l.map (·.uuid) : List String)) := by
  funext p
  cases p with
  | list key =>
    by_cases h : key = k
    · subst h; simp [board]
    · have : Place.list key ≠ .list k := fun e => h (Place.list.inj e)
      simp [board, h, this]
  | scheduled => rw [Function.update_of_ne (by simp)]; rfl

/-- Pushing puts a token. -/
theorem board_rpush : board (db.exec lt (.rpush k m)) = put (board db) (.list k) m.uuid := by
  show board (db.setList k (db.lists k ++ [m])) = _
  rw [board_setList, put]
  congr 1
  simp only [board, List.map_append, List.map_cons, List.map_nil, Multiset.cons_coe, Multiset.coe_eq_coe]
  exact List.perm_append_singleton _ _

theorem board_lpush : board (db.exec lt (.lpush k m)) = put (board db) (.list k) m.uuid := by
  show board (db.setList k (m :: db.lists k)) = _
  rw [board_setList, put]
  rfl

/-- Removing a message takes its token. -/
theorem board_lrem (h : m ∈ db.lists k) : board (db.exec lt (.lrem k m)) = take (board db) (.list k) m.uuid := by
  show board (db.setList k ((db.lists k).erase m)) = _
  rw [board_setList, take]
  congr 1
  have hperm : ((db.lists k).map (·.uuid)).Perm (m.uuid :: ((db.lists k).erase m).map (·.uuid)) :=
    (List.perm_cons_erase h).map _
  show _ = Multiset.erase (↑((db.lists k).map (·.uuid)) : Multiset String) m.uuid
  rw [Multiset.coe_eq_coe.mpr hperm, ← Multiset.cons_coe, Multiset.erase_cons_head]

/-- A pop from the right and a push on the left move a token. -/
theorem board_rpoplpush (hne : source ≠ destination) (h : (db.lists source).getLast? = some m) :
    board (db.rpoplpush source destination) = move (board db) (.list source) (.list destination) m.uuid := by
  have hlist : db.lists source = (db.lists source).dropLast ++ [m] := by
    have hnil : db.lists source ≠ [] := by intro hn; rw [hn] at h; cases h
    rw [List.getLast?_eq_some_getLast hnil] at h
    rw [← Option.some.inj h]
    exact (List.dropLast_append_getLast hnil).symm
  have hplace : Place.list source ≠ .list destination := fun e => hne (Place.list.inj e)
  unfold Db.rpoplpush
  rw [h]
  simp only [setList_lists, Function.update_of_ne hne.symm]
  rw [board_setList, board_setList, move, put, take]
  have hsource : ((db.lists source).dropLast.map (·.uuid) : Multiset String) =
      Multiset.erase (board db (.list source)) m.uuid := by
    have hb : board db (.list source) = m.uuid ::ₘ ↑((db.lists source).dropLast.map (·.uuid)) := by
      show (↑((db.lists source).map (·.uuid)) : Multiset String) = _
      rw [hlist, Multiset.cons_coe, Multiset.coe_eq_coe]
      simp only [List.dropLast_concat, List.map_append, List.map_cons, List.map_nil]
      exact List.perm_append_singleton _ _
    rw [hb, Multiset.erase_cons_head]
  rw [hsource, Function.update_of_ne hplace.symm]
  rfl

/-- A pop from the left and a push on the right move a token. -/
theorem board_lpoprpush (hne : source ≠ destination) (h : (db.lists source).head? = some m) :
    board (db.lpoprpush source destination) = move (board db) (.list source) (.list destination) m.uuid := by
  have hplace : Place.list source ≠ .list destination := fun e => hne (Place.list.inj e)
  unfold Db.lpoprpush
  cases hl : db.lists source with
  | nil => rw [hl] at h; cases h
  | cons m' rest =>
    rw [hl] at h
    cases h
    simp only [setList_lists, Function.update_of_ne hne.symm]
    rw [board_setList, board_setList, move, put, take]
    have hsource : (↑(rest.map (·.uuid)) : Multiset String) = Multiset.erase (board db (.list source)) m.uuid := by
      simp [board, hl]
    rw [hsource, Function.update_of_ne hplace.symm]
    congr 1
    simp only [board, List.map_append, List.map_cons, List.map_nil, Multiset.cons_coe, Multiset.coe_eq_coe]
    exact List.perm_append_singleton _ _

/-! ## The scheduled store -/

theorem board_setZset {z : SortedSet Text} : board (db.setZset getGlobalKeys.keyQueueScheduled z) =
    Function.update (board db) .scheduled (z.members.filterMap Text.getId : List String) := by
  funext p
  cases p with
  | list key => rw [Function.update_of_ne (by simp)]; rfl
  | scheduled => simp [board]

/-- Hashes hold no tokens. -/
theorem board_hset {f : Text} : board (db.exec lt (.hset k f m)) = board db := by
  funext p; cases p <;> rfl

theorem board_hdel {f : Text} : board (db.exec lt (.hdel k f)) = board db := by
  funext p; cases p <;> rfl

/-- Adding a new member puts a token. -/
theorem board_zadd_new {n : ℕ} (h : .id x ∉ (db.zsets getGlobalKeys.keyQueueScheduled).members) :
    board (db.exec lt (.zadd getGlobalKeys.keyQueueScheduled n (.id x))) = put (board db) .scheduled x := by
  show board (db.setZset _ _) = _
  rw [board_setZset, put]
  congr 1
  have hperm := (SortedSet.members_zadd_perm lt (db.zsets getGlobalKeys.keyQueueScheduled) n (.id x)).filterMap
    Text.getId
  rw [SortedSet.members_zrem, List.erase_of_not_mem h] at hperm
  exact Multiset.coe_eq_coe.mpr hperm

/-- Adding a member again changes no token. -/
theorem board_zadd_old {n : ℕ} (h : .id x ∈ (db.zsets getGlobalKeys.keyQueueScheduled).members) :
    board (db.exec lt (.zadd getGlobalKeys.keyQueueScheduled n (.id x))) = board db := by
  show board (db.setZset _ _) = _
  rw [board_setZset, Function.update_eq_self_iff]
  have hperm := SortedSet.members_zadd_perm lt (db.zsets getGlobalKeys.keyQueueScheduled) n (.id x)
  rw [SortedSet.members_zrem] at hperm
  exact Multiset.coe_eq_coe.mpr ((hperm.trans (List.perm_cons_erase h).symm).filterMap _)

/-- Removing a member takes a token. -/
theorem board_zrem (h : .id x ∈ (db.zsets getGlobalKeys.keyQueueScheduled).members) :
    board (db.exec lt (.zrem getGlobalKeys.keyQueueScheduled (.id x))) = take (board db) .scheduled x := by
  show board (db.setZset _ _) = _
  rw [board_setZset, take]
  congr 1
  have hboard : board db .scheduled =
      x ::ₘ ↑(((db.zsets getGlobalKeys.keyQueueScheduled).members.erase (.id x)).filterMap Text.getId) :=
    Multiset.coe_eq_coe.mpr ((List.perm_cons_erase h).filterMap Text.getId)
  rw [hboard, Multiset.erase_cons_head, SortedSet.members_zrem]

end RedisSmq.Queue
