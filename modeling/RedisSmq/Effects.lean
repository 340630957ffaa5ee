import RedisSmq.Db

/-!
# What commands can do

- a command changes nothing at the keys it does not name (`exec_frame`, `execAll_frame`);
- a slot, a list or a field of a hash, only gets the messages that a command puts there (`holds_exec`), so a property of
  all held messages is kept when the commands put only messages that have it (`Forall.exec`, `Forall.execAll`);
- a command about other messages changes nothing for an identifier (`exec_sameFor`, `execAll_sameFor`);
- a score is set by a command (`score_execAll`);
- a sorted set and the hash with the payloads of its members stay linked (`Linked`), and what is read of members is their
  payloads (`payloads_of_ids`).
-/

namespace RedisSmq

/-- The keys that a command names. -/
def Cmd.keys : Cmd → List RedisKey
  | .rpush key _ | .lpush key _ | .lrem key _ | .zadd key _ _ | .zrem key _ | .hset key _ _ | .hdel key _
  | .sadd key _ | .srem key _ | .hsetIndex key _ _ | .hdelIndex key _ | .hsetHeartbeat key _ _
  | .hdelHeartbeat key _ | .del key => [key]
  | .rpoplpush source destination | .lpoprpush source destination => [source, destination]

/-- The command is about the message with the identifier; which message a move is about depends on the lists. -/
def Cmd.About (id : String) : Cmd → Prop
  | .rpush _ m | .lpush _ m | .lrem _ m => m.uuid = id
  | .zadd _ _ t | .zrem _ t | .hset _ t _ | .hdel _ t => t = .id id
  | .rpoplpush _ _ | .lpoprpush _ _ | .del _ => True
  | _ => False

/-- The commands that move one message between lists. -/
def IsMove (source destination : RedisKey) (c : Cmd) : Prop :=
  c = .rpoplpush source destination ∨ c = .lpoprpush source destination

namespace Db

variable {lt : Text → Text → Bool} {db db' db'' : Db} {k zk hk : RedisKey} {c : Cmd} {cmds : List Cmd}

/-! ## Frames -/

/-- Two databases agree at a key. -/
structure SameAt (db db' : Db) (k : RedisKey) : Prop where
  lists : db.lists k = db'.lists k
  zsets : db.zsets k = db'.zsets k
  hashes : db.hashes k = db'.hashes k
  sets : db.sets k = db'.sets k
  indexes : db.indexes k = db'.indexes k
  heartbeats : db.heartbeats k = db'.heartbeats k

theorem SameAt.refl (db : Db) (k : RedisKey) : SameAt db db k := ⟨rfl, rfl, rfl, rfl, rfl, rfl⟩

theorem SameAt.trans (h : SameAt db db' k) (h' : SameAt db' db'' k) : SameAt db db'' k :=
  ⟨h.lists.trans h'.lists, h.zsets.trans h'.zsets, h.hashes.trans h'.hashes, h.sets.trans h'.sets,
    h.indexes.trans h'.indexes, h.heartbeats.trans h'.heartbeats⟩

/-- A move changes nothing at the other keys. -/
theorem rpoplpush_frame {source destination : RedisKey} (h : k ≠ source) (h' : k ≠ destination) :
    SameAt (db.rpoplpush source destination) db k := by
  unfold rpoplpush
  split
  · exact .refl _ _
  · exact ⟨by simp [h, h'], rfl, rfl, rfl, rfl, rfl⟩

theorem lpoprpush_frame {source destination : RedisKey} (h : k ≠ source) (h' : k ≠ destination) :
    SameAt (db.lpoprpush source destination) db k := by
  unfold lpoprpush
  split
  · exact .refl _ _
  · exact ⟨by simp [h, h'], rfl, rfl, rfl, rfl, rfl⟩

/-- A command changes nothing at the keys it does not name. -/
theorem exec_frame (h : k ∉ c.keys) : SameAt (db.exec lt c) db k := by
  cases c with
  | rpoplpush source destination =>
    simp only [Cmd.keys, List.mem_cons, List.not_mem_nil, or_false, not_or] at h
    exact rpoplpush_frame h.1 h.2
  | lpoprpush source destination =>
    simp only [Cmd.keys, List.mem_cons, List.not_mem_nil, or_false, not_or] at h
    exact lpoprpush_frame h.1 h.2
  | _ =>
    simp only [Cmd.keys, List.mem_cons, List.not_mem_nil, or_false] at h
    constructor <;> simp [exec, h]

/-- A transaction changes nothing at the keys that its commands do not name. -/
theorem execAll_frame : ∀ (cmds : List Cmd) {db : Db}, (∀ c ∈ cmds, k ∉ c.keys) → SameAt (db.execAll lt cmds) db k
  | [], _, _ => .refl _ _
  | c :: cmds, db, h => by
    have hc : SameAt (db.exec lt c) db k := exec_frame (h c (by simp))
    have ht : SameAt ((db.exec lt c).execAll lt cmds) (db.exec lt c) k :=
      execAll_frame cmds (fun c' hc' => h c' (by simp [hc']))
    exact ht.trans hc

/-- A move out of a list of one message empties it, and the other list gains the message. -/
theorem move_singleton {source destination : RedisKey} {m : Message} (hc : IsMove source destination c)
    (hne : destination ≠ source) (hl : db.lists source = [m]) : (db.exec lt c).lists source = [] ∧
      ((db.exec lt c).lists destination).Perm (m :: db.lists destination) := by
  rcases hc with rfl | rfl
  · simp only [exec, rpoplpush, hl, List.getLast?_singleton, List.dropLast_singleton, setList_lists,
      Function.update_of_ne hne, Function.update_of_ne hne.symm, Function.update_self]
    exact ⟨trivial, .refl _⟩
  · simp only [exec, lpoprpush, hl, setList_lists, Function.update_of_ne hne, Function.update_of_ne hne.symm,
      Function.update_self]
    exact ⟨trivial, List.perm_append_singleton _ _⟩

/-- A move only takes from its source. -/
theorem move_sublist {source destination : RedisKey} (hc : IsMove source destination c) (hne : source ≠ destination)
    (hk : k ≠ source) : (db.lists k).Sublist ((db.exec lt c).lists k) := by
  rcases hc with rfl | rfl
  · simp only [exec, rpoplpush]
    split
    · exact List.Sublist.refl _
    · by_cases hd : k = destination
      · subst hd; simp [hk]
      · simp [hk, hd]
  · simp only [exec, lpoprpush]
    split
    · exact List.Sublist.refl _
    · by_cases hd : k = destination
      · subst hd; simp [hk]
      · simp [hk, hd]

/-! ## Where messages are held -/

/-- A place that holds messages. -/
inductive Slot
  | list (key : RedisKey)
  | field (key : RedisKey) (field : Text)
deriving DecidableEq

/-- The slot holds the message. -/
def Holds (db : Db) : Slot → Message → Prop
  | .list key, m => m ∈ db.lists key
  | .field key f, m => db.hashes key f = some m

end Db

/-- The command puts the message into the slot; which message a move puts depends on its source. -/
def Cmd.Puts (db : Db) : Cmd → Db.Slot → Message → Prop
  | .rpush key m, slot, m' | .lpush key m, slot, m' => slot = .list key ∧ m' = m
  | .hset key f m, slot, m' => slot = .field key f ∧ m' = m
  | .rpoplpush source destination, slot, m' => slot = .list destination ∧ (db.lists source).getLast? = some m'
  | .lpoprpush source destination, slot, m' => slot = .list destination ∧ (db.lists source).head? = some m'
  | _, _, _ => False

namespace Db

variable {lt : Text → Text → Bool} {db db' : Db} {k zk hk : RedisKey} {c : Cmd} {slot : Slot} {m : Message}

/-- Setting a list keeps the messages of the other slots. -/
theorem holds_setList {l : List Message} (h : (db.setList k l).Holds slot m) :
    db.Holds slot m ∨ (slot = .list k ∧ m ∈ l) := by
  cases slot with
  | list key =>
    by_cases hk : key = k
    · subst hk; exact .inr ⟨rfl, by simpa [Holds] using h⟩
    · exact .inl (by simpa [Holds, hk] using h)
  | field key f => exact .inl h

/-- Setting a field keeps the messages of the other slots. -/
theorem holds_setHash {f : Text} {v : Option Message} (h : (db.setHash k f v).Holds slot m) :
    db.Holds slot m ∨ (slot = .field k f ∧ v = some m) := by
  cases slot with
  | list key => exact .inl h
  | field key f' =>
    simp only [Holds, setHash_hashes] at h
    by_cases hk : key = k
    · subst hk
      rw [Function.update_self] at h
      by_cases hf : f' = f
      · subst hf; rw [Function.update_self] at h; exact .inr ⟨rfl, h⟩
      · rw [Function.update_of_ne hf] at h; exact .inl h
    · rw [Function.update_of_ne hk] at h; exact .inl h

/-- A held message was held before, or the command put it there. -/
theorem holds_exec (h : (db.exec lt c).Holds slot m) : db.Holds slot m ∨ c.Puts db slot m := by
  cases c with
  | rpush key m' =>
    rcases holds_setList h with h1 | ⟨h1, h2⟩
    · exact .inl h1
    · subst h1
      rcases List.mem_append.mp h2 with h3 | h3
      · exact .inl h3
      · exact .inr ⟨rfl, List.mem_singleton.mp h3⟩
  | lpush key m' =>
    rcases holds_setList h with h1 | ⟨h1, h2⟩
    · exact .inl h1
    · subst h1
      rcases List.mem_cons.mp h2 with h3 | h3
      · exact .inr ⟨rfl, h3⟩
      · exact .inl h3
  | lrem key m' =>
    rcases holds_setList h with h1 | ⟨h1, h2⟩
    · exact .inl h1
    · subst h1
      exact .inl (List.mem_of_mem_erase h2)
  | rpoplpush source destination =>
    simp only [exec, rpoplpush] at h
    split at h
    · exact .inl h
    · rename_i m' hm
      have hsub : ∀ key, m ∈ (db.setList source (db.lists source).dropLast).lists key → m ∈ db.lists key := by
        intro key hx
        rcases (holds_setList hx : db.Holds (.list key) m ∨ _) with h1 | ⟨h1, h2⟩
        · exact h1
        · cases h1; exact List.dropLast_subset _ h2
      rcases holds_setList h with h1 | ⟨h1, h2⟩
      · cases slot with
        | list key => exact .inl (hsub key h1)
        | field key f => exact .inl h1
      · subst h1
        rcases List.mem_cons.mp h2 with h3 | h3
        · exact .inr ⟨rfl, h3 ▸ hm⟩
        · exact .inl (hsub _ h3)
  | lpoprpush source destination =>
    simp only [exec, lpoprpush] at h
    split at h
    · exact .inl h
    · rename_i m' rest hm
      have hsub : ∀ key, m ∈ (db.setList source rest).lists key → m ∈ db.lists key := by
        intro key hx
        rcases (holds_setList hx : db.Holds (.list key) m ∨ _) with h1 | ⟨h1, h2⟩
        · exact h1
        · cases h1; rw [hm]; exact List.mem_cons_of_mem _ h2
      rcases holds_setList h with h1 | ⟨h1, h2⟩
      · cases slot with
        | list key => exact .inl (hsub key h1)
        | field key f => exact .inl h1
      · subst h1
        rcases List.mem_append.mp h2 with h3 | h3
        · exact .inl (hsub _ h3)
        · exact .inr ⟨rfl, by rw [hm, List.mem_singleton.mp h3]; rfl⟩
  | hset key f m' =>
    rcases holds_setHash h with h1 | ⟨h1, h2⟩
    · exact .inl h1
    · cases h2; exact .inr ⟨h1, rfl⟩
  | hdel key f =>
    rcases holds_setHash h with h1 | ⟨_, h2⟩
    · exact .inl h1
    · cases h2
  | del key =>
    refine .inl ?_
    cases slot with
    | list key' =>
      by_cases hk : key' = key
      · subst hk; simp [Holds, exec] at h
      · simpa [Holds, exec, hk] using h
    | field key' f =>
      by_cases hk : key' = key
      · subst hk; simp [Holds, exec] at h
      · simpa [Holds, exec, hk] using h
  | _ => cases slot <;> exact .inl h

/-- Every held message has the property of its slot. -/
def Forall (p : Slot → Message → Prop) (db : Db) : Prop := ∀ slot m, db.Holds slot m → p slot m

variable {p : Slot → Message → Prop}

theorem Forall.empty : Forall p Db.empty := by
  intro slot m h
  cases slot <;> simp [Holds, Db.empty] at h

theorem Forall.exec (h : Forall p db) (hc : ∀ slot m, c.Puts db slot m → p slot m) : Forall p (db.exec lt c) := by
  intro slot m hm
  rcases holds_exec hm with h1 | h1
  · exact h _ _ h1
  · exact hc _ _ h1

/-- A transaction that only puts messages with the property keeps it. -/
theorem Forall.execAll : ∀ {cmds : List Cmd} {db : Db}, Forall p db →
    (∀ c ∈ cmds, ∀ db slot m, c.Puts db slot m → p slot m) → Forall p (db.execAll lt cmds)
  | [], _, h, _ => h
  | c :: cmds, db, h, hc => by
    have h1 : Forall p (db.exec lt c) := h.exec (hc c (by simp) db)
    exact h1.execAll (fun c' hc' => hc c' (by simp [hc']))

/-- The script `zpophgetrpush` moves a payload from a hash to a list. -/
theorem Forall.zpophgetrpush {list : RedisKey} (h : Forall p db)
    (hm : ∀ t m, db.hashes hk t = some m → p (.list list) m) : Forall p (db.zpophgetrpush zk hk list).1 := by
  unfold Db.zpophgetrpush
  split
  · exact h
  · rename_i t ht
    have hdel : Forall p ((db.setZset zk ((db.zsets zk).zrem t)).setHash hk t none) := by
      intro slot m hs
      rcases holds_setHash hs with h1 | ⟨_, h1⟩
      · exact h _ _ (by cases slot <;> exact h1)
      · cases h1
    cases hv : db.hashes hk t with
    | none => exact hdel
    | some m =>
      intro slot m' hs
      rcases holds_setList hs with h1 | ⟨h1, h2⟩
      · exact hdel _ _ h1
      · subst h1
        rcases List.mem_append.mp h2 with h3 | h3
        · exact h (.list list) _ h3
        · rw [List.mem_singleton.mp h3]; exact hm t m hv

/-! ## One identifier -/

/-- Two databases agree on everything they keep for an identifier. -/
structure SameFor (db db' : Db) (id : String) : Prop where
  lists : ∀ k, (db.lists k).filter (·.uuid = id) = (db'.lists k).filter (·.uuid = id)
  scores : ∀ k, (db.zsets k).score (.id id) = (db'.zsets k).score (.id id)
  payloads : ∀ k, db.hashes k (.id id) = db'.hashes k (.id id)

theorem SameFor.refl (db : Db) (id : String) : SameFor db db id := ⟨fun _ => rfl, fun _ => rfl, fun _ => rfl⟩

theorem SameFor.symm {id : String} (h : SameFor db db' id) : SameFor db' db id where
  lists k := (h.lists k).symm
  scores k := (h.scores k).symm
  payloads k := (h.payloads k).symm

theorem SameFor.trans {db'' : Db} {id : String} (h : SameFor db db' id) (h' : SameFor db' db'' id) :
    SameFor db db'' id where
  lists k := (h.lists k).trans (h'.lists k)
  scores k := (h.scores k).trans (h'.scores k)
  payloads k := (h.payloads k).trans (h'.payloads k)

/-- Removing another message keeps the messages with the identifier. -/
theorem filter_erase {id : String} (h : m.uuid ≠ id) :
    ∀ l : List Message, (l.erase m).filter (·.uuid = id) = l.filter (·.uuid = id)
  | [] => rfl
  | m' :: l => by
    by_cases heq : m' = m
    · subst heq; simp [h]
    · rw [List.erase_cons_tail (by simpa using heq)]
      by_cases hid : m'.uuid = id <;> simp [hid, filter_erase h l]

/-- A command about other messages changes nothing for an identifier. -/
theorem exec_sameFor {id : String} (h : ¬c.About id) : SameFor (db.exec lt c) db id := by
  have hlist : ∀ {k : RedisKey} {l : List Message}, l.filter (·.uuid = id) = (db.lists k).filter (·.uuid = id) →
      SameFor (db.setList k l) db id := by
    intro k l hl
    refine ⟨fun k' => ?_, fun _ => rfl, fun _ => rfl⟩
    by_cases hk : k' = k
    · subst hk; simpa using hl
    · simp [hk]
  have hzset : ∀ {k : RedisKey} {z : SortedSet Text}, z.score (.id id) = (db.zsets k).score (.id id) →
      SameFor (db.setZset k z) db id := by
    intro k z hz
    refine ⟨fun _ => rfl, fun k' => ?_, fun _ => rfl⟩
    by_cases hk : k' = k
    · subst hk; simpa using hz
    · simp [hk]
  have hhash : ∀ {k : RedisKey} {t : Text} {v : Option Message}, .id id ≠ t → SameFor (db.setHash k t v) db id := by
    intro k t v ht
    refine ⟨fun _ => rfl, fun _ => rfl, fun k' => ?_⟩
    by_cases hk : k' = k
    · subst hk; simp [ht]
    · simp [hk]
  cases c with
  | rpush k m => exact hlist (by simp [show ¬m.uuid = id from h])
  | lpush k m => exact hlist (by simp [show ¬m.uuid = id from h])
  | lrem k m => exact hlist (filter_erase h _)
  | zadd k n t => exact hzset (SortedSet.score_zadd_of_ne lt (fun ht => h ht.symm))
  | zrem k t => exact hzset (SortedSet.score_zrem_of_ne (fun ht => h ht.symm))
  | hset k t m => exact hhash (fun ht => h ht.symm)
  | hdel k t => exact hhash (fun ht => h ht.symm)
  | rpoplpush | lpoprpush | del => exact absurd trivial h
  | _ => exact ⟨fun _ => rfl, fun _ => rfl, fun _ => rfl⟩

/-- A transaction about other messages changes nothing for an identifier. -/
theorem execAll_sameFor {id : String} : ∀ (cmds : List Cmd) {db : Db}, (∀ c ∈ cmds, ¬c.About id) →
    SameFor (db.execAll lt cmds) db id
  | [], _, _ => .refl _ _
  | c :: cmds, db, h => by
    have hc : SameFor (db.exec lt c) db id := exec_sameFor (h c (by simp))
    have ht : SameFor ((db.exec lt c).execAll lt cmds) (db.exec lt c) id :=
      execAll_sameFor cmds (fun c' hc' => h c' (by simp [hc']))
    exact ht.trans hc

/-! ## Sorted sets -/

/-- A score is as it was, or the command set it. -/
theorem score_exec {t : Text} {n : ℕ} (h : ((db.exec lt c).zsets k).score t = some n) :
    (db.zsets k).score t = some n ∨ c = .zadd k n t := by
  have hz : ∀ {k' : RedisKey} {z : SortedSet Text}, ((Function.update db.zsets k' z) k).score t = some n →
      (db.zsets k).score t = some n ∨ (k = k' ∧ z.score t = some n) := by
    intro k' z hz
    by_cases hk : k = k'
    · subst hk; exact .inr ⟨rfl, by simpa using hz⟩
    · exact .inl (by simpa [hk] using hz)
  cases c with
  | zadd k' n' t' =>
    rcases hz h with h | ⟨rfl, h⟩
    · exact .inl h
    · by_cases ht : t = t'
      · subst ht
        rw [SortedSet.score_zadd_self] at h
        cases h
        exact .inr rfl
      · exact .inl (by rwa [SortedSet.score_zadd_of_ne lt ht] at h)
  | zrem k' t' =>
    rcases hz h with h | ⟨rfl, h⟩
    · exact .inl h
    · by_cases ht : t = t'
      · subst ht
        rw [SortedSet.score_eq_none.mpr (fun hm => (SortedSet.mem_zrem.mp hm).1 rfl)] at h
        cases h
      · exact .inl (by rwa [SortedSet.score_zrem_of_ne ht] at h)
  | del k' =>
    rcases hz (z := .empty) h with h | ⟨_, h⟩
    · exact .inl h
    · cases h
  | rpoplpush source destination =>
    simp only [exec, rpoplpush] at h
    split at h <;> exact .inl h
  | lpoprpush source destination =>
    simp only [exec, lpoprpush] at h
    split at h <;> exact .inl h
  | _ => exact .inl h

/-- A score is as it was, or a command of the transaction set it. -/
theorem score_execAll : ∀ (cmds : List Cmd) {db : Db} {k : RedisKey} {t : Text} {n : ℕ},
    ((db.execAll lt cmds).zsets k).score t = some n → (db.zsets k).score t = some n ∨ .zadd k n t ∈ cmds
  | [], _, _, _, _, h => .inl h
  | c :: cmds, db, k, t, n, h => by
    rcases score_execAll cmds h with h | h
    · rcases score_exec h with h | h
      · exact .inl h
      · exact .inr (by simp [h])
    · exact .inr (List.mem_cons_of_mem _ h)

/-- Every member of the sorted set at `zk` has a payload in the hash at `hk`. -/
def Linked (db : Db) (zk hk : RedisKey) : Prop := ∀ t ∈ (db.zsets zk).members, ∃ m, db.hashes hk t = some m

/-- Identifiers whose payloads lie under them are read as these payloads. -/
theorem payloads_of_ids {p : Message → Prop} (ids : List Text)
    (h : ∀ t ∈ ids, ∃ m, db.hashes hk t = some m ∧ t = .id m.uuid ∧ p m) : ∃ ms : List Message,
    ids.map (db.hashes hk) = ms.map some ∧ ids = ms.map (fun m => .id m.uuid) ∧
      ∀ m ∈ ms, db.hashes hk (.id m.uuid) = some m ∧ p m := by
  induction ids with
  | nil => exact ⟨[], rfl, rfl, fun _ hm => absurd hm List.not_mem_nil⟩
  | cons t ids ih =>
    obtain ⟨ms, hpayloads, hids, hms⟩ := ih (fun t' ht' => h t' (List.mem_cons_of_mem _ ht'))
    obtain ⟨m, hm, ht, hp⟩ := h t List.mem_cons_self
    refine ⟨m :: ms, ?_, ?_, fun m' hm' => ?_⟩
    · rw [List.map_cons, List.map_cons, hm, hpayloads]
    · rw [List.map_cons, ← ht, ← hids]
    · rcases List.mem_cons.mp hm' with rfl | hm'
      · exact ⟨ht ▸ hm, hp⟩
      · exact hms m' hm'

/-- Messages whose identifiers are distinct texts have distinct identifiers. -/
theorem nodup_uuid {ms : List Message} (h : (ms.map (fun m => Text.id m.uuid)).Nodup) : (ms.map (·.uuid)).Nodup := by
  refine List.Nodup.of_map Text.id ?_
  rw [List.map_map]
  exact h

/-- Popping a member with a payload moves the payload to the list. -/
theorem zpophgetrpush_some (list : RedisKey) {t : Text} (ht : (db.zsets zk).first = some t)
    (hm : db.hashes hk t = some m) : ∃ db', db.zpophgetrpush zk hk list = (db', .message m) ∧ m ∈ db'.lists list := by
  unfold Db.zpophgetrpush
  rw [ht]
  simp only [hm]
  exact ⟨_, rfl, by simp⟩

/-- The message that the script replies with is the payload of the first member. -/
theorem zpophgetrpush_message {list : RedisKey} (h : (db.zpophgetrpush zk hk list).2 = .message m) :
    ∃ t, (db.zsets zk).first = some t ∧ db.hashes hk t = some m := by
  unfold Db.zpophgetrpush at h
  split at h
  · cases h
  · rename_i t ht
    dsimp only at h
    split at h
    · cases h
    · rename_i m' hm
      cases h
      exact ⟨t, ht, hm⟩

/-- The script adds the message it replies with to the list. -/
theorem zpophgetrpush_lists (list : RedisKey) : (db.zpophgetrpush zk hk list).1.lists list = db.lists list ++
    match (db.zpophgetrpush zk hk list).2 with
    | .message m => [m]
    | _ => [] := by
  unfold Db.zpophgetrpush
  split
  · simp
  · dsimp only
    split <;> simp

/-- The script names three keys. -/
theorem zpophgetrpush_frame {list : RedisKey} (hz : k ≠ zk) (hh : k ≠ hk) (hl : k ≠ list) :
    SameAt (db.zpophgetrpush zk hk list).1 db k := by
  unfold Db.zpophgetrpush
  split
  · exact .refl _ _
  · rename_i t ht
    cases db.hashes hk t with
    | none => constructor <;> simp [hz, hh]
    | some m => constructor <;> simp [hz, hh, hl]

end Db

end RedisSmq
