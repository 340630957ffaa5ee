import RedisSmq.Common.KeyText
import RedisSmq.Effects
import RedisSmq.Lib.KeySpace
import RedisSmq.MessageJson

/-!
# The database as texts

What the Redis server really holds: one key space, in which keys are the texts of `RedisKey`s and lists, sorted sets and
hashes have texts as their elements, members and fields. `Stored` says which key space a database stands for, and
`stored_exec` that a command does to the key space what it does to the database: an element is found by its text exactly
when it is found as a message, since messages with JSON bodies have different texts, and identifiers are no JSON.

The commands about indexes, sets and heartbeats are left out.
-/

namespace RedisSmq

open Js NameGrammar KeyText KeySpace

/-- The text of a member of a sorted set or of a field of a hash. -/
def Text.text : Text → JsString
  | .id uuid => ofText uuid
  | .json m => m.text

/-- An identifier does not open with a brace, and a message has a JSON body. -/
def Text.Plain : Text → Prop
  | .id uuid => (ofText uuid).head? ≠ some (unit '\x7b')
  | .json m => m.Storable

instance (t : Text) : Decidable t.Plain := by
  cases t <;> unfold Text.Plain <;> infer_instance

theorem Text.text_injective {t t' : Text} (h : t.Plain) (h' : t'.Plain) (heq : t.text = t'.text) : t = t' := by
  cases t with
  | id uuid =>
    cases t' with
    | id uuid' => exact congrArg Text.id (ofText_injective heq)
    | json m =>
      rw [Text.text, Text.text] at heq
      rw [Text.Plain, heq] at h
      exact absurd m.head?_text h
  | json m =>
    cases t' with
    | id uuid =>
      rw [Text.text, Text.text] at heq
      rw [Text.Plain, ← heq] at h'
      exact absurd m.head?_text h'
    | json m' => exact congrArg Text.json (Message.text_injective h h' heq)

/-- The texts of sorted sets in the order of their code units. -/
def byText (lt : JsString → JsString → Bool) (t t' : Text) : Bool := lt t.text t'.text

/-! ## Types of keys -/

/-- The type of the values under keys of a type, where lists, sorted sets and hashes of messages are concerned. -/
def kindOf : ERedisKey → Kind
  | .keyQueuePriority | .keyQueueScheduled => .zset
  | .keyScheduledMessages | .keyPendingMessagesWithPriority => .hash
  | _ => .list

/-- The type of the values under a key, by the number in its text. -/
def kind (key : String) : Kind :=
  let type := (getSegments key).type
  if type = some ERedisKey.keyQueuePriority.number ∨ type = some ERedisKey.keyQueueScheduled.number then .zset
  else if type = some ERedisKey.keyScheduledMessages.number ∨
    type = some ERedisKey.keyPendingMessagesWithPriority.number then .hash
  else .list

theorem kind_text {key : RedisKey} (h : Separable key) : kind (text key) = kindOf key.type := by
  simp only [kind, getSegments_text h]
  cases key.type <;> rfl

/-! ## Commands -/

/-- The command with its texts. -/
def Cmd.command : Cmd → Option (Command String JsString)
  | .rpush key m => some (.rpush (text key) m.text)
  | .lpush key m => some (.lpush (text key) m.text)
  | .lrem key m => some (.lrem (text key) m.text)
  | .rpoplpush source destination => some (.rpoplpush (text source) (text destination))
  | .lpoprpush source destination => some (.lmove (text source) (text destination))
  | .zadd key score t => some (.zadd (text key) score t.text)
  | .zrem key t => some (.zrem (text key) t.text)
  | .hset key field m => some (.hset (text key) field.text m.text)
  | .hdel key field => some (.hdel (text key) field.text)
  | .del key => some (.del (text key))
  | .sadd .. | .srem .. | .hsetIndex .. | .hdelIndex .. | .hsetHeartbeat .. | .hdelHeartbeat .. => none

/-- The parts of the key can be told from its text, and it is used with its type. -/
def UsedAs (kind : Kind) (key : RedisKey) : Prop := Separable key ∧ kindOf key.type = kind

/-- Keys are used with their types, and texts can be told apart. -/
def Cmd.WellFormed : Cmd → Prop
  | .rpush key m | .lpush key m | .lrem key m => UsedAs .list key ∧ m.Storable
  | .rpoplpush source destination | .lpoprpush source destination => UsedAs .list source ∧ UsedAs .list destination
  | .zadd key _ t | .zrem key t => UsedAs .zset key ∧ t.Plain
  | .hset key field m => UsedAs .hash key ∧ field.Plain ∧ m.Storable
  | .hdel key field => UsedAs .hash key ∧ field.Plain
  | .del key => Separable key
  | _ => False

/-! ## Stores -/

/-- The texts of the database can be told apart. -/
structure Db.Readable (db : Db) : Prop where
  lists : ∀ key, ∀ m ∈ db.lists key, m.Storable
  zsets : ∀ key, ∀ t ∈ (db.zsets key).members, t.Plain
  hashes : ∀ key field m, db.hashes key field = some m → m.Storable

/-- The stores hold the texts of the database. -/
structure Stored (v : Views String JsString) (db : Db) : Prop where
  lists : ∀ key, Separable key → v.lists (text key) = (db.lists key).map Message.text
  zsets : ∀ key, Separable key → SortedSet.Image Text.text (db.zsets key) (v.zsets (text key))
  hashes : ∀ key, Separable key → ∀ field : Text, field.Plain →
    v.hashes (text key) field.text = (db.hashes key field).map Message.text

theorem readable_empty : Db.empty.Readable :=
  ⟨fun _ _ h => (by cases h), fun _ _ h => (by cases h), fun _ _ _ h => (by cases h)⟩

theorem stored_empty : Stored (KeySpace.empty : KeySpace String JsString).views .empty :=
  ⟨fun _ _ => rfl, fun _ _ => rfl, fun _ _ _ _ => rfl⟩

section

variable {v : Views String JsString} {db : Db} {key : RedisKey} {lt : JsString → JsString → Bool}

/-- What is set at the text of a key is set at the key. -/
theorem update_text {α β : Type} {R : β → α → Prop} {F : String → β} {G : RedisKey → α} {b : β} {a : α}
    (hkey : Separable key) (h : ∀ k, Separable k → R (F (text k)) (G k)) (hab : R b a) :
    ∀ k, Separable k → R (Function.update F (text key) b (text k)) (Function.update G key a k) := by
  intro k hk
  by_cases heq : k = key
  · subst heq
    rw [Function.update_self, Function.update_self]
    exact hab
  · have hne : text k ≠ text key := fun htext => heq (text_injective hk hkey htext)
    rw [Function.update_of_ne hne, Function.update_of_ne heq]
    exact h k hk

theorem Stored.setList {l : List Message} (h : Stored v db) (hkey : Separable key) :
    Stored (v.setList (text key) (l.map Message.text)) (db.setList key l) where
  lists := @update_text key _ _ (fun b (a : List Message) => b = a.map Message.text) _ _ _ _ hkey h.lists rfl
  zsets := h.zsets
  hashes := h.hashes

theorem Stored.setZset {z : SortedSet Text} {z' : SortedSet JsString} (h : Stored v db) (hkey : Separable key)
    (hz : z.Image Text.text z') : Stored (v.setZset (text key) z') (db.setZset key z) where
  lists := h.lists
  zsets := @update_text key _ _ (fun b a => SortedSet.Image Text.text a b) _ _ _ _ hkey h.zsets hz
  hashes := h.hashes

theorem Stored.setHash {field : Text} {m : Option Message} (h : Stored v db) (hkey : Separable key) (hf : field.Plain) :
    Stored (v.setHash (text key) field.text (m.map Message.text)) (db.setHash key field m) where
  lists := h.lists
  zsets := h.zsets
  hashes := by
    refine @update_text key _ _ (fun (b : JsString → Option JsString) (a : Text → Option Message) => ∀ field : Text, field.Plain → b field.text = (a field).map Message.text) _ _
      _ _ hkey h.hashes fun field' hf' => ?_
    by_cases heq : field' = field
    · subst heq
      rw [Function.update_self, Function.update_self]
    · have hne : field'.text ≠ field.text := fun htext => heq (Text.text_injective hf' hf htext)
      rw [Function.update_of_ne hne, Function.update_of_ne heq]
      exact h.hashes key hkey field' hf'

theorem Db.Readable.setList {l : List Message} (h : db.Readable) (hl : ∀ m ∈ l, m.Storable) :
    (db.setList key l).Readable where
  lists k m hm := by
    by_cases hk : k = key
    · subst hk
      rw [Db.setList_lists, Function.update_self] at hm
      exact hl m hm
    · rw [Db.setList_lists, Function.update_of_ne hk] at hm
      exact h.lists k m hm
  zsets := h.zsets
  hashes := h.hashes

theorem Db.Readable.setZset {z : SortedSet Text} (h : db.Readable) (hz : ∀ t ∈ z.members, t.Plain) :
    (db.setZset key z).Readable where
  lists := h.lists
  zsets k t ht := by
    by_cases hk : k = key
    · subst hk
      rw [Db.setZset_zsets, Function.update_self] at ht
      exact hz t ht
    · rw [Db.setZset_zsets, Function.update_of_ne hk] at ht
      exact h.zsets k t ht
  hashes := h.hashes

theorem Db.Readable.setHash {field : Text} {m : Option Message} (h : db.Readable) (hm : ∀ m', m = some m' → m'.Storable) :
    (db.setHash key field m).Readable where
  lists := h.lists
  zsets := h.zsets
  hashes k f m' hm' := by
    rw [Db.setHash_hashes] at hm'
    by_cases hk : k = key
    · subst hk
      rw [Function.update_self] at hm'
      by_cases hf : f = field
      · subst hf
        rw [Function.update_self] at hm'
        exact hm m' hm'
      · rw [Function.update_of_ne hf] at hm'
        exact h.hashes k f m' hm'
    · rw [Function.update_of_ne hk] at hm'
      exact h.hashes k f m' hm'

/-- An image is removed with the element, when it is the image of no other one. -/
theorem map_erase_of_unique {α β : Type} [DecidableEq α] [DecidableEq β] {f : α → β} {l : List α} {a : α}
    (h : ∀ b ∈ l, f b = f a → b = a) : (l.erase a).map f = (l.map f).erase (f a) := by
  induction l with
  | nil => rfl
  | cons b l ih =>
    obtain ⟨hb, hl⟩ := List.forall_mem_cons.mp h
    by_cases heq : b = a
    · subst heq
      rw [List.erase_cons_head, List.map_cons, List.erase_cons_head]
    · rw [List.erase_cons_tail (by simpa using heq), List.map_cons, List.map_cons,
        List.erase_cons_tail (by simpa using mt hb heq), ih hl]

/-- The text of a message moves with the message. -/
theorem stored_rpoplpush {source destination : RedisKey} (hs : Stored v db) (hr : db.Readable) (h : Separable source)
    (h' : Separable destination) : Stored (v.exec lt (.rpoplpush (text source) (text destination)))
      (db.rpoplpush source destination) ∧ (db.rpoplpush source destination).Readable := by
  have hlast : (v.lists (text source)).getLast? = (db.lists source).getLast?.map Message.text := by
    rw [hs.lists source h, List.getLast?_map]
  simp only [Views.exec, Db.rpoplpush, hlast]
  cases hm : (db.lists source).getLast? with
  | none => exact ⟨hs, hr⟩
  | some m =>
    have hmem := List.mem_of_getLast? hm
    have hs₁ : Stored (v.setList (text source) (v.lists (text source)).dropLast)
        (db.setList source (db.lists source).dropLast) := by
      rw [hs.lists source h, ← List.map_dropLast]
      exact hs.setList h
    have hr₁ : (db.setList source (db.lists source).dropLast).Readable :=
      hr.setList fun m' hm' => hr.lists source m' (List.dropLast_subset _ hm')
    refine ⟨?_, hr₁.setList fun m' hm' => ?_⟩
    · have hs₂ := @Stored.setList _ _ _ (m :: (db.setList source (db.lists source).dropLast).lists destination) hs₁ h'
      rw [List.map_cons, ← hs₁.lists destination h'] at hs₂
      exact hs₂
    · rcases List.mem_cons.mp hm' with rfl | hm'
      · exact hr.lists source _ hmem
      · exact hr₁.lists destination m' hm'

theorem stored_lmove {source destination : RedisKey} (hs : Stored v db) (hr : db.Readable) (h : Separable source)
    (h' : Separable destination) : Stored (v.exec lt (.lmove (text source) (text destination)))
      (db.lpoprpush source destination) ∧ (db.lpoprpush source destination).Readable := by
  have hlist := hs.lists source h
  simp only [Views.exec, Db.lpoprpush]
  cases hm : db.lists source with
  | nil =>
    rw [hm] at hlist
    rw [hlist]
    exact ⟨hs, hr⟩
  | cons m rest =>
    rw [hm] at hlist
    rw [hlist]
    have hs₁ : Stored (v.setList (text source) (rest.map Message.text)) (db.setList source rest) := hs.setList h
    have hall := hr.lists source
    rw [hm] at hall
    obtain ⟨hfirst, hrest⟩ := List.forall_mem_cons.mp hall
    have hr₁ : (db.setList source rest).Readable := hr.setList hrest
    refine ⟨?_, hr₁.setList fun m' hm' => ?_⟩
    · have hs₂ := @Stored.setList _ _ _ ((db.setList source rest).lists destination ++ [m]) hs₁ h'
      rw [List.map_append, ← hs₁.lists destination h'] at hs₂
      exact hs₂
    · rcases List.mem_append.mp hm' with hm' | hm'
      · exact hr₁.lists destination m' hm'
      · cases List.mem_singleton.mp hm'
        exact hfirst

/-- **A command and its texts** do the same. -/
theorem stored_exec (hs : Stored v db) (hr : db.Readable) {c : Cmd} (hc : c.WellFormed) :
    ∃ command, c.command = some command ∧ command.Fits kind ∧ Stored (v.exec lt command) (db.exec (byText lt) c) ∧
      (db.exec (byText lt) c).Readable := by
  have hfits : ∀ {k key}, UsedAs k key → kind (text key) = k := fun h => (kind_text h.1).trans h.2
  cases c with
  | rpush key m =>
    obtain ⟨hkey, hm⟩ := hc
    refine ⟨_, rfl, fun p hp => ?_, ?_, hr.setList fun m' hm' => ?_⟩
    · cases List.mem_singleton.mp hp
      exact hfits hkey
    · have hset := @Stored.setList _ _ _ (db.lists key ++ [m]) hs hkey.1
      rw [List.map_append, ← hs.lists key hkey.1] at hset
      exact hset
    · rcases List.mem_append.mp hm' with hm' | hm'
      · exact hr.lists key m' hm'
      · cases List.mem_singleton.mp hm'
        exact hm
  | lpush key m =>
    obtain ⟨hkey, hm⟩ := hc
    refine ⟨_, rfl, fun p hp => ?_, ?_, hr.setList fun m' hm' => ?_⟩
    · cases List.mem_singleton.mp hp
      exact hfits hkey
    · have hset := @Stored.setList _ _ _ (m :: db.lists key) hs hkey.1
      rw [List.map_cons, ← hs.lists key hkey.1] at hset
      exact hset
    · rcases List.mem_cons.mp hm' with rfl | hm'
      · exact hm
      · exact hr.lists key m' hm'
  | lrem key m =>
    obtain ⟨hkey, hm⟩ := hc
    refine ⟨_, rfl, fun p hp => ?_, ?_, hr.setList fun m' hm' => hr.lists key m' (List.mem_of_mem_erase hm')⟩
    · cases List.mem_singleton.mp hp
      exact hfits hkey
    · have hset := @Stored.setList _ _ _ ((db.lists key).erase m) hs hkey.1
      rw [map_erase_of_unique fun m' hm' => Message.text_injective (hr.lists key m' hm') hm, ← hs.lists key hkey.1] at hset
      exact hset
  | rpoplpush source destination =>
    obtain ⟨hsource, hdestination⟩ := hc
    refine ⟨_, rfl, fun p hp => ?_, stored_rpoplpush hs hr hsource.1 hdestination.1⟩
    rcases List.mem_pair.mp hp with rfl | rfl
    · exact hfits hsource
    · exact hfits hdestination
  | lpoprpush source destination =>
    obtain ⟨hsource, hdestination⟩ := hc
    refine ⟨_, rfl, fun p hp => ?_, stored_lmove hs hr hsource.1 hdestination.1⟩
    rcases List.mem_pair.mp hp with rfl | rfl
    · exact hfits hsource
    · exact hfits hdestination
  | zadd key score t =>
    obtain ⟨hkey, ht⟩ := hc
    have himage := (hs.zsets key hkey.1).zadd (fun t' ht' => Text.text_injective (hr.zsets key t' ht') ht) lt score
    refine ⟨_, rfl, fun p hp => ?_, hs.setZset hkey.1 himage, hr.setZset fun t' ht' => ?_⟩
    · cases List.mem_singleton.mp hp
      exact hfits hkey
    · rcases SortedSet.mem_zadd.mp ht' with rfl | ht'
      · exact ht
      · exact hr.zsets key t' ht'
  | zrem key t =>
    obtain ⟨hkey, ht⟩ := hc
    have himage := (hs.zsets key hkey.1).zrem fun t' ht' => Text.text_injective (hr.zsets key t' ht') ht
    refine ⟨_, rfl, fun p hp => ?_, hs.setZset hkey.1 himage, hr.setZset fun t' ht' => ?_⟩
    · cases List.mem_singleton.mp hp
      exact hfits hkey
    · exact hr.zsets key t' (SortedSet.mem_zrem.mp ht').2
  | hset key field m =>
    obtain ⟨hkey, hfield, hm⟩ := hc
    refine ⟨_, rfl, fun p hp => ?_, @Stored.setHash _ _ _ _ (some m) hs hkey.1 hfield, hr.setHash fun m' hm' => ?_⟩
    · cases List.mem_singleton.mp hp
      exact hfits hkey
    · cases hm'
      exact hm
  | hdel key field =>
    obtain ⟨hkey, hfield⟩ := hc
    refine ⟨_, rfl, fun p hp => ?_, @Stored.setHash _ _ _ _ none hs hkey.1 hfield, hr.setHash fun m' hm' => ?_⟩
    · cases List.mem_singleton.mp hp
      exact hfits hkey
    · cases hm'
  | del key =>
    have hkey : Separable key := hc
    refine ⟨_, rfl, fun p hp => (by cases hp), ⟨?_, ?_, ?_⟩, ⟨fun k m hm => ?_, fun k t ht => ?_, fun k f m hm => ?_⟩⟩
    · exact @update_text key _ _ (fun b (a : List Message) => b = a.map Message.text) _ _ _ _ hkey hs.lists rfl
    · exact @update_text key _ _ (fun b a => SortedSet.Image Text.text a b) _ _ _ _ hkey hs.zsets
        (SortedSet.image_empty _)
    · exact @update_text key _ _ (fun (b : JsString → Option JsString) (a : Text → Option Message) => ∀ field : Text, field.Plain → b field.text = (a field).map Message.text)
        _ _ _ _ hkey hs.hashes fun _ _ => rfl
    · by_cases hk : k = key
      · subst hk
        simp [Db.exec] at hm
      · exact hr.lists k m (by simpa [Db.exec, hk] using hm)
    · by_cases hk : k = key
      · subst hk
        simp [Db.exec] at ht
      · exact hr.zsets k t (by simpa [Db.exec, hk] using ht)
    · by_cases hk : k = key
      · subst hk
        simp [Db.exec] at hm
      · exact hr.hashes k f m (by simpa [Db.exec, hk] using hm)
  | sadd | srem | hsetIndex | hdelIndex | hsetHeartbeat | hdelHeartbeat => exact hc.elim

/-- A key space that holds the texts of a database, each under a key of its type. -/
structure Holds (ks : KeySpace String JsString) (db : Db) : Prop where
  typed : ks.Typed kind
  stored : Stored ks.views db
  readable : db.Readable

theorem holds_empty : Holds .empty .empty := ⟨typed_empty kind, stored_empty, readable_empty⟩

/-- **Commands** that are well formed have texts, these do not fail, and they do the same. -/
theorem holds_execAll {ks : KeySpace String JsString} (h : Holds ks db) {cmds : List Cmd}
    (hc : ∀ c ∈ cmds, c.WellFormed) : ∃ commands ks', cmds.mapM Cmd.command = some commands ∧
      ks.execAll lt commands = .ok ks' ∧ Holds ks' (db.execAll (byText lt) cmds) := by
  induction cmds generalizing ks db with
  | nil => exact ⟨[], ks, rfl, rfl, h⟩
  | cons c cmds ih =>
    obtain ⟨command, hcommand, hfits, hstored, hreadable⟩ :=
      @stored_exec _ _ lt h.stored h.readable c (hc c List.mem_cons_self)
    obtain ⟨ks₁, hks₁, htyped, hviews⟩ := @exec_typed _ _ _ _ kind ks lt h.typed command hfits
    have h₁ : Holds ks₁ (db.exec (byText lt) c) := ⟨htyped, hviews ▸ hstored, hreadable⟩
    obtain ⟨commands, ks₂, hcommands, hks₂, h₂⟩ := ih h₁ fun c' hc' => hc c' (List.mem_cons_of_mem _ hc')
    refine ⟨command :: commands, ks₂, ?_, ?_, h₂⟩
    · rw [List.mapM_cons, hcommand, hcommands]
      rfl
    · rw [KeySpace.execAll, List.foldlM_cons, hks₁]
      exact hks₂

end

end RedisSmq
