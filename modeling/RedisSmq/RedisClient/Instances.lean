import RedisSmq.Lib.Machine
import RedisSmq.RedisClient.ListMove

/-!
# New clients

`RedisClient.getNewInstance` hands a client out when the version of the server is known and the scripts are loaded. Both
are kept for all clients of the process, so a client that finds them does not ask. Clients may be on their way at the same
time, and load the same scripts; the server may be restarted, and forgets them.

- `provided_reachable`: a client that is handed out finds the version and the identifiers of all scripts: neither
  `validateRedisVersion` nor `getScriptId` throws, in any run;
- `found_reachable`: as long as the server is not restarted, it has the script that the client calls;
- `forgotten_reachable`: a restart after the scripts were loaded is final. No client of the process loads them again,
  and every call of a script fails.
-/

namespace RedisSmq.RedisClient

open ListKeys Transition

/-! ## Scripts -/

inductive ELuaScriptName
  | zpoprpush | lpoprpush | zpophgetrpush | zpushhset
deriving DecidableEq

/-- The scripts in the order of `scriptsMap`. -/
def scriptsMap : List ELuaScriptName := [.zpoprpush, .zpophgetrpush, .zpushhset, .lpoprpush]

/-- What the clients of a process share: the static members of `RedisClient`, and the identifiers in `scriptsMap`. -/
structure Statics where
  redisServerVersion : Option Version := none
  scriptsLoaded : Bool := false
  id : ELuaScriptName → Option String := fun _ => none

def Statics.setId (s : Statics) (name : ELuaScriptName) (sha : String) : Statics :=
  { s with id := Function.update s.id name (some sha) }

@[simp] theorem Statics.id_setId_self (s : Statics) (name : ELuaScriptName) (sha : String) :
    (s.setId name sha).id name = some sha := Function.update_self ..

theorem Statics.id_setId_of_ne {name name' : ELuaScriptName} (h : name' ≠ name) (s : Statics) (sha : String) :
    (s.setId name sha).id name' = s.id name' := Function.update_of_ne h ..

def getScriptId (s : Statics) (name : ELuaScriptName) : Except String String :=
  let missing := "ID of script [" ++ toString name.ctorIdx ++ "] is missing"
  match s.id name with
  | none => .error missing
  | some id => if id.isEmpty then .error missing else .ok id

/-! ## Clients on their way -/

/-- The reply of `SCRIPT LOAD`; an empty text stands for no identifier. -/
abbrev Reply := Except String String

/-- A client loads its scripts one by one: the request of the first is sent, or its reply is there. An error that is thrown
ends the process, or its handler of uncaught exceptions lets the other clients go on. -/
inductive Phase
  | connecting
  | asking
  | loading (script : ELuaScriptName) (rest : List ELuaScriptName)
  | answered (script : ELuaScriptName) (rest : List ELuaScriptName) (reply : Reply)
  | handedOut
  | thrown (error : String)
deriving DecidableEq

/-- The first request of the tasks of `loadScripts`. -/
def sendTasks : List ELuaScriptName → Phase
  | [] => .handedOut
  | script :: rest => .loading script rest

/-- `RedisClient.loadScripts`. -/
def loadScripts (s : Statics) : Phase := if s.scriptsLoaded then .handedOut else sendTasks scriptsMap

/-- `RedisClient.updateServerVersion`, and what comes next when the version is known. -/
def updateServerVersion (s : Statics) : Phase := if s.redisServerVersion.isNone then .asking else loadScripts s

/-- The callback of `info`, with the version that the reply reports; an error is thrown. -/
def handleInfo (s : Statics) : Except String Version → Statics × Phase
  | .error error => (s, .thrown error)
  | .ok version =>
    let s := { s with redisServerVersion := some version }
    (s, loadScripts s)

/-- The callback of `loadScript`. After the last script the client is handed out; `getNewInstance` throws an error. -/
def handleReply (s : Statics) (script : ELuaScriptName) (rest : List ELuaScriptName) : Reply → Statics × Phase
  | .error error => (s, .thrown error)
  | .ok sha =>
    if sha.isEmpty then (s, .thrown "Expected a non-empty reply")
    else
      let s := s.setId script sha
      match rest with
      | [] => ({ s with scriptsLoaded := true }, .handedOut)
      | script :: rest => (s, .loading script rest)

/-! ## The process and its server -/

/-- The shared members, the clients of the process, and the identifiers of the scripts that the server has. -/
structure State where
  statics : Statics := {}
  clients : List Phase := []
  cache : List String := []

inductive Action
  | getNewInstance
  | ready (i : ℕ)
  | info (i : ℕ) (reply : Except String Version)
  | serve (i : ℕ)
  | fail (i : ℕ) (error : Option String)
  | reply (i : ℕ)
  | restart
deriving DecidableEq

section Step

/-- A client changes its phase and the shared members. -/
def State.become (s : State) (i : ℕ) (p : Statics × Phase) : State :=
  { s with statics := p.1, clients := s.clients.set i p.2 }

-- the server identifies a script by the hash of its content
variable (sha : ELuaScriptName → String)

def step (s : State) : Action → Option State
  | .getNewInstance => some { s with clients := s.clients ++ [.connecting] }
  | .ready i =>
    match s.clients[i]? with
    | some .connecting => some (s.become i (s.statics, updateServerVersion s.statics))
    | _ => none
  | .info i reply =>
    match s.clients[i]? with
    | some .asking => some (s.become i (handleInfo s.statics reply))
    | _ => none
  | .serve i =>
    match s.clients[i]? with
    | some (.loading script rest) =>
      some { s.become i (s.statics, .answered script rest (.ok (sha script))) with cache := sha script :: s.cache }
    | _ => none
  | .fail i error =>
    match s.clients[i]? with
    | some (.loading script rest) =>
      some (s.become i (s.statics, .answered script rest (error.elim (.ok "") .error)))
    | _ => none
  | .reply i =>
    match s.clients[i]? with
    | some (.answered script rest reply) => some (s.become i (handleReply s.statics script rest reply))
    | _ => none
  | .restart => some { s with cache := [] }

def system : Machine State Action where
  init := {}
  step := step sha

end Step

/-- `evalsha` of a script: its identifier, and whether the server has it. -/
def evalsha (s : State) (name : ELuaScriptName) : Except String Unit := do
  let id ← getScriptId s.statics name
  if id ∈ s.cache then return () else throw "NOSCRIPT No matching script. Please use EVAL."

section

variable {sha : ELuaScriptName → String} {s s' t : State} {st st' : Statics} {p : Phase} {i : ℕ} {a : Action}
variable {name script : ELuaScriptName} {rest : List ELuaScriptName} {cache : List String}

/-! ## What is known -/

/-- The identifier of a script was stored. -/
def Statics.Has (sha : ELuaScriptName → String) (st : Statics) (name : ELuaScriptName) : Prop :=
  st.id name = some (sha name) ∧ sha name ≠ ""

/-- The version is known, and the identifiers of all scripts but the ones that are left. -/
def Statics.Knows (sha : ELuaScriptName → String) (st : Statics) (left : List ELuaScriptName) : Prop :=
  st.redisServerVersion.isSome = true ∧ ∀ name, name ∉ left → st.Has sha name

/-- What a client has found. A reply that is there has the identifier of its script, or none. -/
def Phase.Found (sha : ELuaScriptName → String) (st : Statics) : Phase → Prop
  | .connecting | .asking | .thrown _ => True
  | .loading script rest => st.Knows sha (script :: rest)
  | .answered script rest reply => st.Knows sha (script :: rest) ∧ ∀ id, reply = .ok id → id = "" ∨ id = sha script
  | .handedOut => st.Knows sha []

/-- The shared members only grow. -/
structure Statics.Grows (sha : ELuaScriptName → String) (st st' : Statics) : Prop where
  version : st.redisServerVersion.isSome = true → st'.redisServerVersion.isSome = true
  id : ∀ name, st.Has sha name → st'.Has sha name

/-- The scripts are loaded when all identifiers are stored, and every client has found what its phase needs. -/
structure Inv (sha : ELuaScriptName → String) (s : State) : Prop where
  loaded : s.statics.scriptsLoaded = true → ∀ name, s.statics.Has sha name
  clients : ∀ p ∈ s.clients, p.Found sha s.statics

theorem mem_scriptsMap : ∀ name, name ∈ scriptsMap := by
  intro name
  cases name <;> decide

theorem Statics.Grows.refl (st : Statics) : st.Grows sha st := ⟨fun h => h, fun _ h => h⟩

theorem Statics.Knows.grows {left : List ELuaScriptName} (h : st.Knows sha left) (hg : st.Grows sha st') :
    st'.Knows sha left := ⟨hg.version h.1, fun name hname => hg.id name (h.2 name hname)⟩

theorem Phase.Found.grows (h : p.Found sha st) (hg : st.Grows sha st') : p.Found sha st' := by
  cases p with
  | connecting | asking | thrown => trivial
  | loading => exact Statics.Knows.grows h hg
  | answered => exact ⟨h.1.grows hg, h.2⟩
  | handedOut => exact Statics.Knows.grows h hg

/-- Storing an identifier. -/
theorem Statics.Grows.setId (hsha : sha script ≠ "") : st.Grows sha (st.setId script (sha script)) := by
  refine ⟨fun h => h, fun name h => ⟨?_, h.2⟩⟩
  by_cases hname : name = script
  · subst hname
    exact st.id_setId_self ..
  · rw [st.id_setId_of_ne hname]
    exact h.1

theorem Statics.has_setId (hsha : sha script ≠ "") : (st.setId script (sha script)).Has sha script :=
  ⟨st.id_setId_self .., hsha⟩

/-! ## Steps -/

/-- What a step does: a client appears, a client in the right phase goes on, or the server is restarted. -/
inductive Effect (sha : ELuaScriptName → String) (s : State) : Action → State → Prop
  | created : Effect sha s .getNewInstance { s with clients := s.clients ++ [.connecting] }
  | ready {i : ℕ} : .connecting ∈ s.clients →
    Effect sha s (.ready i) (s.become i (s.statics, updateServerVersion s.statics))
  | info {i : ℕ} {reply : Except String Version} : .asking ∈ s.clients →
    Effect sha s (.info i reply) (s.become i (handleInfo s.statics reply))
  | served {i : ℕ} {script : ELuaScriptName} {rest : List ELuaScriptName} : .loading script rest ∈ s.clients →
    Effect sha s (.serve i)
      { s.become i (s.statics, .answered script rest (.ok (sha script))) with cache := sha script :: s.cache }
  | failed {i : ℕ} {script : ELuaScriptName} {rest : List ELuaScriptName} {error : Option String} :
    .loading script rest ∈ s.clients →
    Effect sha s (.fail i error) (s.become i (s.statics, .answered script rest (error.elim (.ok "") .error)))
  | replied {i : ℕ} {script : ELuaScriptName} {rest : List ELuaScriptName} {reply : Reply} :
    .answered script rest reply ∈ s.clients →
    Effect sha s (.reply i) (s.become i (handleReply s.statics script rest reply))
  | restarted : Effect sha s .restart { s with cache := [] }

theorem step_effect (hs : step sha s a = some s') : Effect sha s a s' := by
  cases a with
  | getNewInstance =>
    cases hs
    exact .created
  | restart =>
    cases hs
    exact .restarted
  | _ =>
    simp only [RedisClient.step] at hs
    split at hs <;> cases hs
    rename_i hp
    constructor
    exact List.mem_of_getElem? hp

/-- A client that has the version loads the scripts that are not loaded. -/
theorem found_loadScripts (hloaded : st.scriptsLoaded = true → ∀ name, st.Has sha name)
    (hversion : st.redisServerVersion.isSome = true) : (loadScripts st).Found sha st := by
  unfold loadScripts
  split
  · rename_i h
    exact ⟨hversion, fun name _ => hloaded h name⟩
  · exact ⟨hversion, fun name hname => absurd (mem_scriptsMap name) hname⟩

/-- A change of a phase by a client that has found what the phase needs. -/
theorem Inv.become {q : Statics × Phase} (hi : Inv sha s) (hg : s.statics.Grows sha q.1)
    (hloaded : q.1.scriptsLoaded = true → ∀ name, q.1.Has sha name) (hq : q.2.Found sha q.1) :
    Inv sha (s.become i q) := by
  refine ⟨hloaded, fun p hp => ?_⟩
  rcases List.mem_or_eq_of_mem_set hp with hp | rfl
  · exact (hi.clients p hp).grows hg
  · exact hq

theorem Inv.setCache (hi : Inv sha s) (cache : List String) : Inv sha { s with cache := cache } :=
  ⟨hi.loaded, hi.clients⟩

/-- The callback of `info` keeps what is known. -/
theorem Inv.info (hi : Inv sha s) (reply : Except String Version) :
    Inv sha (s.become i (handleInfo s.statics reply)) := by
  cases reply with
  | error => exact hi.become (.refl _) hi.loaded trivial
  | ok version => exact hi.become ⟨fun _ => rfl, fun _ h => h⟩ hi.loaded (found_loadScripts hi.loaded rfl)

/-- The callback of `loadScript` stores an identifier, and sets the flag after the last one. -/
theorem Inv.reply {reply : Reply} (hi : Inv sha s) (hfound : (Phase.answered script rest reply).Found sha s.statics) :
    Inv sha (s.become i (handleReply s.statics script rest reply)) := by
  obtain ⟨hknows, hreply⟩ := hfound
  cases reply with
  | error => exact hi.become (.refl _) hi.loaded trivial
  | ok id =>
    simp only [handleReply]
    split
    · exact hi.become (.refl _) hi.loaded trivial
    · rename_i hne
      have hid : id = sha script := (hreply id rfl).resolve_left fun h => hne (by rw [h]; rfl)
      subst hid
      have hsha : sha script ≠ "" := fun h => hne (by rw [h]; rfl)
      have hg : s.statics.Grows sha (s.statics.setId script (sha script)) := .setId hsha
      have hleft : ∀ name, name ∉ rest → (s.statics.setId script (sha script)).Has sha name := by
        intro name hname
        by_cases heq : name = script
        · subst heq
          exact Statics.has_setId hsha
        · exact hg.id name (hknows.2 name (List.not_mem_cons_of_ne_of_not_mem heq hname))
      cases rest with
      | nil =>
        have hall : ∀ name, (s.statics.setId script (sha script)).Has sha name := fun name => hleft name List.not_mem_nil
        exact hi.become ⟨hg.version, hg.id⟩ (fun _ => hall) ⟨hknows.1, fun name _ => hall name⟩
      | cons next rest =>
        exact hi.become hg (fun h name => hg.id name (hi.loaded h name)) ⟨hknows.1, hleft⟩

theorem Inv.step (hi : Inv sha s) (hs : step sha s a = some s') : Inv sha s' := by
  cases step_effect hs with
  | created =>
    refine ⟨hi.loaded, fun p hp => ?_⟩
    rcases List.mem_append.mp hp with hp | hp
    · exact hi.clients p hp
    · rw [List.mem_singleton.mp hp]
      trivial
  | ready =>
    refine hi.become (.refl _) hi.loaded ?_
    dsimp only
    unfold updateServerVersion
    split
    · trivial
    · rename_i hversion
      exact found_loadScripts hi.loaded (Option.isSome_iff_ne_none.mpr fun h =>
        hversion (Option.isNone_iff_eq_none.mpr h))
  | info => exact hi.info _
  | @served i script rest hp =>
    have hfound : (Phase.loading script rest).Found sha s.statics := hi.clients _ hp
    have hanswered : (Phase.answered script rest (.ok (sha script))).Found sha s.statics := by
      refine ⟨hfound, fun id h => ?_⟩
      cases h
      exact .inr rfl
    have hbecome : Inv sha (s.become i (s.statics, .answered script rest (.ok (sha script)))) :=
      hi.become (.refl _) hi.loaded hanswered
    exact hbecome.setCache _
  | @failed i script rest error hp =>
    have hfound : (Phase.loading script rest).Found sha s.statics := hi.clients _ hp
    refine hi.become (.refl _) hi.loaded ⟨hfound, fun id h => ?_⟩
    cases error <;> cases h
    exact .inl rfl
  | replied hp => exact hi.reply (hi.clients _ hp)
  | restarted => exact hi.setCache []

theorem inv_reachable {P : State → Action → Prop} (h : Reach (system sha) P s) : Inv sha s :=
  h.invariant ⟨fun h => (by cases h), fun _ hp => (by cases hp)⟩ fun _ _ _ hi _ hs => hi.step hs

theorem getScriptId_has (h : st.Has sha name) : getScriptId st name = .ok (sha name) := by
  have hne : (sha name).isEmpty = false := by
    rw [Bool.eq_false_iff]
    exact fun hempty => h.2 (String.isEmpty_iff.mp hempty)
  simp only [getScriptId, h.1, hne, Bool.false_eq_true, if_false]

/-- **A client that is handed out finds what it needs**, in every run: the version of the server and the identifiers of
all scripts, so no call throws. -/
theorem provided_reachable {P : State → Action → Prop} (h : Reach (system sha) P s) (hc : .handedOut ∈ s.clients) :
    (∀ name, getScriptId s.statics name = .ok (sha name)) ∧
    ∀ (source destination : String) (db : Keyspace String String),
      ListMove.clientLpoprpush s.statics.redisServerVersion source destination db =
        .ok (.ok (db.lmove source destination .left .right).1, (db.lmove source destination .left .right).2) := by
  obtain ⟨hversion, hids⟩ : s.statics.Knows sha [] := (inv_reachable h).clients _ hc
  obtain ⟨v, hv⟩ := Option.isSome_iff_exists.mp hversion
  refine ⟨fun name => getScriptId_has (hids name List.not_mem_nil), fun source destination db => ?_⟩
  rw [hv]
  exact ListMove.clientLpoprpush_eq v source destination db

/-! ## The scripts of the server -/

/-- The server has the scripts whose identifiers are stored, or are in a reply. -/
structure Cached (s : State) : Prop where
  ids : ∀ name id, s.statics.id name = some id → id ∈ s.cache
  replies : ∀ script rest id, .answered script rest (.ok id) ∈ s.clients → id ≠ "" → id ∈ s.cache

theorem loadScripts_ne {reply : Reply} : loadScripts st ≠ .answered script rest reply := by
  unfold loadScripts
  split <;> simp [sendTasks, scriptsMap]

theorem updateServerVersion_ne {reply : Reply} : updateServerVersion st ≠ .answered script rest reply := by
  unfold updateServerVersion
  split
  · exact Phase.noConfusion
  · exact loadScripts_ne

/-- A change of a phase that only stores what the server has. -/
theorem Cached.become {q : Statics × Phase} (hc : Cached s) (hids : ∀ name id, q.1.id name = some id → id ∈ s.cache)
    (hreply : ∀ script rest id, q.2 = .answered script rest (.ok id) → id ≠ "" → id ∈ s.cache) :
    Cached (s.become i q) := by
  refine ⟨hids, fun script rest id hp hne => ?_⟩
  rcases List.mem_or_eq_of_mem_set hp with hp | hp
  · exact hc.replies script rest id hp hne
  · exact hreply script rest id hp.symm hne

theorem Cached.mono (hc : Cached s) (hsub : s.cache ⊆ cache) : Cached { s with cache := cache } :=
  ⟨fun name id h => hsub (hc.ids name id h), fun script rest id hp hne => hsub (hc.replies script rest id hp hne)⟩

/-- The callback of `info` stores no identifier. -/
theorem Cached.info (hc : Cached s) (reply : Except String Version) :
    Cached (s.become i (handleInfo s.statics reply)) := by
  cases reply with
  | error => exact hc.become hc.ids fun _ _ _ h => Phase.noConfusion h
  | ok version => exact hc.become hc.ids fun _ _ _ h => absurd h loadScripts_ne

/-- The callback of `loadScript` stores an identifier that the server has replied. -/
theorem Cached.reply {reply : Reply} (hc : Cached s) (hp : .answered script rest reply ∈ s.clients) :
    Cached (s.become i (handleReply s.statics script rest reply)) := by
  cases reply with
  | error => exact hc.become hc.ids fun _ _ _ h => Phase.noConfusion h
  | ok id =>
    simp only [handleReply]
    split
    · exact hc.become hc.ids fun _ _ _ h => Phase.noConfusion h
    · rename_i hempty
      have hid : id ∈ s.cache := hc.replies script rest id hp fun h => hempty (by rw [h]; rfl)
      have hids : ∀ name id', (s.statics.setId script id).id name = some id' → id' ∈ s.cache := by
        intro name id' h
        by_cases hname : name = script
        · subst hname
          rw [Statics.id_setId_self] at h
          cases h
          exact hid
        · rw [Statics.id_setId_of_ne hname] at h
          exact hc.ids name id' h
      cases rest with
      | nil => exact hc.become hids fun _ _ _ h => Phase.noConfusion h
      | cons next rest => exact hc.become hids fun _ _ _ h => Phase.noConfusion h

theorem Cached.step (hc : Cached s) (ha : a ≠ .restart) (hs : step sha s a = some s') : Cached s' := by
  cases step_effect hs with
  | created =>
    refine ⟨hc.ids, fun script rest id hp hne => ?_⟩
    rcases List.mem_append.mp hp with hp | hp
    · exact hc.replies script rest id hp hne
    · cases List.mem_singleton.mp hp
  | ready => exact hc.become hc.ids fun _ _ _ h => absurd h updateServerVersion_ne
  | info => exact hc.info _
  | @served i script rest _ =>
    have hmono : Cached { s with cache := sha script :: s.cache } := hc.mono (List.subset_cons_self ..)
    have hreply : Cached (State.become { s with cache := sha script :: s.cache } i
        (s.statics, .answered script rest (.ok (sha script)))) := by
      refine hmono.become hmono.ids fun _ _ id h _ => ?_
      cases h
      exact List.mem_cons_self
    exact hreply
  | @failed i script rest error _ =>
    refine hc.become hc.ids fun _ _ id h hne => ?_
    cases error <;> cases h
    exact absurd rfl hne
  | replied hp => exact hc.reply hp
  | restarted => exact absurd rfl ha

/-- **The server has the scripts** that a client calls, as long as it is not restarted. -/
theorem found_reachable (h : Reach (system sha) (fun _ a => a ≠ .restart) s) (hc : .handedOut ∈ s.clients) :
    ∀ name, evalsha s name = .ok () := by
  intro name
  have hcached : Cached s := h.invariant ⟨fun _ _ h => (by cases h), fun _ _ _ hp => (by cases hp)⟩
    fun _ _ _ hi ha hs => hi.step ha hs
  have hids : s.statics.Knows sha [] := (inv_reachable h).clients _ hc
  have hhas : s.statics.Has sha name := hids.2 name List.not_mem_nil
  simp only [evalsha, getScriptId_has hhas, bind, Except.bind, if_pos (hcached.ids name _ hhas.1)]
  rfl

/-! ## Restarts of the server -/

/-- The client waits for the reply of `SCRIPT LOAD`. -/
def Phase.loads : Phase → Bool
  | .loading .. | .answered .. => true
  | .connecting | .asking | .handedOut | .thrown _ => false

/-- The scripts are loaded, and no client is about to load them. -/
structure Loaded (s : State) : Prop where
  scriptsLoaded : s.statics.scriptsLoaded = true
  idle : ∀ p ∈ s.clients, p.loads = false

theorem Loaded.become {q : Statics × Phase} (hl : Loaded s) (hloaded : q.1.scriptsLoaded = true)
    (hq : q.2.loads = false) : Loaded (s.become i q) := by
  refine ⟨hloaded, fun p hp => ?_⟩
  rcases List.mem_or_eq_of_mem_set hp with hp | rfl
  · exact hl.idle p hp
  · exact hq

theorem loadScripts_loaded (h : st.scriptsLoaded = true) : loadScripts st = .handedOut := if_pos h

/-- Clients that find the scripts loaded do not load them: the server gets no script again. -/
theorem Loaded.step (hl : Loaded s) (hcache : s.cache = []) (hs : step sha s a = some s') :
    Loaded s' ∧ s'.cache = [] := by
  cases step_effect hs with
  | created =>
    refine ⟨⟨hl.scriptsLoaded, fun p hp => ?_⟩, hcache⟩
    rcases List.mem_append.mp hp with hp | hp
    · exact hl.idle p hp
    · rw [List.mem_singleton.mp hp]
      rfl
  | ready =>
    refine ⟨hl.become hl.scriptsLoaded ?_, hcache⟩
    dsimp only
    unfold updateServerVersion
    rw [loadScripts_loaded hl.scriptsLoaded]
    split <;> rfl
  | @info i reply _ =>
    refine ⟨?_, hcache⟩
    cases reply with
    | error => exact hl.become hl.scriptsLoaded rfl
    | ok version =>
      have hnext : loadScripts { s.statics with redisServerVersion := some version } = .handedOut :=
        loadScripts_loaded hl.scriptsLoaded
      refine hl.become hl.scriptsLoaded ?_
      simp only [handleInfo, hnext]
      rfl
  | served hp | failed hp | replied hp => cases hl.idle _ hp
  | restarted => exact ⟨⟨hl.scriptsLoaded, hl.idle⟩, rfl⟩

/-- **A restart of the server is final** for the process: when the scripts were loaded, they are never loaded again, and
every call of a script fails from then on, also by new clients. -/
theorem forgotten_reachable {P Q : State → Action → Prop} (h : Reach (system sha) P s) (hl : Loaded s)
    (hs : step sha s .restart = some s') (hpath : Path (system sha) Q s' t) :
    (∀ p ∈ t.clients, p.loads = false) ∧
      ∀ name, evalsha t name = .error "NOSCRIPT No matching script. Please use EVAL." := by
  have hrestarted : Inv sha s' ∧ Loaded s' ∧ s'.cache = [] := by
    refine ⟨(inv_reachable h).step hs, ?_⟩
    cases hs
    exact ⟨⟨hl.scriptsLoaded, hl.idle⟩, rfl⟩
  obtain ⟨hi, hloaded, hcache⟩ : Inv sha t ∧ Loaded t ∧ t.cache = [] :=
    hpath.invariant (I := fun s => Inv sha s ∧ Loaded s ∧ s.cache = []) hrestarted
      fun _ _ _ hi _ hs => ⟨hi.1.step hs, hi.2.1.step hi.2.2 hs⟩
  refine ⟨hloaded.idle, fun name => ?_⟩
  have hhas : t.statics.Has sha name := hi.loaded hloaded.scriptsLoaded name
  simp only [evalsha, getScriptId_has hhas, bind, Except.bind, hcache, List.not_mem_nil, if_false]
  rfl

end

/-! ## A process with two clients -/

/-- The hashes of the scripts. -/
def sha1 : ELuaScriptName → String
  | .zpoprpush => "de19caebee7b805ae1ab7c55831b6e23b67da0a5"
  | .lpoprpush => "ca653ab541981fca729b31159aa84f33be70706a"
  | .zpophgetrpush => "3acd06a0b40612001a2ffda98633fc8443362e88"
  | .zpushhset => "af3ac435d64207a109adaf98675d754f72ccccea"

/-- Two clients are on their way at the same time; the first is handed out, the second has loaded one script. -/
def twoClients : List Action :=
  [.getNewInstance, .getNewInstance, .ready 0, .ready 1, .info 0 (.ok ⟨6, 2, 5⟩), .info 1 (.ok ⟨6, 2, 5⟩), .serve 0,
    .serve 1, .reply 1, .reply 0, .serve 0, .reply 0, .serve 0, .reply 0, .serve 0, .reply 0]

theorem provided_twoClients : ∃ s, Reach (system sha1) (fun _ a => a ≠ .restart) s ∧
    ∀ name, getScriptId s.statics name = .ok (sha1 name) := by
  have hrun : (run (system sha1) (fun _ a => a ≠ .restart) {} twoClients).map (fun s => decide (.handedOut ∈ s.clients)) =
      some true := rfl
  obtain ⟨s, hs, hc⟩ := exists_reach_of_run hrun
  exact ⟨s, hs, (provided_reachable hs (of_decide_eq_true hc)).1⟩

theorem found_twoClients : ∃ s, Reach (system sha1) (fun _ a => a ≠ .restart) s ∧ ∀ name, evalsha s name = .ok () := by
  have hrun : (run (system sha1) (fun _ a => a ≠ .restart) {} twoClients).map (fun s => decide (.handedOut ∈ s.clients)) =
      some true := rfl
  obtain ⟨s, hs, hc⟩ := exists_reach_of_run hrun
  exact ⟨s, hs, found_reachable hs (of_decide_eq_true hc)⟩

/-- The second client loads its other scripts, and the server is restarted: a third client is handed out without them. -/
theorem forgotten_twoClients : ∃ s s' t, Reach (system sha1) (fun _ _ => True) s ∧ step sha1 s .restart = some s' ∧
    Path (system sha1) (fun _ _ => True) s' t ∧ t.clients[2]? = some .handedOut ∧
    ∀ name, evalsha t name = .error "NOSCRIPT No matching script. Please use EVAL." := by
  have hrun : (run (system sha1) (fun _ _ => True) {} (twoClients ++ [.serve 1, .reply 1, .serve 1, .reply 1, .serve 1,
      .reply 1])).map (fun s => (s.statics.scriptsLoaded, s.clients.all (!·.loads),
        ((step sha1 s .restart).bind (run (system sha1) (fun _ _ => True) · [.getNewInstance, .ready 2])).map
          (·.clients[2]?))) = some (true, true, some (some .handedOut)) := rfl
  obtain ⟨s, hs, heq⟩ := exists_reach_of_run hrun
  simp only [Prod.mk.injEq] at heq
  obtain ⟨hloaded, hidle, hthird⟩ := heq
  obtain ⟨t, ht, hclient⟩ := Option.map_eq_some_iff.mp hthird
  obtain ⟨s', hs', ht⟩ := Option.bind_eq_some_iff.mp ht
  have hpath := path_of_run _ ht
  exact ⟨s, s', t, hs, hs', hpath, hclient,
    (forgotten_reachable hs ⟨hloaded, fun p hp => by simpa using List.all_eq_true.mp hidle p hp⟩ hs' hpath).2⟩

end RedisSmq.RedisClient
