import RedisSmq.Common.LockManager
import RedisSmq.Lib.Machine
import RedisSmq.Lib.Ranges
import RedisSmq.MessageText

/-!
# Deleting a message at a position

`deleteListMessageAtSequenceId` takes a lock, asks for the text at a position, compares the identifier of its message, and
asks Redis to remove the text that it writes for this message. Others push texts to the list and pop texts from it at
both ends in between.

- `system`: one call, next to the others;
- `deletesAtMostOne`: what the call removes in all its runs;
- `undisturbed`: a call next to which nothing happens removes the text that it writes, if that is in the list.
-/

namespace RedisSmq.SequenceId

open Js Transition MessageObject

/-- What the callback of `deleteListMessageAtSequenceId` is called with. -/
inductive DeleteReply
  | deleted
  | messageNotFound
  | error
deriving DecidableEq

/-- The call, before the reply that it waits for. -/
inductive Call
  | acquireLock
  | lrange
  | lrem (text : JsString)
  | quit (reply : DeleteReply)
  | done (reply : DeleteReply)
  /-- An exception that nothing catches. -/
  | crashed
deriving DecidableEq

structure State where
  list : List JsString
  call : Call

inductive Action
  | lpush (text : JsString)
  | rpush (text : JsString)
  | lpop
  | rpop
  | lockReply (answer : LockAnswer)
  /-- With what the new message takes that `createFromMessage` makes. -/
  | lrangeReply (opts : DefaultOptions) (uuid : JsString) (now : ℕ)
  | lrangeFails
  | lremReply
  /-- The request fails before Redis has removed the text, or after it has. -/
  | lremFails (removed : Bool)
  | quitReply

/-- The steps of the call, not of the others. -/
def Action.OfCall : Action → Prop
  | .lpush _ | .rpush _ | .lpop | .rpop => False
  | _ => True

/-- `===` with a string. -/
def isString (v : JsValue) (s : JsString) : Bool :=
  match v with
  | .string t => t = s
  | _ => false

/-- The callback of `lockFN`. -/
def onLock : LockAnswer → Call
  | .locked true => .lrange
  | .locked false | .error => .done .error

/-- A message that was read: whether its identifier is the given one, and the text that `message.toString()` is. -/
def onMessage (messageId : JsString) (message : List (JsString × JsValue)) : Call :=
  if isString (getId message) messageId then
    match toString message with
    | .ok text => .lrem text
    | .error _ => .crashed
  else .quit .messageNotFound

/-- `getListMessageAtSequenceId` with the reply of `LRANGE`. -/
def onLrange (messageId : JsString) (opts : DefaultOptions) (uuid : JsString) (now : ℕ) : List JsString → Call
  | [] => .quit .messageNotFound
  | msg :: _ => ((createFromMessage opts uuid now msg).map (onMessage messageId)).getD .crashed

def step (sequenceId : ℤ) (messageId : JsString) (s : State) : Action → Option State
  | .lpush text => some { s with list := text :: s.list }
  | .rpush text => some { s with list := s.list ++ [text] }
  | .lpop => some { s with list := s.list.tail }
  | .rpop => some { s with list := s.list.dropLast }
  | .lockReply answer => if s.call = .acquireLock then some { s with call := onLock answer } else none
  | .lrangeReply opts uuid now =>
    if s.call = .lrange then
      some { s with call := onLrange messageId opts uuid now (Ranges.lrange s.list sequenceId sequenceId) }
    else none
  | .lrangeFails => if s.call = .lrange then some { s with call := .quit .error } else none
  | .lremReply =>
    match s.call with
    | .lrem text => some { list := s.list.erase text, call := .quit .deleted }
    | _ => none
  | .lremFails removed =>
    match s.call with
    | .lrem text => some { list := if removed then s.list.erase text else s.list, call := .quit .error }
    | _ => none
  | .quitReply =>
    match s.call with
    | .quit reply => some { s with call := .done reply }
    | _ => none

def system (list : List JsString) (sequenceId : ℤ) (messageId : JsString) : Machine State Action where
  init := { list := list, call := .acquireLock }
  step := step sequenceId messageId

/-- The entries that a step of the call removes. -/
def removed (s : State) (a : Action) : List JsString :=
  match a, s.call with
  | .lremReply, .lrem text => if s.list.contains text then [text] else []
  | .lremFails true, .lrem text => if s.list.contains text then [text] else []
  | _, _ => []

/-- The text of a message. -/
def Stored (text : JsString) : Prop := ∃ m : MessageObject, toString m.properties = .ok text

/-- Others push texts of messages. -/
def StoresTexts (_ : State × List JsString) : Action → Prop
  | .lpush text | .rpush text => Stored text
  | _ => True

/-- Whoever reads the text reads a message with this identifier. -/
def HasId (messageId text : JsString) : Prop :=
  ∀ opts uuid now, ∃ message, createFromMessage opts uuid now text = some message ∧ getId message = .string messageId

variable {sequenceId : ℤ} {messageId : JsString} {s s' : State} {log : List JsString}

/-! ## The text that is removed -/

theorem isString_iff {v : JsValue} {t : JsString} : isString v t = true ↔ v = .string t := by
  cases v <;> simp [isString]

/-- The text that is written for a message that was read has its identifier. -/
theorem hasId_of_message {msg text : JsString} {opts : DefaultOptions} {uuid : JsString} {now : ℕ}
    {message : List (JsString × JsValue)} (hmsg : Stored msg)
    (hread : createFromMessage opts uuid now msg = some message) (hid : getId message = .string messageId)
    (htext : toString message = .ok text) : HasId messageId text := by
  obtain ⟨m, hm⟩ := hmsg
  rw [createFromMessage_toString hm] at hread
  obtain rfl := Option.some.inj hread
  rw [getId_properties] at hid
  intro opts' uuid' now'
  refine ⟨_, createFromMessage_toString htext opts' uuid' now', ?_⟩
  rw [getId_properties]
  unfold restored at hid ⊢
  rw [hid]
  rfl

/-- After `LRANGE` the call removes a text with the identifier, if it removes one. -/
theorem hasId_onLrange {opts : DefaultOptions} {uuid : JsString} {now : ℕ} {reply : List JsString}
    (h : ∀ t ∈ reply, Stored t) {text : JsString} (hcall : onLrange messageId opts uuid now reply = .lrem text) :
    HasId messageId text := by
  cases reply with
  | nil => cases hcall
  | cons msg rest =>
    rw [onLrange] at hcall
    cases hread : createFromMessage opts uuid now msg with
    | none =>
      rw [hread] at hcall
      cases hcall
    | some message =>
      rw [hread, Option.map_some, Option.getD_some, onMessage] at hcall
      split at hcall
      · rename_i hid
        cases htext : toString message with
        | error e =>
          rw [htext] at hcall
          cases hcall
        | ok text' =>
          rw [htext] at hcall
          cases hcall
          exact hasId_of_message (h msg List.mem_cons_self) hread (isString_iff.mp hid) htext
      · cases hcall

/-! ## What a step can do -/

/-- The calls that have removed nothing: before the reply of `LREM`, and those that report that there is no message. -/
def Call.Harmless : Call → Prop
  | .acquireLock | .lrange | .lrem _ | .quit .messageNotFound | .done .messageNotFound => True
  | _ => False

/-- A step of the others: they push texts of messages, or pop. -/
def OthersStep (s s' : State) (a : Action) : Prop :=
  ¬a.OfCall ∧ s'.call = s.call ∧ removed s a = [] ∧
    ∀ log, StoresTexts (s, log) a → ∀ t ∈ s'.list, t ∈ s.list ∨ Stored t

/-- A step of the call that leaves the list as it is; the text to remove comes from a reply of `LRANGE`. -/
def ReplyStep (messageId : JsString) (s s' : State) (a : Action) : Prop :=
  s'.list = s.list ∧ removed s a = [] ∧ (s'.call.Harmless → s.call.Harmless) ∧
    ∀ text, s'.call = .lrem text → (∀ t ∈ s.list, Stored t) → HasId messageId text

/-- `LREM`. -/
def LremStep (s s' : State) (a : Action) : Prop :=
  ∃ text reply, s.call = .lrem text ∧ reply ≠ .messageNotFound ∧ s'.call = .quit reply ∧
    s'.list = s.list.erase text ∧ removed s a = if s.list.contains text then [text] else []

theorem step_others {a : Action} (ha : ¬a.OfCall) (hs : step sequenceId messageId s a = some s') :
    OthersStep s s' a := by
  cases a with
  | lpush text =>
    cases hs
    refine ⟨ha, rfl, rfl, fun log hp t ht => ?_⟩
    rcases List.mem_cons.mp ht with rfl | ht
    · exact .inr hp
    · exact .inl ht
  | rpush text =>
    cases hs
    refine ⟨ha, rfl, rfl, fun log hp t ht => ?_⟩
    rcases List.mem_append.mp ht with ht | ht
    · exact .inl ht
    · obtain rfl := List.mem_singleton.mp ht
      exact .inr hp
  | lpop =>
    cases hs
    exact ⟨ha, rfl, rfl, fun log hp t ht => .inl (List.mem_of_mem_tail ht)⟩
  | rpop =>
    cases hs
    exact ⟨ha, rfl, rfl, fun log hp t ht => .inl (List.dropLast_subset s.list ht)⟩
  | lockReply | lrangeReply | lrangeFails | lremReply | lremFails | quitReply => exact absurd trivial ha

theorem step_ofCall {a : Action} (ha : a.OfCall) (hs : step sequenceId messageId s a = some s') :
    ReplyStep messageId s s' a ∨ LremStep s s' a := by
  cases a with
  | lpush | rpush | lpop | rpop => exact ha.elim
  | lockReply answer =>
    simp only [step] at hs
    split at hs
    · rename_i hcall
      cases hs
      refine .inl ⟨rfl, rfl, fun _ => by rw [hcall]; trivial, fun text h => ?_⟩
      cases answer with
      | locked locked => cases locked <;> cases h
      | error => cases h
    · cases hs
  | lrangeReply opts uuid now =>
    simp only [step] at hs
    split at hs
    · rename_i hcall
      cases hs
      refine .inl ⟨rfl, rfl, fun _ => by rw [hcall]; trivial, fun text h hstored => ?_⟩
      exact hasId_onLrange (fun t ht => hstored t (Ranges.mem_of_mem_lrange ht)) h
    · cases hs
  | lrangeFails =>
    simp only [step] at hs
    split at hs
    · cases hs
      refine .inl ⟨rfl, rfl, fun h => h.elim, fun _ h => ?_⟩
      cases h
    · cases hs
  | lremReply =>
    simp only [step] at hs
    split at hs
    · rename_i text hcall
      cases hs
      refine .inr ⟨text, .deleted, hcall, by decide, rfl, rfl, ?_⟩
      simp only [removed, hcall]
    · cases hs
  | lremFails executed =>
    simp only [step] at hs
    split at hs
    · rename_i text hcall
      cases hs
      cases executed with
      | true =>
        refine .inr ⟨text, .error, hcall, by decide, rfl, rfl, ?_⟩
        simp only [removed, hcall]
      | false =>
        refine .inl ⟨rfl, rfl, fun h => h.elim, fun _ h => ?_⟩
        cases h
    · cases hs
  | quitReply =>
    simp only [step] at hs
    split at hs
    · rename_i reply hcall
      cases hs
      refine .inl ⟨rfl, rfl, ?_, fun _ h => ?_⟩
      · rw [hcall]
        cases reply <;> exact fun h => h
      · cases h
    · cases hs

/-! ## The invariant -/

/-- What holds of a call and of the entries that it has removed. -/
structure Inv (messageId : JsString) (s : State) (log : List JsString) : Prop where
  stored : ∀ t ∈ s.list, Stored t
  harmless : s.call.Harmless → log = []
  hasId : ∀ text, s.call = .lrem text → HasId messageId text
  atMostOne : log.length ≤ 1
  ids : ∀ entry ∈ log, HasId messageId entry

theorem Inv.others {a : Action} (hi : Inv messageId s log) (hp : StoresTexts (s, log) a) (h : OthersStep s s' a) :
    Inv messageId s' (log ++ removed s a) := by
  obtain ⟨-, hcall, hremoved, hlist⟩ := h
  rw [hremoved, List.append_nil]
  constructor
  · exact fun t ht => (hlist log hp t ht).elim (hi.stored t) fun h => h
  · rw [hcall]
    exact hi.harmless
  · rw [hcall]
    exact hi.hasId
  · exact hi.atMostOne
  · exact hi.ids

theorem Inv.reply {a : Action} (hi : Inv messageId s log) (h : ReplyStep messageId s s' a) :
    Inv messageId s' (log ++ removed s a) := by
  obtain ⟨hlist, hremoved, hharmless, htext⟩ := h
  rw [hremoved, List.append_nil]
  constructor
  · rw [hlist]
    exact hi.stored
  · exact fun h => hi.harmless (hharmless h)
  · exact fun text h => htext text h hi.stored
  · exact hi.atMostOne
  · exact hi.ids

theorem Inv.lrem {a : Action} (hi : Inv messageId s log) (h : LremStep s s' a) :
    Inv messageId s' (log ++ removed s a) := by
  obtain ⟨text, reply, hcall, hreply, hcall', hlist, hremoved⟩ := h
  have hlog : log = [] := hi.harmless (by rw [hcall]; trivial)
  rw [hlog, List.nil_append, hremoved]
  constructor
  · rw [hlist]
    exact fun t ht => hi.stored t (List.mem_of_mem_erase ht)
  · rw [hcall']
    intro hharmless
    cases reply with
    | messageNotFound => exact absurd rfl hreply
    | deleted => exact hharmless.elim
    | error => exact hharmless.elim
  · rw [hcall']
    exact fun _ h => nomatch h
  · split
    · exact Nat.le_refl 1
    · exact Nat.zero_le 1
  · intro entry hentry
    split at hentry
    · obtain rfl := List.mem_singleton.mp hentry
      exact hi.hasId _ hcall
    · cases hentry

/-- Every step keeps the invariant. -/
theorem Inv.step {a : Action} (hi : Inv messageId s log) (hp : StoresTexts (s, log) a)
    (hs : SequenceId.step sequenceId messageId s a = some s') : Inv messageId s' (log ++ removed s a) := by
  by_cases ha : a.OfCall
  · exact (step_ofCall ha hs).elim hi.reply hi.lrem
  · exact hi.others hp (step_others ha hs)

theorem inv_reachable {list : List JsString} (hl : ∀ t ∈ list, Stored t) {x : State × List JsString}
    (h : Reach ((system list sequenceId messageId).logged removed) StoresTexts x) : Inv messageId x.1 x.2 := by
  refine h.invariant (I := fun x => Inv messageId x.1 x.2) ?_ fun x a x' hi hp hs => ?_
  · constructor
    · exact hl
    · exact fun _ => rfl
    · exact fun _ h => nomatch h
    · exact Nat.zero_le 1
    · exact fun _ h => nomatch h
  · obtain ⟨hstep, hlog⟩ := Machine.logged_step hs
    rw [hlog]
    exact hi.step hp hstep

/-! ## What the call removes -/

/-- The list and the log after a step of the call: nothing is removed, or one entry. -/
def Removes (l l' log log' : List JsString) : Prop :=
  (l' = l ∧ log' = log) ∨
    ∃ before entry after, l = before ++ entry :: after ∧ l' = before ++ after ∧ log' = log ++ [entry]

theorem removes_erase (l log : List JsString) (text : JsString) :
    Removes l (l.erase text) log (log ++ if l.contains text then [text] else []) := by
  by_cases h : text ∈ l
  · obtain ⟨before, after, -, hl, herase⟩ := List.exists_erase_eq h
    exact .inr ⟨before, text, after, hl, herase, by rw [if_pos (List.contains_iff_mem.mpr h)]⟩
  · exact .inl ⟨List.erase_of_not_mem h, by rw [if_neg (mt List.contains_iff_mem.mp h), List.append_nil]⟩

/-- A step of the call removes one entry at most, and the log tells which. -/
theorem removes_step {a : Action} (ha : a.OfCall) (hs : SequenceId.step sequenceId messageId s a = some s') :
    Removes s.list s'.list log (log ++ removed s a) := by
  rcases step_ofCall ha hs with ⟨hlist, hremoved, -, -⟩ | ⟨text, reply, -, -, -, hlist, hremoved⟩
  · rw [hremoved, List.append_nil]
    exact .inl ⟨hlist, rfl⟩
  · rw [hlist, hremoved]
    exact removes_erase s.list log text

/-- A call that nobody disturbs asks Redis to remove the text that it writes for the message at the position, and reports
success, whether the list has this text or not. -/
theorem undisturbed {list : List JsString} {i : ℕ} {msg text : JsString} {message : List (JsString × JsValue)}
    {opts : DefaultOptions} {uuid : JsString} {now : ℕ} (hmsg : list[i]? = some msg)
    (hread : createFromMessage opts uuid now msg = some message) (hid : getId message = .string messageId)
    (htext : toString message = .ok text) :
    Reach ((system list i messageId).logged removed) StoresTexts
      ({ list := list.erase text, call := .quit .deleted }, if list.contains text then [text] else []) := by
  have hcall : onLrange messageId opts uuid now (Ranges.lrange list i i) = .lrem text := by
    rw [Ranges.lrange_self, hmsg, Option.toList_some, onLrange, hread, Option.map_some, Option.getD_some, onMessage,
      if_pos (isString_iff.mpr hid), htext]
  have hlocked : Reach ((system list i messageId).logged removed) StoresTexts ({ list := list, call := .lrange }, []) :=
    Reach.step .init (a := .lockReply (.locked true)) trivial rfl
  have hfound : Reach ((system list i messageId).logged removed) StoresTexts ({ list := list, call := .lrem text }, []) := by
    rw [← hcall]
    exact hlocked.step (a := .lrangeReply opts uuid now) trivial rfl
  exact hfound.step (a := .lremReply) trivial rfl

/-- Whatever others push and pop in between, the call removes one entry at most, which has the identifier, leaves the order
of the others, and has removed nothing when it reports that there is no message. -/
theorem deletesAtMostOne {list : List JsString} (hl : ∀ t ∈ list, Stored t)
    (h : Reach ((system list sequenceId messageId).logged removed) StoresTexts (s, log)) :
    log.length ≤ 1 ∧ (∀ entry ∈ log, HasId messageId entry) ∧
      (s.call = .quit .messageNotFound ∨ s.call = .done .messageNotFound → log = []) ∧
      ∀ a s' log', a.OfCall →
        ((system list sequenceId messageId).logged removed).step (s, log) a = some (s', log') →
          Removes s.list s'.list log log' := by
  have hi := inv_reachable hl h
  refine ⟨hi.atMostOne, hi.ids, fun hcall => hi.harmless ?_, fun a s' log' ha hs => ?_⟩
  · rcases hcall with hcall | hcall
    · rw [hcall]
      trivial
    · rw [hcall]
      trivial
  · obtain ⟨hstep, hlog⟩ := Machine.logged_step hs
    obtain rfl : log' = log ++ removed s a := hlog
    exact removes_step ha hstep

/-- A message that survives is deleted. -/
theorem deletes_hello : ∃ text, Reach ((system [text] (0 : ℕ) (ascii "1")).logged removed) StoresTexts
    ({ list := [], call := .quit .deleted }, [text]) ∧ ∀ entry ∈ [text], HasId (ascii "1") entry := by
  have hs := allSurvive_helloMessage.toString_ok
  have hread := createFromMessage_toString hs .initial (ascii "2") 1
  have hid : getId (helloMessage.restored (new .initial (ascii "2") 1)).properties = .string (ascii "1") := by
    rw [getId_properties]
    rfl
  have htext := allSurvive_helloMessage.toString_restored (new .initial (ascii "2") 1)
  generalize print (.object (written helloMessage.properties)) = text at hs hread htext
  have hmsg : [text][0]? = some text := rfl
  have hreach := undisturbed hmsg hread hid htext
  rw [List.erase_cons_head, if_pos (List.contains_iff_mem.mpr List.mem_cons_self)] at hreach
  have hstored : ∀ t ∈ [text], Stored t := by
    intro t ht
    rw [List.mem_singleton.mp ht]
    exact ⟨helloMessage, hs⟩
  exact ⟨text, hreach, (deletesAtMostOne hstored hreach).2.1⟩

end RedisSmq.SequenceId
