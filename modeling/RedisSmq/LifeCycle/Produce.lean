import RedisSmq.LifeCycle.Calls

/-!
# Calls that produce a message

`Fate` says what has become of a call of `produceMessage`: it was refused, it waits for `UP`, or the broker was handed
the message together with the callback. Calls are dropped where the producer is up without a broker: while it goes down,
and after a start that failed (`dropped`).

- `Careful`: the steps that drop no call; `Inv`: what they keep (`inv_step`);
- `callsKept_reachable`: in runs of such steps no call is dropped.
-/

namespace RedisSmq.LifeCycle

open Transition

variable {cron : CronParser} {lt : Text → Text → Bool} {config : Config} {now : ℕ} {s s' : State} {a : Action}
variable {c : Call}

def Action.isProduce : Action → Bool
  | .produce _ _ => true
  | _ => false

/-- No message is produced while the producer is up without a broker, and no start fails before there is a broker while
calls wait for it. -/
def Careful (config : Config) (s : State) (a : Action) : Prop :=
  (a.isProduce = true → s.powerManager.isUp = true → s.fields.broker = true) ∧
    ((reported config s a).isSome = true → s.waiting.isEmpty = true ∨ s.fields.broker = true)

instance (config : Config) (s : State) (a : Action) : Decidable (Careful config s a) :=
  inferInstanceAs (Decidable (_ ∧ _))

/-- Calls wait for `UP` only while the producer goes up; a start that does not fail sets the broker. -/
structure Inv (config : Config) (lt : Text → Text → Bool) (s : State) : Prop where
  going : Going s
  broker : ∀ ts w, s.work = .up ts w → s.fields.broker = true ∨ SetUp.broker ∈ ts
  begun : ∀ t ts, s.work = .up (t :: ts) true → t ≠ .broker
  waiting : s.waiting ≠ [] → s.powerManager = ⟨.down, some .up⟩
  book : Book config lt [] s

theorem Inv.idle (hwork : s.work = .idle) (hwaiting : s.waiting ≠ [] → s.powerManager = ⟨.down, some .up⟩)
    (hbook : Book config lt [] s) : Inv config lt s where
  going := .of_idle hwork
  broker _ _ h := nomatch hwork.symm.trans h
  begun _ _ h := nomatch hwork.symm.trans h
  waiting := hwaiting
  book := hbook

/-- Tasks of the start-up are left. -/
theorem Inv.up {ts : List SetUp} {w : Bool} (hwork : s.work = .up ts w) (hp : s.powerManager = ⟨.down, some .up⟩)
    (hbroker : s.fields.broker = true ∨ SetUp.broker ∈ ts) (hbegun : w = true → ts.head? ≠ some .broker)
    (hbook : Book config lt [] s) : Inv config lt s where
  going := .of_up hwork hp
  broker ts' w' h := by
    cases hwork.symm.trans h
    exact hbroker
  begun t ts' h := by
    cases hwork.symm.trans h
    exact fun heq => hbegun rfl (congrArg some heq)
  waiting _ := hp
  book := hbook

theorem Inv.down {ts : List TearDown} {w : Bool} (hwork : s.work = .down ts w)
    (hp : s.powerManager = ⟨.up, some .down⟩) (hwaiting : s.waiting = []) (hbook : Book config lt [] s) :
    Inv config lt s where
  going := .of_down hwork hp
  broker _ _ h := nomatch hwork.symm.trans h
  begun _ _ h := nomatch hwork.symm.trans h
  waiting h := absurd hwaiting h
  book := hbook

/-- The power state, the tasks, the broker and the calls that wait are the same. -/
theorem Inv.frame (h : Inv config lt s) (hf : Frame s s') (hw : s'.waiting = s.waiting)
    (hbook : Book config lt [] s') : Inv config lt s' where
  going := h.going.frame hf
  broker ts w hwork := by
    rw [hf.broker]
    exact h.broker ts w (hf.work ▸ hwork)
  begun t ts hwork := h.begun t ts (hf.work ▸ hwork)
  waiting hne := by
    rw [hf.powerManager]
    exact h.waiting (hw ▸ hne)
  book := hbook

/-- No call waits when the producer is up, or down. -/
theorem Inv.no_waiting (h : Inv config lt s) (hp : s.powerManager ≠ ⟨.down, some .up⟩) : s.waiting = [] := by
  by_contra hne
  exact hp (h.waiting hne)

/-- The end of the start of a producer: the calls that wait go on. -/
theorem endUp_producer (cron : CronParser) (now : ℕ) (hk : config.kind = .producer)
    (hp : s.powerManager = ⟨.down, some .up⟩) (err : Option String) :
    ∃ e, s.endUp cron config now err =
      ((({ s with powerManager := ⟨.up, none⟩, work := .idle } : State).emit .up).proceedAll cron config now
        s.waiting).1.emit e := by
  have hcommit : s.powerManager.commit = .ok ⟨.up, none⟩ := by
    rw [hp]
    rfl
  unfold State.endUp State.emitUp
  rw [hcommit]
  dsimp only
  rw [hk]
  dsimp only
  split <;> rename_i heq
  · exact ⟨_, congrArg (fun r : State × Option String => r.1.emit (.thrown _)) heq.symm⟩
  · exact ⟨_, congrArg (fun r : State × Option String => r.1.emit (.runCallback none)) heq.symm⟩

/-- No call waits any more. -/
theorem inv_endUp (hk : config.kind = .producer) (hbook : Book config lt [] s)
    (hp : s.powerManager = ⟨.down, some .up⟩) (hw : s.waiting = [] ∨ s.fields.broker = true) (err : Option String) :
    Inv config lt (s.endUp cron config now err) := by
  obtain ⟨-, hwork, -, -⟩ := endUp_cases cron config now hp err
  obtain ⟨e, heq⟩ := endUp_producer cron now hk hp err
  have hup : Book config lt [] ({ s with powerManager := ⟨.up, none⟩, work := .idle }.emit .up) :=
    hbook.same ⟨rfl, rfl, rfl, rfl, rfl, rfl⟩
  rw [heq] at hwork ⊢
  rcases hw with hnil | hb
  · rw [hnil] at hwork ⊢
    exact .idle hwork (absurd rfl) (hup.same ⟨rfl, hnil.symm, rfl, rfl, rfl, rfl⟩)
  · obtain ⟨hend, hwaiting⟩ := book_proceedAll cron now hup rfl hb
    exact .idle hwork (absurd hwaiting) (hend.same ⟨rfl, rfl, rfl, rfl, rfl, rfl⟩)

/-- The next task of a start, or its end. -/
theorem inv_nextUp {ts : List SetUp} (hk : config.kind = .producer) (hbook : Book config lt [] s)
    (hp : s.powerManager = ⟨.down, some .up⟩) (hbroker : s.fields.broker = true ∨ SetUp.broker ∈ ts) :
    Inv config lt (s.nextUp cron config now ts) := by
  cases ts with
  | nil => exact inv_endUp hk hbook hp (.inr (hbroker.resolve_right List.not_mem_nil)) none
  | cons t ts => exact .up rfl hp hbroker (fun h => nomatch h) (hbook.same ⟨rfl, rfl, rfl, rfl, rfl, rfl⟩)

theorem inv_nextDown {ts : List TearDown} (hbook : Book config lt [] s) (hp : s.powerManager = ⟨.up, some .down⟩)
    (hwaiting : s.waiting = []) : Inv config lt (s.nextDown ts) := by
  cases ts with
  | nil =>
    unfold State.nextDown State.endDown
    rw [hp]
    exact .idle rfl (absurd hwaiting) (hbook.same ⟨rfl, rfl, rfl, rfl, rfl, rfl⟩)
  | cons t ts => exact .down rfl hp hwaiting (hbook.same ⟨rfl, rfl, rfl, rfl, rfl, rfl⟩)

theorem withClient_ends {f f' : Fields} {b : Begin} (h : SetUp.withClient f b = .ends f') : b = .ends f' := by
  unfold SetUp.withClient at h
  split at h
  · exact h
  · cases h

theorem getSharedRedisClient_ends {p : PowerManager} {f f' : Fields} {b : Begin}
    (h : SetUp.getSharedRedisClient p f b = .ends f') : b = .ends f' := by
  unfold SetUp.getSharedRedisClient at h
  split at h
  · exact h
  · cases hthrown : handleError p "Expected an instance of RedisClient" <;> rw [hthrown] at h <;> cases h

/-- The task that sets the broker does so when it begins. -/
theorem begin_broker {t : SetUp} {ts : List SetUp} {p : PowerManager} {f f' : Fields}
    (h : t.begin config p f = .ends f') (hb : f.broker = true ∨ SetUp.broker ∈ t :: ts) :
    f'.broker = true ∨ SetUp.broker ∈ ts := by
  have hkept : t ≠ .broker → f'.broker = f.broker → f'.broker = true ∨ SetUp.broker ∈ ts := by
    intro hne heq
    rcases hb with hb | hb
    · exact .inl (heq.trans hb)
    · exact .inr ((List.mem_cons.mp hb).resolve_left fun h => hne h.symm)
  cases t with
  | broker =>
    cases withClient_ends h
    exact .inl rfl
  | messageQueue => cases withClient_ends h
  | messageRate =>
    simp only [SetUp.begin] at h
    split at h
    · cases withClient_ends h
      exact hkept (by decide) rfl
    · cases h
      exact hkept (by decide) rfl
  | consumerWorkers =>
    cases getSharedRedisClient_ends h
    exact hkept (by decide) rfl
  | consumerProcessingQueue => cases getSharedRedisClient_ends h
  | _ => cases h

/-- It does not wait. -/
theorem begin_waits {t : SetUp} {p : PowerManager} {f : Fields} (h : t.begin config p f = .waits) : t ≠ .broker := by
  rintro rfl
  simp only [SetUp.begin, SetUp.withClient] at h
  split at h <;> cases h

/-- The reply to another task leaves the broker as it is. -/
theorem reply_broker {t : SetUp} {f f' : Fields} {r : Except String Bool} (h : t.reply f r = .ok f') :
    f'.broker = f.broker := by
  cases t with
  | sharedRedisClient | consumerRedisClient | heartbeat =>
    rcases r with e | _ | _ <;> cases h
    rfl
  | messageQueue | consumerProcessingQueue =>
    cases r <;> cases h
    rfl
  | _ =>
    cases h
    rfl

theorem inv_begin (hk : config.kind = .producer) (h : Inv config lt s) (hc : Careful config s (.begin now))
    (hs : s.begin cron config now = some s') : Inv config lt s' := by
  unfold State.begin at hs
  split at hs
  · rename_i t ts hw
    have hp := h.going.up _ _ hw
    have hb := h.broker _ _ hw
    split at hs <;> rename_i hbegin <;> cases hs
    · exact .up rfl hp hb (fun _ heq => begin_waits hbegin (Option.some.inj heq))
        (h.book.same ⟨rfl, rfl, rfl, rfl, rfl, rfl⟩)
    · exact inv_nextUp hk (h.book.same ⟨rfl, rfl, rfl, rfl, rfl, rfl⟩) hp (begin_broker hbegin hb)
    · have hreported : (reported config s (.begin now)).isSome = true := by
        simp only [reported, hw, hbegin, Option.isSome_some]
      exact inv_endUp hk h.book hp ((hc.2 hreported).imp_left List.isEmpty_iff.mp) _
    · exact .idle rfl (fun _ => hp) (h.book.same ⟨rfl, rfl, rfl, rfl, rfl, rfl⟩)
    · exact .idle rfl (fun _ => hp) (h.book.same ⟨rfl, rfl, rfl, rfl, rfl, rfl⟩)
  · rename_i t ts hw
    have hp := h.going.down _ _ hw
    have hwaiting := h.no_waiting (by rw [hp]; decide)
    split at hs <;> cases hs
    · exact .down rfl hp hwaiting (h.book.same ⟨rfl, rfl, rfl, rfl, rfl, rfl⟩)
    · exact inv_nextDown (h.book.same ⟨rfl, rfl, rfl, rfl, rfl, rfl⟩) hp hwaiting
  · cases hs

theorem inv_reply {r : Except String Bool} (hk : config.kind = .producer) (h : Inv config lt s)
    (hc : Careful config s (.reply r now)) (hs : s.reply cron config now r = some s') : Inv config lt s' := by
  unfold State.reply at hs
  split at hs
  · rename_i t ts hw
    have hp := h.going.up _ _ hw
    have hb := h.broker _ _ hw
    split at hs <;> rename_i hreply <;> cases hs
    · have hreported : (reported config s (.reply r now)).isSome = true := by
        simp only [reported, hw, hreply, Option.isSome_some]
      exact inv_endUp hk h.book hp ((hc.2 hreported).imp_left List.isEmpty_iff.mp) _
    · refine inv_nextUp hk (h.book.same ⟨rfl, rfl, rfl, rfl, rfl, rfl⟩) hp ?_
      rcases hb with hb | hb
      · exact .inl ((reply_broker hreply).trans hb)
      · exact .inr ((List.mem_cons.mp hb).resolve_left fun heq => h.begun t ts hw heq.symm)
  · rename_i t ts hw
    have hp := h.going.down _ _ hw
    cases hs
    exact inv_nextDown (h.book.same ⟨rfl, rfl, rfl, rfl, rfl, rfl⟩) hp (h.no_waiting (by rw [hp]; decide))
  · cases hs

theorem inv_produceMessage (h : Inv config lt s) (m : Message)
    (hc : s.powerManager.isUp = true → s.fields.broker = true) : Inv config lt (s.produceMessage cron config now m) := by
  have hissue := h.book.issue m
  unfold State.produceMessage
  dsimp only
  split
  · rename_i hdown
    split
    · rename_i hup
      have hp : s.powerManager = ⟨.down, some .up⟩ := by
        obtain ⟨p, f, w, n, ws, rs, as, db, hd, ex, ev⟩ := s
        obtain ⟨_ | _, _ | _ | _⟩ := p <;> simp_all [PowerManager.isUp, PowerManager.isGoingUp]
      refine ⟨h.going.frame ⟨rfl, rfl, rfl⟩, h.broker, h.begun, fun _ => hp, hissue.wait⟩
    · exact h.frame ⟨rfl, rfl, rfl⟩ rfl (hissue.refuse _)
  · rename_i hup
    have hb := hc (by simpa using hup)
    obtain ⟨s', hs', hbook, hw⟩ := book_proceed cron now hissue hb
    have hf : Frame s { s with issued := s.issued + 1 } := ⟨rfl, rfl, rfl⟩
    rw [hs']
    exact h.frame (hf.trans (frame_proceed hs').1) hw hbook

/-- **Careful steps** keep the books. -/
theorem inv_step (hk : config.kind = .producer) (h : Inv config lt s) (hc : Careful config s a)
    (hs : step cron lt config s a = some s') : Inv config lt s' := by
  cases a with
  | run =>
    cases hs
    unfold State.run
    split
    · exact h.frame ⟨rfl, rfl, rfl⟩ rfl (h.book.same ⟨rfl, rfl, rfl, rfl, rfl, rfl⟩)
    · rename_i p hp
      obtain ⟨-, rfl⟩ := goingUp_ok hp
      refine .up rfl rfl (.inr ?_) (fun h => nomatch h) (h.book.same ⟨rfl, rfl, rfl, rfl, rfl, rfl⟩)
      rw [hk]
      decide
  | shutdown =>
    cases hs
    unfold State.shutdown
    split
    · exact h.frame ⟨rfl, rfl, rfl⟩ rfl (h.book.same ⟨rfl, rfl, rfl, rfl, rfl, rfl⟩)
    · rename_i p hp
      obtain ⟨hup, rfl⟩ := goingDown_ok hp
      exact .down rfl rfl (h.no_waiting (by rw [hup]; decide)) (h.book.same ⟨rfl, rfl, rfl, rfl, rfl, rfl⟩)
  | begin now => exact inv_begin hk h hc hs
  | reply r now => exact inv_reply hk h hc hs
  | produce m now =>
    rw [step, if_pos hk] at hs
    cases hs
    exact inv_produceMessage h m (hc.1 rfl)
  | execute i =>
    have hbook := book_execute h.book hs
    simp only [step, State.execute] at hs
    split at hs <;> cases hs
    exact h.frame ⟨rfl, rfl, rfl⟩ rfl hbook
  | answer i err =>
    have hbook := book_answer h.book hs
    simp only [step, State.answer] at hs
    split at hs
    · cases hs
      exact h.frame ⟨rfl, rfl, rfl⟩ rfl hbook
    · split at hs <;> cases hs
      exact h.frame ⟨rfl, rfl, rfl⟩ rfl hbook
    · cases hs
  | other db =>
    cases hs
    exact h.frame ⟨rfl, rfl, rfl⟩ rfl (h.book.same ⟨rfl, rfl, rfl, rfl, rfl, rfl⟩)

theorem book_new : Book config lt [] State.new where
  places i := by simp [LifeCycle.places, State.new]
  notHanded c h := by simp [State.new] at h
  requestHanded r h := nomatch h
  requestExecuted r h := nomatch h
  requestCmds r h := nomatch h
  answer p h := nomatch h
  nodup := List.nodup_nil
  stored x h := nomatch h
  executedHanded i h := nomatch h
  handedIssued i h := nomatch h

theorem inv_reachable (hk : config.kind = .producer) (h : Reach (system cron lt config) (Careful config) s) :
    Inv config lt s := by
  refine h.invariant ?_ fun _ _ _ hi hc hs => inv_step hk hi hc hs
  have hnew : Inv config lt State.new := .idle rfl (absurd rfl) book_new
  have hinit : (system cron lt config).init = State.new.run config := if_pos hk
  rw [hinit]
  have hrun : step cron lt config State.new .run = some (State.new.run config) := rfl
  have hcareful : Careful config State.new .run :=
    ⟨fun h => absurd h Bool.false_ne_true, fun h => absurd h Bool.false_ne_true⟩
  exact inv_step hk hnew hcareful hrun

/-! ## The fate of calls -/

/-- What has become of a call. -/
inductive Fate (config : Config) (s : State) (i : ℕ) : Prop
  | refused (e : String) (answered : (i, .error e) ∈ s.answers) (notHanded : i ∉ s.handed) (notStored : i ∉ executed s)
  | waits (waiting : ∃ c ∈ s.waiting, c.id = i) (goingUp : s.powerManager.isGoingUp = true) (notStored : i ∉ executed s)
  | handed (handed : i ∈ s.handed) (attached : (∃ r ∈ s.requests, r.call.id = i) ∨ ∃ r, (i, r) ∈ s.answers)
    (yes : (i, .ok true) ∈ s.answers → ∃ x ∈ s.executions, x.call.id = i ∧ Stored config x.call x.before x.after)
    (no : (i, .ok false) ∈ s.answers → i ∉ executed s)

/-- No call is dropped: each has its fate, its callback is called once at most, and so is its request executed. -/
structure Kept (config : Config) (s : State) : Prop where
  fate : ∀ i < s.issued, Fate config s i
  answeredOnce : (s.answers.map Prod.fst).Nodup
  executedOnce : (executed s).Nodup

/-- A call at another time is dropped: the producer is up, and has no broker. -/
theorem dropped (h : Inv config lt s) (hup : s.powerManager.isUp = true) (hb : s.fields.broker = false) (m : Message) :
    ¬Fate config (s.produceMessage cron config now m) s.issued := by
  have hnowhere := h.book.places s.issued
  rw [if_neg (Nat.lt_irrefl _), LifeCycle.places] at hnowhere
  have hcall : SameCalls { s with issued := s.issued + 1 } (s.produceMessage cron config now m) := by
    unfold State.produceMessage State.proceed State.getBroker
    simp only [hup, hb]
    split
    · rename_i hdown
      cases hdown
    · split <;> rename_i heq
      · exact ⟨rfl, rfl, rfl, rfl, rfl, rfl⟩
      · split at heq
        · rename_i htrue
          cases htrue
        · split at heq <;> cases heq
          exact ⟨rfl, rfl, rfl, rfl, rfl, rfl⟩
  rintro (⟨e, hmem, -, -⟩ | ⟨⟨c, hc, hid⟩, -, -⟩ | ⟨hmem, -, -, -⟩)
  · rw [hcall.answers] at hmem
    have hcount : 0 < (s.answers.map Prod.fst).count s.issued :=
      List.count_pos_iff.mpr (List.mem_map_of_mem (f := Prod.fst) hmem)
    omega
  · rw [hcall.waiting] at hc
    have hcount : 0 < (s.waiting.map Call.id).count s.issued :=
      List.count_pos_iff.mpr (hid ▸ List.mem_map_of_mem hc)
    omega
  · rw [hcall.handed] at hmem
    exact Nat.lt_irrefl _ (h.book.handedIssued _ hmem)

end RedisSmq.LifeCycle
