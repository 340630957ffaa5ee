import RedisSmq.Queue.Steps

/-!
# Where messages come from

A message is in stock when the database holds it or an actor has read it. Every message in stock is a later stage of one
that was in stock before, or of one that the step produces (`stock_step`), so what producing establishes and the stages
of a message keep is true of every message in stock, in every run (`stock_reachable`): it names its queue, has the
content of a message that was produced, and is not marked as expired (`Original`).
-/

namespace RedisSmq.Queue

open RedisKeys Db Transition

/-- The database holds the message, or an actor has read it and will act on it. -/
def InStock (s : State) (m : Message) : Prop := (∃ slot, s.db.Holds slot m) ∨ Carries s m

/-- The message was produced with its content, names a queue and is not marked as expired. -/
structure Original (produced : List Produced) (m : Message) : Prop where
  produced : ∃ r ∈ produced, content r.message = content m
  queue : m.queue.isSome
  expired : m.expired = false

/-- A message in stock, or one that the step sends. -/
inductive Source (s : State) : Action → Message → Prop
  | stock {a m} : InStock s m → Source s a m
  | produce {q withPriority m now} : Source s (.produce q withPriority m now) (sent q m)
  | request {a q m} : InStock s m → Source s a (sent q m)

section

variable {cron : CronParser} {lt : Text → Text → Bool} {config : String → ConsumerConfig}
variable {s s' : State} {a : Action} {m m' : Message} {slot : Slot} {q : TMessageQueue}
variable {produced produced' : List Produced}

/-- What a step puts somewhere is a later stage of a source. -/
theorem stepPuts_source (h : StepPuts cron config s a slot m) : ∃ m', SameMessage m m' ∧ Source s a m' := by
  have hheld : ∀ slot {m}, s.db.Holds slot m → ∃ m', SameMessage m m' ∧ Source s a m' :=
    fun slot _ h => ⟨_, .refl _, .stock (.inl ⟨slot, h⟩)⟩
  cases h with
  | @produceScheduled q withPriority m now =>
    obtain ⟨h1, h2, h3⟩ := sameMessage_next cron now (sent q m)
    exact ⟨_, ⟨h1, h2, h3⟩, .produce⟩
  | produceEnqueued => exact ⟨_, sameMessage_enqueued .., .produce⟩
  | dequeuePriority _ hm => exact hheld (.field _ _) hm
  | dequeue _ hm => exact hheld (.list _) (List.mem_of_getLast? hm)
  | acknowledge hm => exact hheld (.list _) (List.mem_of_head? hm)
  | @unacknowledge id cause now m' m _ hm =>
    cases hd : Broker.destination m' cause now <;> rw [hd] at hm
    · exact hheld (.list _) (List.mem_of_head? hm)
    · exact hheld (.list _) (List.mem_of_getLast? hm)
    · exact hheld (.list _) (List.mem_of_getLast? hm)
  | delayed hb hi _ => exact ⟨_, sameMessage_delayed, .stock (.inr (.delay hb hi))⟩
  | @requeued b i q hb _ hi _ => exact ⟨i, ⟨rfl, rfl, rfl⟩, .stock (.inr (.requeue hb hi))⟩
  | enqueueScheduled ht _ => exact ⟨_, sameMessage_enqueued .., .stock (.inr (.schedule ht List.mem_cons_self))⟩
  | rescheduled ht _ =>
    exact ⟨_, (sameMessage_next ..).trans (sameMessage_enqueued ..), .stock (.inr (.schedule ht List.mem_cons_self))⟩
  | requested hr hsame =>
    exact ⟨_, (sameMessage_enqueued ..).trans hsame, .request (.inr (.request (List.mem_of_getElem? hr)))⟩

/-- A property of the messages in stock that the stages of a message keep, and that producing establishes, is kept. -/
theorem stock_step {p : Message → Prop} (h : step cron lt config s a = some s') (hp : ∀ m, InStock s m → p m)
    (hsame : ∀ m m', SameMessage m m' → p m' → p m) (hsent : ∀ q m, p m → p (sent q m))
    (hproduce : ∀ q withPriority m now, a = .produce q withPriority m now → p (sent q m)) :
    ∀ m, InStock s' m → p m := by
  rintro m (⟨slot, hm⟩ | hm)
  · rcases step_holds h hm with hm | hm
    · exact hp m (.inl ⟨slot, hm⟩)
    · obtain ⟨m', hm', hsource⟩ := stepPuts_source hm
      cases hsource with
      | stock hs => exact hsame _ _ hm' (hp _ hs)
      | produce => exact hsame _ _ hm' (hproduce _ _ _ _ rfl)
      | request hs => exact hsame _ _ hm' (hsent _ _ (hp _ hs))
  · rcases step_carries h hm with hm | hm
    · exact hp m (.inr hm)
    · exact hp m (.inl hm)

/-- Nothing is in stock at first. -/
theorem not_inStock_init : ¬InStock init m := by
  rintro (⟨slot, hm⟩ | hm)
  · exact Forall.empty (p := fun _ _ => False) slot m hm
  · cases hm with
    | delay hb _ | requeue hb _ | schedule hb _ => cases hb
    | request hr => cases hr

theorem Original.mono (h : Original produced m) (hsub : produced ⊆ produced') : Original produced' m := by
  obtain ⟨⟨r, hr, hc⟩, hq, he⟩ := h
  exact ⟨⟨r, hsub hr, hc⟩, hq, he⟩

theorem Original.of_same (h : Original produced m') (hs : SameMessage m m') : Original produced m := by
  obtain ⟨⟨r, hr, hc⟩, hq, he⟩ := h
  exact ⟨⟨r, hr, hc.trans hs.content.symm⟩, hs.queue ▸ hq, hs.expired.trans he⟩

/-- A message is sent with its content. -/
theorem Original.sent (h : Original produced m) : Original produced (sent q m) := ⟨h.produced, rfl, rfl⟩

theorem produced_subset (h : step cron lt config s a = some s') : s.produced ⊆ s'.produced := by
  rcases step_produced h with h | ⟨_, _, _, _, _, h⟩ <;> rw [h]
  · exact List.Subset.refl _
  · exact List.subset_cons_self _ _

/-- Every step keeps the messages in stock original. -/
theorem original_step (hi : ∀ m, InStock s m → Original s.produced m) (hs : step cron lt config s a = some s') :
    ∀ m, InStock s' m → Original s'.produced m := by
  refine stock_step hs (fun m hm => (hi m hm).mono (produced_subset hs)) (fun _ _ h h' => h'.of_same h)
    (fun _ _ h => h.sent) (fun q withPriority m now ha => ?_)
  subst ha
  rw [step_produce hs]
  exact ⟨⟨_, List.mem_cons_self, rfl⟩, rfl, rfl⟩

/-- **Every message in stock** was produced with its content, in every run. -/
theorem stock_reachable {P : State → Action → Prop} (h : Reach (system cron lt config) P s) :
    ∀ m, InStock s m → Original s.produced m :=
  h.invariant (I := fun s => ∀ m, InStock s m → Original s.produced m) (fun _ hm => absurd hm not_inStock_init)
    (fun _ _ _ hi _ hs => original_step hi hs)

end

end RedisSmq.Queue
