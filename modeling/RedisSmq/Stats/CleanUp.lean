import RedisSmq.Stats.Rates

/-!
# What the clean-up leaves

The steps of a run after the rates. The heartbeats change no rate, and the consumers that have resources after them are
those with a last heartbeat of their own (`HeartbeatsInv`); the sizes change neither. The clean-up then leaves the
consumers that have both (`consumer?_sanitizeData`), where they are, and all producers.
-/

namespace RedisSmq.Stats

open KeyText

variable {ρ : Type} {queues before after : Queues ρ} {ns queueName id ns' queueName' id' : String}

/-! ## The reply of the heartbeats -/

/-- An entry of the hash, as a consumer writes it in the namespace of its process. -/
structure HeartbeatEntry (ρ : Type) where
  ns : Namespace
  queueName : QueueName
  id : Uuid
  resources : ρ

def HeartbeatEntry.key (h : HeartbeatEntry ρ) : String :=
  getInstanceKeys h.ns.text h.queueName.text h.id.text (.inr .keyHeartbeat)

def HeartbeatEntry.heartbeat (h : HeartbeatEntry ρ) : Heartbeat ρ := ⟨h.ns.text, h.queueName.text, h.resources⟩

/-- The hash as it is replied. -/
def heartbeatItems (heartbeats : List (HeartbeatEntry ρ)) : List (String × ρ) :=
  heartbeats.map fun h => (h.key, h.resources)

theorem handleHeartbeat_eq (queues : Queues ρ) (id : String) (heartbeat : Heartbeat ρ) :
    handleHeartbeat queues id heartbeat = withConsumer queues heartbeat.ns heartbeat.queueName id fun consumer =>
      { consumer with resources := some heartbeat.resources } :=
  withConsumer_eq _ _ _ _ _

/-- After some heartbeats: resources have the consumers that had one of them, and nothing else has changed. -/
structure HeartbeatsInv (done : List (Sigma fun _ : String => Heartbeat ρ)) (before after : Queues ρ) : Prop where
  located : Located after
  producers : ∀ ns queueName id, producer? after ns queueName id = producer? before ns queueName id
  rates : ∀ ns queueName id k, rateAt after ns queueName id (.consumer k) = rateAt before ns queueName id (.consumer k)
  resources : ForConsumers (fun ns queueName id c =>
    c.resources.isSome ↔ ∃ s ∈ done, (s.2.ns, s.2.queueName, s.1) = (ns, queueName, id)) after

variable {done : List (Sigma fun _ : String => Heartbeat ρ)} {s : Sigma fun _ : String => Heartbeat ρ}

theorem HeartbeatsInv.step (inv : HeartbeatsInv done before after) (hid : s.1 ∉ objectPrototype) :
    HeartbeatsInv (done ++ [s]) before (handleHeartbeat after s.1 s.2) where
  located := by
    rw [handleHeartbeat_eq]
    exact inv.located.withConsumer hid rfl fun _ hc => hc
  producers ns queueName id := by
    rw [handleHeartbeat_eq, producer?_withConsumer]
    exact inv.producers ns queueName id
  rates ns queueName id k := by
    rw [← inv.rates, handleHeartbeat_eq, rateAt, consumer?_withConsumer hid]
    split
    case isTrue hat =>
      obtain ⟨rfl, heq⟩ := Prod.mk.inj hat.1
      obtain ⟨rfl, rfl⟩ := Prod.mk.inj heq
      exact rate_getD_new _ _ _ _ k
    case isFalse => rfl
  resources := by
    intro ns queueName id c hc
    simp only [List.mem_append, List.mem_singleton, or_and_right, exists_or, exists_eq_left]
    rw [handleHeartbeat_eq, consumer?_withConsumer hid] at hc
    split at hc
    case isTrue hat =>
      obtain rfl := Option.some.inj hc
      exact ⟨fun _ => Or.inr hat.1.symm, fun _ => rfl⟩
    case isFalse hat =>
      have hother : (s.2.ns, s.2.queueName, s.1) ≠ (ns, queueName, id) := by
        intro heq
        have hreach := reaches_of_member? hc
        obtain ⟨rfl, h⟩ := Prod.mk.inj heq
        obtain ⟨rfl, rfl⟩ := Prod.mk.inj h
        exact hat ⟨rfl, hreach⟩
      exact (inv.resources ns queueName id c hc).trans (or_iff_left hother).symm

variable {processNs : String} {store : Store} {registered : List MessageQueue}

/-- Both the rates and the resources are known. -/
def Consumer.complete (c : Consumer ρ) : Bool := c.rates.isSome && c.resources.isSome

/-- A place in the data. -/
abbrev Place := String × String × String

def consumerAt (queues : Queues ρ) (p : Place) : Option (Consumer ρ) := consumer? queues p.1 p.2.1 p.2.2

/-- At some places incomplete consumers have been deleted, and nothing else has changed of consumers and producers. -/
structure Cleaned (places : Set Place) (before after : Queues ρ) : Prop where
  inside : ∀ p ∈ places, consumerAt after p = (consumerAt before p).filter Consumer.complete
  outside : ∀ p ∉ places, consumerAt after p = consumerAt before p
  producers : ∀ ns queueName id, producer? after ns queueName id = producer? before ns queueName id

variable {P Q : Set Place} {a b c : Queues ρ}

theorem Cleaned.refl (a : Queues ρ) : Cleaned ∅ a a where
  inside p hp := absurd hp (Set.notMem_empty p)
  outside _ _ := rfl
  producers _ _ _ := rfl

theorem Cleaned.trans (hab : Cleaned P a b) (hbc : Cleaned Q b c) : Cleaned (P ∪ Q) a c where
  inside p hp := by
    by_cases hP : p ∈ P
    · by_cases hQ : p ∈ Q
      · rw [hbc.inside p hQ, hab.inside p hP, Option.filter_filter]
        simp only [Bool.and_self]
      · rw [hbc.outside p hQ, hab.inside p hP]
    · rw [hbc.inside p (hp.resolve_left hP), hab.outside p hP]
  outside p hp := by
    rw [hbc.outside p fun hQ => hp (Or.inr hQ), hab.outside p fun hP => hp (Or.inl hP)]
  producers ns queueName id := (hbc.producers ns queueName id).trans (hab.producers ns queueName id)

/-- Places without a consumer can be counted in. -/
theorem Cleaned.extend (h : Cleaned P a b) (hsub : P ⊆ Q) (hnone : ∀ p ∈ Q, p ∉ P → consumerAt a p = none) :
    Cleaned Q a b where
  inside p hp := by
    by_cases hP : p ∈ P
    · exact h.inside p hP
    · rw [h.outside p hP, hnone p hp hP, Option.filter_none]
  outside p hp := h.outside p fun hP => hp (hsub hP)
  producers := h.producers

/-- The consumers that are left are where they were. -/
theorem Cleaned.located (h : Cleaned P a b) (ha : Located a) : Located b := by
  intro ns queueName id c hc
  refine ha ns queueName id c ?_
  by_cases hP : (ns, queueName, id) ∈ P
  · exact Option.eq_some_of_filter_eq_some ((h.inside _ hP).symm.trans hc)
  · exact (h.outside _ hP).symm.trans hc

end RedisSmq.Stats
