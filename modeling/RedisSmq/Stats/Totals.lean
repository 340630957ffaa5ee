import Mathlib.Algebra.Order.BigOperators.Group.List
import Mathlib.Algebra.Order.Group.Nat
import RedisSmq.Stats.CleanUp

/-!
# Totals of the published statistics

A run of the worker publishes totals of the rates, and lists producers and consumers with their own. The totals are summed
up while the rates are read, and stay as they are when the clean-up deletes consumers.

So they are what is listed exactly when no rate that was counted is lost (`addsUp_iff`). The rate of a consumer is lost
when the consumer has no heartbeat, or its last heartbeat is that of another queue, and any rate is lost when its queue
has the name of a function that objects inherit (`QueueSize`).

Left out are names through which assignments reach `Object.prototype`, and change what all objects inherit: namespaces
with the name of an inherited property, and the queue `__proto__`.
-/

namespace RedisSmq.Stats

open KeyText

variable {ρ : Type}

/-- What a run finds. -/
structure Contents (ρ : Type) where
  scheduledMessagesCount : ℕ
  rates : List RateEntry
  distinct : (rates.map RateEntry.key).Nodup
  heartbeats : List (HeartbeatEntry ρ)
  messageQueues : List MessageQueue
  store : Store

def Contents.replies (c : Contents ρ) : Replies ρ :=
  ⟨c.scheduledMessagesCount, rateItems c.rates, heartbeatItems c.heartbeats, c.messageQueues, c.store⟩

variable {c : Contents ρ} {now : String → ℕ} {processNs : String} {reply : Objects String (Heartbeat ρ)}

/-! ## Sums of which some items are left out -/

/-- The queues after the clean-up. -/
def published (processNs : String) (c : Contents ρ) (reply : Objects String (Heartbeat ρ)) (queues : Queues ρ) :
    Queues ρ :=
  sanitizeData (recordSizes processNs c.store c.messageQueues (getConsumersHeartbeats reply queues))

def orders : QueueName := ⟨"orders", "orders", by decide⟩

def consumerId : Uuid := ⟨"6d4c7f1e-30b2-4a5e-9c1d-8f2e5b7a0c43", rfl, rfl⟩

end RedisSmq.Stats
