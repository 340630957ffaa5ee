import RedisSmq.Broker
import RedisSmq.Lib.Machine

/-!
# The life of a message

The stages of a message without CRON and repeat, and the turns that take it from one stage to the next (`lifeCycle`).
A message is delivered from the pending messages only, every delivery is settled once, and a message comes back to the
pending messages after a failure, by the workers, or after a verdict, by the message manager. A scheduled message that
is deleted while the schedule worker has read it is withdrawn: the worker still enqueues it.

`Accounts` counts the turns of a life (`accounts_of_follow`): deliveries and settlements, deliveries and the reasons for
them, verdicts and revivals.
-/

namespace RedisSmq.Queue

open Transition

/-- Where a message is. -/
inductive LifeStage
  | unborn | scheduled | withdrawn | pending | processing | delayed | requeued | acknowledged | deadLettered | gone
deriving DecidableEq

/-- What happens to a message: it is scheduled or enqueued by a producer, enqueued when it is due, taken, settled,
scheduled or pushed back by a worker, re-queued by the message manager, or it goes out of the stores. -/
inductive Turn
  | scheduled
  | enqueued
  | due
  | taken
  | acknowledged
  | failed (d : Broker.Destination)
  | rescheduled
  | returned
  | revived
  | withdrawn
  | skipped
  | lost
  | removed
deriving DecidableEq

/-- Where a message goes that was not acknowledged. -/
def LifeStage.ofDestination : Broker.Destination → LifeStage
  | .deadLetter _ => .deadLettered
  | .delay => .delayed
  | .requeue => .requeued

/-- The stage that a turn leads to. -/
def LifeStage.next : LifeStage → Turn → Option LifeStage
  | .unborn, .scheduled => some .scheduled
  | .unborn, .enqueued => some .pending
  | .scheduled, .due | .withdrawn, .due => some .pending
  | .pending, .taken => some .processing
  | .processing, .acknowledged => some .acknowledged
  | .processing, .failed d => some (.ofDestination d)
  | .delayed, .rescheduled => some .scheduled
  | .requeued, .returned => some .pending
  | .acknowledged, .revived | .deadLettered, .revived => some .pending
  | .scheduled, .withdrawn => some .withdrawn
  | .withdrawn, .skipped => some .gone
  | .requeued, .lost => some .gone
  | .scheduled, .removed | .pending, .removed | .acknowledged, .removed | .deadLettered, .removed => some .gone
  | _, _ => none

/-- The life of a message as a machine. -/
def lifeCycle : Machine LifeStage Turn where
  init := .unborn
  step := LifeStage.next

/-! ## Accounts -/

/-- The delivery is over. -/
def Turn.settles : Turn → Bool
  | .acknowledged | .failed _ => true
  | _ => false

/-- The delivery is over, and the message is to be delivered again. -/
def Turn.retries : Turn → Bool
  | .failed .delay | .failed .requeue => true
  | _ => false

/-- The delivery is over, and so are the deliveries of the message. -/
def Turn.concludes : Turn → Bool
  | .acknowledged | .failed (.deadLetter _) => true
  | _ => false

/-- One delivery is ahead of the message. -/
def LifeStage.ahead : LifeStage → ℕ
  | .unborn | .scheduled | .withdrawn | .pending | .delayed | .requeued => 1
  | .processing | .acknowledged | .deadLettered | .gone => 0

/-- The deliveries of the message are not concluded. -/
def LifeStage.open : LifeStage → ℕ
  | .acknowledged | .deadLettered | .gone => 0
  | _ => 1

/-- The turns of a life and the stage that it has come to. -/
structure Accounts (life : List Turn) (σ : LifeStage) : Prop where
  settled : life.count .taken = life.countP Turn.settles + if σ = .processing then 1 else 0
  deliveries : life.count .taken + σ.ahead ≤ 1 + life.countP Turn.retries + life.count .revived
  verdicts : life.countP Turn.concludes + σ.open ≤ 1 + life.count .revived
  revivals : life.count .revived ≤ life.countP Turn.concludes
  last : σ = .acknowledged ∨ σ = .deadLettered → life.count .revived < life.countP Turn.concludes

variable {life : List Turn} {σ σ' : LifeStage} {t : Turn}

/-- Each turn keeps the accounts. -/
theorem Accounts.turn (h : Accounts life σ) (ht : σ.next t = some σ') : Accounts (life ++ [t]) σ' := by
  obtain ⟨hsettled, hdeliveries, hverdicts, hrevivals, hlast⟩ := h
  unfold LifeStage.next at ht
  split at ht <;> cases ht
  case h_7 d =>
    -- the destination decides whether the message is to be delivered again
    cases d <;> constructor <;>
      simp [Turn.settles, Turn.retries, Turn.concludes, LifeStage.ahead, LifeStage.open, LifeStage.ofDestination,
        List.countP_append, List.countP_singleton] at * <;> omega
  all_goals
    constructor <;>
      simp [Turn.settles, Turn.retries, Turn.concludes, LifeStage.ahead, LifeStage.open, List.countP_append,
        List.countP_singleton] at * <;> omega

/-- The accounts of every life. -/
theorem accounts_of_follow (h : lifeCycle.follow .unborn life = some σ) : Accounts life σ := by
  refine follow_induction (A := lifeCycle) (I := Accounts) ?_ (fun _ _ _ _ h ht => h.turn ht) h
  exact ⟨rfl, Nat.le_refl _, Nat.le_refl _, Nat.le_refl _, by simp [lifeCycle]⟩

end RedisSmq.Queue
