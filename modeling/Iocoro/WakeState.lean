/-
`wake_state`: the three-phase flag through which foreign threads decide whether
the reactor has to be woken through the eventfd.  Every atomic operation of the
class is one function here, so that the loops of `notify` and `finish_wait` can
be interleaved with other threads between their loads and exchanges.
-/
import Mathlib.Logic.Basic

namespace Iocoro

/-- `wake_state::phase`. -/
inductive Phase where
  | running
  | waiting
  | notified
deriving DecidableEq, Repr

namespace Phase

/-- `begin_wait`: a strong compare-exchange from `running` to `waiting`. -/
def beginWait : Phase → Phase
  | .running => .waiting
  | phase => phase

/-- The load of `notify`: only a `waiting` phase is worth an exchange. -/
def notifyLoad (phase : Phase) : Bool :=
  phase == .waiting

/-- One compare-exchange of `notify`, from `waiting` to `notified`.  `none` is
the failure that reloads another phase and makes `notify` return false. -/
def notifyExchange : Phase → Option Phase
  | .waiting => some .notified
  | _ => none

/-- `consume_notification`. -/
def consumeNotification (_ : Phase) : Phase :=
  .running

/-- The load of `finish_wait`. -/
def finishLoad (phase : Phase) : Bool :=
  phase == .waiting

/-- The compare-exchange of `finish_wait`, which leaves the loop in any case:
either it closed the window or another phase was reloaded. -/
def finishExchange : Phase → Phase
  | .waiting => .running
  | phase => phase

@[simp] theorem beginWait_eq_notified {phase : Phase} :
    phase.beginWait = .notified ↔ phase = .notified := by
  cases phase <;> simp [beginWait]

@[simp] theorem beginWait_ne_running (phase : Phase) :
    phase.beginWait ≠ .running := by
  cases phase <;> simp [beginWait]

@[simp] theorem finishExchange_eq_notified {phase : Phase} :
    phase.finishExchange = .notified ↔ phase = .notified := by
  cases phase <;> simp [finishExchange]

@[simp] theorem notifyLoad_eq_true {phase : Phase} :
    phase.notifyLoad = true ↔ phase = .waiting := by
  simp [notifyLoad]

end Phase

end Iocoro
