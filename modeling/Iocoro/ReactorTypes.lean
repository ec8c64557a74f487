/-
Types shared by the registries, the reactor and its backends.
-/
import Mathlib.Logic.Basic

namespace Iocoro

inductive FdEventKind where
  | read
  | write
deriving DecidableEq, Repr

/-- The one of two flags that belongs to a direction. -/
def FdEventKind.pick (kind : FdEventKind) (canRead canWrite : Bool) : Bool :=
  match kind with
  | .read => canRead
  | .write => canWrite

/-- `invalid_token`. -/
def invalidToken : Nat := 0

/-- The values of `std::error_code` that the modelled functions handle: no
error, errors of the library, and an error number of the system. -/
inductive ErrorCode where
  | none
  | operationAborted
  | internalError
  | notOpen
  | busy
  | alreadyConnected
  | eof
  | connectionReset
  | system (errno : Nat)
deriving DecidableEq, Repr

structure BackendEvent where
  fd : Int := -1
  canRead : Bool := false
  canWrite : Bool := false
  isError : Bool := false
  ec : ErrorCode := .none
deriving DecidableEq, Repr

/-- The event signals a direction. -/
def BackendEvent.signals (event : BackendEvent) (kind : FdEventKind) : Bool :=
  kind.pick event.canRead event.canWrite

/-- The callback a reactor operation receives. -/
inductive Callback where
  | onComplete
  | onAbort (ec : ErrorCode)
deriving DecidableEq, Repr

end Iocoro
