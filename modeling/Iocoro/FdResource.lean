/-
`fd_resource`: the published handle and the cancel epoch of either direction
of a descriptor, and the closing flag.  A handle is known by its token, the
descriptor and the direction being those of the resource.
-/
import Iocoro.FixedWidth
import Iocoro.ReactorTypes

namespace Iocoro

structure FdResource where
  fd : Int
  closing : Bool := false
  readCancelEpoch : Nat := 0
  writeCancelEpoch : Nat := 0
  readHandle : Nat := invalidToken
  writeHandle : Nat := invalidToken
deriving DecidableEq, Repr

namespace FdResource

/-- `read_cancel_epoch` and `write_cancel_epoch`. -/
def cancelEpoch (r : FdResource) : FdEventKind → Nat
  | .read => r.readCancelEpoch
  | .write => r.writeCancelEpoch

def handle (r : FdResource) : FdEventKind → Nat
  | .read => r.readHandle
  | .write => r.writeHandle

def putHandle (r : FdResource) (token : Nat) : FdEventKind → FdResource
  | .read => { r with readHandle := token }
  | .write => { r with writeHandle := token }

/-- The locked section of `set_read_handle` and `set_write_handle`: the new
state and whether the handle was accepted. -/
def setHandle (r : FdResource) (kind : FdEventKind) (token expected : Nat) :
    FdResource × Bool :=
  if !r.closing ∧ 0 ≤ r.fd ∧ r.cancelEpoch kind = expected then
    (r.putHandle token kind, true)
  else (r, false)

/-- The first step of `cancel_read_handle` and `cancel_write_handle`. -/
def bumpCancelEpoch (r : FdResource) : FdEventKind → FdResource
  | .read =>
      { r with readCancelEpoch := FixedWidth.incr 64 r.readCancelEpoch }
  | .write =>
      { r with writeCancelEpoch := FixedWidth.incr 64 r.writeCancelEpoch }

/-- Their locked section: the handle is taken out. -/
def takeHandle (r : FdResource) (kind : FdEventKind) : FdResource × Nat :=
  (r.putHandle invalidToken kind, r.handle kind)

def markClosing (r : FdResource) : FdResource := { r with closing := true }

@[simp] theorem handle_putHandle_self (r : FdResource) (token : Nat)
    (kind : FdEventKind) : (r.putHandle token kind).handle kind = token := by
  cases kind <;> rfl

theorem handle_putHandle (r : FdResource) (token : Nat)
    (kind other : FdEventKind) :
    (r.putHandle token kind).handle other =
      if other = kind then token else r.handle other := by
  cases kind <;> cases other <;> rfl

@[simp] theorem cancelEpoch_putHandle (r : FdResource) (token : Nat)
    (kind other : FdEventKind) :
    (r.putHandle token kind).cancelEpoch other = r.cancelEpoch other := by
  cases kind <;> cases other <;> rfl

@[simp] theorem closing_putHandle (r : FdResource) (token : Nat)
    (kind : FdEventKind) : (r.putHandle token kind).closing = r.closing := by
  cases kind <;> rfl

@[simp] theorem fd_putHandle (r : FdResource) (token : Nat)
    (kind : FdEventKind) : (r.putHandle token kind).fd = r.fd := by
  cases kind <;> rfl

@[simp] theorem handle_bumpCancelEpoch (r : FdResource)
    (kind other : FdEventKind) :
    (r.bumpCancelEpoch kind).handle other = r.handle other := by
  cases kind <;> cases other <;> rfl

@[simp] theorem cancelEpoch_bumpCancelEpoch (r : FdResource)
    (kind : FdEventKind) :
    (r.bumpCancelEpoch kind).cancelEpoch kind =
      FixedWidth.incr 64 (r.cancelEpoch kind) := by
  cases kind <;> rfl

@[simp] theorem handle_markClosing (r : FdResource) (kind : FdEventKind) :
    r.markClosing.handle kind = r.handle kind := by
  cases kind <;> rfl

/-- A handle is put in place only while the resource is not closing. -/
theorem setHandle_cases (r : FdResource) (kind : FdEventKind)
    (token expected : Nat) :
    (r.closing = false ∧
        r.setHandle kind token expected = (r.putHandle token kind, true)) ∨
      r.setHandle kind token expected = (r, false) := by
  unfold setHandle
  split
  · next haccept =>
      left
      exact ⟨by simpa using haccept.1, rfl⟩
  · right
    rfl

end FdResource

end Iocoro
