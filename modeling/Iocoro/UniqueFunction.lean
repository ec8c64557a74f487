/-
`unique_function`: a move-only wrapper that keeps a small callable in its own storage and
a large one on the heap.  It behaves as a slot that holds a callable or nothing, and every
callable that it constructs is destroyed once.
-/
import Iocoro.ObjectMemory
import Iocoro.TransitionSystem

universe u v w

namespace Iocoro

namespace UniqueFunction

/-- What a wrapper asks of the type of a callable. -/
structure FunctorType where
  id : Nat
  size : Nat
  align : Nat
  nothrowMove : Bool
  isPointer : Bool
deriving DecidableEq, Repr

/-- `4 * sizeof(void*)` -/
def inlineSize : Nat := 32

/-- `alignof(std::max_align_t)` -/
def inlineAlign : Nat := 16

def FunctorType.fitsInline (f : FunctorType) : Bool :=
  decide (f.size ≤ inlineSize) && decide (f.align ≤ inlineAlign) && f.nothrowMove

structure Callable (V : Type u) where
  type : FunctorType
  value : V
deriving DecidableEq, Repr

variable {V : Type u} {Args : Type v} {R : Type w}

/-- `is_null_callable`: a null pointer to a function or a member. -/
def isNullCallable (isNull : V → Bool) (callable : Callable V) : Bool :=
  callable.type.isPointer && isNull callable.value

/-- The storage of a wrapper, or a block of the heap. -/
inductive Address where
  | storage (wrapper : Nat)
  | heap (block : Nat)
deriving DecidableEq, Repr

def Address.isStorage : Address → Bool
  | .storage _ => true
  | .heap _ => false

theorem heap_ne_storage (b w : Nat) : Address.heap b ≠ .storage w := by
  intro h
  cases h

/-- The members of a wrapper, apart from its storage; `vtable` is `vtable_for` a type. -/
structure Wrapper where
  ptr : Option Address := none
  vtable : Option FunctorType := none
  isInline : Bool := false
deriving DecidableEq, Repr

abbrev Memory (V : Type u) := ObjectMemory Address (Callable V)

/-- `results` is what the calls have returned. -/
structure State (V : Type u) (R : Type w) where
  memory : Memory V := {}
  wrappers : Nat → Option Wrapper := fun _ => none
  nextWrapper : Nat := 0
  nextBlock : Nat := 0
  results : List R := []

/-! ### The functions of a vtable -/

/-- `static_cast<F*>(object)`, where there must be an object of that type. -/
def cast (m : Memory V) (f : FunctorType) (object : Address) : Option V :=
  match m.read object with
  | some callable => if callable.type = f then some callable.value else none
  | none => none

/-- `std::destroy_at` is for an object in a storage, `delete` for one on the heap. -/
def destroyImpl (m : Memory V) (f : FunctorType) (object : Address) (isInline : Bool) :
    Option (Memory V) :=
  match cast m f object with
  | some _ => if isInline = object.isStorage then m.destroy object else none
  | none => none

/-- A type that does not fit has no `move_inline`. -/
def moveInlineImpl (m : Memory V) (f : FunctorType) (src dst : Address) :
    Option (Memory V) :=
  match cast m f src with
  | some value =>
      if f.fitsInline = true then (m.construct dst ⟨f, value⟩).bind (·.destroy src)
      else none
  | none => none

/-! ### The wrapper -/

def State.setWrapper (s : State V R) (w : Nat) (x : Option Wrapper) : State V R :=
  { s with wrappers := Function.update s.wrappers w x }

def State.reset (s : State V R) (w : Nat) : Option (State V R) :=
  (s.wrappers w).bind fun x =>
    match x.ptr, x.vtable with
    | some object, some f =>
        (destroyImpl s.memory f object x.isInline).map fun memory =>
          { s with memory }.setWrapper w (some {})
    | some _, none => none
    | none, _ => some s

/-- The wrapper `w` holds nothing. -/
def State.moveFrom (s : State V R) (w other : Nat) : Option (State V R) :=
  (s.wrappers other).bind fun x =>
    match x.ptr, x.vtable with
    | none, _ => some (s.setWrapper w (some {}))
    | some object, some f =>
        if x.isInline = true then
          (moveInlineImpl s.memory f object (.storage w)).map fun memory =>
            ({ s with memory }.setWrapper w
              (some { ptr := some (.storage w), vtable := some f, isInline := true })).setWrapper
              other (some {})
        else
          some ((s.setWrapper w
            (some { ptr := some object, vtable := some f, isInline := false })).setWrapper
            other (some {}))
    | some _, none => none

inductive Op (V : Type u) (Args : Type v) where
  | create
  | createFrom (callable : Callable V)
  | moveConstruct (other : Nat)
  | moveAssign (target other : Nat)
  | assignNull (target : Nat)
  | destroy (target : Nat)
  | call (target : Nat) (args : Args)

/-- A new wrapper. -/
def State.add (s : State V R) (x : Wrapper) : State V R :=
  { s.setWrapper s.nextWrapper (some x) with nextWrapper := s.nextWrapper + 1 }

def State.createFrom (isNull : V → Bool) (s : State V R) (callable : Callable V) :
    Option (State V R) :=
  if isNullCallable isNull callable = true then some (s.add {})
  else if callable.type.fitsInline = true then
    (s.memory.construct (.storage s.nextWrapper) callable).map fun memory =>
      { s with memory }.add {
        ptr := some (.storage s.nextWrapper)
        vtable := some callable.type
        isInline := true }
  else
    (s.memory.construct (.heap s.nextBlock) callable).map fun memory =>
      { s with memory, nextBlock := s.nextBlock + 1 }.add {
        ptr := some (.heap s.nextBlock)
        vtable := some callable.type
        isInline := false }

/-- `operator()`, on a wrapper that holds a callable. -/
def State.call (invoke : FunctorType → V → Args → V × R) (s : State V R) (w : Nat)
    (args : Args) : Option (State V R) :=
  (s.wrappers w).bind fun x =>
    match x.ptr, x.vtable with
    | some object, some f =>
        (cast s.memory f object).bind fun value =>
          (s.memory.write object ⟨f, (invoke f value args).1⟩).map fun memory =>
            { s with memory, results := s.results ++ [(invoke f value args).2] }
    | _, _ => none

/-- `none` is undefined behaviour, a failed assertion, or the use of a wrapper that is
not there. -/
def step (invoke : FunctorType → V → Args → V × R) (isNull : V → Bool) (s : State V R) :
    Op V Args → Option (State V R)
  | .create => some (s.add {})
  | .createFrom callable => s.createFrom isNull callable
  | .moveConstruct other =>
      (s.wrappers other).bind fun _ => (s.add {}).moveFrom s.nextWrapper other
  | .moveAssign target other =>
      if target = other then (s.wrappers other).map fun _ => s
      else (s.reset target).bind (·.moveFrom target other)
  | .assignNull target => s.reset target
  | .destroy target => (s.reset target).map (·.setWrapper target none)
  | .call target args => s.call invoke target args

def system (invoke : FunctorType → V → Args → V × R) (isNull : V → Bool) :
    TransitionSystem (State V R) (Op V Args) where
  start := {}
  step := step invoke isNull

/-! ### Slots -/

/-- A wrapper is there or not, and holds a callable or nothing. -/
structure Slots (V : Type u) (R : Type w) where
  slots : Nat → Option (Option (Callable V)) := fun _ => none
  next : Nat := 0
  results : List R := []

def Slots.set (s : Slots V R) (w : Nat) (slot : Option (Option (Callable V))) : Slots V R :=
  { s with slots := Function.update s.slots w slot }

def Slots.add (s : Slots V R) (content : Option (Callable V)) : Slots V R :=
  { s.set s.next (some content) with next := s.next + 1 }

def Slots.step (invoke : FunctorType → V → Args → V × R) (isNull : V → Bool)
    (s : Slots V R) : Op V Args → Option (Slots V R)
  | .create => some (s.add none)
  | .createFrom callable =>
      some (s.add (if isNullCallable isNull callable = true then none else some callable))
  | .moveConstruct other =>
      (s.slots other).map fun content => (s.add content).set other (some none)
  | .moveAssign target other =>
      (s.slots target).bind fun _ => (s.slots other).map fun content =>
        if target = other then s else (s.set target (some content)).set other (some none)
  | .assignNull target => (s.slots target).map fun _ => s.set target (some none)
  | .destroy target => (s.slots target).map fun _ => s.set target none
  | .call target args =>
      (s.slots target).bind fun content => content.map fun callable =>
        let (value, result) := invoke callable.type callable.value args
        { s.set target (some (some { callable with value })) with
          results := s.results ++ [result] }

def slotSystem (invoke : FunctorType → V → Args → V × R) (isNull : V → Bool) :
    TransitionSystem (Slots V R) (Op V Args) where
  start := {}
  step := Slots.step invoke isNull

def State.contents (s : State V R) : Slots V R where
  slots w := (s.wrappers w).map fun x => x.ptr.bind s.memory.read
  next := s.nextWrapper
  results := s.results

end UniqueFunction

end Iocoro
