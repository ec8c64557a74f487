/-
Coroutine frames: `co_spawn`, `co_await`, and the end of a coroutine.  A frame holds the
promise and the point where the body is suspended; any number of threads resume the
frames that were posted to the executors.
-/
import Mathlib.Logic.Function.Basic
import Iocoro.CallStack
import Iocoro.TransitionSystem

universe u

namespace Iocoro

namespace Coroutine

/-! ### Bodies -/

/-- What a body does next.  `coAwait` awaits a new coroutine, to which `bind_executor`
may have given an executor; the body goes on with its value or its exception.  `operate`
awaits a leaf operation, which gives an answer. -/
inductive Stmt (P V X E Op A : Type u) where
  | coReturn (outcome : Except X V)
  | coAwait (bound : Option E) (child : P) (after : Except X V → P)
  | switchTo (target : E) (next : P)
  | on (target : E) (next : P)
  | operate (op : Op) (next : A → P)

def Stmt.map {P Q V X E Op A : Type u} (f : P → Q) : Stmt P V X E Op A → Stmt Q V X E Op A
  | .coReturn outcome => .coReturn outcome
  | .coAwait bound child after => .coAwait bound (f child) (f ∘ after)
  | .switchTo target next => .switchTo target (f next)
  | .on target next => .on target (f next)
  | .operate op next => .operate op (f ∘ next)

/-- What the factory of a task gives: an awaitable, or an exception. -/
abbrev Factory (S X E : Type u) := Except X (Option E × S)

/-- The places of a body: positions of the user's code, and those of
`spawn_entry_point_with_completion`. -/
inductive Place (S V X E : Type u) where
  | user (position : S)
  | entry (factory : Factory S X E)
  | invoke (result : Except X V)
  | finish

/-- Only the entry point invokes the completion. -/
inductive Act (S V X E Op A : Type u) where
  | body (stmt : Stmt (Place S V X E) V X E Op A)
  | complete (result : Except X V) (next : Place S V X E)

variable {S V X E Op A : Type u}

/-- `code` gives the statement at each position of the user's code, and `void` is the
value of an `awaitable<void>`. -/
def Place.act (code : S → Stmt S V X E Op A) (void : V) : Place S V X E → Act S V X E Op A
  | .user position => .body ((code position).map .user)
  | .entry (.ok (bound, child)) => .body (.coAwait bound (.user child) .invoke)
  | .entry (.error exception) => .complete (.error exception) .finish
  | .invoke result => .complete result .finish
  | .finish => .body (.coReturn (.ok void))

/-! ### Frames and threads -/

/-- Where a coroutine stands; `suspended` is at a `switch_to` or `on`, or at a leaf
operation that has its answer. -/
inductive Point (S V X E Op A : Type u) where
  | initial (body : Place S V X E)
  | running
  | awaiting (child : Nat) (after : Except X V → Place S V X E)
  | suspended (next : Place S V X E)
  | operating (op : Op) (next : A → Place S V X E)
  | final

/-- A coroutine frame with its `awaitable_promise`; `root` is the number of the task it
belongs to. -/
structure Frame (S V X E Op A : Type u) where
  ex : Option E
  continuation : Option Nat := none
  exception : Option X := none
  value : Option V := none
  detached : Bool := false
  point : Point S V X E Op A
  root : Nat

/-- A resumption that was posted to an executor, or a thread that runs a body. -/
inductive Job (S V X E : Type u) where
  | posted (executor : E) (handle : Nat)
  | running (current : E) (handle : Nat) (place : Place S V X E)

def Job.handle : Job S V X E → Nat
  | .posted _ handle | .running _ handle _ => handle

/-- What a task does that can be seen from outside. -/
inductive Event (V X Op A : Type u) where
  | operation (op : Op) (answer : A)
  | completion (result : Except X V)
deriving DecidableEq

/-- `tasks` are the factories that were spawned; `fault` says that a frame was used that
is destroyed, or resumed or destroyed where it must not. -/
structure State (S V X E Op A : Type u) where
  frames : Nat → Option (Frame S V X E Op A) := fun _ => none
  nextFrame : Nat := 0
  jobs : Nat → Option (Job S V X E) := fun _ => none
  nextJob : Nat := 0
  tasks : List (Factory S X E) := []
  events : List (Nat × Event V X Op A) := []
  destroyed : List Nat := []
  fault : Bool := false

def State.setFrame (s : State S V X E Op A) (handle : Nat) (frame : Frame S V X E Op A) :
    State S V X E Op A :=
  { s with frames := Function.update s.frames handle (some frame) }

def State.setJob (s : State S V X E Op A) (i : Nat) (job : Option (Job S V X E)) :
    State S V X E Op A :=
  { s with jobs := Function.update s.jobs i job }

def State.broken (s : State S V X E Op A) : State S V X E Op A := { s with fault := true }

def State.record (s : State S V X E Op A) (root : Nat) (event : Event V X Op A) :
    State S V X E Op A :=
  { s with events := s.events ++ [(root, event)] }

/-- `post` of an executor; an empty one does nothing. -/
def State.post (s : State S V X E Op A) (executor : Option E) (handle : Nat) :
    State S V X E Op A :=
  match executor with
  | some executor =>
      { s.setJob s.nextJob (some (.posted executor handle)) with nextJob := s.nextJob + 1 }
  | none => s

/-- `coroutine_handle::destroy`. -/
def State.destroy (s : State S V X E Op A) (handle : Nat) : State S V X E Op A :=
  match s.frames handle with
  | some _ =>
      { s with
        frames := Function.update s.frames handle none
        destroyed := s.destroyed ++ [handle] }
  | none => s.broken

/-- `await_resume` of an awaitable: the exception, else the value, which must be there. -/
def Frame.awaitResume (frame : Frame S V X E Op A) : Option (Except X V) :=
  match frame.exception with
  | some exception => some (.error exception)
  | none => frame.value.map .ok

def State.enter (s : State S V X E Op A) (i : Nat) (current : E) (handle : Nat)
    (frame : Frame S V X E Op A) (place : Place S V X E) : State S V X E Op A :=
  (s.setFrame handle { frame with point := .running }).setJob i
    (some (.running current handle place))

/-- `coroutine_handle::resume` on thread `i`.  After a `co_await` of a coroutine the
awaitable is destroyed, and with it the frame of the child. -/
def State.resume (s : State S V X E Op A) (i : Nat) (current : E) (handle : Nat) :
    State S V X E Op A :=
  match s.frames handle with
  | some frame =>
      match frame.point with
      | .initial place | .suspended place => s.enter i current handle frame place
      | .awaiting child after =>
          match (s.frames child).bind fun c =>
            match c.point with
            | .final => c.awaitResume
            | _ => none with
          | some outcome =>
              (s.destroy child).enter i current handle frame (after outcome)
          | none => s.broken
      | .running | .operating _ _ | .final => s.broken
  | none => s.broken

/-- `return_value` or `unhandled_exception`. -/
def Frame.coReturn (frame : Frame S V X E Op A) : Except X V → Frame S V X E Op A
  | .ok value => { frame with value := some value, point := .final }
  | .error exception => { frame with exception := some exception, point := .final }

/-- `inherit_executor`. -/
def inheritExecutor (bound parent : Option E) : Option E := bound.or parent

section Steps

variable [DecidableEq E]

/-- `final_awaiter::await_suspend`; it uses nothing of the frame after the post. -/
def State.finalSuspend (s : State S V X E Op A) (i : Nat) (current : E) (handle : Nat)
    (frame : Frame S V X E Op A) : State S V X E Op A :=
  if frame.detached then ((s.setFrame handle frame).destroy handle).setJob i none
  else
    match frame.continuation with
    | none => (s.setFrame handle frame).setJob i none
    | some continuation =>
        let s := s.setFrame handle { frame with continuation := none }
        if frame.ex = some current then s.resume i current continuation
        else (s.setJob i none).post frame.ex continuation

/-- `await_suspend` of an awaitable: the new frame is linked to the one that awaits it,
and resumed. -/
def State.coAwait (s : State S V X E Op A) (i : Nat) (current : E) (handle : Nat)
    (frame : Frame S V X E Op A) (bound : Option E) (child : Place S V X E)
    (after : Except X V → Place S V X E) : State S V X E Op A :=
  let s := s.setFrame handle { frame with point := .awaiting s.nextFrame after }
  let s := s.setFrame s.nextFrame
    { ex := inheritExecutor bound frame.ex
      continuation := some handle
      point := .initial child
      root := frame.root }
  { s with nextFrame := s.nextFrame + 1 }.resume i current s.nextFrame

/-- The awaiters of `switch_to` and `on`; the frame has the executor that it has
afterwards. -/
def State.hop (s : State S V X E Op A) (i : Nat) (current : E) (handle : Nat)
    (frame : Frame S V X E Op A) (target : E) (next : Place S V X E) : State S V X E Op A :=
  if current = target then
    (s.setFrame handle frame).setJob i (some (.running current handle next))
  else
    ((s.setFrame handle { frame with point := .suspended next }).setJob i none).post
      (some target) handle

/-- A thread runs one statement.  `ready` is the answer of a leaf operation that does
not suspend. -/
def State.proceed (code : S → Stmt S V X E Op A) (void : V) (s : State S V X E Op A)
    (i : Nat) (current : E) (handle : Nat) (frame : Frame S V X E Op A)
    (ready : Option A) (place : Place S V X E) : State S V X E Op A :=
  match place.act code void with
  | .complete result next =>
      (s.record frame.root (.completion result)).setJob i
        (some (.running current handle next))
  | .body (.coReturn outcome) => s.finalSuspend i current handle (frame.coReturn outcome)
  | .body (.coAwait bound child after) => s.coAwait i current handle frame bound child after
  | .body (.switchTo target next) =>
      s.hop i current handle { frame with ex := some target } target next
  | .body (.on target next) => s.hop i current handle frame target next
  | .body (.operate op next) =>
      match ready with
      | some answer =>
          (s.record frame.root (.operation op answer)).setJob i
            (some (.running current handle (next answer)))
      | none => (s.setFrame handle { frame with point := .operating op next }).setJob i none

/-- The frame of `spawn_entry_point_with_completion`, as `spawn_detached_impl` leaves
it. -/
def entryPoint (executor : E) (factory : Factory S X E) (root : Nat) :
    Frame S V X E Op A where
  ex := some executor
  detached := true
  point := .initial (.entry factory)
  root := root

/-- `co_spawn` with a completion: the entry point is created, detached and posted. -/
def State.coSpawn (s : State S V X E Op A) (executor : E) (factory : Factory S X E) :
    State S V X E Op A :=
  { s.setFrame s.nextFrame (entryPoint executor factory s.tasks.length) with
    nextFrame := s.nextFrame + 1
    tasks := s.tasks ++ [factory] }.post (some executor) s.nextFrame

/-- A leaf operation of a suspended coroutine has its answer. -/
def State.complete (s : State S V X E Op A) (handle : Nat) (answer : A) :
    Option (State S V X E Op A) :=
  match s.frames handle with
  | some frame =>
      match frame.point with
      | .operating op next =>
          some (((s.setFrame handle { frame with point := .suspended (next answer) }).record
            frame.root (.operation op answer)).post frame.ex handle)
      | _ => none
  | none => none

inductive Action (S X E A : Type u) where
  | coSpawn (executor : E) (factory : Factory S X E)
  | run (job : Nat)
  | proceed (job : Nat) (ready : Option A)
  | complete (handle : Nat) (answer : A)

def step (code : S → Stmt S V X E Op A) (void : V) (s : State S V X E Op A) :
    Action S X E A → Option (State S V X E Op A)
  | .coSpawn executor factory => some (s.coSpawn executor factory)
  | .run i =>
      match s.jobs i with
      | some (.posted executor handle) => some (s.resume i executor handle)
      | _ => none
  | .proceed i ready =>
      match s.jobs i with
      | some (.running current handle place) =>
          match s.frames handle with
          | some frame =>
              some (s.proceed code void i current handle frame ready place)
          | none => some s.broken
      | _ => none
  | .complete handle answer => s.complete handle answer

def system (code : S → Stmt S V X E Op A) (void : V) :
    TransitionSystem (State S V X E Op A) (Action S X E A) where
  start := {}
  step := step code void

end Steps

end Coroutine

end Iocoro
