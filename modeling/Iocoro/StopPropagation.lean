/-
Stop requests and reactor operations: a chain of awaitables that grows and
shrinks while stop is requested anywhere along it, with an `operation_awaiter`
at its end and the registries that store the operation.
-/
import Iocoro.StopChain
import Iocoro.TransitionSystem
import Iocoro.FdRegistry
import Iocoro.TimerRegistry

namespace Iocoro

namespace StopPropagation

open StopChain

/-- Whose operation a registry stores: the one of the chain, or any other. -/
inductive Owner where
  | chain
  | other
deriving DecidableEq, Repr

inductive Place where
  | fd (fd : Nat) (kind : FdEventKind)
  | timer (index : Nat)
deriving DecidableEq, Repr

/-- `event_handle`; it is valid when its token is. -/
structure Handle where
  place : Place
  token : Nat
deriving DecidableEq, Repr

/-- Where `await_suspend` stands after `register_op`. -/
inductive Stage where
  | test
  | install
  | returned
deriving DecidableEq, Repr

/-- An operation with the handle that `register_op` returned, the state of
`stop_cb`, and whether `handle.cancel()` has been called. -/
structure Operation where
  place : Option Place := none
  handle : Option Handle := none
  stage : Stage := .test
  stopCb : StopCallback := .absent
  cancelCalled : Bool := false
deriving DecidableEq, Repr

/-- What the innermost coroutine does: it runs, links an awaited child (the flag
is that of the child), or waits for an operation. -/
inductive Leaf where
  | running
  | linkTest (stopped : Bool)
  | linkInstall (stopped : Bool)
  | waiting (op : Operation)
deriving DecidableEq, Repr

/-- The last source of the chain is the one whose token was given to
`co_spawn`. -/
structure State where
  chain : List Source := [{}]
  leaf : Leaf := .running
  fds : FdRegistry Owner := {}
  timers : TimerRegistry Owner := {}
  posted : List Handle := []

/-- Calls on the reactor that have nothing to do with the chain. -/
inductive Request where
  | registerFd (fd : Nat) (kind : FdEventKind)
  | addTimer (expiry : Int)
  | cancel (handle : Handle)
  | event (event : BackendEvent)
  | expire (clock : Nat → Int)
  | addFd (fd : Nat)
  | removeFd (fd : Nat)
  | drain

inductive Action where
  | request (n : Nat)
  | requestChild
  | takeLink (n : Nat)
  | runLink (n : Nat)
  | endCall (n : Nat)
  | endLeafCall
  | await (stopped : Bool)
  | linkTest
  | linkInstall
  | finish
  | registerFd (fd : Nat) (kind : FdEventKind)
  | registerTimer (expiry : Int)
  | registerClosed
  | test (inline : Bool)
  | install (inline : Bool)
  | takeCallback
  | runCallback (inline : Bool)
  | resume
  | post (handle : Handle)
  | runPosted
  | reactor (request : Request)

/-- The operation that a place of the registries stores. -/
def State.opAt (s : State) : Place → Option Owner
  | .fd fd kind => (s.fds.slotAt fd kind).op
  | .timer index => (s.timers.node index).op

def State.tokenAt (s : State) : Place → Nat
  | .fd fd kind => (s.fds.slotAt fd kind).token
  | .timer index => (s.timers.node index).token

/-- The task of `cancel_fd_event` or `cancel_timer`. -/
def State.runCancel (s : State) (handle : Handle) : State :=
  match handle.place with
  | .fd fd kind =>
      { s with fds := (s.fds.cancel fd kind handle.token).1 }
  | .timer index =>
      { s with timers := (s.timers.cancel index handle.token).1 }

/-- `handle.cancel()`, on the reactor thread or on another. -/
def State.cancelHandle (s : State) (handle : Option Handle) (inline : Bool) :
    State :=
  match handle with
  | none => s
  | some handle =>
      if handle.token = invalidToken then s
      else if inline then s.runCancel handle
      else { s with posted := s.posted ++ [handle] }

/-- The handle that `register_fd_impl` makes. -/
def fdHandle (fd : Nat) (kind : FdEventKind) (token : Nat) : Option Handle :=
  if token = invalidToken then none else some ⟨.fd fd kind, token⟩

/-- The callback that the innermost coroutine has on its own token. -/
def Leaf.callback : Leaf → StopCallback
  | .waiting op => op.stopCb
  | _ => .absent

/-- Calls of `request_stop` and the callbacks between the sources. -/
def propagate (s : State) : Action → Option State
  | .request n => some { s with chain := requestAt n s.chain }
  | .requestChild =>
      match s.leaf with
      | .linkTest _ => some { s with leaf := .linkTest true }
      | .linkInstall _ => some { s with leaf := .linkInstall true }
      | _ => none
  | .takeLink n =>
      (StopChain.takeLink n s.chain).map fun chain => { s with chain }
  | .runLink n =>
      (StopChain.runLink n s.chain).map fun chain => { s with chain }
  | .endCall n =>
      (StopChain.endCall n s.chain).map fun chain => { s with chain }
  | .endLeafCall =>
      match s.chain with
      | [] => none
      | f :: rest =>
          if f.calling = true ∧ s.leaf.callback = .absent then
            some { s with chain := { f with calling := false } :: rest }
          else none
  | _ => none

/-- The innermost coroutine: `inherit_stop_token` when it awaits, the unlinking
at `final_suspend`, which waits for a callback that is being run. -/
def advance (s : State) : Action → Option State
  | .await stopped =>
      if s.leaf = .running then
        some { s with leaf := .linkTest stopped }
      else none
  | .linkTest =>
      match s.leaf, s.chain with
      | .linkTest stopped, parent :: _ =>
          if parent.stopped then
            some { s with
              leaf := .running
              chain := { stopped := true } :: s.chain }
          else some { s with leaf := .linkInstall stopped }
      | _, _ => none
  | .linkInstall =>
      match s.leaf, s.chain with
      | .linkInstall stopped, parent :: _ =>
          some { s with
            leaf := .running
            chain :=
              (if parent.stopped then { stopped := true }
                else { stopped, link := .installed }) :: s.chain }
      | _, _ => none
  | .finish =>
      match s.leaf, s.chain with
      | .running, f :: g :: rest =>
          if f.link = .executing then none
          else some { s with chain := g :: rest }
      | _, _ => none
  | _ => none

/-- `handle.cancel()` is called for the operation, which does not expect its
callback any more. -/
def State.cancelOp (s : State) (op : Operation) (inline : Bool) : State :=
  { s.cancelHandle op.handle inline with
    leaf := .waiting { op with
      stage := .returned, stopCb := .absent, cancelCalled := true } }

section

variable (algorithms : BinaryHeap.Algorithms Nat)

/-- `operation_awaiter::await_suspend`, its stop callback and the resumption
after the operation has left the registries, which waits for a callback that is
being run. -/
def operate (s : State) (a : Action) : Option State :=
  match s.leaf, s.chain, a with
  | .running, _ :: _ :: _, .registerFd fd kind =>
      let result := s.fds.registerImpl fd (some .chain) kind
      some { s with
        fds := result.1
        leaf := .waiting {
          place := some (.fd fd kind)
          handle := fdHandle fd kind result.2.token } }
  | .running, _ :: _ :: _, .registerTimer expiry =>
      let result := s.timers.addTimer algorithms expiry (some .chain)
      some { s with
        timers := result.1
        leaf := .waiting {
          place := some (.timer result.2.index)
          handle := some ⟨.timer result.2.index, result.2.token⟩ } }
  | .running, _ :: _ :: _, .registerClosed =>
      some { s with leaf := .waiting {} }
  | .waiting op, f :: _, .test inline =>
      if op.stage = .test then
        if f.stopped then some (s.cancelOp op inline)
        else some { s with leaf := .waiting { op with stage := .install } }
      else none
  | .waiting op, f :: _, .install inline =>
      if op.stage = .install then
        if f.stopped then some (s.cancelOp op inline)
        else some { s with
          leaf := .waiting { op with stage := .returned, stopCb := .installed } }
      else none
  | .waiting op, f :: _, .takeCallback =>
      if f.calling = true ∧ op.stopCb = .installed then
        some { s with leaf := .waiting { op with stopCb := .executing } }
      else none
  | .waiting op, _, .runCallback inline =>
      if op.stopCb = .executing then some (s.cancelOp op inline) else none
  | .waiting op, _, .resume =>
      if op.stage = .returned ∧ op.stopCb ≠ .executing ∧
          op.place.bind s.opAt ≠ some .chain then
        some { s with leaf := .running }
      else none
  | _, _, _ => none

def State.perform (s : State) : Request → State
  | .registerFd fd kind =>
      { s with fds := (s.fds.registerImpl fd (some .other) kind).1 }
  | .addTimer expiry =>
      { s with
        timers := (s.timers.addTimer algorithms expiry (some .other)).1 }
  | .cancel handle => s.runCancel handle
  | .event event =>
      { s with
        fds := (s.fds.takeReady event.fd event.canRead event.canWrite).1 }
  | .expire clock =>
      { s with timers := (s.timers.processExpired algorithms clock).1 }
  | .addFd fd => { s with fds := s.fds.track fd }
  | .removeFd fd => { s with fds := (s.fds.deregister fd).1 }
  | .drain =>
      { s with fds := s.fds.drainAll.1, timers := s.timers.drainAll.1 }

/-- The reactor. -/
def react (s : State) : Action → Option State
  | .post handle => some { s with posted := s.posted ++ [handle] }
  | .runPosted =>
      match s.posted with
      | [] => none
      | handle :: rest => some (State.runCancel { s with posted := rest } handle)
  | .reactor request => some (s.perform algorithms request)
  | _ => none

def step (s : State) (a : Action) : Option State :=
  match a with
  | .request _ | .requestChild | .takeLink _ | .runLink _ | .endCall _
  | .endLeafCall => propagate s a
  | .await _ | .linkTest | .linkInstall | .finish => advance s a
  | .post _ | .runPosted | .reactor _ => react algorithms s a
  | _ => operate algorithms s a

def system : TransitionSystem State Action where
  start := {}
  step := step algorithms

end

/-- No operation of the chain is stored in `fd_registry` while the next token is
the invalid one. -/
def validToken (s : State) : Action → Bool
  | .registerFd fd kind =>
      (s.fds.slotAt fd kind).ready || s.fds.nextToken != invalidToken
  | _ => true

/-- A stop request is not lost.  `visible`: it reaches the sources of all
descendants, unless a call in between is still at its callbacks.  `cancelled`:
once `await_suspend` has returned and the token is stopped, an operation that is
still stored has a cancellation of its own handle queued (one that was executed
has removed it), unless the call that stopped the token is still at its
callbacks. -/
structure Correct (s : State) : Prop where
  visible : ∀ before f between g after,
    s.chain = before ++ f :: (between ++ g :: after) → g.stopped = true →
    f.stopped = true ∨ ∃ h ∈ between ++ [g], h.calling = true
  cancelled : ∀ op f rest, s.leaf = .waiting op → op.stage = .returned →
    s.chain = f :: rest → f.stopped = true →
    ∀ place, s.opAt place = some .chain →
      f.calling = true ∨ ⟨place, s.tokenAt place⟩ ∈ s.posted

/-! ### Invariant -/

/-- After `await_suspend` the operation is linked to its token like a source to
the next one, with the call of `handle.cancel()` for the flag. -/
def Leaf.front : Leaf → List Source
  | .waiting op =>
      if op.stage = .returned then
        [{ stopped := op.cancelCalled, link := op.stopCb }]
      else []
  | _ => []

/-- The operation of the chain is stored where it was registered and under the
token of its handle; once `handle.cancel()` was called its cancellation is
queued. -/
structure StoredOk (s : State) (place : Place) (op : Operation) : Prop where
  leaf : s.leaf = .waiting op
  home : op.place = some place
  handle : op.handle = some ⟨place, s.tokenAt place⟩
  valid : s.tokenAt place ≠ invalidToken
  queued : op.cancelCalled = true → ⟨place, s.tokenAt place⟩ ∈ s.posted

structure Inv (s : State) : Prop where
  linked : (s.leaf.front ++ s.chain).IsChain Linked
  early : ∀ op, s.leaf = .waiting op → op.stage ≠ .returned →
    op.stopCb = .absent
  nodes : s.timers.NodesOk
  stored : ∀ place, s.opAt place = some .chain → ∃ op, StoredOk s place op

theorem start_inv (algorithms : BinaryHeap.Algorithms Nat) :
    Inv (system algorithms).start where
  linked := List.isChain_singleton _
  early := by simp [system]
  nodes := TimerRegistry.nodesOk_empty
  stored := by
    intro place hstored
    cases place with
    | fd fd kind =>
        cases kind <;> simp [system, State.opAt, FdRegistry.slotAt,
          FdRegistry.entry, FdRegistry.FdOps.slotFor] at hstored
    | timer index =>
        simp [system, State.opAt, TimerRegistry.node] at hstored

theorem Inv.chain {s : State} (hs : Inv s) : s.chain.IsChain Linked :=
  hs.linked.right_of_append

theorem Inv.correct {s : State} (hs : Inv s) : Correct s where
  visible := by
    intro before f between g after hchain hstopped
    have hlinked := hs.chain
    rw [hchain] at hlinked
    exact stopped_of_chain hlinked.right_of_append hstopped
  cancelled := by
    intro op f rest hleaf hreturned hchain hstopped place hstored
    have hlinked := hs.linked
    simp only [hleaf, Leaf.front, hreturned, ↓reduceIte, hchain,
      List.singleton_append, List.isChain_cons_cons] at hlinked
    obtain ⟨op', hop⟩ := hs.stored place hstored
    obtain rfl : op = op' := Leaf.waiting.inj (hleaf.symm.trans hop.leaf)
    rcases hlinked.1.stopped hstopped with hcalled | hcalling
    · exact Or.inr (hop.queued hcalled)
    · exact Or.inl hcalling

/-- While the coroutine does not wait, nothing of the chain is stored. -/
theorem Inv.not_stored {s : State} (hs : Inv s)
    (hleaf : ∀ op, s.leaf ≠ .waiting op) (place : Place) :
    s.opAt place ≠ some .chain := by
  intro hstored
  obtain ⟨op, hop⟩ := hs.stored place hstored
  exact hleaf op hop.leaf

/-! ### The registries -/

/-- Of the operation of the chain the second state stores nothing that the first
does not store at the same place and under the same token. -/
def Sheds (s t : State) : Prop :=
  ∀ place, t.opAt place = some .chain →
    s.opAt place = some .chain ∧ t.tokenAt place = s.tokenAt place

theorem sheds_of_registries {s t : State}
    (hfds : ∀ i kind, (t.fds.slotAt i kind).op = some .chain →
      (s.fds.slotAt i kind).op = some .chain ∧
        (t.fds.slotAt i kind).token = (s.fds.slotAt i kind).token)
    (htimers : ∀ i, (t.timers.node i).op = some .chain →
      (s.timers.node i).op = some .chain ∧
        (t.timers.node i).token = (s.timers.node i).token) : Sheds s t := by
  intro place hstored
  cases place with
  | fd i kind => exact hfds i kind hstored
  | timer i => exact htimers i hstored

theorem runCancel_sheds {s : State} (hnodes : s.timers.NodesOk)
    (handle : Handle) :
    Sheds s (s.runCancel handle) ∧ (s.runCancel handle).timers.NodesOk := by
  obtain ⟨place, token⟩ := handle
  cases place with
  | fd fd kind =>
      refine ⟨sheds_of_registries ?_ (fun _ hop => ⟨hop, rfl⟩), hnodes⟩
      intro i k
      exact (s.fds.cancel_onlyRemoves fd kind token).1 i k .chain
  | timer index =>
      obtain ⟨honly, hok⟩ := TimerRegistry.cancel_onlyRemoves hnodes index token
      exact ⟨sheds_of_registries (fun _ _ hop => ⟨hop, rfl⟩)
        (fun i => honly i .chain), hok⟩

/-- A cancellation touches the registries only. -/
theorem runCancel_fields (s : State) (handle : Handle) :
    (s.runCancel handle).chain = s.chain ∧
      (s.runCancel handle).leaf = s.leaf ∧
      (s.runCancel handle).posted = s.posted := by
  obtain ⟨place, token⟩ := handle
  cases place <;> exact ⟨rfl, rfl, rfl⟩

theorem perform_fields (algorithms : BinaryHeap.Algorithms Nat) (s : State)
    (request : Request) :
    (s.perform algorithms request).chain = s.chain ∧
      (s.perform algorithms request).leaf = s.leaf ∧
      (s.perform algorithms request).posted = s.posted := by
  cases request with
  | cancel handle => exact runCancel_fields s handle
  | _ => exact ⟨rfl, rfl, rfl⟩

/-- The task of a handle removes the operation that is stored under its
token. -/
theorem runCancel_removes {s : State} (hnodes : s.timers.NodesOk)
    {place : Place} (hstored : s.opAt place = some .chain) :
    (s.runCancel ⟨place, s.tokenAt place⟩).opAt place = none := by
  cases place with
  | fd fd kind =>
      have hsome : (s.fds.slotAt fd kind).op.isSome = true := by
        rw [show (s.fds.slotAt fd kind).op = some .chain from hstored]
        rfl
      apply FdRegistry.cancel_removed s.fds fd kind
      rw [← Int.toNat_natCast fd] at hsome
      have hremoved := FdRegistry.cancel_of_token s.fds
        (Int.natCast_nonneg fd) hsome
      rw [Int.toNat_natCast] at hremoved hsome
      change (s.fds.cancel fd kind (s.fds.slotAt fd kind).token).2.removed.isSome
      rw [hremoved]
      exact hsome
  | timer index =>
      apply TimerRegistry.cancel_removes hnodes
      rw [show (s.timers.node index).op = some .chain from hstored]
      rfl

theorem perform_sheds (algorithms : BinaryHeap.Algorithms Nat) {s : State}
    (hnodes : s.timers.NodesOk) (request : Request) :
    Sheds s (s.perform algorithms request) ∧
      (s.perform algorithms request).timers.NodesOk := by
  have hsame : ∀ i, (s.timers.node i).op = some .chain →
      (s.timers.node i).op = some .chain ∧
        (s.timers.node i).token = (s.timers.node i).token :=
    fun _ hop => ⟨hop, rfl⟩
  cases request with
  | registerFd fd kind =>
      refine ⟨sheds_of_registries ?_ hsame, hnodes⟩
      intro i k hop
      exact s.fds.registerImpl_removes (Int.natCast_nonneg fd) (by decide) kind
        hop
  | addTimer expiry =>
      refine ⟨sheds_of_registries (fun _ _ hop => ⟨hop, rfl⟩) ?_,
        TimerRegistry.addTimer_nodesOk algorithms hnodes expiry _⟩
      intro i hop
      rcases (TimerRegistry.addTimer_node algorithms s.timers expiry
        (some .other) i).2 with hold | ⟨_, hnew⟩
      · change ((s.timers.addTimer algorithms expiry (some .other)).1.node
          i).op = _ at hop
        change _ ∧ ((s.timers.addTimer algorithms expiry
          (some .other)).1.node i).token = _
        rw [hold] at hop ⊢
        exact ⟨hop, rfl⟩
      · change ((s.timers.addTimer algorithms expiry (some .other)).1.node
          i).op = _ at hop
        rw [hnew] at hop
        simp at hop
  | cancel handle => exact runCancel_sheds hnodes handle
  | event event =>
      refine ⟨sheds_of_registries ?_ hsame, hnodes⟩
      intro i k
      exact (s.fds.takeReady_onlyRemoves event.fd event.canRead
        event.canWrite).1 i k .chain
  | expire clock =>
      obtain ⟨honly, hok⟩ :=
        TimerRegistry.processExpired_onlyRemoves algorithms hnodes clock
      exact ⟨sheds_of_registries (fun _ _ hop => ⟨hop, rfl⟩)
        (fun i => honly i .chain), hok⟩
  | addFd fd =>
      refine ⟨sheds_of_registries ?_ hsame, hnodes⟩
      intro i k
      exact (s.fds.track_onlyRemoves fd).1 i k .chain
  | removeFd fd =>
      refine ⟨sheds_of_registries ?_ hsame, hnodes⟩
      intro i k
      exact (s.fds.deregister_onlyRemoves fd).1 i k .chain
  | drain =>
      obtain ⟨honly, hok⟩ := TimerRegistry.drainAll_onlyRemoves hnodes
      refine ⟨sheds_of_registries ?_ (fun i => honly i .chain), hok⟩
      intro i k
      exact s.fds.drainAll_onlyRemoves.1 i k .chain

/-- A step of the registries that keeps the queued cancellation of what it
leaves. -/
theorem inv_of_sheds {s t : State} (hs : Inv s) (hchain : t.chain = s.chain)
    (hleaf : t.leaf = s.leaf) (hnodes : t.timers.NodesOk) (hsheds : Sheds s t)
    (hposted : ∀ place, t.opAt place = some .chain →
      ⟨place, s.tokenAt place⟩ ∈ s.posted →
      ⟨place, s.tokenAt place⟩ ∈ t.posted) : Inv t where
  linked := by
    rw [hchain, hleaf]
    exact hs.linked
  early := by
    rw [hleaf]
    exact hs.early
  nodes := hnodes
  stored := by
    intro place hstored
    obtain ⟨hold, htoken⟩ := hsheds place hstored
    obtain ⟨op, hop⟩ := hs.stored place hold
    refine ⟨op, hleaf.trans hop.leaf, hop.home, ?_, ?_, ?_⟩
    · rw [htoken]
      exact hop.handle
    · rw [htoken]
      exact hop.valid
    · rw [htoken]
      exact fun hcalled => hposted place hstored (hop.queued hcalled)

theorem react_inv (algorithms : BinaryHeap.Algorithms Nat) {s t : State}
    {a : Action} (hs : Inv s) (hstep : react algorithms s a = some t) :
    Inv t := by
  cases a with
  | post handle =>
      obtain rfl := Option.some.inj hstep
      exact inv_of_sheds hs rfl rfl hs.nodes (fun _ hop => ⟨hop, rfl⟩)
        (fun _ _ hmem => List.mem_append_left [handle] hmem)
  | runPosted =>
      simp only [react] at hstep
      split at hstep
      · simp at hstep
      · next handle rest hposted =>
          obtain rfl := Option.some.inj hstep
          obtain ⟨hsheds, hok⟩ := runCancel_sheds
            (s := { s with posted := rest }) hs.nodes handle
          have hfields := runCancel_fields { s with posted := rest } handle
          refine inv_of_sheds hs hfields.1 hfields.2.1 hok hsheds ?_
          intro place hstored hmem
          rw [hposted, List.mem_cons] at hmem
          rw [hfields.2.2]
          rcases hmem with hown | hrest
          · have hgone := runCancel_removes (s := { s with posted := rest })
              hs.nodes (hsheds place hstored).1
            have htoken : State.tokenAt { s with posted := rest } place =
              s.tokenAt place := by cases place <;> rfl
            rw [htoken, hown, hstored] at hgone
            simp at hgone
          · exact hrest
  | reactor request =>
      obtain rfl := Option.some.inj hstep
      obtain ⟨hsheds, hok⟩ := perform_sheds algorithms hs.nodes request
      have hfields := perform_fields algorithms s request
      refine inv_of_sheds hs hfields.1 hfields.2.1 hok hsheds ?_
      intro place _ hmem
      rw [hfields.2.2]
      exact hmem
  | _ => simp [react] at hstep

/-! ### The chain -/

theorem setChain_inv {s : State} (hs : Inv s) {chain : List Source}
    (hlinked : (s.leaf.front ++ chain).IsChain Linked) :
    Inv { s with chain := chain } where
  linked := hlinked
  early := hs.early
  nodes := hs.nodes
  stored := by
    intro place hstored
    obtain ⟨op, hop⟩ := hs.stored place (by cases place <;> exact hstored)
    refine ⟨op, hop.leaf, hop.home, ?_, ?_, ?_⟩
    · cases place <;> exact hop.handle
    · cases place <;> exact hop.valid
    · cases place <;> exact hop.queued

/-- A step of the chain that nothing before it notices. -/
theorem inv_of_keeps {s : State} (hs : Inv s) {chain : List Source}
    (hkeeps : Keeps s.chain chain) : Inv { s with chain := chain } :=
  setChain_inv hs ((hkeeps.append s.leaf.front).isChain hs.linked)

/-- A step of a coroutine that neither waits before it nor after it. -/
theorem inv_of_idle {s : State} (hs : Inv s)
    (hbefore : ∀ op, s.leaf ≠ .waiting op) {leaf : Leaf}
    (hafter : ∀ op, leaf ≠ .waiting op) {chain : List Source}
    (hchain : chain.IsChain Linked) :
    Inv { s with leaf := leaf, chain := chain } where
  linked := by
    have hfront : leaf.front = [] := by
      cases leaf with
      | waiting op => exact absurd rfl (hafter op)
      | _ => rfl
    rw [hfront]
    exact hchain
  early := fun op hleaf => absurd hleaf (hafter op)
  nodes := hs.nodes
  stored := by
    intro place hstored
    exact absurd (show s.opAt place = some .chain by
      cases place <;> exact hstored) (hs.not_stored hbefore place)

/-- A call returns on the token of the innermost coroutine. -/
theorem endLeafCall_inv {s : State} (hs : Inv s) {f : Source}
    {rest : List Source} (hchain : s.chain = f :: rest)
    (hcalling : f.calling = true) (habsent : s.leaf.callback = .absent) :
    Inv { s with chain := { f with calling := false } :: rest } := by
  apply setChain_inv hs
  have hlinked := hs.linked
  rw [hchain] at hlinked
  cases hleaf : s.leaf with
  | waiting op =>
      simp only [hleaf, Leaf.callback] at habsent
      simp only [hleaf, Leaf.front] at hlinked ⊢
      by_cases hreturned : op.stage = .returned
      · rw [if_pos hreturned] at hlinked ⊢
        have hend : StopChain.endCall 0
            ({ stopped := op.cancelCalled, link := op.stopCb } :: f :: rest) =
            some ({ stopped := op.cancelCalled, link := op.stopCb } ::
              { f with calling := false } :: rest) := by
          simp [StopChain.endCall, hcalling, habsent]
        exact (endCall_keeps hend).isChain hlinked
      · rw [if_neg hreturned] at hlinked ⊢
        exact isChain_ended hlinked
  | _ =>
      rw [hleaf] at hlinked
      exact isChain_ended hlinked

theorem propagate_inv {s t : State} {a : Action} (hs : Inv s)
    (hstep : propagate s a = some t) : Inv t := by
  cases a with
  | request n =>
      obtain rfl := Option.some.inj hstep
      exact inv_of_keeps hs (requestAt_keeps n s.chain)
  | requestChild =>
      simp only [propagate] at hstep
      split at hstep
      · next hleaf =>
          obtain rfl := Option.some.inj hstep
          exact inv_of_idle hs (by simp [hleaf]) (by simp) hs.chain
      · next hleaf =>
          obtain rfl := Option.some.inj hstep
          exact inv_of_idle hs (by simp [hleaf]) (by simp) hs.chain
      · simp at hstep
  | takeLink n =>
      simp only [propagate, Option.map_eq_some_iff] at hstep
      obtain ⟨chain, htake, rfl⟩ := hstep
      exact inv_of_keeps hs (takeLink_keeps htake)
  | runLink n =>
      simp only [propagate, Option.map_eq_some_iff] at hstep
      obtain ⟨chain, hrun, rfl⟩ := hstep
      exact inv_of_keeps hs (runLink_keeps hrun)
  | endCall n =>
      simp only [propagate, Option.map_eq_some_iff] at hstep
      obtain ⟨chain, hend, rfl⟩ := hstep
      exact inv_of_keeps hs (endCall_keeps hend)
  | endLeafCall =>
      simp only [propagate] at hstep
      split at hstep
      · simp at hstep
      · next f rest hchain =>
          simp only [Option.ite_none_right_eq_some, Option.some.injEq] at hstep
          obtain ⟨⟨hcalling, habsent⟩, rfl⟩ := hstep
          exact endLeafCall_inv hs hchain hcalling habsent
  | _ => simp [propagate] at hstep

theorem advance_inv {s t : State} {a : Action} (hs : Inv s)
    (hstep : advance s a = some t) : Inv t := by
  cases a with
  | await stopped =>
      simp only [advance, Option.ite_none_right_eq_some, Option.some.injEq]
        at hstep
      obtain ⟨hleaf, rfl⟩ := hstep
      exact inv_of_idle hs (by simp [hleaf]) (by simp) hs.chain
  | linkTest =>
      simp only [advance] at hstep
      split at hstep
      · next stopped parent rest hleaf hchain =>
          split at hstep
          · obtain rfl := Option.some.inj hstep
            refine inv_of_idle hs (by simp [hleaf]) (by simp) ?_
            have hold := hs.chain
            rw [hchain] at hold ⊢
            exact List.isChain_cons_cons.mpr
              ⟨⟨by simp, by simp, by simp⟩, hold⟩
          · obtain rfl := Option.some.inj hstep
            exact inv_of_idle hs (by simp [hleaf]) (by simp) hs.chain
      · simp at hstep
  | linkInstall =>
      simp only [advance] at hstep
      split at hstep
      · next stopped parent rest hleaf hchain =>
          obtain rfl := Option.some.inj hstep
          refine inv_of_idle hs (by simp [hleaf]) (by simp) ?_
          have hold := hs.chain
          rw [hchain] at hold ⊢
          refine List.isChain_cons_cons.mpr ⟨?_, hold⟩
          cases hparent : parent.stopped <;> constructor <;> simp [hparent]
      · simp at hstep
  | finish =>
      simp only [advance] at hstep
      split at hstep
      · next f g rest hleaf hchain =>
          rw [Option.ite_none_left_eq_some] at hstep
          obtain ⟨_, hstep⟩ := hstep
          obtain rfl := Option.some.inj hstep
          refine inv_of_idle hs (by simp [hleaf]) (by simp [hleaf]) ?_
          have hold := hs.chain
          rw [hchain] at hold
          exact hold.tail
      · simp at hstep
  | _ => simp [advance] at hstep

/-! ### The operation -/

/-- `handle.cancel()` removes at most; what its own handle leaves in place it
has queued for removal. -/
theorem cancelHandle_spec {s : State} (hnodes : s.timers.NodesOk)
    (handle : Option Handle) (inline : Bool) :
    (s.cancelHandle handle inline).chain = s.chain ∧
      (s.cancelHandle handle inline).timers.NodesOk ∧
      Sheds s (s.cancelHandle handle inline) ∧
      ∀ place, (s.cancelHandle handle inline).opAt place = some .chain →
        handle = some ⟨place, s.tokenAt place⟩ →
        s.tokenAt place ≠ invalidToken →
        ⟨place, s.tokenAt place⟩ ∈ (s.cancelHandle handle inline).posted := by
  have hself : Sheds s s := fun _ hop => ⟨hop, rfl⟩
  cases handle with
  | none => exact ⟨rfl, hnodes, hself, by simp⟩
  | some handle =>
      simp only [State.cancelHandle]
      split
      · next hinvalid =>
          refine ⟨rfl, hnodes, hself, ?_⟩
          intro place _ hown hvalid
          rw [Option.some.inj hown] at hinvalid
          exact absurd hinvalid hvalid
      · cases inline with
        | true =>
            obtain ⟨hsheds, hok⟩ := runCancel_sheds hnodes handle
            refine ⟨(runCancel_fields s handle).1, hok, hsheds, ?_⟩
            intro place hstored hown _
            have hgone := runCancel_removes hnodes (hsheds place hstored).1
            rw [← Option.some.inj hown] at hgone
            simp only [↓reduceIte] at hstored
            rw [hstored] at hgone
            simp at hgone
        | false =>
            refine ⟨rfl, hnodes, hself, ?_⟩
            intro place _ hown _
            rw [Option.some.inj hown]
            simp

/-- A call of `handle.cancel()` for the operation. -/
theorem cancelOp_inv {s : State} (hs : Inv s) {op : Operation}
    (hleaf : s.leaf = .waiting op) (inline : Bool) :
    Inv (s.cancelOp op inline) := by
  obtain ⟨hchain, hnodes, hsheds, hqueued⟩ :=
    cancelHandle_spec hs.nodes op.handle inline
  have hat : ∀ place, (s.cancelOp op inline).opAt place =
      (s.cancelHandle op.handle inline).opAt place := by
    intro place
    cases place <;> rfl
  have htokenAt : ∀ place, (s.cancelOp op inline).tokenAt place =
      (s.cancelHandle op.handle inline).tokenAt place := by
    intro place
    cases place <;> rfl
  refine ⟨?_, ?_, hnodes, ?_⟩
  · change (_ :: (s.cancelHandle op.handle inline).chain).IsChain Linked
    rw [hchain]
    have hold := hs.chain
    cases hrest : s.chain with
    | nil => exact List.isChain_singleton _
    | cons f rest =>
        rw [hrest] at hold
        exact List.isChain_cons_cons.mpr
          ⟨⟨by simp, by simp, by simp⟩, hold⟩
  · intro op' hop' hearly
    obtain rfl := Leaf.waiting.inj hop'
    exact absurd rfl hearly
  · intro place hstored
    rw [hat] at hstored
    obtain ⟨hold, htoken⟩ := hsheds place hstored
    obtain ⟨op', hop⟩ := hs.stored place hold
    obtain rfl : op = op' := Leaf.waiting.inj (hleaf.symm.trans hop.leaf)
    refine ⟨_, rfl, hop.home, ?_, ?_, fun _ => ?_⟩
    · rw [htokenAt, htoken]
      exact hop.handle
    · rw [htokenAt, htoken]
      exact hop.valid
    · rw [htokenAt, htoken]
      exact hqueued place hstored hop.handle hop.valid

/-- A new operation, stored where its handle says. -/
theorem registered_inv {s t : State} (hs : Inv s) {op : Operation}
    (hchain : t.chain = s.chain) (hleaf : t.leaf = .waiting op)
    (hstage : op.stage = .test) (hcb : op.stopCb = .absent)
    (hcalled : op.cancelCalled = false) (hnodes : t.timers.NodesOk)
    (hstored : ∀ place, t.opAt place = some .chain →
      op.place = some place ∧ op.handle = some ⟨place, t.tokenAt place⟩ ∧
        t.tokenAt place ≠ invalidToken) : Inv t where
  linked := by
    have hfront : t.leaf.front = [] := by simp [hleaf, Leaf.front, hstage]
    rw [hfront, hchain]
    exact hs.chain
  early := by
    intro op' hop' _
    obtain rfl : op = op' := Leaf.waiting.inj (hleaf.symm.trans hop')
    exact hcb
  nodes := hnodes
  stored := by
    intro place hop
    obtain ⟨hhome, hhandle, hvalid⟩ := hstored place hop
    exact ⟨op, hleaf, hhome, hhandle, hvalid, by simp [hcalled]⟩

theorem registerFd_inv {s : State} (hs : Inv s) (hleaf : s.leaf = .running)
    (fd : Nat) (kind : FdEventKind)
    (hvalid : validToken s (.registerFd fd kind) = true) :
    Inv { s with
      fds := (s.fds.registerImpl fd (some .chain) kind).1
      leaf := .waiting {
        place := some (.fd fd kind)
        handle := fdHandle fd kind
          (s.fds.registerImpl fd (some .chain) kind).2.token } } := by
  have hidle := hs.not_stored (by simp [hleaf])
  have hnew : ¬ s.fds.Stores .chain := by
    rintro ⟨i, k, hop⟩
    exact hidle (.fd i k) hop
  refine registered_inv hs rfl rfl rfl rfl rfl hs.nodes ?_
  intro place hstored
  cases place with
  | timer i => exact absurd hstored (hidle (.timer i))
  | fd i k =>
      obtain ⟨hi, rfl, hready, hresult, htoken⟩ :=
        s.fds.registerImpl_stored (Int.natCast_nonneg fd) hnew kind hstored
      rw [Int.toNat_natCast] at hi hready
      subst hi
      have hne : s.fds.nextToken ≠ invalidToken := by
        simpa [validToken, hready] using hvalid
      have htokenAt : State.tokenAt { s with
          fds := (s.fds.registerImpl i (some .chain) k).1
          leaf := .waiting {
            place := some (.fd i k)
            handle := fdHandle i k
              (s.fds.registerImpl i (some .chain) k).2.token } }
            (.fd i k) = s.fds.nextToken := htoken
      rw [htokenAt, hresult]
      exact ⟨rfl, if_neg hne, hne⟩

theorem registerTimer_inv (algorithms : BinaryHeap.Algorithms Nat) {s : State}
    (hs : Inv s) (hleaf : s.leaf = .running) (expiry : Int) :
    Inv { s with
      timers := (s.timers.addTimer algorithms expiry (some .chain)).1
      leaf := .waiting {
        place := some (.timer
          (s.timers.addTimer algorithms expiry (some .chain)).2.index)
        handle := some ⟨.timer
            (s.timers.addTimer algorithms expiry (some .chain)).2.index,
          (s.timers.addTimer algorithms expiry (some .chain)).2.token⟩ } } := by
  have hidle := hs.not_stored (by simp [hleaf])
  have hnodes := TimerRegistry.addTimer_nodesOk algorithms hs.nodes expiry
    (some .chain)
  refine registered_inv hs rfl rfl rfl rfl rfl hnodes ?_
  intro place hstored
  cases place with
  | fd i k => exact absurd hstored (hidle (.fd i k))
  | timer i =>
      obtain ⟨htoken, hnode⟩ :=
        TimerRegistry.addTimer_node algorithms s.timers expiry (some .chain) i
      rcases hnode with hold | ⟨rfl, hnew⟩
      · change ((s.timers.addTimer algorithms expiry (some .chain)).1.node
          i).op = _ at hstored
        rw [hold] at hstored
        exact absurd hstored (hidle (.timer i))
      · refine ⟨rfl, ?_, (hnodes _).1⟩
        rw [htoken]
        change _ = some (Handle.mk _ ((s.timers.addTimer algorithms expiry
          (some .chain)).1.node _).token)
        rw [hnew]

/-- `await_suspend` goes on, or the callback is taken out; the registries and
the calls of `handle.cancel()` are as before. -/
theorem setOp_inv {s : State} (hs : Inv s) {op new : Operation}
    (hleaf : s.leaf = .waiting op) (hplace : new.place = op.place)
    (hhandle : new.handle = op.handle)
    (hcalled : new.cancelCalled = op.cancelCalled)
    (hearly : new.stage ≠ .returned → new.stopCb = .absent)
    (hlinked : ((Leaf.waiting new).front ++ s.chain).IsChain Linked) :
    Inv { s with leaf := .waiting new } where
  linked := hlinked
  early := by
    intro op' hop'
    obtain rfl := Leaf.waiting.inj hop'
    exact hearly
  nodes := hs.nodes
  stored := by
    intro place hstored
    obtain ⟨op', hop⟩ := hs.stored place (by cases place <;> exact hstored)
    obtain rfl : op = op' := Leaf.waiting.inj (hleaf.symm.trans hop.leaf)
    refine ⟨new, rfl, hplace.trans hop.home, ?_, ?_, ?_⟩
    · cases place <;> exact hhandle.trans hop.handle
    · cases place <;> exact hop.valid
    · rw [hcalled]
      cases place <;> exact hop.queued

theorem operate_inv (algorithms : BinaryHeap.Algorithms Nat) {s t : State}
    {a : Action} (hs : Inv s) (hvalid : validToken s a = true)
    (hstep : operate algorithms s a = some t) : Inv t := by
  unfold operate at hstep
  split at hstep
  · next fd kind hleaf _ =>
      obtain rfl := Option.some.inj hstep
      exact registerFd_inv hs hleaf fd kind hvalid
  · next expiry hleaf _ =>
      obtain rfl := Option.some.inj hstep
      exact registerTimer_inv algorithms hs hleaf expiry
  · next hleaf _ =>
      obtain rfl := Option.some.inj hstep
      refine registered_inv hs rfl rfl rfl rfl rfl hs.nodes ?_
      intro place hstored
      exact absurd (show s.opAt place = some .chain by
        cases place <;> exact hstored) (hs.not_stored (by simp [hleaf]) place)
  · next op f rest inline hleaf hchain =>
      rw [Option.ite_none_right_eq_some] at hstep
      obtain ⟨hstage, hstep⟩ := hstep
      split at hstep
      · obtain rfl := Option.some.inj hstep
        exact cancelOp_inv hs hleaf inline
      · obtain rfl := Option.some.inj hstep
        refine setOp_inv hs hleaf rfl rfl rfl
          (fun _ => hs.early op hleaf (by simp [hstage])) ?_
        exact hs.chain
  · next op f rest inline hleaf hchain =>
      rw [Option.ite_none_right_eq_some] at hstep
      obtain ⟨hstage, hstep⟩ := hstep
      split at hstep
      · obtain rfl := Option.some.inj hstep
        exact cancelOp_inv hs hleaf inline
      · next hstopped =>
          obtain rfl := Option.some.inj hstep
          refine setOp_inv hs hleaf rfl rfl rfl (by simp) ?_
          have hold := hs.chain
          rw [hchain] at hold ⊢
          exact List.isChain_cons_cons.mpr
            ⟨⟨fun _ htrue => absurd htrue hstopped, by simp, by simp⟩, hold⟩
  · next op f rest hleaf hchain =>
      simp only [Option.ite_none_right_eq_some, Option.some.injEq] at hstep
      obtain ⟨⟨hcalling, hinstalled⟩, rfl⟩ := hstep
      have hreturned : op.stage = .returned := by
        by_contra hnot
        rw [hs.early op hleaf hnot] at hinstalled
        simp at hinstalled
      refine setOp_inv hs hleaf rfl rfl rfl (by simp [hreturned]) ?_
      have hold := hs.chain
      rw [hchain] at hold ⊢
      simp only [Leaf.front, hreturned, ↓reduceIte, List.singleton_append]
      exact List.isChain_cons_cons.mpr
        ⟨⟨by simp, fun _ => hcalling, by simp⟩, hold⟩
  · next op inline hleaf =>
      simp only [Option.ite_none_right_eq_some, Option.some.injEq] at hstep
      obtain ⟨_, rfl⟩ := hstep
      exact cancelOp_inv hs hleaf inline
  · next op hleaf =>
      simp only [Option.ite_none_right_eq_some, Option.some.injEq] at hstep
      obtain ⟨⟨_, _, hgone⟩, rfl⟩ := hstep
      refine ⟨hs.chain, by simp, hs.nodes, ?_⟩
      intro place hstored
      obtain ⟨op', hop⟩ := hs.stored place (by cases place <;> exact hstored)
      obtain rfl : op = op' := Leaf.waiting.inj (hleaf.symm.trans hop.leaf)
      rw [hop.home] at hgone
      exact absurd (show s.opAt place = some .chain by
        cases place <;> exact hstored) hgone
  · simp at hstep

theorem step_inv (algorithms : BinaryHeap.Algorithms Nat) {s t : State}
    {a : Action} (hs : Inv s) (hvalid : validToken s a = true)
    (hstep : step algorithms s a = some t) : Inv t := by
  unfold step at hstep
  split at hstep
  any_goals exact propagate_inv hs hstep
  any_goals exact advance_inv hs hstep
  any_goals exact react_inv algorithms hs hstep
  exact operate_inv algorithms hs hvalid hstep

/-- In every run in which no operation of the chain is stored under the invalid
token, no stop request is lost. -/
theorem correct_of_validToken (algorithms : BinaryHeap.Algorithms Nat)
    {s : State} (hs : (system algorithms).ReachableUnder
      (fun s a => validToken s a = true) s) : Correct s := by
  have hinv : Inv s := hs.invariant (start_inv algorithms)
    (fun _ _ _ hinv hvalid hstep => step_inv algorithms hinv hvalid hstep)
  exact hinv.correct

/-- Stop is requested on the token given to `co_spawn` while the operation of a
child waits; the request passes two links and the stop callback. -/
def stopWhileWaiting : List Action :=
  [.await false, .linkTest, .linkInstall, .await false, .linkTest, .linkInstall,
    .registerTimer 5, .test false, .install false, .request 2, .takeLink 1,
    .runLink 1, .takeLink 0, .runLink 0, .takeCallback, .runCallback false,
    .endLeafCall, .endCall 0, .endCall 1]

/-- The timer is stored, its token is stopped and no call is in progress. -/
def waitsStopped (s : State) : Bool :=
  match s.chain with
  | f :: _ => f.stopped && !f.calling && s.opAt (.timer 0) == some .chain
  | [] => false

theorem correct_stopWhileWaiting :
    ∃ s, waitsStopped s = true ∧ Correct s := by
  obtain ⟨s, hs, hend⟩ := TransitionSystem.exists_reachableUnder_of_execUnder
    (system (BinaryHeap.sorted Nat))
    (fun s a => validToken s a = true) stopWhileWaiting waitsStopped (by decide)
  exact ⟨s, hend, correct_of_validToken _ hs⟩

/-! ### The invalid token -/

/-- One coroutine runs, and other operations have taken `n` tokens. -/
structure Advanced (n : Nat) (s : State) : Prop where
  chain : s.chain = [{ link := .installed }, {}]
  leaf : s.leaf = .running
  posted : s.posted = []
  ready : (s.fds.slotAt 0 .read).ready = false
  nextToken : s.fds.nextToken = FixedWidth.truncate 64 (n + 1)

theorem exists_advanced (algorithms : BinaryHeap.Algorithms Nat) (n : Nat) :
    ∃ s, (system algorithms).Reachable s ∧ Advanced n s := by
  induction n with
  | zero =>
      have hexec : (system algorithms).exec (system algorithms).start
          [.await false, .linkTest, .linkInstall] =
            some { chain := [{ link := .installed }, {}] } := rfl
      refine ⟨_, TransitionSystem.Reachable.exec .start hexec, ?_⟩
      constructor <;> simp [FdRegistry.slotAt, FdRegistry.entry,
        FdRegistry.FdOps.slotFor, FixedWidth.truncate]
  | succ n ih =>
      obtain ⟨s, hreach, hs⟩ := ih
      have hslot := (s.fds.registerImpl_slotAt le_rfl Owner.other .read
        hs.ready).2
      have hnext := s.fds.registerImpl_nextToken le_rfl Owner.other .read
        hs.ready
      refine ⟨_, .step hreach trivial (a := .reactor (.registerFd 0 .read)) rfl,
        hs.chain, hs.leaf, hs.posted, ?_, ?_⟩
      · exact (congrArg FdRegistry.Slot.ready hslot).trans hs.ready
      · refine hnext.trans ?_
        rw [hs.nextToken, FixedWidth.incr_truncate]

/-- After `2 ^ 64 - 1` registrations the next one is stored under the invalid
token: its handle is not valid, and the stop callback cancels nothing. -/
theorem not_correct_invalidToken :
    ¬ ∀ (algorithms : BinaryHeap.Algorithms Nat) (s : State),
      (system algorithms).Reachable s → Correct s := by
  intro hall
  obtain ⟨s, hreach, hs⟩ :=
    exists_advanced (BinaryHeap.sorted Nat) (2 ^ 64 - 1)
  have hnext : s.fds.nextToken = invalidToken := by
    rw [hs.nextToken]
    exact FixedWidth.truncate_self 64
  obtain ⟨hresult, hslot⟩ := s.fds.registerImpl_slotAt le_rfl Owner.chain .read
    hs.ready
  rw [hnext] at hresult
  have hregister : (system (BinaryHeap.sorted Nat)).step s (.registerFd 0 .read) =
      some { s with
        fds := (s.fds.registerImpl 0 (some .chain) .read).1
        chain := [{ link := .installed }, {}]
        leaf := .waiting { place := some (.fd 0 .read) } } := by
    simp [system, step, operate, hs.chain, hs.leaf, hresult, fdHandle]
  -- The handle is gone: what follows does not look at the registries.
  have hrest : (system (BinaryHeap.sorted Nat)).exec
      { s with
        fds := (s.fds.registerImpl 0 (some .chain) .read).1
        chain := [{ link := .installed }, {}]
        leaf := .waiting { place := some (.fd 0 .read) } }
      [.test false, .install false, .request 0, .takeCallback, .runCallback false,
        .endLeafCall] = some { s with
        fds := (s.fds.registerImpl 0 (some .chain) .read).1
        chain := [{ stopped := true, link := .installed }, {}]
        leaf := .waiting {
          place := some (.fd 0 .read)
          stage := .returned
          cancelCalled := true } } := rfl
  have hcorrect := hall _ _ (TransitionSystem.Reachable.exec
    (.step hreach trivial hregister) hrest)
  have hstored := congrArg FdRegistry.Slot.op hslot
  rcases hcorrect.cancelled _ _ _ rfl rfl rfl rfl (.fd 0 .read) hstored with
    hcalling | hqueued
  · simp at hcalling
  · simp [hs.posted] at hqueued

end StopPropagation

end Iocoro
