/-
Edge-triggered readiness of a tracked descriptor: the kernel, the reactor that
dispatches its events, and operations that try their system call first and
register a wait only after `EAGAIN`.
-/
import Iocoro.TransitionSystem
import Iocoro.FdRegistry
import Iocoro.Epoll

universe u

namespace Iocoro

namespace EdgeReadiness

/-- The flags with which the kernel reports that a direction is ready. -/
def mask : FdEventKind → BitVec 32
  | .read => Epoll.epollIn ||| Epoll.epollErr ||| Epoll.epollHup |||
      Epoll.epollRdHup
  | .write => Epoll.epollOut ||| Epoll.epollErr ||| Epoll.epollHup |||
      Epoll.epollRdHup

/-- A descriptor that is added to the backend and tracked by the registry, with
no operation on it yet. -/
structure Setup (Op : Type u) where
  fd : Nat
  backend : Epoll.Backend
  registration : Epoll.Registration
  registry : FdRegistry Op
  ready : FdEventKind → Bool
  notEventfd : (fd : Int) ≠ backend.eventfd
  known : fd < backend.fdCapacity
  active : registration.active ≠ 0
  tracked : (registry.entry fd).tracked = true
  unused : ∀ kind, (registry.slotAt fd kind).op = none

variable {Op : Type u}

/-- The event belongs to the registration of the descriptor. -/
def Setup.concerns (p : Setup Op) (raw : Epoll.EpollEvent) : Bool :=
  decide (Epoll.unpackFd raw.data = p.fd) &&
    decide (Epoll.unpackGen raw.data = p.registration.generation)

/-- The event reports a direction of the descriptor. -/
def Setup.reportedBy (p : Setup Op) (kind : FdEventKind)
    (raw : Epoll.EpollEvent) : Bool :=
  p.concerns raw && raw.has (mask kind)

/-- The call of `epoll_wait` reports a direction of the descriptor. -/
def Setup.reports (p : Setup Op) (outcome : Epoll.Outcome)
    (kind : FdEventKind) : Bool :=
  match outcome with
  | .batch events => events.any (p.reportedBy kind)
  | _ => false

/-- What `wait` loads; the descriptor stays registered, others come and go. -/
def Setup.loaded (p : Setup Op) (others : Nat → Nat → Epoll.Registration)
    (k i : Nat) : Epoll.Registration :=
  if i = p.fd then p.registration else others k i

/-- Where the operation of a direction stands.  `trying` is before its system
call, `blocked` after `EAGAIN` and on its way to the reactor, `over` at its
return, which gives the direction free again. -/
inductive Pc where
  | idle
  | trying
  | blocked
  | waiting
  | over
deriving DecidableEq, Repr

structure State (Op : Type u) where
  ready : FdEventKind → Bool
  edge : FdEventKind → Bool
  registry : FdRegistry Op
  backendEvents : List BackendEvent := []
  batch : List BackendEvent := []
  pc : FdEventKind → Pc := fun _ => .idle

/-- What is done to the registry for other descriptors. -/
inductive Request (Op : Type u) where
  | register (op : Op) (kind : FdEventKind)
  | cancel (kind : FdEventKind) (token : Nat)
  | track
  | deregister

def Request.apply (request : Request Op) (r : FdRegistry Op) (fd : Int) :
    FdRegistry Op :=
  match request with
  | .register op kind => (r.registerImpl fd (some op) kind).1
  | .cancel kind token => (r.cancel fd kind token).1
  | .track => r.track fd
  | .deregister => (r.deregister fd).1

inductive Action (Op : Type u) where
  | becomesReady (kind : FdEventKind)
  | becomesUnready (kind : FdEventKind)
  | start (kind : FdEventKind)
  | again (kind : FdEventKind)
  | ends (kind : FdEventKind)
  | register (kind : FdEventKind) (op : Op)
  | cancel (kind : FdEventKind) (token : Nat)
  | finish (kind : FdEventKind)
  | wait (outcome : Epoll.Outcome) (others : Nat → Nat → Epoll.Registration)
  | dispatch
  | other (fd : Int) (request : Request Op)

def State.setPc (s : State Op) (kind : FdEventKind) (pc : Pc) : State Op :=
  { s with pc := Function.update s.pc kind pc }

/-- The kernel: a direction that turns ready raises an edge. -/
def kernel (s : State Op) : Action Op → Option (State Op)
  | .becomesReady kind =>
      if s.ready kind then none
      else some { s with
        ready := Function.update s.ready kind true
        edge := Function.update s.edge kind true }
  | .becomesUnready kind =>
      some { s with ready := Function.update s.ready kind false }
  | _ => none

/-- The operations.  `try_start` lets one at a time into a direction; the
system call gives `EAGAIN` only when the direction is not ready, and ends the
operation otherwise. -/
def operate (p : Setup Op) (s : State Op) : Action Op → Option (State Op)
  | .start kind =>
      if s.pc kind = .idle then some (s.setPc kind .trying) else none
  | .again kind =>
      if s.pc kind = .trying ∧ s.ready kind = false then
        some (s.setPc kind .blocked)
      else none
  | .ends kind =>
      if s.pc kind = .trying ∨ s.pc kind = .blocked then
        some (s.setPc kind .over)
      else none
  | .register kind op =>
      if s.pc kind = .blocked then
        let result := s.registry.registerImpl p.fd (some op) kind
        some { s.setPc kind
          (if result.2.readyNow.isSome then .trying else .waiting) with
            registry := result.1 }
      else none
  | .cancel kind token =>
      let result := s.registry.cancel p.fd kind token
      some { s.setPc kind
        (if result.2.removed.isSome then .over else s.pc kind) with
          registry := result.1 }
  | .finish kind =>
      if s.pc kind = .over then some (s.setPc kind .idle) else none
  | _ => none

/-- Where the operations stand after an event of the descriptor: those it took
try again, or end on an error. -/
def afterEvent (result : FdRegistry.PairResult Op) (isError : Bool)
    (pc : FdEventKind → Pc) (kind : FdEventKind) : Pc :=
  if (result.get kind).isSome then if isError then .over else .trying
  else pc kind

/-- The reactor.  A failing `epoll_wait` drains the registry and is not part of
this model. -/
def react (p : Setup Op) (s : State Op) : Action Op → Option (State Op)
  | .wait outcome others =>
      match s.batch with
      | [] =>
          match Epoll.wait p.backend ⟨outcome, p.loaded others⟩
              s.backendEvents with
          | .error _ => none
          | .ok events => some { s with
              backendEvents := events
              batch := events
              edge := fun kind => s.edge kind && !p.reports outcome kind }
      | _ :: _ => none
  | .dispatch =>
      match s.batch with
      | [] => none
      | event :: rest =>
          let result :=
            s.registry.takeReady event.fd event.canRead event.canWrite
          some { s with
            batch := rest
            registry := result.1
            pc := if event.fd = p.fd then
                afterEvent result.2 event.isError s.pc
              else s.pc }
  | .other fd request =>
      if fd = p.fd then none
      else some { s with registry := request.apply s.registry fd }
  | _ => none

def step (p : Setup Op) (s : State Op) (a : Action Op) : Option (State Op) :=
  match a with
  | .becomesReady _ | .becomesUnready _ => kernel s a
  | .wait _ _ | .dispatch | .other _ _ => react p s a
  | _ => operate p s a

/-- Adding a ready descriptor raises an edge. -/
def system (p : Setup Op) : TransitionSystem (State Op) (Action Op) where
  start := { ready := p.ready, edge := p.ready, registry := p.registry }
  step := step p

/-- The direction is ready, a wait for it is stored, and no edge will ever wake
it: none is undelivered, none is undispatched. -/
structure Stalled (p : Setup Op) (s : State Op) (kind : FdEventKind) :
    Prop where
  ready : s.ready kind = true
  stored : (s.registry.slotAt p.fd kind).op.isSome = true
  delivered : s.edge kind = false
  dispatched : ∀ event ∈ s.batch, event.fd = p.fd → event.signals kind = false

/-! ### Invariant -/

/-- An edge of the direction is undelivered or undispatched. -/
def Pending (p : Setup Op) (s : State Op) (kind : FdEventKind) : Prop :=
  s.edge kind = true ∨
    ∃ event ∈ s.batch, event.fd = p.fd ∧ event.signals kind = true

/-- A stored operation is one that waits; a ready direction has an edge pending
for the one that waits, and an edge pending or latched for the one that is about
to. -/
structure KindOk (p : Setup Op) (s : State Op) (kind : FdEventKind) :
    Prop where
  waiting : (s.registry.slotAt p.fd kind).op.isSome = true →
    s.pc kind = .waiting
  blocked : s.ready kind = true → s.pc kind = .blocked →
    Pending p s kind ∨ (s.registry.slotAt p.fd kind).ready = true
  stored : s.ready kind = true →
    (s.registry.slotAt p.fd kind).op.isSome = true → Pending p s kind

structure Inv (p : Setup Op) (s : State Op) : Prop where
  tracked : (s.registry.entry p.fd).tracked = true
  kind : ∀ kind, KindOk p s kind

theorem start_inv (p : Setup Op) : Inv p (system p).start where
  tracked := p.tracked
  kind := by
    intro kind
    constructor <;> simp [system, p.unused]

theorem Inv.not_stalled {p : Setup Op} {s : State Op} (hs : Inv p s)
    (kind : FdEventKind) : ¬ Stalled p s kind := by
  intro hstalled
  rcases (hs.kind kind).stored hstalled.ready hstalled.stored with
    hedge | ⟨event, hmem, hfd, hsignals⟩
  · rw [hstalled.delivered] at hedge
    simp at hedge
  · rw [hstalled.dispatched event hmem hfd] at hsignals
    simp at hsignals

theorem KindOk.congr {p : Setup Op} {s t : State Op} {kind : FdEventKind}
    (hs : KindOk p s kind)
    (hslot : t.registry.slotAt p.fd kind = s.registry.slotAt p.fd kind)
    (hpc : t.pc kind = s.pc kind) (hready : t.ready kind = s.ready kind)
    (hpending : Pending p s kind → Pending p t kind) : KindOk p t kind where
  waiting := by
    rw [hslot, hpc]
    exact hs.waiting
  blocked := by
    rw [hready, hpc, hslot]
    exact fun htrue hblocked => (hs.blocked htrue hblocked).imp hpending id
  stored := by
    rw [hready, hslot]
    exact fun htrue hstored => hpending (hs.stored htrue hstored)

/-- Without an operation in its slot a direction that is not about to wait has
nothing to lose. -/
theorem kindOk_of_empty {p : Setup Op} {s : State Op} {kind : FdEventKind}
    (hempty : (s.registry.slotAt p.fd kind).op = none)
    (hpc : s.pc kind ≠ .blocked) : KindOk p s kind where
  waiting := by simp [hempty]
  blocked := fun _ hblocked => absurd hblocked hpc
  stored := by simp [hempty]

theorem KindOk.empty {p : Setup Op} {s : State Op} {kind : FdEventKind}
    (hs : KindOk p s kind) (hpc : s.pc kind ≠ .waiting) :
    (s.registry.slotAt p.fd kind).op = none := by
  by_contra hsome
  exact hpc (hs.waiting (Option.isSome_iff_ne_none.mpr hsome))

/-! ### The kernel and the operations -/

theorem kernel_inv {p : Setup Op} {s t : State Op} {a : Action Op}
    (hs : Inv p s) (hstep : kernel s a = some t) : Inv p t := by
  cases a with
  | becomesReady kind =>
      simp only [kernel, Option.ite_none_left_eq_some, Option.some.injEq]
        at hstep
      obtain ⟨_, rfl⟩ := hstep
      refine ⟨hs.tracked, fun other => ?_⟩
      by_cases hother : other = kind
      · subst hother
        have hpending : Pending p { s with
            ready := Function.update s.ready other true
            edge := Function.update s.edge other true } other :=
          Or.inl (Function.update_self ..)
        exact ⟨(hs.kind other).waiting, fun _ _ => Or.inl hpending,
          fun _ _ => hpending⟩
      · refine (hs.kind other).congr rfl rfl
          (Function.update_of_ne hother ..) ?_
        refine Or.imp (fun hedge => ?_) id
        change Function.update s.edge kind true other = true
        rw [Function.update_of_ne hother]
        exact hedge
  | becomesUnready kind =>
      simp only [kernel, Option.some.injEq] at hstep
      subst hstep
      refine ⟨hs.tracked, fun other => ?_⟩
      by_cases hother : other = kind
      · subst hother
        refine ⟨(hs.kind other).waiting, ?_, ?_⟩ <;> simp
      · exact (hs.kind other).congr rfl rfl (Function.update_of_ne hother ..) id
  | _ => simp [kernel] at hstep

/-- An operation that does not wait moves on, and is not on its way to the
reactor unless its direction was not ready. -/
theorem setPc_inv {p : Setup Op} {s : State Op} (hs : Inv p s)
    {kind : FdEventKind} {pc : Pc} (hbefore : s.pc kind ≠ .waiting)
    (hafter : pc = .blocked → s.ready kind = false) :
    Inv p (s.setPc kind pc) := by
  refine ⟨hs.tracked, fun other => ?_⟩
  by_cases hother : other = kind
  · subst hother
    have hempty := (hs.kind other).empty hbefore
    refine ⟨by simp [State.setPc, hempty], ?_, by simp [State.setPc, hempty]⟩
    intro hready hblocked
    have hunready := hafter (by simpa [State.setPc] using hblocked)
    change s.ready other = true at hready
    rw [hunready] at hready
    simp at hready
  · exact (hs.kind other).congr rfl (Function.update_of_ne hother ..) rfl id

/-- A step that touches the slot and the operation of one direction only. -/
theorem inv_of_kind {p : Setup Op} {s : State Op} (hs : Inv p s)
    {kind : FdEventKind} {pc : Pc} {registry : FdRegistry Op}
    (htracked : (registry.entry p.fd).tracked = true)
    (hother : ∀ other, other ≠ kind →
      registry.slotAt p.fd other = s.registry.slotAt p.fd other)
    (hkind : KindOk p { s.setPc kind pc with registry := registry } kind) :
    Inv p { s.setPc kind pc with registry := registry } := by
  refine ⟨htracked, fun other => ?_⟩
  by_cases hne : other = kind
  · subst hne
    exact hkind
  · exact (hs.kind other).congr (hother other hne)
      (Function.update_of_ne hne ..) rfl id

theorem register_inv {p : Setup Op} {s : State Op} (hs : Inv p s)
    {kind : FdEventKind} (hpc : s.pc kind = .blocked) (op : Op) :
    Inv p { s.setPc kind
      (if (s.registry.registerImpl p.fd (some op) kind).2.readyNow.isSome then
        .trying else .waiting) with
        registry := (s.registry.registerImpl p.fd (some op) kind).1 } := by
  have hfd : (0 : Int) ≤ p.fd := Int.natCast_nonneg p.fd
  have hempty := (hs.kind kind).empty (by simp [hpc])
  refine inv_of_kind hs (FdRegistry.registerImpl_tracked ..)
    (fun other hne => FdRegistry.registerImpl_slotAt_other _ hfd op hne _) ?_
  have hnow := FdRegistry.registerImpl_readyNow s.registry hfd op kind
  rw [hnow]
  cases hlatch : (s.registry.slotAt (p.fd : Int).toNat kind).ready with
  | true =>
      refine kindOk_of_empty ?_ (by simp [State.setPc])
      have honly := (FdRegistry.registerImpl_ready_onlyRemoves s.registry hfd op
        hlatch).1
      by_contra hsome
      obtain ⟨stored, hstored⟩ := Option.ne_none_iff_exists'.mp hsome
      have hold := (honly p.fd kind stored hstored).1
      rw [hempty] at hold
      simp at hold
  | false =>
      have hslot := (FdRegistry.registerImpl_slotAt s.registry hfd op kind
        hlatch).2
      refine ⟨by simp [State.setPc], by simp [State.setPc], ?_⟩
      intro hready _
      rcases (hs.kind kind).blocked hready hpc with hpending | hready'
      · exact hpending
      · rw [Int.toNat_natCast] at hlatch
        rw [hlatch] at hready'
        simp at hready'

theorem cancel_inv {p : Setup Op} {s : State Op} (hs : Inv p s)
    (kind : FdEventKind) (token : Nat) :
    Inv p { s.setPc kind
      (if (s.registry.cancel p.fd kind token).2.removed.isSome then .over
        else s.pc kind) with
        registry := (s.registry.cancel p.fd kind token).1 } := by
  refine inv_of_kind hs ?_ (fun other hne => ?_) ?_
  · rw [FdRegistry.cancel_tracked]
    exact hs.tracked
  · exact FdRegistry.cancel_slotAt_other _ _ _ hne _
  · by_cases hremoved :
        (s.registry.cancel p.fd kind token).2.removed.isSome = true
    · refine kindOk_of_empty ?_ (by simp [State.setPc, hremoved])
      exact FdRegistry.cancel_removed _ _ _ _ hremoved
    · have hsame := FdRegistry.cancel_unmatched s.registry p.fd kind token
        (by simpa using hremoved)
      exact (hs.kind kind).congr (by rw [hsame])
        (by simp [State.setPc, hremoved]) rfl id

theorem operate_inv {p : Setup Op} {s t : State Op} {a : Action Op}
    (hs : Inv p s) (hstep : operate p s a = some t) : Inv p t := by
  cases a with
  | start kind =>
      simp only [operate, Option.ite_none_right_eq_some, Option.some.injEq]
        at hstep
      obtain ⟨hpc, rfl⟩ := hstep
      exact setPc_inv hs (by simp [hpc]) (by simp)
  | again kind =>
      simp only [operate, Option.ite_none_right_eq_some, Option.some.injEq]
        at hstep
      obtain ⟨⟨hpc, hready⟩, rfl⟩ := hstep
      exact setPc_inv hs (by simp [hpc]) (fun _ => hready)
  | ends kind =>
      simp only [operate, Option.ite_none_right_eq_some, Option.some.injEq]
        at hstep
      obtain ⟨hpc, rfl⟩ := hstep
      refine setPc_inv hs ?_ (by simp)
      rcases hpc with hpc | hpc <;> simp [hpc]
  | finish kind =>
      simp only [operate, Option.ite_none_right_eq_some, Option.some.injEq]
        at hstep
      obtain ⟨hpc, rfl⟩ := hstep
      exact setPc_inv hs (by simp [hpc]) (by simp)
  | register kind op =>
      simp only [operate, Option.ite_none_right_eq_some, Option.some.injEq]
        at hstep
      obtain ⟨hpc, rfl⟩ := hstep
      exact register_inv hs hpc op
  | cancel kind token =>
      simp only [operate, Option.some.injEq] at hstep
      subst hstep
      exact cancel_inv hs kind token
  | _ => simp [operate] at hstep

/-! ### The reactor -/

theorem has_or (event : Epoll.EpollEvent) (a b : BitVec 32) :
    event.has (a ||| b) = (event.has a || event.has b) := by
  rw [Bool.eq_iff_iff]
  simp only [Epoll.EpollEvent.has, BitVec.and_or_distrib_left, bne_iff_ne,
    ne_eq, BitVec.ofNat_eq_ofNat, BitVec.or_eq_zero_iff, not_and_or,
    Bool.or_eq_true]

/-- `wait` does not drop an event of the descriptor or a direction that it
reports. -/
theorem decode_of_reportedBy (p : Setup Op)
    (others : Nat → Nat → Epoll.Registration) (k : Nat) {kind : FdEventKind}
    {raw : Epoll.EpollEvent} (hraw : p.reportedBy kind raw = true) :
    ∃ event, Epoll.decode p.backend (p.loaded others k) raw = some event ∧
      event.fd = p.fd ∧ event.signals kind = true := by
  simp only [Setup.reportedBy, Setup.concerns, Bool.and_eq_true,
    decide_eq_true_eq] at hraw
  obtain ⟨⟨hfd, hgen⟩, hmask⟩ := hraw
  have hloaded : p.loaded others k p.fd = p.registration := by
    simp [Setup.loaded]
  have hknown : ¬ ((p.fd : Int) < 0 ∨ p.backend.fdCapacity ≤ p.fd) := by
    have := p.known
    omega
  simp only [Epoll.decode, hfd, p.notEventfd, hknown, Int.toNat_natCast,
    hloaded, p.active, hgen, ↓reduceIte, ne_eq, not_true_eq_false,
    Option.some.injEq, exists_eq_left', true_and]
  cases kind <;>
    simp only [mask, has_or, BackendEvent.signals, FdEventKind.pick,
      Bool.or_eq_true] at hmask ⊢ <;>
    tauto

theorem mem_of_reports (p : Setup Op) {outcome : Epoll.Outcome}
    {others : Nat → Nat → Epoll.Registration}
    {before events : List BackendEvent}
    (hwait : Epoll.wait p.backend ⟨outcome, p.loaded others⟩ before =
      .ok events)
    {kind : FdEventKind} (hreports : p.reports outcome kind = true) :
    ∃ event ∈ events, event.fd = p.fd ∧ event.signals kind = true := by
  cases outcome with
  | batch raws =>
      simp only [Epoll.wait, Except.ok.injEq] at hwait
      subst hwait
      simp only [Setup.reports, List.any_eq_true] at hreports
      obtain ⟨raw, hmem, hraw⟩ := hreports
      obtain ⟨k, hk⟩ := List.getElem?_of_mem hmem
      obtain ⟨event, hdecode, hevent⟩ := decode_of_reportedBy p others k hraw
      refine ⟨event, List.mem_filterMap.mpr ⟨(raw, k), ?_, hdecode⟩, hevent⟩
      exact List.mk_mem_zipIdx_iff_getElem?.mpr hk
  | interrupted => simp [Setup.reports] at hreports
  | failed errno => simp [Setup.reports] at hreports

theorem wait_inv {p : Setup Op} {s : State Op} (hs : Inv p s)
    (hbatch : s.batch = []) {outcome : Epoll.Outcome}
    {others : Nat → Nat → Epoll.Registration} {events : List BackendEvent}
    (hwait : Epoll.wait p.backend ⟨outcome, p.loaded others⟩
      s.backendEvents = .ok events) :
    Inv p { s with
      backendEvents := events
      batch := events
      edge := fun kind => s.edge kind && !p.reports outcome kind } := by
  refine ⟨hs.tracked, fun kind => ?_⟩
  refine (hs.kind kind).congr rfl rfl rfl ?_
  rintro (hedge | ⟨event, hmem, _⟩)
  · cases hreports : p.reports outcome kind with
    | true => exact Or.inr (mem_of_reports p hwait hreports)
    | false =>
        left
        simp [hedge, hreports]
  · simp [hbatch] at hmem

/-- A signalled direction is latched, or its operation leaves the slot and does
not wait any more. -/
theorem signal_kindOk {p : Setup Op} {s t : State Op} {kind : FdEventKind}
    {result : FdRegistry.PairResult Op} {isError : Bool}
    (hslot : t.registry.slotAt p.fd kind =
      (s.registry.slotAt p.fd kind).signal)
    (hresult : result.get kind = (s.registry.slotAt p.fd kind).op)
    (hpc : t.pc kind = afterEvent result isError s.pc kind) :
    KindOk p t kind := by
  have hempty : (t.registry.slotAt p.fd kind).op = none := by
    rw [hslot]
    exact FdRegistry.Slot.signal_op _
  cases hop : (s.registry.slotAt p.fd kind).op with
  | some op =>
      apply kindOk_of_empty hempty
      rw [hpc, afterEvent, hresult, hop]
      cases isError <;> simp
  | none =>
      have hlatch : (t.registry.slotAt p.fd kind).ready = true := by
        simp [hslot, FdRegistry.Slot.signal, hop]
      exact ⟨by simp [hempty], fun _ _ => Or.inr hlatch, by simp [hempty]⟩

theorem dispatch_inv {p : Setup Op} {s : State Op} (hs : Inv p s)
    {event : BackendEvent} {rest : List BackendEvent}
    (hbatch : s.batch = event :: rest) :
    Inv p { s with
      batch := rest
      registry :=
        (s.registry.takeReady event.fd event.canRead event.canWrite).1
      pc := if event.fd = p.fd then
          afterEvent
            (s.registry.takeReady event.fd event.canRead event.canWrite).2
            event.isError s.pc
        else s.pc } := by
  -- An event that does not signal a direction leaves what is pending for it.
  have hrest : ∀ kind, ¬ (event.fd = p.fd ∧ event.signals kind = true) →
      Pending p s kind → s.edge kind = true ∨
        ∃ later ∈ rest, later.fd = p.fd ∧ later.signals kind = true := by
    intro kind hnot
    refine Or.imp id ?_
    rintro ⟨later, hmem, hlater⟩
    rw [hbatch, List.mem_cons] at hmem
    rcases hmem with rfl | hmem
    · exact absurd hlater hnot
    · exact ⟨later, hmem, hlater⟩
  by_cases hfd : event.fd = p.fd
  · have htake := FdRegistry.takeReady_of_tracked hs.tracked event.canRead
      event.canWrite
    rw [hfd] at hrest ⊢
    simp only [↓reduceIte]
    refine ⟨(htake .read).2.2, fun kind => ?_⟩
    obtain ⟨hslot, hresult, _⟩ := htake kind
    cases hsignals : event.signals kind with
    | true =>
        have hpick : kind.pick event.canRead event.canWrite = true := hsignals
        rw [hpick, if_pos rfl] at hslot hresult
        exact signal_kindOk hslot hresult rfl
    | false =>
        have hpick : kind.pick event.canRead event.canWrite = false := hsignals
        rw [hpick] at hslot hresult
        refine (hs.kind kind).congr hslot ?_ rfl (hrest kind (by simp [hsignals]))
        simp only [afterEvent, hresult]
        rfl
  · have hentry := FdRegistry.takeReady_entry_ne s.registry hfd event.canRead
      event.canWrite
    refine ⟨by rw [hentry]; exact hs.tracked, fun kind => ?_⟩
    refine (hs.kind kind).congr ?_ ?_ rfl (hrest kind (by simp [hfd]))
    · simp only [FdRegistry.slotAt, hentry]
    · simp [hfd]

theorem other_entry (request : Request Op) (r : FdRegistry Op) {fd : Int}
    {i : Nat} (hne : fd ≠ i) : (request.apply r fd).entry i = r.entry i := by
  cases request with
  | register op kind => exact FdRegistry.registerImpl_entry_ne r hne _ kind
  | cancel kind token => exact FdRegistry.cancel_entry_ne r hne kind token
  | track => exact FdRegistry.track_entry_ne r hne
  | deregister => exact FdRegistry.deregister_entry_ne r hne

theorem react_inv {p : Setup Op} {s t : State Op} {a : Action Op}
    (hs : Inv p s) (hstep : react p s a = some t) : Inv p t := by
  cases a with
  | wait outcome others =>
      simp only [react] at hstep
      split at hstep
      · next hbatch =>
          split at hstep
          · simp at hstep
          · next events hwait =>
              obtain rfl := Option.some.inj hstep
              exact wait_inv hs hbatch hwait
      · simp at hstep
  | dispatch =>
      simp only [react] at hstep
      split at hstep
      · simp at hstep
      · next event rest hbatch =>
          obtain rfl := Option.some.inj hstep
          exact dispatch_inv hs hbatch
  | other fd request =>
      simp only [react, Option.ite_none_left_eq_some, Option.some.injEq]
        at hstep
      obtain ⟨hne, rfl⟩ := hstep
      have hentry := other_entry request s.registry hne
      refine ⟨by rw [hentry]; exact hs.tracked, fun kind => ?_⟩
      refine (hs.kind kind).congr ?_ rfl rfl id
      simp only [FdRegistry.slotAt, hentry]
  | _ => simp [react] at hstep

theorem step_inv {p : Setup Op} {s t : State Op} {a : Action Op}
    (hs : Inv p s) (hstep : step p s a = some t) : Inv p t := by
  cases a with
  | becomesReady kind => exact kernel_inv (a := .becomesReady kind) hs hstep
  | becomesUnready kind => exact kernel_inv (a := .becomesUnready kind) hs hstep
  | wait outcome others => exact react_inv (a := .wait outcome others) hs hstep
  | dispatch => exact react_inv (a := .dispatch) hs hstep
  | other fd request => exact react_inv (a := .other fd request) hs hstep
  | _ =>
      simp only [step] at hstep
      exact operate_inv hs hstep

/-- Readiness of a tracked descriptor is never lost: no run leads to a state in
which a stored wait of a ready direction has no edge coming. -/
theorem not_stalled_of_reachable (p : Setup Op) {s : State Op}
    (hs : (system p).Reachable s) (kind : FdEventKind) :
    ¬ Stalled p s kind := by
  have hinv : Inv p s := hs.invariant (start_inv p)
    (fun _ _ _ hinv hstep => step_inv hinv hstep)
  exact hinv.not_stalled kind

/-- Descriptor 3, tracked and not ready. -/
def idleSocket : Setup Nat where
  fd := 3
  backend := { eventfd := 1, fdCapacity := 8 }
  registration := { active := 1 }
  registry := ({} : FdRegistry Nat).track 3
  ready := fun _ => false
  notEventfd := by decide
  known := by decide
  active := by decide
  tracked := by decide
  unused := by
    intro kind
    cases kind <;> decide

/-- The edge comes between `EAGAIN` and the registration and is latched; the
next one comes while the operation waits. -/
def edgeWhileHopping : List (Action Nat) :=
  [.start .read, .again .read, .becomesReady .read,
    .wait (.batch [⟨Epoll.epollIn, 3⟩]) (fun _ _ => {}), .dispatch,
    .register .read 7, .becomesUnready .read, .again .read, .register .read 8,
    .becomesReady .read]

theorem not_stalled_edgeWhileHopping :
    ∃ s, s.ready .read = true ∧
      (s.registry.slotAt idleSocket.fd .read).op = some 8 ∧
      ¬ Stalled idleSocket s .read := by
  obtain ⟨s, hs, hend⟩ := TransitionSystem.exists_reachable_of_exec
    (system idleSocket) edgeWhileHopping
    (fun s => s.ready .read &&
      (s.registry.slotAt idleSocket.fd .read).op == some 8) (by decide)
  simp only [Bool.and_eq_true, beq_iff_eq] at hend
  exact ⟨s, hend.1, hend.2, not_stalled_of_reachable idleSocket hs .read⟩

end EdgeReadiness

end Iocoro
