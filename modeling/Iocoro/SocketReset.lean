/-
`close()` against a connect that another thread has under way.  The logical state of
the socket is stored by both without a common lock; the connect stores `connected`
after a check of its epoch and of `closing()`, and `close()` may come in between.
-/
import Mathlib.Data.BitVec
import Iocoro.StreamConnect
import Iocoro.TransitionSystem

namespace Iocoro

namespace SocketReset

/-- `socket_impl_base`: `res_`, the resource that `close` has taken out and is about to
mark, the number of resources made and those of them that are marked as closing. -/
structure Base where
  res : Option Nat
  old : Option Nat
  made : Nat
  closing : List Nat
  known : ∀ r, r ∈ closing ∨ res = some r ∨ old = some r → r < made
deriving DecidableEq

namespace Base

def fresh : Base where
  res := none
  old := none
  made := 0
  closing := []
  known := by simp

/-- A resource that is in use, has been taken out or is marked. -/
def Covers (b : Base) (r : Nat) : Prop :=
  r ∈ b.closing ∨ b.res = some r ∨ b.old = some r

/-- `open`, where it does not fail. -/
def open? (b : Base) : Option Base :=
  if b.res.isSome then none
  else
    some { b with
      res := some b.made
      made := b.made + 1
      known := by
        rintro r (hclosing | hres | hold)
        · exact Nat.lt_succ_of_lt (b.known r (.inl hclosing))
        · exact Option.some.inj hres ▸ Nat.lt_succ_self _
        · exact Nat.lt_succ_of_lt (b.known r (.inr (.inr hold))) }

/-- `assign`: the resource before is taken out and marked. -/
def assign (b : Base) : Base :=
  { b with
    res := some b.made
    made := b.made + 1
    closing := b.res.toList ++ b.closing
    known := by
      rintro r (hclosing | hres | hold)
      · rcases List.mem_append.mp hclosing with hres | hclosing
        · exact Nat.lt_succ_of_lt (b.known r (.inr (.inl (by simpa using hres))))
        · exact Nat.lt_succ_of_lt (b.known r (.inl hclosing))
      · exact Option.some.inj hres ▸ Nat.lt_succ_self _
      · exact Nat.lt_succ_of_lt (b.known r (.inr (.inr hold))) }

/-- The exchange of `res_` in `close`. -/
def takeOut (b : Base) : Base :=
  { b with
    res := none
    old := b.res
    known := by
      rintro r (hclosing | hres | hold)
      · exact b.known r (.inl hclosing)
      · nomatch hres
      · exact b.known r (.inr (.inl hold)) }

def markClosing (b : Base) : Base :=
  { b with
    old := none
    closing := b.old.toList ++ b.closing
    known := by
      rintro r (hclosing | hres | hold)
      · rcases List.mem_append.mp hclosing with hold | hclosing
        · exact b.known r (.inr (.inr (by simpa using hold)))
        · exact b.known r (.inl hclosing)
      · exact b.known r (.inr (.inl hres))
      · nomatch hold }

/-- The check of `make_operation_guard`. -/
def guards (b : Base) (res : Nat) : Bool :=
  decide (b.res = some res) && decide (res ∉ b.closing)

theorem open?_cases {b t : Base} (hopen : b.open? = some t) :
    b.res = none ∧ t.res = some b.made ∧ t.old = b.old ∧ t.closing = b.closing := by
  simp only [open?, Option.ite_none_left_eq_some, Option.some.injEq] at hopen
  obtain ⟨hclosed, rfl⟩ := hopen
  exact ⟨Option.not_isSome_iff_eq_none.mp hclosed, rfl, rfl, rfl⟩

theorem Covers.open {b t : Base} {r : Nat} (hcovers : b.Covers r)
    (hopen : b.open? = some t) : t.Covers r := by
  obtain ⟨hclosed, _, hold, hclosing⟩ := open?_cases hopen
  rcases hcovers with hmarked | hused | hmarking
  · exact .inl (hclosing ▸ hmarked)
  · rw [hclosed] at hused
    nomatch hused
  · exact .inr (.inr (hold ▸ hmarking))

theorem Covers.marked {b : Base} {r : Nat} (hcovers : b.Covers r)
    (hgone : b.res = none) (hold : b.old = none) : r ∈ b.closing := by
  rcases hcovers with hmarked | hused | hmarking
  · exact hmarked
  · rw [hgone] at hused
    nomatch hused
  · rw [hold] at hmarking
    nomatch hmarking

theorem Covers.takeOut {b : Base} {r : Nat} (hcovers : b.Covers r)
    (hold : b.old = none) : r ∈ b.closing ∨ b.takeOut.old = some r := by
  rcases hcovers with hmarked | hused | hmarking
  · exact .inl hmarked
  · exact .inr hused
  · rw [hold] at hmarking
    nomatch hmarking

theorem mem_markClosing {b : Base} {r : Nat} :
    r ∈ b.markClosing.closing ↔ b.old = some r ∨ r ∈ b.closing := by
  rw [markClosing, List.mem_append, Option.mem_toList]

theorem Covers.markClosing {b : Base} {r : Nat} (hcovers : b.Covers r) :
    b.markClosing.Covers r := by
  rcases hcovers with hmarked | hused | hmarking
  · exact .inl (mem_markClosing.mpr (.inr hmarked))
  · exact .inr (.inl hused)
  · exact .inl (mem_markClosing.mpr (.inl hmarking))

end Base

namespace Stream

open StreamConnect (Answer ConnState)

/-- Where `close()` stands. -/
inductive ClosePc where
  | idle
  | cancel
  | store
  | shutdown
  | exchange
  | mark
  | returned
deriving DecidableEq, Repr

/-- `close()` has stored `disconnected`. -/
def ClosePc.stored : ClosePc → Bool
  | .shutdown | .exchange | .mark | .returned => true
  | _ => false

/-- `close()` is between the bump of the epoch and the mark of the resource. -/
def ClosePc.cancelling : ClosePc → Bool
  | .store | .shutdown | .exchange | .mark => true
  | _ => false

/-- `close()` has taken the resource out. -/
def ClosePc.tookOut : ClosePc → Bool
  | .mark | .returned => true
  | _ => false

/-- The local variables `res` and `my_epoch`. -/
structure Held where
  res : Nat
  epoch : BitVec 64
deriving DecidableEq, Repr

/-- What follows a check of the epoch and of `closing()`. -/
inductive After where
  | connect
  | soError
  | commit
deriving DecidableEq, Repr

/-- Where `async_connect` stands; `store` is a store of `state_` with the result that
is returned after it. -/
inductive Pc where
  | idle
  | acquire
  | checkClosing (res : Nat)
  | guard (res : Nat)
  | loadState (res : Nat)
  | tryStart (res : Nat)
  | loadEpoch (res : Nat)
  | storeConnecting (held : Held)
  | checkEpoch (held : Held) (next : After)
  | recheckClosing (held : Held) (next : After)
  | connect (held : Held)
  | wait (held : Held)
  | soError (held : Held)
  | store (held : Held) (state : ConnState) (result : ErrorCode)
  | finish (result : ErrorCode)
  | returned (result : ErrorCode)
deriving DecidableEq, Repr

def Pc.ended : Pc → Bool
  | .idle | .returned _ => true
  | _ => false

def Pc.res? : Pc → Option Nat
  | .checkClosing res | .guard res | .loadState res | .tryStart res
  | .loadEpoch res => some res
  | .storeConnecting held | .checkEpoch held _ | .recheckClosing held _
  | .connect held | .wait held | .soError held | .store held _ _ => some held.res
  | _ => none

def Pc.held? : Pc → Option Held
  | .storeConnecting held | .checkEpoch held _ | .recheckClosing held _
  | .connect held | .wait held | .soError held | .store held _ _ => some held
  | _ => none

/-- `state_` holds `connecting` only here. -/
def Pc.pending : Pc → Bool
  | .checkEpoch _ _ | .recheckClosing _ _ | .connect _ | .wait _ | .soError _
  | .store _ _ _ => true
  | _ => false

/-- `later` records an open, assign or connect made since `close()` was last called,
`late` that `close()` has stored `disconnected` since the last check of the epoch, and
`takenDuring` that the epoch was read between its bump and the mark in `close()`. -/
structure State where
  base : Base := .fresh
  connState : ConnState := .disconnected
  epoch : BitVec 64 := 0
  active : Bool := false
  pc : Pc := .idle
  close : ClosePc := .idle
  later : Bool := false
  late : Bool := false
  takenDuring : Bool := false
deriving DecidableEq

/-- What `getsockopt` with `SO_ERROR` answers. -/
inductive SoError where
  | failed (errno : Nat)
  | value (soError : Nat)
deriving DecidableEq, Repr

inductive Action where
  | open
  | assign
  | close
  | closer
  | start
  | connector
  | connect (answer : Answer)
  | waitEnds (ec : ErrorCode)
  | getSoError (answer : SoError)
deriving DecidableEq, Repr

/-- The steps of `close()`.  The shutdown of the descriptor shows in what the system
calls of the connect answer. -/
def closer (s : State) : Option State :=
  match s.close with
  | .cancel => some { s with epoch := s.epoch + 1, close := .store }
  | .store =>
      some { s with connState := .disconnected, late := true, close := .shutdown }
  | .shutdown => some { s with close := .exchange }
  | .exchange => some { s with base := s.base.takeOut, close := .mark }
  | .mark => some { s with base := s.base.markClosing, close := .returned }
  | _ => none

/-- Where a passed check leads. -/
def After.pc (held : Held) : After → Pc
  | .connect => .connect held
  | .soError => .soError held
  | .commit => .store held .connected .none

/-- The steps of `async_connect` between its system calls. -/
def connector (s : State) : Option State :=
  match s.pc with
  | .acquire =>
      match s.base.res with
      | none => some { s with pc := .returned .notOpen }
      | some res => some { s with pc := .checkClosing res }
  | .checkClosing res =>
      if res ∈ s.base.closing then some { s with pc := .returned .operationAborted }
      else some { s with pc := .guard res }
  | .guard res =>
      if s.base.guards res then some { s with pc := .loadState res }
      else some { s with pc := .returned .operationAborted }
  | .loadState res =>
      match s.connState with
      | .connecting => some { s with pc := .returned .busy }
      | .connected => some { s with pc := .returned .alreadyConnected }
      | .disconnected => some { s with pc := .tryStart res }
  | .tryStart res =>
      if s.active then some { s with pc := .returned .busy }
      else some { s with active := true, pc := .loadEpoch res }
  | .loadEpoch res =>
      some { s with
        pc := .storeConnecting ⟨res, s.epoch⟩
        takenDuring := s.close.cancelling }
  | .storeConnecting held =>
      some { s with connState := .connecting, pc := .checkEpoch held .connect }
  | .checkEpoch held next =>
      if s.epoch = held.epoch then
        some { s with late := false, pc := .recheckClosing held next }
      else some { s with pc := .store held .disconnected .operationAborted }
  | .recheckClosing held next =>
      if held.res ∈ s.base.closing then
        some { s with pc := .store held .disconnected .operationAborted }
      else some { s with pc := next.pc held }
  | .store _ state result => some { s with connState := state, pc := .finish result }
  | .finish result => some { s with active := false, pc := .returned result }
  | _ => none

/-- Where the answer of `::connect` leads. -/
def afterConnect (held : Held) : Answer → Pc
  | .success | .eisconn => .store held .connected .none
  | .eintr => .checkEpoch held .connect
  | .einprogress | .ealready | .eagain => .wait held
  | .error errno => .store held .disconnected (.system errno)

def afterWait (held : Held) (ec : ErrorCode) : Pc :=
  if ec ≠ .none ∧ ec ≠ .eof ∧ ec ≠ .connectionReset then
    .store held .disconnected ec
  else .checkEpoch held .soError

def afterSoError (held : Held) : SoError → Pc
  | .failed errno => .store held .disconnected (.system errno)
  | .value soError =>
      if soError ≠ 0 then .store held .disconnected (.system soError)
      else .checkEpoch held .commit

/-- `assign` asserts that the socket is not in use. -/
def State.unused (s : State) : Bool :=
  s.pc.ended && (s.close == .idle || s.close == .returned) &&
    s.connState == .disconnected && !s.active

def step (s : State) : Action → Option State
  | .open => s.base.open?.map fun base => { s with base, later := true }
  | .assign =>
      if s.unused then
        some { s with base := s.base.assign, connState := .connected, later := true }
      else none
  | .close =>
      if s.close = .idle ∨ s.close = .returned then
        some { s with close := .cancel, later := false }
      else none
  | .closer => closer s
  | .start => if s.pc.ended then some { s with pc := .acquire, later := true } else none
  | .connector => connector s
  | .connect answer =>
      match s.pc with
      | .connect held => some { s with pc := afterConnect held answer }
      | _ => none
  | .waitEnds ec =>
      match s.pc with
      | .wait held => some { s with pc := afterWait held ec }
      | _ => none
  | .getSoError answer =>
      match s.pc with
      | .soError held => some { s with pc := afterSoError held answer }
      | _ => none

def system : TransitionSystem State Action where
  start := {}
  step := step

/-- `close()` has returned, the connect begun before it has ended, and nothing has
been made since. -/
def State.settled (s : State) : Bool :=
  s.close == .returned && s.pc.ended && !s.later

/-- The steps of an open and of an `async_connect` up to its look at the state. -/
def reconnect : List Action :=
  [.open, .start, .connector, .connector, .connector, .connector]

/-- What `close()` leaves can be used again: a connect after an open is not turned
down for the state of the socket. -/
structure Reusable (s : State) : Prop where
  initial : s.settled = true → s.connState = .disconnected
  accepts : s.settled = true → ∃ t res, system.exec s reconnect = some t ∧
    t.pc = .tryStart res

/-- The store of `connected` that a check does not cover: `close()` has stored
`disconnected`, and it did so after the last check, or the epoch was taken while
`close()` was under way. -/
def uncovered (s : State) : Bool :=
  s.close.stored && !s.later && (s.late || s.takenDuring)

/-- No `connected` is stored uncovered. -/
def covered (s : State) (a : Action) : Bool :=
  match a, s.pc with
  | .connector, .store _ .connected _ => !uncovered s
  | _, _ => true

/-- What the checks of the connect have found out about `close()`. -/
def Vetted (s : State) : Prop :=
  s.close.stored = true → s.later = false → s.late = true ∨ s.takenDuring = true

/-- What is known of `close()` where the connect stands behind a check. -/
def PcOk (s : State) : Pc → Prop
  | .recheckClosing held _ => held.res ∈ s.base.closing ∨ Vetted s
  | .connect _ => Vetted s
  | .store _ .connected _ => Vetted s
  | .store _ .connecting _ => False
  | _ => True

structure Inv (s : State) : Prop where
  covers : ∀ res, s.pc.res? = some res → s.base.Covers res
  old : s.close ≠ .mark → s.base.old = none
  gone : s.close.tookOut = true → s.later = false → s.base.res = none
  epoch : ∀ held, s.pc.held? = some held → s.takenDuring = false →
    held.res ∈ s.base.closing ∨
      s.epoch = if s.close.cancelling then held.epoch + 1 else held.epoch
  marking : ∀ held, s.pc.held? = some held → s.takenDuring = false →
    s.close = .mark → held.res ∈ s.base.closing ∨ s.base.old = some held.res
  vetted : PcOk s s.pc
  pending : s.connState = .connecting → s.pc.pending = true
  disconnected : s.close.stored = true → s.later = false → s.connState ≠ .connected

theorem start_inv : Inv system.start where
  covers := nofun
  old := fun _ => rfl
  gone := nofun
  epoch := nofun
  marking := nofun
  vetted := trivial
  pending := nofun
  disconnected := nofun

theorem Pc.res?_of_held? {pc : Pc} {held : Held} (hheld : pc.held? = some held) :
    pc.res? = some held.res := by
  cases pc <;> simp_all [Pc.held?, Pc.res?]

theorem Vetted.uncovered {s : State} (hvetted : Vetted s)
    (hstored : s.close.stored = true) (hlater : s.later = false) :
    uncovered s = true := by
  rcases hvetted hstored hlater with hlate | htaken
  · simp [Stream.uncovered, hstored, hlater, hlate]
  · simp [Stream.uncovered, hstored, hlater, htaken]

theorem Vetted.of_later {s : State} (hlater : s.later = true) : Vetted s := by
  intro _ hnot
  rw [hlater] at hnot
  nomatch hnot

/-- Where the connect stands says as much after a step that takes back no mark and
lets `close()` store nothing new. -/
theorem PcOk.mono {s t : State} {pc : Pc} (hs : PcOk s pc)
    (hclosing : ∀ r, r ∈ s.base.closing → r ∈ t.base.closing)
    (hvetted : Vetted s → Vetted t) : PcOk t pc := by
  cases pc with
  | recheckClosing held next => exact hs.imp (hclosing _) hvetted
  | connect held => exact hvetted hs
  | store held state result =>
      cases state with
      | connected => exact hvetted hs
      | connecting => exact hs
      | disconnected => trivial
  | _ => trivial

/-- A step of the connect that changes nothing else. -/
theorem Inv.move {s : State} (hs : Inv s) {pc : Pc}
    (hres : ∀ res, pc.res? = some res → s.base.Covers res)
    (hheld : ∀ held, pc.held? = some held → s.pc.held? = some held)
    (hvetted : PcOk s pc) (hpending : s.pc.pending = true → pc.pending = true) :
    Inv { s with pc } where
  covers := hres
  old := hs.old
  gone := hs.gone
  epoch := fun held hpc => hs.epoch held (hheld held hpc)
  marking := fun held hpc => hs.marking held (hheld held hpc)
  vetted := hvetted.mono (fun _ => id) id
  pending := fun hconn => hpending (hs.pending hconn)
  disconnected := hs.disconnected

theorem Inv.base_res {s : State} (hs : Inv s) (hreturned : s.close = .returned)
    (hlater : s.later = false) : s.base.res = none :=
  hs.gone (by rw [hreturned]; rfl) hlater

/-- Once `close()` has returned, the resource of a connect begun before is marked. -/
theorem Inv.marked {s : State} (hs : Inv s) (hreturned : s.close = .returned)
    (hlater : s.later = false) {res : Nat} (hpc : s.pc.res? = some res) :
    res ∈ s.base.closing := by
  exact (hs.covers res hpc).marked (hs.base_res hreturned hlater)
    (hs.old (by rw [hreturned]; nofun))

theorem Inv.bumped {s : State} (hs : Inv s) (hbefore : s.close.cancelling = true)
    {next : ClosePc} (hnext : next.cancelling = true) (held : Held)
    (hheld : s.pc.held? = some held) (htaken : s.takenDuring = false) :
    held.res ∈ s.base.closing ∨
      s.epoch = if next.cancelling then held.epoch + 1 else held.epoch := by
  have hepoch := hs.epoch held hheld htaken
  rw [hbefore] at hepoch
  rwa [hnext]

theorem cancel_inv {s : State} (hs : Inv s) (hclose : s.close = .cancel) :
    Inv { s with epoch := s.epoch + 1, close := .store } where
  covers := hs.covers
  old := fun _ => hs.old (by rw [hclose]; nofun)
  gone := nofun
  epoch := by
    intro held hheld htaken
    refine (hs.epoch held hheld htaken).imp_right fun hepoch => ?_
    rw [hclose] at hepoch
    exact congrArg (· + 1) hepoch
  marking := nofun
  vetted := hs.vetted.mono (fun _ => id) fun _ => nofun
  pending := hs.pending
  disconnected := nofun

theorem storeDisconnected_inv {s : State} (hs : Inv s) (hclose : s.close = .store) :
    Inv { s with connState := .disconnected, late := true, close := .shutdown } where
  covers := hs.covers
  old := fun _ => hs.old (by rw [hclose]; nofun)
  gone := nofun
  epoch := hs.bumped (by rw [hclose]; rfl) rfl
  marking := nofun
  vetted := hs.vetted.mono (fun _ => id) fun _ _ _ => .inl rfl
  pending := nofun
  disconnected := nofun

theorem shutdown_inv {s : State} (hs : Inv s) (hclose : s.close = .shutdown) :
    Inv { s with close := .exchange } where
  covers := hs.covers
  old := fun _ => hs.old (by rw [hclose]; nofun)
  gone := nofun
  epoch := hs.bumped (by rw [hclose]; rfl) rfl
  marking := nofun
  vetted := hs.vetted.mono (fun _ => id)
    fun hvetted _ => hvetted (by rw [hclose]; rfl)
  pending := hs.pending
  disconnected := fun _ => hs.disconnected (by rw [hclose]; rfl)

theorem takeOut_inv {s : State} (hs : Inv s) (hclose : s.close = .exchange) :
    Inv { s with base := s.base.takeOut, close := .mark } := by
  have hold := hs.old (by rw [hclose]; nofun)
  exact {
    covers := fun res hres => ((hs.covers res hres).takeOut hold).imp_right .inr
    old := fun hne => absurd rfl hne
    gone := fun _ _ => rfl
    epoch := hs.bumped (by rw [hclose]; rfl) rfl
    marking := by
      intro held hheld _ _
      exact (hs.covers held.res (Pc.res?_of_held? hheld)).takeOut hold
    vetted := hs.vetted.mono (fun _ => id)
      fun hvetted _ => hvetted (by rw [hclose]; rfl)
    pending := hs.pending
    disconnected := fun _ => hs.disconnected (by rw [hclose]; rfl) }

theorem markClosing_inv {s : State} (hs : Inv s) (hclose : s.close = .mark) :
    Inv { s with base := s.base.markClosing, close := .returned } where
  covers := fun res hres => (hs.covers res hres).markClosing
  old := fun _ => rfl
  gone := fun _ => hs.gone (by rw [hclose]; rfl)
  epoch := by
    intro held hheld htaken
    refine .inl (Base.mem_markClosing.mpr ?_)
    exact (hs.marking held hheld htaken hclose).symm
  marking := nofun
  vetted := hs.vetted.mono (fun _ hr => Base.mem_markClosing.mpr (.inr hr))
    fun hvetted _ => hvetted (by rw [hclose]; rfl)
  pending := hs.pending
  disconnected := fun _ => hs.disconnected (by rw [hclose]; rfl)

theorem closer_inv {s t : State} (hs : Inv s) (hstep : closer s = some t) : Inv t := by
  unfold closer at hstep
  split at hstep
  next hclose => exact Option.some.inj hstep ▸ cancel_inv hs hclose
  next hclose => exact Option.some.inj hstep ▸ storeDisconnected_inv hs hclose
  next hclose => exact Option.some.inj hstep ▸ shutdown_inv hs hclose
  next hclose => exact Option.some.inj hstep ▸ takeOut_inv hs hclose
  next hclose => exact Option.some.inj hstep ▸ markClosing_inv hs hclose
  next => nomatch hstep

/-- Where a check of the epoch passes after `close()` has stored `disconnected`, the
check of `closing()` that follows it does not. -/
theorem marked_of_current {s : State} (hs : Inv s) {held : Held}
    (hheld : s.pc.held? = some held) (hcurrent : s.epoch = held.epoch)
    (hstored : s.close.stored = true) (hlater : s.later = false)
    (htaken : s.takenDuring = false) : held.res ∈ s.base.closing := by
  have hepoch := hs.epoch held hheld htaken
  cases hclose : s.close with
  | returned => exact hs.marked hclose hlater (Pc.res?_of_held? hheld)
  | idle | cancel | store =>
      rw [hclose] at hstored
      nomatch hstored
  | shutdown | exchange | mark =>
      refine hepoch.resolve_right fun hbumped => ?_
      rw [hclose, hcurrent] at hbumped
      have hne : held.epoch ≠ held.epoch + 1 := by
        simp
      exact hne hbumped

theorem store_inv {s : State} (hs : Inv s) {held : Held} {state : ConnState}
    {result : ErrorCode} (hpc : s.pc = .store held state result)
    (hcovered : covered s .connector = true) :
    Inv { s with connState := state, pc := .finish result } where
  covers := nofun
  old := hs.old
  gone := hs.gone
  epoch := nofun
  marking := nofun
  vetted := trivial
  pending := by
    rintro (rfl : state = .connecting)
    have hvetted := hs.vetted
    rw [hpc] at hvetted
    exact hvetted.elim
  disconnected := by
    rintro hstored hlater (rfl : state = .connected)
    have hvetted := hs.vetted
    rw [hpc] at hvetted
    simp [covered, hpc, Vetted.uncovered hvetted hstored hlater] at hcovered

/-- A step of the connect before it has stored `connecting`. -/
theorem Inv.moveEarly {s : State} (hs : Inv s) {pc : Pc} (hearly : s.pc.pending = false)
    (hres : ∀ res, pc.res? = some res → s.pc.res? = some res ∨ s.base.res = some res)
    (hheld : pc.held? = none) : Inv { s with pc } := by
  have hok : PcOk s pc := by
    cases pc <;> trivial
  refine hs.move (fun res hpc => ?_) ?_ hok ?_
  · rcases hres res hpc with hbefore | hused
    · exact hs.covers res hbefore
    · exact .inr (.inl hused)
  · rw [hheld]
    nofun
  · rw [hearly]
    nofun

theorem Inv.setActive {s : State} (hs : Inv s) (active : Bool) :
    Inv { s with active } :=
  ⟨hs.covers, hs.old, hs.gone, hs.epoch, hs.marking,
    hs.vetted.mono (fun _ => id) id, hs.pending, hs.disconnected⟩

theorem Pc.pending_of_held? {pc : Pc} (hheld : pc.held? = none) :
    pc.pending = false := by
  cases pc <;> first | rfl | nomatch hheld

theorem tryStart_inv {s t : State} (hs : Inv s) {res : Nat} (hpc : s.pc = .tryStart res)
    (hstep : connector s = some t) : Inv t := by
  have hearly : s.pc.pending = false := by rw [hpc]; rfl
  simp only [connector, hpc] at hstep
  split at hstep
  next =>
    obtain rfl := Option.some.inj hstep
    exact hs.moveEarly hearly nofun rfl
  next =>
    obtain rfl := Option.some.inj hstep
    exact (hs.setActive true).moveEarly hearly
      (by rintro _ ⟨⟩; exact .inl (by rw [hpc]; rfl)) rfl

theorem loadEpoch_inv {s : State} (hs : Inv s) {res : Nat}
    (hpc : s.pc = .loadEpoch res) :
    Inv { s with
      pc := .storeConnecting ⟨res, s.epoch⟩
      takenDuring := s.close.cancelling } where
  covers := by
    rintro _ ⟨⟩
    exact hs.covers res (by rw [hpc]; rfl)
  old := hs.old
  gone := hs.gone
  epoch := by
    rintro _ ⟨⟩ (htaken : s.close.cancelling = false)
    exact .inr (by simp [htaken])
  marking := by
    rintro _ _ htaken (hclose : s.close = .mark)
    simp [hclose, ClosePc.cancelling] at htaken
  vetted := trivial
  pending := by
    intro hconn
    have hpending := hs.pending hconn
    rw [hpc] at hpending
    nomatch hpending
  disconnected := hs.disconnected

theorem early_inv {s t : State} (hs : Inv s) (hheld : s.pc.held? = none)
    (hstep : connector s = some t) : Inv t := by
  have hearly := Pc.pending_of_held? hheld
  cases hpc : s.pc with
  | idle | connect | wait | soError | returned =>
      simp only [connector, hpc] at hstep
      nomatch hstep
  | acquire =>
      simp only [connector, hpc] at hstep
      split at hstep
      next =>
        obtain rfl := Option.some.inj hstep
        exact hs.moveEarly hearly nofun rfl
      next res hres =>
        obtain rfl := Option.some.inj hstep
        exact hs.moveEarly hearly (by rintro _ ⟨⟩; exact .inr hres) rfl
  | checkClosing res =>
      simp only [connector, hpc] at hstep
      split at hstep
      next =>
        obtain rfl := Option.some.inj hstep
        exact hs.moveEarly hearly nofun rfl
      next =>
        obtain rfl := Option.some.inj hstep
        exact hs.moveEarly hearly (by rintro _ ⟨⟩; exact .inl (by rw [hpc]; rfl)) rfl
  | guard res =>
      simp only [connector, hpc] at hstep
      split at hstep
      next =>
        obtain rfl := Option.some.inj hstep
        exact hs.moveEarly hearly (by rintro _ ⟨⟩; exact .inl (by rw [hpc]; rfl)) rfl
      next =>
        obtain rfl := Option.some.inj hstep
        exact hs.moveEarly hearly nofun rfl
  | loadState res =>
      simp only [connector, hpc] at hstep
      split at hstep
      next =>
        obtain rfl := Option.some.inj hstep
        exact hs.moveEarly hearly nofun rfl
      next =>
        obtain rfl := Option.some.inj hstep
        exact hs.moveEarly hearly nofun rfl
      next =>
        obtain rfl := Option.some.inj hstep
        exact hs.moveEarly hearly (by rintro _ ⟨⟩; exact .inl (by rw [hpc]; rfl)) rfl
  | tryStart res => exact tryStart_inv hs hpc hstep
  | loadEpoch res =>
      simp only [connector, hpc] at hstep
      obtain rfl := Option.some.inj hstep
      exact loadEpoch_inv hs hpc
  | finish result =>
      simp only [connector, hpc] at hstep
      obtain rfl := Option.some.inj hstep
      exact (hs.setActive false).moveEarly hearly nofun rfl
  | storeConnecting | checkEpoch | recheckClosing | store =>
      rw [hpc] at hheld
      nomatch hheld

theorem storeConnecting_inv {s : State} (hs : Inv s) {held : Held}
    (hpc : s.pc = .storeConnecting held) :
    Inv { s with connState := .connecting, pc := .checkEpoch held .connect } where
  covers := fun res hres => hs.covers res (by rw [hpc]; exact hres)
  old := hs.old
  gone := hs.gone
  epoch := fun _ hheld => hs.epoch _ (by rw [hpc]; exact hheld)
  marking := fun _ hheld => hs.marking _ (by rw [hpc]; exact hheld)
  vetted := trivial
  pending := fun _ => rfl
  disconnected := nofun

theorem checkEpoch_inv {s : State} (hs : Inv s) {held : Held} {next : After}
    (hpc : s.pc = .checkEpoch held next) (hcurrent : s.epoch = held.epoch) :
    Inv { s with late := false, pc := .recheckClosing held next } where
  covers := fun res hres => hs.covers res (by rw [hpc]; exact hres)
  old := hs.old
  gone := hs.gone
  epoch := fun _ hheld => hs.epoch _ (by rw [hpc]; exact hheld)
  marking := fun _ hheld => hs.marking _ (by rw [hpc]; exact hheld)
  vetted := by
    by_cases hmarked : held.res ∈ s.base.closing
    · exact .inl hmarked
    · refine .inr fun hstored hlater => ?_
      cases htaken : s.takenDuring with
      | true => exact .inr rfl
      | false =>
          exact absurd (marked_of_current hs (by rw [hpc]; rfl) hcurrent hstored hlater
            htaken) hmarked
  pending := fun _ => rfl
  disconnected := hs.disconnected

/-- A step of the connect behind its store of `connecting` that changes nothing
else. -/
theorem Inv.moveHeld {s : State} (hs : Inv s) {pc : Pc} {held : Held}
    (hheld : s.pc.held? = some held) (hheld' : pc.held? = some held)
    (hpending : pc.pending = true) (hvetted : PcOk s pc) : Inv { s with pc } := by
  refine hs.move (fun res hres => hs.covers res ?_) (fun other hother => ?_) hvetted
    fun _ => hpending
  · rw [Pc.res?_of_held? hheld, ← hres, Pc.res?_of_held? hheld']
  · rw [hheld, ← hother, hheld']

theorem pending_inv {s t : State} (hs : Inv s) {held : Held}
    (hheld : s.pc.held? = some held) (hcovered : covered s .connector = true)
    (hstep : connector s = some t) : Inv t := by
  cases hpc : s.pc with
  | connect | wait | soError =>
      simp only [connector, hpc] at hstep
      nomatch hstep
  | storeConnecting held' =>
      simp only [connector, hpc] at hstep
      obtain rfl := Option.some.inj hstep
      exact storeConnecting_inv hs hpc
  | checkEpoch held' next =>
      simp only [connector, hpc] at hstep
      split at hstep
      next hcurrent =>
        obtain rfl := Option.some.inj hstep
        exact checkEpoch_inv hs hpc hcurrent
      next =>
        obtain rfl := Option.some.inj hstep
        exact hs.moveHeld (by rw [hpc]; rfl) rfl rfl trivial
  | recheckClosing held' next =>
      have hvetted := hs.vetted
      rw [hpc] at hvetted
      simp only [connector, hpc] at hstep
      split at hstep
      next =>
        obtain rfl := Option.some.inj hstep
        exact hs.moveHeld (by rw [hpc]; rfl) rfl rfl trivial
      next hopen =>
        obtain rfl := Option.some.inj hstep
        have hclear := hvetted.resolve_left hopen
        cases next with
        | connect => exact hs.moveHeld (by rw [hpc]; rfl) rfl rfl hclear
        | soError => exact hs.moveHeld (by rw [hpc]; rfl) rfl rfl trivial
        | commit => exact hs.moveHeld (by rw [hpc]; rfl) rfl rfl hclear
  | store held' state result =>
      simp only [connector, hpc] at hstep
      obtain rfl := Option.some.inj hstep
      exact store_inv hs hpc hcovered
  | _ =>
      rw [hpc] at hheld
      nomatch hheld

theorem connector_inv {s t : State} (hs : Inv s)
    (hcovered : covered s .connector = true)
    (hstep : connector s = some t) : Inv t := by
  cases hheld : s.pc.held? with
  | none => exact early_inv hs hheld hstep
  | some held => exact pending_inv hs hheld hcovered hstep

theorem connect_inv {s : State} (hs : Inv s) {held : Held} (hpc : s.pc = .connect held)
    (answer : Answer) : Inv { s with pc := afterConnect held answer } := by
  have hvetted := hs.vetted
  rw [hpc] at hvetted
  have hheld : s.pc.held? = some held := by rw [hpc]; rfl
  cases answer with
  | success | eisconn => exact hs.moveHeld hheld rfl rfl hvetted
  | eintr | einprogress | ealready | eagain | error errno =>
      exact hs.moveHeld hheld rfl rfl trivial

theorem waitEnds_inv {s : State} (hs : Inv s) {held : Held} (hpc : s.pc = .wait held)
    (ec : ErrorCode) : Inv { s with pc := afterWait held ec } := by
  have hheld : s.pc.held? = some held := by rw [hpc]; rfl
  unfold afterWait
  split
  next => exact hs.moveHeld hheld rfl rfl trivial
  next => exact hs.moveHeld hheld rfl rfl trivial

theorem getSoError_inv {s : State} (hs : Inv s) {held : Held}
    (hpc : s.pc = .soError held) (answer : SoError) :
    Inv { s with pc := afterSoError held answer } := by
  have hheld : s.pc.held? = some held := by rw [hpc]; rfl
  cases answer with
  | failed errno => exact hs.moveHeld hheld rfl rfl trivial
  | value soError =>
      cases soError with
      | zero => exact hs.moveHeld hheld rfl rfl trivial
      | succ errno => exact hs.moveHeld hheld rfl rfl trivial

theorem open_inv {s : State} (hs : Inv s) {base : Base}
    (hopen : s.base.open? = some base) :
    Inv { s with base, later := true } := by
  obtain ⟨_, _, hold, hclosing⟩ := Base.open?_cases hopen
  exact {
    covers := fun res hres => (hs.covers res hres).open hopen
    old := fun hne => hold.trans (hs.old hne)
    gone := nofun
    epoch := by
      intro held hheld htaken
      exact hclosing ▸ hs.epoch held hheld htaken
    marking := by
      intro held hheld htaken hclose
      exact hclosing ▸ hold ▸ hs.marking held hheld htaken hclose
    vetted := hs.vetted.mono (fun _ hr => hclosing ▸ hr) fun _ => Vetted.of_later rfl
    pending := hs.pending
    disconnected := nofun }

theorem Pc.held?_of_ended {pc : Pc} (hended : pc.ended = true) :
    pc.held? = none ∧ pc.res? = none ∧ pc.pending = false := by
  cases pc <;> first | exact ⟨rfl, rfl, rfl⟩ | nomatch hended

theorem assign_inv {s : State} (hs : Inv s) (hunused : s.unused = true) :
    Inv { s with base := s.base.assign, connState := .connected, later := true } := by
  simp only [State.unused, Bool.and_eq_true, Bool.or_eq_true, beq_iff_eq] at hunused
  obtain ⟨⟨⟨hended, hclosed⟩, _⟩, _⟩ := hunused
  obtain ⟨hheld, hres, hpending⟩ := Pc.held?_of_ended hended
  have hfree : s.close ≠ .mark := by
    rcases hclosed with hclose | hclose
    all_goals
      rw [hclose]
      nofun
  exact {
    covers := by
      intro res hres'
      rw [hres] at hres'
      nomatch hres'
    old := fun _ => hs.old hfree
    gone := nofun
    epoch := by
      intro held hheld'
      rw [hheld] at hheld'
      nomatch hheld'
    marking := fun _ _ _ hclose => absurd hclose hfree
    vetted := hs.vetted.mono (fun _ hr => List.mem_append_right _ hr)
      fun _ => Vetted.of_later rfl
    pending := nofun
    disconnected := nofun }

theorem close_inv {s : State} (hs : Inv s)
    (hready : s.close = .idle ∨ s.close = .returned) :
    Inv { s with close := .cancel, later := false } where
  covers := hs.covers
  old := by
    intro _
    rcases hready with hclose | hclose
    all_goals exact hs.old (by rw [hclose]; nofun)
  gone := nofun
  epoch := by
    intro held hheld htaken
    have hepoch := hs.epoch held hheld htaken
    rcases hready with hclose | hclose
    all_goals
      rw [hclose] at hepoch
      exact hepoch
  marking := nofun
  vetted := hs.vetted.mono (fun _ => id) fun _ => nofun
  pending := hs.pending
  disconnected := nofun

theorem start_step_inv {s : State} (hs : Inv s) (hended : s.pc.ended = true) :
    Inv { s with pc := .acquire, later := true } where
  covers := nofun
  old := hs.old
  gone := nofun
  epoch := nofun
  marking := nofun
  vetted := trivial
  pending := by
    intro hconn
    have hpending := hs.pending hconn
    rw [(Pc.held?_of_ended hended).2.2] at hpending
    nomatch hpending
  disconnected := nofun

theorem step_inv {s t : State} {a : Action} (hs : Inv s) (hcovered : covered s a = true)
    (hstep : step s a = some t) : Inv t := by
  cases a with
  | «open» =>
      obtain ⟨base, hopen, rfl⟩ := Option.map_eq_some_iff.mp hstep
      exact open_inv hs hopen
  | assign =>
      simp only [step, Option.ite_none_right_eq_some, Option.some.injEq] at hstep
      obtain ⟨hunused, rfl⟩ := hstep
      exact assign_inv hs hunused
  | close =>
      simp only [step, Option.ite_none_right_eq_some, Option.some.injEq] at hstep
      obtain ⟨hready, rfl⟩ := hstep
      exact close_inv hs hready
  | closer => exact closer_inv hs hstep
  | start =>
      simp only [step, Option.ite_none_right_eq_some, Option.some.injEq] at hstep
      obtain ⟨hended, rfl⟩ := hstep
      exact start_step_inv hs hended
  | connector => exact connector_inv hs hcovered hstep
  | connect answer =>
      simp only [step] at hstep
      split at hstep
      next held hpc =>
        obtain rfl := Option.some.inj hstep
        exact connect_inv hs hpc answer
      next => nomatch hstep
  | waitEnds ec =>
      simp only [step] at hstep
      split at hstep
      next held hpc =>
        obtain rfl := Option.some.inj hstep
        exact waitEnds_inv hs hpc ec
      next => nomatch hstep
  | getSoError answer =>
      simp only [step] at hstep
      split at hstep
      next held hpc =>
        obtain rfl := Option.some.inj hstep
        exact getSoError_inv hs hpc answer
      next => nomatch hstep

theorem Inv.reusable {s : State} (hs : Inv s) : Reusable s := by
  have hinitial : s.settled = true → s.connState = .disconnected := by
    intro hsettled
    simp only [State.settled, Bool.and_eq_true, beq_iff_eq,
      Bool.not_eq_true'] at hsettled
    obtain ⟨⟨hreturned, hended⟩, hlater⟩ := hsettled
    cases hconn : s.connState with
    | disconnected => rfl
    | connecting =>
        have hpending := hs.pending hconn
        rw [(Pc.held?_of_ended hended).2.2] at hpending
        nomatch hpending
    | connected => exact absurd hconn (hs.disconnected (by rw [hreturned]; rfl) hlater)
  refine ⟨hinitial, fun hsettled => ?_⟩
  have hconn := hinitial hsettled
  simp only [State.settled, Bool.and_eq_true, beq_iff_eq, Bool.not_eq_true'] at hsettled
  obtain ⟨⟨hreturned, hended⟩, hlater⟩ := hsettled
  have hgone := hs.base_res hreturned hlater
  have hfresh : s.base.made ∉ s.base.closing := fun hmem =>
    Nat.lt_irrefl _ (s.base.known _ (.inl hmem))
  simp [reconnect, TransitionSystem.exec, system, step, Base.open?, hgone, hended,
    connector, Base.guards, hfresh, hconn]

/-- The connect succeeds, `close()` is called and returns, and then `connected` is
stored. -/
def storeAfterClose : List Action :=
  [Action.open, .start] ++ List.replicate 9 Action.connector ++
    [Action.connect .success, .close] ++ List.replicate 5 Action.closer ++
    List.replicate 2 Action.connector

/-- The connect is waiting when `close()` is called. -/
def closeWhileWaiting : List Action :=
  [Action.open, .start] ++ List.replicate 9 Action.connector ++
    [Action.connect .einprogress, .close] ++ List.replicate 5 Action.closer ++
    [Action.waitEnds .operationAborted] ++ List.replicate 2 Action.connector

end Stream

namespace Datagram

inductive DgramState where
  | idle
  | bound
  | connected
deriving DecidableEq, Repr

/-- Where `close()` stands; `reset` is its section under `mtx_`. -/
inductive ClosePc where
  | idle
  | reset
  | exchange
  | mark
  | returned
deriving DecidableEq, Repr

def ClosePc.wasReset : ClosePc → Bool
  | .exchange | .mark | .returned => true
  | _ => false

def ClosePc.tookOut : ClosePc → Bool
  | .mark | .returned => true
  | _ => false

/-- `close()` is between its section and the mark of the resource. -/
def ClosePc.unmarked : ClosePc → Bool
  | .exchange | .mark => true
  | _ => false

/-- The call with its `addr`; `len` is the length of the address. -/
inductive Call where
  | bind (addr : List UInt8)
  | connect (addr : List UInt8)
deriving DecidableEq, Repr

/-- Where `bind` or `connect` stands. -/
inductive Pc where
  | idle
  | acquire (call : Call)
  | checkClosing (call : Call) (res : Nat)
  | checkActive (call : Call) (res : Nat)
  | invoke (call : Call) (res : Nat)
  | store (call : Call) (res : Nat)
  | returned (result : ErrorCode)
deriving DecidableEq, Repr

def Pc.ended : Pc → Bool
  | .idle | .returned _ => true
  | _ => false

def Pc.res? : Pc → Option Nat
  | .checkClosing _ res | .checkActive _ res | .invoke _ res | .store _ res => some res
  | _ => none

/-- The call has passed its check of `closing()`. -/
def Pc.passed : Pc → Bool
  | .checkActive _ _ | .invoke _ _ | .store _ _ => true
  | _ => false

/-- The bytes of a `sockaddr_storage` that was set to zero. -/
def zeroStorage : List UInt8 := List.replicate 128 0

/-- `later` records an open, bind or connect made since `close()` was last called,
`late` that `close()` has run its section since the last check of `closing()`, and
`checkedDuring` that this check was made between the section and the mark. -/
structure State where
  base : Base := .fresh
  state : DgramState := .idle
  connectedAddr : List UInt8 := zeroStorage
  connectedAddrLen : Nat := 0
  sendActive : Bool := false
  receiveActive : Bool := false
  pc : Pc := .idle
  close : ClosePc := .idle
  later : Bool := false
  late : Bool := false
  checkedDuring : Bool := false
deriving DecidableEq

/-- `answer` is what `::bind` or `::connect` leaves in `errno`, zero for success, and
`setActive` a send or a receive that starts or ends. -/
inductive Action where
  | open
  | close
  | closer
  | start (call : Call)
  | caller
  | answer (errno : Nat)
  | setActive (send receive : Bool)
deriving DecidableEq, Repr

def closer (s : State) : Option State :=
  match s.close with
  | .reset =>
      some { s with
        state := .idle
        connectedAddrLen := 0
        connectedAddr := zeroStorage
        late := true
        close := .exchange }
  | .exchange => some { s with base := s.base.takeOut, close := .mark }
  | .mark => some { s with base := s.base.markClosing, close := .returned }
  | _ => none

/-- The last section of `bind` or `connect` under `mtx_`. -/
def State.storeCall (s : State) : Call → State
  | .bind _ => if s.state = .idle then { s with state := .bound } else s
  | .connect addr =>
      { s with
        state := .connected
        connectedAddrLen := addr.length
        connectedAddr := addr ++ s.connectedAddr.drop addr.length }

def caller (s : State) : Option State :=
  match s.pc with
  | .acquire call =>
      match s.base.res with
      | none => some { s with pc := .returned .notOpen }
      | some res => some { s with pc := .checkClosing call res }
  | .checkClosing call res =>
      if res ∈ s.base.closing then some { s with pc := .returned .operationAborted }
      else
        some { s with
          pc := .checkActive call res
          late := false
          checkedDuring := s.close.unmarked }
  | .checkActive call res =>
      if s.sendActive || s.receiveActive then some { s with pc := .returned .busy }
      else some { s with pc := .invoke call res }
  | .store call _ => some { s.storeCall call with pc := .returned .none }
  | _ => none

def step (s : State) : Action → Option State
  | .open => s.base.open?.map fun base => { s with base, later := true }
  | .close =>
      if s.close = .idle ∨ s.close = .returned then
        some { s with close := .reset, later := false }
      else none
  | .closer => closer s
  | .start call =>
      if s.pc.ended then some { s with pc := .acquire call, later := true } else none
  | .caller => caller s
  | .answer errno =>
      match s.pc with
      | .invoke call res =>
          if errno ≠ 0 then some { s with pc := .returned (.system errno) }
          else some { s with pc := .store call res }
      | _ => none
  | .setActive send receive =>
      some { s with sendActive := send, receiveActive := receive }

def system : TransitionSystem State Action where
  start := {}
  step := step

/-- `close()` has returned, the call begun before it has ended, and nothing has been
made since. -/
def State.settled (s : State) : Bool :=
  s.close == .returned && s.pc.ended && !s.later

/-- What `close()` leaves is an idle socket without a peer. -/
def Initial (s : State) : Prop :=
  s.settled = true → s.state = .idle ∧ s.connectedAddrLen = 0

/-- The last section of a call that the check of `closing()` does not cover: `close()`
has run its own section, after the check or so shortly before that the resource was
not marked yet. -/
def uncovered (s : State) : Bool :=
  s.close.wasReset && !s.later && (s.late || s.checkedDuring)

/-- No call stores uncovered. -/
def covered (s : State) (a : Action) : Bool :=
  match a, s.pc with
  | .caller, .store _ _ => !uncovered s
  | _, _ => true

structure Inv (s : State) : Prop where
  covers : ∀ res, s.pc.res? = some res → s.base.Covers res
  old : s.close ≠ .mark → s.base.old = none
  gone : s.close.tookOut = true → s.later = false → s.base.res = none
  vetted : s.pc.passed = true → s.close.wasReset = true → s.later = false →
    s.late = true ∨ s.checkedDuring = true
  initial : s.close.wasReset = true → s.later = false →
    s.state = .idle ∧ s.connectedAddrLen = 0

theorem start_inv : Inv system.start where
  covers := nofun
  old := fun _ => rfl
  gone := nofun
  vetted := nofun
  initial := nofun

theorem Inv.marked {s : State} (hs : Inv s) (hreturned : s.close = .returned)
    (hlater : s.later = false) {res : Nat} (hpc : s.pc.res? = some res) :
    res ∈ s.base.closing := by
  exact (hs.covers res hpc).marked (hs.gone (by rw [hreturned]; rfl) hlater)
    (hs.old (by rw [hreturned]; nofun))

theorem closer_inv {s t : State} (hs : Inv s) (hstep : closer s = some t) : Inv t := by
  unfold closer at hstep
  split at hstep
  next hclose =>
    obtain rfl := Option.some.inj hstep
    exact {
      covers := hs.covers
      old := fun _ => hs.old (by rw [hclose]; nofun)
      gone := nofun
      vetted := fun _ _ _ => .inl rfl
      initial := fun _ _ => ⟨rfl, rfl⟩ }
  next hclose =>
    obtain rfl := Option.some.inj hstep
    have hold := hs.old (by rw [hclose]; nofun)
    exact {
      covers := fun res hres => ((hs.covers res hres).takeOut hold).imp_right .inr
      old := fun hne => absurd rfl hne
      gone := fun _ _ => rfl
      vetted := fun hpassed _ => hs.vetted hpassed (by rw [hclose]; rfl)
      initial := fun _ => hs.initial (by rw [hclose]; rfl) }
  next hclose =>
    obtain rfl := Option.some.inj hstep
    exact {
      covers := fun res hres => (hs.covers res hres).markClosing
      old := fun _ => rfl
      gone := fun _ => hs.gone (by rw [hclose]; rfl)
      vetted := fun hpassed _ => hs.vetted hpassed (by rw [hclose]; rfl)
      initial := fun _ => hs.initial (by rw [hclose]; rfl) }
  next => nomatch hstep

/-- A step of the call that changes nothing else. -/
theorem Inv.move {s : State} (hs : Inv s) {pc : Pc}
    (hres : ∀ res, pc.res? = some res → s.pc.res? = some res ∨ s.base.res = some res)
    (hpassed : pc.passed = true → s.pc.passed = true) : Inv { s with pc } where
  covers := by
    intro res hpc
    rcases hres res hpc with hbefore | hused
    · exact hs.covers res hbefore
    · exact .inr (.inl hused)
  old := hs.old
  gone := hs.gone
  vetted := fun hpc => hs.vetted (hpassed hpc)
  initial := hs.initial

theorem checkClosing_inv {s : State} (hs : Inv s) {call : Call} {res : Nat}
    (hpc : s.pc = .checkClosing call res) (hopen : res ∉ s.base.closing) :
    Inv { s with
      pc := .checkActive call res
      late := false
      checkedDuring := s.close.unmarked } where
  covers := by
    rintro _ ⟨⟩
    exact hs.covers res (by rw [hpc]; rfl)
  old := hs.old
  gone := hs.gone
  vetted := by
    intro _ (hreset : s.close.wasReset = true) (hlater : s.later = false)
    cases hclose : s.close with
    | idle | reset =>
        rw [hclose] at hreset
        nomatch hreset
    | exchange | mark => exact .inr rfl
    | returned => exact absurd (hs.marked hclose hlater (by rw [hpc]; rfl)) hopen
  initial := hs.initial

theorem store_inv {s : State} (hs : Inv s) {call : Call} {res : Nat}
    (hpc : s.pc = .store call res) (hcovered : covered s .caller = true) :
    Inv { s.storeCall call with pc := .returned .none } := by
  have hnot : s.close.wasReset = true → s.later = false → False := by
    intro hreset hlater
    have huncovered : uncovered s = true := by
      rcases hs.vetted (by rw [hpc]; rfl) hreset hlater with hlate | hduring
      · simp [uncovered, hreset, hlater, hlate]
      · simp [uncovered, hreset, hlater, hduring]
    simp [covered, hpc, huncovered] at hcovered
  have hframe : (s.storeCall call).base = s.base ∧ (s.storeCall call).close = s.close ∧
      (s.storeCall call).later = s.later := by
    cases call with
    | bind => simp only [State.storeCall]; split <;> exact ⟨rfl, rfl, rfl⟩
    | connect => exact ⟨rfl, rfl, rfl⟩
  obtain ⟨hbase, hclose, hlater⟩ := hframe
  exact {
    covers := nofun
    old := by
      intro hne
      rw [hbase]
      exact hs.old (hclose ▸ hne)
    gone := by
      intro htook hnever
      rw [hbase]
      exact hs.gone (hclose ▸ htook) (hlater ▸ hnever)
    vetted := nofun
    initial := fun hreset hnever => (hnot (hclose ▸ hreset) (hlater ▸ hnever)).elim }

theorem caller_inv {s t : State} (hs : Inv s) (hcovered : covered s .caller = true)
    (hstep : caller s = some t) : Inv t := by
  unfold caller at hstep
  split at hstep
  next call hpc =>
    split at hstep
    next =>
      obtain rfl := Option.some.inj hstep
      exact hs.move nofun nofun
    next res hres =>
      obtain rfl := Option.some.inj hstep
      exact hs.move (by rintro _ ⟨⟩; exact .inr hres) nofun
  next call res hpc =>
    split at hstep
    next =>
      obtain rfl := Option.some.inj hstep
      exact hs.move nofun nofun
    next hopen =>
      obtain rfl := Option.some.inj hstep
      exact checkClosing_inv hs hpc hopen
  next call res hpc =>
    split at hstep
    next =>
      obtain rfl := Option.some.inj hstep
      exact hs.move nofun nofun
    next =>
      obtain rfl := Option.some.inj hstep
      exact hs.move (by rintro _ ⟨⟩; exact .inl (by rw [hpc]; rfl))
        fun _ => by rw [hpc]; rfl
  next call res hpc =>
    obtain rfl := Option.some.inj hstep
    exact store_inv hs hpc hcovered
  next => nomatch hstep

theorem open_inv {s : State} (hs : Inv s) {base : Base}
    (hopen : s.base.open? = some base) :
    Inv { s with base, later := true } := by
  obtain ⟨_, _, hold, _⟩ := Base.open?_cases hopen
  exact {
    covers := fun res hres => (hs.covers res hres).open hopen
    old := fun hne => hold.trans (hs.old hne)
    gone := nofun
    vetted := nofun
    initial := nofun }

theorem close_inv {s : State} (hs : Inv s)
    (hready : s.close = .idle ∨ s.close = .returned) :
    Inv { s with close := .reset, later := false } where
  covers := hs.covers
  old := by
    intro _
    rcases hready with hclose | hclose
    all_goals exact hs.old (by rw [hclose]; nofun)
  gone := nofun
  vetted := nofun
  initial := nofun

theorem step_inv {s t : State} {a : Action} (hs : Inv s) (hcovered : covered s a = true)
    (hstep : step s a = some t) : Inv t := by
  cases a with
  | «open» =>
      obtain ⟨base, hopen, rfl⟩ := Option.map_eq_some_iff.mp hstep
      exact open_inv hs hopen
  | close =>
      simp only [step, Option.ite_none_right_eq_some, Option.some.injEq] at hstep
      obtain ⟨hready, rfl⟩ := hstep
      exact close_inv hs hready
  | closer => exact closer_inv hs hstep
  | start call =>
      simp only [step, Option.ite_none_right_eq_some, Option.some.injEq] at hstep
      obtain ⟨_, rfl⟩ := hstep
      exact ⟨nofun, hs.old, nofun, nofun, nofun⟩
  | caller => exact caller_inv hs hcovered hstep
  | answer errno =>
      simp only [step] at hstep
      split at hstep
      next call res hpc =>
        split at hstep
        next =>
          obtain rfl := Option.some.inj hstep
          exact hs.move nofun nofun
        next =>
          obtain rfl := Option.some.inj hstep
          exact hs.move (by rintro _ ⟨⟩; exact .inl (by rw [hpc]; rfl))
            fun _ => by rw [hpc]; rfl
      next => nomatch hstep
  | setActive send receive =>
      obtain rfl := Option.some.inj hstep
      exact ⟨hs.covers, hs.old, hs.gone, hs.vetted, hs.initial⟩

theorem Inv.isInitial {s : State} (hs : Inv s) : Initial s := by
  intro hsettled
  simp only [State.settled, Bool.and_eq_true, beq_iff_eq, Bool.not_eq_true'] at hsettled
  obtain ⟨⟨hreturned, _⟩, hlater⟩ := hsettled
  exact hs.initial (by rw [hreturned]; rfl) hlater

/-- A `sockaddr_in` of port 8080 on the loopback address. -/
def loopback : List UInt8 := [2, 0, 31, 144, 127, 0, 0, 1, 0, 0, 0, 0, 0, 0, 0, 0]

/-- `::connect` succeeds, `close()` is called and returns, and then the peer is
stored. -/
def storeAfterClose : List Action :=
  [Action.open, .start (.connect loopback)] ++ List.replicate 3 Action.caller ++
    [Action.answer 0, .close] ++ List.replicate 3 Action.closer ++ [Action.caller]

def closeWhileInvoking : List Action :=
  [Action.open, .start (.connect loopback)] ++ List.replicate 3 Action.caller ++
    [Action.close] ++ List.replicate 3 Action.closer ++ [Action.answer 9]

end Datagram

/-- Where no store of a connect or bind escapes the checks made before it, `close()`
leaves the initial state. -/
theorem reusable_of_covered {s : Stream.State} {t : Datagram.State}
    (hs : Stream.system.ReachableUnder (fun s a => Stream.covered s a = true) s)
    (ht : Datagram.system.ReachableUnder (fun t a => Datagram.covered t a = true) t) :
    Stream.Reusable s ∧ Datagram.Initial t := by
  have hstream : Stream.Inv s := hs.invariant Stream.start_inv
    fun _ _ _ hinv hcovered hstep => Stream.step_inv hinv hcovered hstep
  have hdatagram : Datagram.Inv t := ht.invariant Datagram.start_inv
    fun _ _ _ hinv hcovered hstep => Datagram.step_inv hinv hcovered hstep
  exact ⟨hstream.reusable, hdatagram.isInitial⟩

theorem reusable_of_covered_closedInTime :
    ∃ (s : Stream.State) (t : Datagram.State), s.settled = true ∧ t.settled = true ∧
      Stream.Reusable s ∧ Datagram.Initial t := by
  obtain ⟨s, hs, hsettled⟩ := TransitionSystem.exists_reachableUnder_of_execUnder
    Stream.system (fun s a => Stream.covered s a = true) Stream.closeWhileWaiting
    Stream.State.settled (by decide)
  obtain ⟨t, ht, hsettled'⟩ := TransitionSystem.exists_reachableUnder_of_execUnder
    Datagram.system (fun t a => Datagram.covered t a = true) Datagram.closeWhileInvoking
    Datagram.State.settled (by decide)
  exact ⟨s, t, hsettled, hsettled', reusable_of_covered hs ht⟩

/-- `close()` has returned and both calls have ended; the stream socket still turns a
connect down, and the datagram socket still has its peer. -/
theorem not_reusable_storeAfterClose :
    (∃ s, Stream.system.Reachable s ∧ ¬ Stream.Reusable s ∧ s.settled = true ∧
      s.connState = .connected ∧
      (Stream.system.exec s Stream.reconnect).map (·.pc) =
        some (.returned .alreadyConnected)) ∧
    ∃ t, Datagram.system.Reachable t ∧ ¬ Datagram.Initial t ∧ t.settled = true ∧
      t.state = .connected ∧ t.connectedAddrLen = 16 := by
  constructor
  · obtain ⟨s, hs, hcheck⟩ := TransitionSystem.exists_reachable_of_exec Stream.system
      Stream.storeAfterClose
      (fun s => s.settled && decide (s.connState = .connected) &&
        decide ((Stream.system.exec s Stream.reconnect).map (·.pc) =
          some (.returned .alreadyConnected))) (by decide)
    simp only [Bool.and_eq_true, decide_eq_true_eq] at hcheck
    obtain ⟨⟨hsettled, hconn⟩, hrejected⟩ := hcheck
    refine ⟨s, hs, fun hreusable => ?_, hsettled, hconn, hrejected⟩
    have hinitial := hreusable.initial hsettled
    rw [hconn] at hinitial
    nomatch hinitial
  · obtain ⟨t, ht, hcheck⟩ := TransitionSystem.exists_reachable_of_exec Datagram.system
      Datagram.storeAfterClose
      (fun t => t.settled && decide (t.state = .connected) &&
        decide (t.connectedAddrLen = 16)) (by decide)
    simp only [Bool.and_eq_true, decide_eq_true_eq] at hcheck
    obtain ⟨⟨hsettled, hstate⟩, hlen⟩ := hcheck
    refine ⟨t, ht, fun hinitial => ?_, hsettled, hstate, hlen⟩
    have hidle := (hinitial hsettled).1
    rw [hstate] at hidle
    nomatch hidle

end SocketReset

end Iocoro
