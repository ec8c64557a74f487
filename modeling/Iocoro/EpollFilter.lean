/-
The filter of `backend_epoll::wait`.  The kernel hands back a word that names a
descriptor and a generation; `add_fd` runs on any thread and `remove_fd` on the
reactor thread between waits.  Every atomic operation and every `epoll_ctl` is a step
of its own, and registrations are told apart by their number, not by their generation.
-/
import Mathlib
import Iocoro.Epoll
import Iocoro.TransitionSystem

namespace Iocoro

namespace Epoll

namespace Filter

/-- What the kernel keeps for a registered descriptor: the word of the latest
`epoll_ctl`, and which `add_fd` of the descriptor made it. -/
structure Word where
  data : BitVec 64
  add : Nat
deriving DecidableEq, Repr

/-- A descriptor.  `adds` counts the calls of `add_fd` that have taken a generation;
`removedSince` says that a `remove_fd` has started since the last of them did so, and
`removedAfter` that one has started after the last of them was over. -/
structure Slot where
  reg : Registration := {}
  word : Option Word := none
  adds : Nat := 0
  removedSince : Bool := false
  removedAfter : Bool := false
deriving DecidableEq, Repr

/-- Where an `add_fd` stands, with its generation.  `again` is the second increment
where the first one gave zero. -/
inductive Stage where
  | again
  | activate (gen : BitVec 32)
  | modify (gen : BitVec 32)
  | insert (gen : BitVec 32)
deriving DecidableEq, Repr

/-- An `add_fd` in progress. -/
structure Call where
  fd : BitVec 32
  add : Nat
  stage : Stage
deriving DecidableEq, Repr

/-- An event of the batch, and the registration it belongs to. -/
structure Ready where
  raw : EpollEvent
  add : Nat
deriving DecidableEq, Repr

def Ready.fd (ready : Ready) : BitVec 32 := ready.raw.data.setWidth 32

inductive Reactor where
  | outside
  | removing (fd : BitVec 32)
  | batch (rest : List Ready)
  | comparing (ready : Ready) (active : Nat) (rest : List Ready)
deriving DecidableEq, Repr

/-- An event that was put into `out`, and its descriptor at that time. -/
structure Report where
  event : BackendEvent
  ready : Ready
  slot : Slot
deriving DecidableEq, Repr

/-- An event that was filtered out, and its descriptor at that time. -/
structure Drop where
  ready : Ready
  slot : Slot
deriving DecidableEq, Repr

structure State where
  slots : BitVec 32 → Slot := fun _ => {}
  calls : List Call := []
  reactor : Reactor := .outside
  reports : List Report := []
  dropped : List Drop := []

inductive Action where
  | addFd (fd : BitVec 32)
  | advance (index : Nat) (succeeds : Bool)
  | removeFd (fd : BitVec 32)
  | delete
  | epollWait (events : List (BitVec 32 × BitVec 32))
  | loadActive
  | loadGeneration
deriving DecidableEq, Repr

variable (b : Backend)

/-- The check of `add_fd` and of `wait`. -/
def inRange (fd : BitVec 32) : Bool :=
  decide (0 ≤ fd.toInt) && decide (fd.toInt.toNat < b.fdCapacity)

def State.put (s : State) (fd : BitVec 32) (slot : Slot) : State :=
  { s with slots := Function.update s.slots fd slot }

/-- The first increment of `add_fd`. -/
def Slot.increment (slot : Slot) : Slot :=
  { slot with
    reg := { slot.reg with generation := slot.reg.generation + 1 }
    adds := slot.adds + 1
    removedSince := false
    removedAfter := false }

/-- `add_fd` up to its first increment; out of range it throws. -/
def State.addFd (s : State) (fd : BitVec 32) : State :=
  if inRange b fd then
    let slot := (s.slots fd).increment
    let gen := slot.reg.generation
    { s.put fd slot with
      calls := s.calls ++
        [⟨fd, slot.adds, if gen = 0 then .again else .activate gen⟩] }
  else s

/-- The next step of `add_fd`: the call goes on, or it is over. -/
def Call.step (c : Call) (slot : Slot) (succeeds : Bool) : Slot × Option Call :=
  match c.stage with
  | .again =>
      let gen := slot.reg.generation + 1
      ({ slot with reg := { slot.reg with generation := gen } },
        some { c with stage := .activate gen })
  | .activate gen =>
      ({ slot with reg := { slot.reg with active := 1 } },
        some { c with stage := .modify gen })
  | .modify gen =>
      if succeeds then
        if slot.word.isSome then
          ({ slot with word := some ⟨packFdGen c.fd gen, c.add⟩ }, none)
        else (slot, some { c with stage := .insert gen })
      else (slot, none)
  | .insert gen =>
      if succeeds ∧ slot.word.isNone then
        ({ slot with word := some ⟨packFdGen c.fd gen, c.add⟩ }, none)
      else (slot, none)

def State.advance (s : State) (index : Nat) (succeeds : Bool) : Option State :=
  s.calls[index]?.map fun c =>
    let (slot, call) := c.step (s.slots c.fd) succeeds
    { s.put c.fd slot with calls := s.calls.eraseIdx index ++ call.toList }

/-- Whether the latest `add_fd` of the descriptor is in progress. -/
def State.adding (s : State) (fd : BitVec 32) : Bool :=
  s.calls.any fun c => decide (c.fd = fd ∧ c.add = (s.slots fd).adds)

/-- The store of `remove_fd`, which is left out for a descriptor out of range. -/
def Slot.deactivate (slot : Slot) (stored adding : Bool) : Slot :=
  { slot with
    reg := { slot.reg with active := if stored then 0 else slot.reg.active }
    removedSince := true
    removedAfter := slot.removedAfter || !adding }

/-- `remove_fd` up to its store. -/
def State.removeFd (s : State) (fd : BitVec 32) : Option State :=
  match s.reactor with
  | .outside =>
      if fd.toInt < 0 then some s
      else some { s.put fd ((s.slots fd).deactivate (inRange b fd) (s.adding fd)) with
        reactor := .removing fd }
  | _ => none

/-- `EPOLL_CTL_DEL`. -/
def State.delete (s : State) : Option State :=
  match s.reactor with
  | .removing fd =>
      some { s.put fd { s.slots fd with word := none } with reactor := .outside }
  | _ => none

/-- What `epoll_wait` returns for a descriptor: nothing unless it is registered, and
else the word of its latest `epoll_ctl`. -/
def State.ready (s : State) (fd events : BitVec 32) : Option Ready :=
  (s.slots fd).word.map fun word => ⟨⟨events, word.data⟩, word.add⟩

/-- `epoll_wait` returns.  An interrupted or failed one does nothing here. -/
def State.epollWait (s : State) (events : List (BitVec 32 × BitVec 32)) :
    Option State :=
  match s.reactor with
  | .outside => some { s with
      reactor := .batch (events.filterMap fun (fd, events) => s.ready fd events) }
  | _ => none

def State.drop (s : State) (ready : Ready) (rest : List Ready) : State :=
  { s with
    reactor := .batch rest
    dropped := s.dropped ++ [⟨ready, s.slots ready.fd⟩] }

/-- The loop over the batch up to the load of `fd_active_`. -/
def State.loadActive (s : State) : Option State :=
  match s.reactor with
  | .batch [] => some { s with reactor := .outside }
  | .batch (ready :: rest) =>
      let active := (s.slots ready.fd).reg.active
      if unpackFd ready.raw.data = b.eventfd then
        some { s with reactor := .batch rest }
      else if ¬ inRange b ready.fd then some (s.drop ready rest)
      else if active = 0 then some (s.drop ready rest)
      else some { s with reactor := .comparing ready active rest }
  | _ => none

/-- The load of `fd_generations_` and the rest of the body of the loop. -/
def State.loadGeneration (s : State) : Option State :=
  match s.reactor with
  | .comparing ready active rest =>
      let slot := s.slots ready.fd
      match decode b (fun _ => ⟨active, slot.reg.generation⟩) ready.raw with
      | some event => some { s with
          reactor := .batch rest
          reports := s.reports ++ [⟨event, ready, slot⟩] }
      | none => some (s.drop ready rest)
  | _ => none

def step (s : State) : Action → Option State
  | .addFd fd => some (s.addFd b fd)
  | .advance index succeeds => s.advance index succeeds
  | .removeFd fd => s.removeFd b fd
  | .delete => s.delete
  | .epollWait events => s.epollWait events
  | .loadActive => s.loadActive b
  | .loadGeneration => s.loadGeneration b

/-- The constructor has registered the eventfd. -/
def system : TransitionSystem State Action where
  start :=
    { slots := fun fd =>
        if fd.toInt = b.eventfd then { word := some ⟨packFdGen fd 0, 0⟩ } else {} }
  step := step b

/-- Fewer than `2 ^ 32 - 1` calls of `add_fd` for each descriptor. -/
def State.bounded (s : State) : Action → Bool
  | .addFd fd => decide ((s.slots fd).adds + 1 < 2 ^ 32 - 1)
  | _ => true

/-! ### Registrations -/

/-- The registration has been superseded, or no `remove_fd` came after it. -/
def Slot.After (slot : Slot) (add : Nat) : Prop :=
  add = slot.adds → slot.removedAfter = false

/-- The registration has been superseded or a `remove_fd` has started since, or the
descriptor is active. -/
def Slot.Since (slot : Slot) (add : Nat) : Prop :=
  add = slot.adds → slot.removedSince = false → slot.reg.active ≠ 0

/-- The word of a registration. -/
def Names (fd : BitVec 32) (data : BitVec 64) (add : Nat) : Prop :=
  data = packFdGen fd (BitVec.ofNat 32 add)

structure SlotOk (slot : Slot) : Prop where
  bound : slot.adds < 2 ^ 32 - 1
  generation : slot.reg.generation = BitVec.ofNat 32 slot.adds

/-- A word that the kernel keeps or has returned. -/
structure WordOk (fd : BitVec 32) (data : BitVec 64) (add : Nat) (slot : Slot) :
    Prop where
  range : inRange b fd = true
  names : Names fd data add
  le : add ≤ slot.adds
  since : slot.Since add

/-- An `add_fd` in progress; it has stored `fd_active_` unless it is at `activate`. -/
structure CallOk (c : Call) (slot : Slot) : Prop where
  range : inRange b c.fd = true
  le : c.add ≤ slot.adds
  after : slot.After c.add
  stage : match c.stage with
    | .again => False
    | .activate gen => gen = BitVec.ofNat 32 c.add
    | .modify gen | .insert gen => gen = BitVec.ofNat 32 c.add ∧ slot.Since c.add

def Reactor.entries : Reactor → List Ready
  | .batch rest => rest
  | .comparing ready _ rest => ready :: rest
  | _ => []

/-- The event belongs to the latest `add_fd`, whose generation it carries, and no
`remove_fd` came after that. -/
structure Report.Current (report : Report) : Prop where
  fd : report.event.fd = report.ready.fd.toInt
  generation : unpackGen report.ready.raw.data = report.slot.reg.generation
  latest : report.ready.add = report.slot.adds
  kept : report.slot.removedAfter = false

/-- The event belongs to the latest `add_fd`, and no `remove_fd` has been executed
since that took its generation. -/
def Drop.Current (drop : Drop) : Prop :=
  drop.ready.add = drop.slot.adds ∧ drop.slot.removedSince = false

structure Inv (s : State) : Prop where
  slots : ∀ fd, SlotOk (s.slots fd)
  keys : ∀ fd word, (s.slots fd).word = some word → word.data.setWidth 32 = fd
  words : ∀ fd word, fd.toInt ≠ b.eventfd → (s.slots fd).word = some word →
    WordOk b fd word.data word.add (s.slots fd)
  after : ∀ fd word, s.reactor ≠ .removing fd → fd.toInt ≠ b.eventfd →
    (s.slots fd).word = some word → (s.slots fd).After word.add
  calls : ∀ c ∈ s.calls, CallOk b c (s.slots c.fd)
  entries : ∀ ready ∈ s.reactor.entries, ready.fd.toInt ≠ b.eventfd →
    WordOk b ready.fd ready.raw.data ready.add (s.slots ready.fd) ∧
      (s.slots ready.fd).After ready.add
  comparing : ∀ ready active rest, s.reactor = .comparing ready active rest →
    ready.fd.toInt ≠ b.eventfd ∧ active ≠ 0
  reports : ∀ report ∈ s.reports, report.Current
  dropped : ∀ drop ∈ s.dropped, ¬ drop.Current

/-- What may happen to a descriptor while words of it are under way. -/
structure Slot.Grows (old new : Slot) : Prop where
  le : old.adds ≤ new.adds
  since : ∀ add, add ≤ old.adds → old.Since add → new.Since add

variable {b}

theorem WordOk.grow {fd : BitVec 32} {data : BitVec 64} {add : Nat} {old new : Slot}
    (hword : WordOk b fd data add old) (hgrows : old.Grows new) :
    WordOk b fd data add new where
  range := hword.range
  names := hword.names
  le := Nat.le_trans hword.le hgrows.le
  since := hgrows.since add hword.le hword.since

theorem CallOk.grow {c : Call} {old new : Slot} (hc : CallOk b c old)
    (hgrows : old.Grows new) (hafter : old.After c.add → new.After c.add) :
    CallOk b c new where
  range := hc.range
  le := Nat.le_trans hc.le hgrows.le
  after := hafter hc.after
  stage := by
    have hstage := hc.stage
    split at hstage
    · exact hstage
    · exact hstage
    · exact ⟨hstage.1, hgrows.since c.add hc.le hstage.2⟩
    · exact ⟨hstage.1, hgrows.since c.add hc.le hstage.2⟩

theorem update_keep {slots : BitVec 32 → Slot} {fd key : BitVec 32} {slot : Slot}
    (P : BitVec 32 → Slot → Prop) (h : P key (slots key))
    (hkeep : P fd (slots fd) → P fd slot) :
    P key (Function.update slots fd slot key) := by
  by_cases heq : key = fd
  · subst heq
    rw [Function.update_self]
    exact hkeep h
  · rwa [Function.update_of_ne heq]

/-- A step of `add_fd` on a descriptor. -/
theorem Inv.put {s : State} (hs : Inv b s) {fd : BitVec 32} {slot : Slot}
    (hgrows : (s.slots fd).Grows slot)
    (hafter : ∀ add, add ≤ (s.slots fd).adds → (s.slots fd).After add →
      slot.After add)
    (hok : SlotOk slot)
    (hword : ∀ word, slot.word = some word → (s.slots fd).word = some word ∨
      WordOk b fd word.data word.add slot ∧ slot.After word.add)
    {calls : List Call}
    (hcalls : ∀ c ∈ calls, c ∈ s.calls ∨ c.fd = fd ∧ CallOk b c slot) :
    Inv b { s.put fd slot with calls := calls } where
  slots other := update_keep (fun _ => SlotOk) (hs.slots other) fun _ => hok
  keys other := by
    refine update_keep (fun key slot => ∀ word, slot.word = some word →
      word.data.setWidth 32 = key) (hs.keys other) fun hold word hnew => ?_
    rcases hword word hnew with hsame | ⟨hfresh, -⟩
    · exact hold word hsame
    · rw [hfresh.names, setWidth_packFdGen]
  words other := by
    refine update_keep (fun key slot => ∀ word, key.toInt ≠ b.eventfd →
      slot.word = some word → WordOk b key word.data word.add slot) (hs.words other)
      fun hold word hfd hnew => ?_
    rcases hword word hnew with hsame | ⟨hfresh, -⟩
    · exact (hold word hfd hsame).grow hgrows
    · exact hfresh
  after other word hreactor hfd := by
    refine update_keep (fun key slot => s.reactor ≠ .removing key →
      key.toInt ≠ b.eventfd → slot.word = some word → slot.After word.add)
      (fun h h' => hs.after other word h h')
      (fun _ hreactor hfd hnew => ?_) hreactor hfd
    rcases hword word hnew with hsame | ⟨-, hfresh⟩
    · exact hafter word.add (hs.words fd word hfd hsame).le
        (hs.after fd word hreactor hfd hsame)
    · exact hfresh
  calls c hc := by
    rcases hcalls c hc with hold | ⟨rfl, hnew⟩
    · exact update_keep (fun key slot => c.fd = key → CallOk b c slot)
        (fun _ => hs.calls c hold)
        (fun hcall hkey => (hcall hkey).grow hgrows
          (hafter c.add (hcall hkey).le)) rfl
    · simpa [State.put] using hnew
  entries ready hready hfd :=
    update_keep (fun key slot => ready.fd = key →
      WordOk b key ready.raw.data ready.add slot ∧ slot.After ready.add)
      (fun _ => hs.entries ready hready hfd)
      (fun hold hkey => ⟨(hold hkey).1.grow hgrows,
        hafter ready.add (hold hkey).1.le (hold hkey).2⟩) rfl
  comparing := hs.comparing
  reports := hs.reports
  dropped := hs.dropped

/-! ### `add_fd` -/

theorem ofNat_succ_ne_zero {n : Nat} (hn : n + 1 < 2 ^ 32) :
    BitVec.ofNat 32 n + 1 ≠ 0 := by
  intro hzero
  have hnat := congrArg BitVec.toNat hzero
  simp only [BitVec.toNat_add, BitVec.toNat_ofNat, BitVec.ofNat_eq_ofNat] at hnat
  omega

theorem SlotOk.increment {slot : Slot} (hok : SlotOk slot)
    (hbounded : slot.adds + 1 < 2 ^ 32 - 1) : SlotOk slot.increment where
  bound := hbounded
  generation := by
    simp only [Slot.increment, hok.generation, BitVec.ofNat_add]
    rfl

theorem SlotOk.increment_ne_zero {slot : Slot} (hok : SlotOk slot)
    (hbounded : slot.adds + 1 < 2 ^ 32 - 1) : slot.increment.reg.generation ≠ 0 := by
  simp only [Slot.increment, hok.generation]
  exact ofNat_succ_ne_zero (by omega)

/-- Every earlier registration is superseded. -/
theorem Slot.increment_ne {slot : Slot} {add : Nat} (hle : add ≤ slot.adds) :
    add ≠ slot.increment.adds :=
  Nat.ne_of_lt (Nat.lt_succ_of_le hle)

theorem addFd_inv {s : State} (hs : Inv b s) {fd : BitVec 32}
    (hbounded : (s.slots fd).adds + 1 < 2 ^ 32 - 1) : Inv b (s.addFd b fd) := by
  have hok := (hs.slots fd).increment hbounded
  simp only [State.addFd, if_neg ((hs.slots fd).increment_ne_zero hbounded)]
  split
  · next hrange =>
      refine hs.put ?_ ?_ hok (fun _ => .inl) ?_
      · exact ⟨Nat.le_succ _, fun _ hle _ hadd => absurd hadd (Slot.increment_ne hle)⟩
      · exact fun _ hle _ hadd => absurd hadd (Slot.increment_ne hle)
      · intro c hc
        rcases List.mem_append.mp hc with hold | hnew
        · exact .inl hold
        · obtain rfl := List.mem_singleton.mp hnew
          exact .inr ⟨rfl, hrange, Nat.le_refl _, fun _ => rfl, hok.generation⟩
  · exact hs

/-- What a call that has not got beyond its `epoll_ctl` leaves behind: the slot with
`fd_active_` stored or a word of its registration, or the slot as it was. -/
theorem Call.step_cases {c : Call} {slot : Slot} (hc : CallOk b c slot)
    (succeeds : Bool) :
    let result := c.step slot succeeds
    slot.Grows result.1 ∧ (∀ add, slot.After add → result.1.After add) ∧
      (SlotOk slot → SlotOk result.1) ∧
      (∀ word, result.1.word = some word → slot.word = some word ∨
        WordOk b c.fd word.data word.add result.1 ∧ result.1.After word.add) ∧
      ∀ next ∈ result.2, next.fd = c.fd ∧ CallOk b next result.1 := by
  have hrefl : slot.Grows slot := ⟨Nat.le_refl _, fun _ _ h => h⟩
  have hstage := hc.stage
  unfold Call.step
  cases hpc : c.stage with
  | again =>
      rw [hpc] at hstage
      exact hstage.elim
  | activate gen =>
      rw [hpc] at hstage
      refine ⟨⟨Nat.le_refl _, fun _ _ _ _ _ => Nat.one_ne_zero⟩, fun _ h => h,
        fun h => ⟨h.bound, h.generation⟩, fun _ => .inl, ?_⟩
      intro next hnext
      obtain rfl := Option.some.inj hnext
      exact ⟨rfl, hc.range, hc.le, hc.after, hstage, fun _ _ => Nat.one_ne_zero⟩
  | modify gen =>
      rw [hpc] at hstage
      dsimp only
      split
      · split
        · refine ⟨⟨Nat.le_refl _, fun _ _ h => h⟩, fun _ h => h,
            fun h => ⟨h.bound, h.generation⟩, ?_, by simp⟩
          intro word hword
          obtain rfl := Option.some.inj hword
          exact .inr ⟨⟨hc.range, by rw [hstage.1]; rfl, hc.le, hstage.2⟩, hc.after⟩
        · refine ⟨hrefl, fun _ h => h, id, fun _ => .inl, ?_⟩
          intro next hnext
          obtain rfl := Option.some.inj hnext
          exact ⟨rfl, hc.range, hc.le, hc.after, hstage⟩
      · exact ⟨hrefl, fun _ h => h, id, fun _ => .inl, by simp⟩
  | insert gen =>
      rw [hpc] at hstage
      dsimp only
      split
      · refine ⟨⟨Nat.le_refl _, fun _ _ h => h⟩, fun _ h => h,
          fun h => ⟨h.bound, h.generation⟩, ?_, by simp⟩
        intro word hword
        obtain rfl := Option.some.inj hword
        exact .inr ⟨⟨hc.range, by rw [hstage.1]; rfl, hc.le, hstage.2⟩, hc.after⟩
      · exact ⟨hrefl, fun _ h => h, id, fun _ => .inl, by simp⟩

theorem advance_inv {s t : State} (hs : Inv b s) {index : Nat} {succeeds : Bool}
    (hstep : s.advance index succeeds = some t) : Inv b t := by
  obtain ⟨c, hc, rfl⟩ := Option.map_eq_some_iff.mp hstep
  obtain ⟨hgrows, hafter, hok, hword, hnext⟩ :=
    Call.step_cases (hs.calls c (List.mem_of_getElem? hc)) succeeds
  refine hs.put hgrows (fun add _ => hafter add) (hok (hs.slots c.fd)) hword ?_
  intro other hother
  rcases List.mem_append.mp hother with hold | hnew
  · exact .inl (List.mem_of_mem_eraseIdx hold)
  · exact .inr (hnext other (Option.mem_toList.mp hnew))

/-! ### `remove_fd` -/

theorem adding_of_mem {s : State} {c : Call} (hc : c ∈ s.calls)
    (hadd : c.add = (s.slots c.fd).adds) : s.adding c.fd = true :=
  List.any_eq_true.mpr ⟨c, hc, decide_eq_true ⟨rfl, hadd⟩⟩

/-- A `remove_fd` does not come after an `add_fd` that is in progress. -/
theorem deactivate_after {s : State} {c : Call} (hc : c ∈ s.calls) {stored : Bool}
    (hafter : (s.slots c.fd).After c.add) :
    ((s.slots c.fd).deactivate stored (s.adding c.fd)).After c.add := by
  intro hadd
  simp only [Slot.deactivate]
  rw [hafter hadd, adding_of_mem hc hadd]
  rfl

theorem Slot.grows_deactivate (slot : Slot) (stored adding : Bool) :
    slot.Grows (slot.deactivate stored adding) :=
  ⟨Nat.le_refl _, fun _ _ _ _ hsince => by simp [Slot.deactivate] at hsince⟩

theorem removeFd_inv {s t : State} (hs : Inv b s) {fd : BitVec 32}
    (hstep : s.removeFd b fd = some t) : Inv b t := by
  unfold State.removeFd at hstep
  split at hstep
  · next hreactor =>
      split at hstep
      · obtain rfl := Option.some.inj hstep
        exact hs
      · obtain rfl := Option.some.inj hstep
        exact {
          slots := fun other => update_keep (fun _ => SlotOk) (hs.slots other)
            fun hok => ⟨hok.bound, hok.generation⟩
          keys := fun other => update_keep (fun key slot => ∀ word,
            slot.word = some word → word.data.setWidth 32 = key) (hs.keys other) id
          words := fun other => update_keep (fun key slot => ∀ word,
            key.toInt ≠ b.eventfd → slot.word = some word →
              WordOk b key word.data word.add slot) (hs.words other)
            fun hold word hfd hword =>
              (hold word hfd hword).grow (Slot.grows_deactivate _ _ _)
          after := fun other word hother hfd hword => by
            have hne : other ≠ fd := by
              rintro rfl
              exact hother rfl
            simp only [State.put, Function.update_of_ne hne] at hword ⊢
            exact hs.after other word (by simp [hreactor]) hfd hword
          calls := fun c hc => by
            have hmem : c ∈ s.calls := hc
            refine update_keep (fun key slot => c.fd = key → CallOk b c slot)
              (fun _ => hs.calls c hmem) ?_ rfl
            rintro hold rfl
            exact (hold rfl).grow (Slot.grows_deactivate _ _ _) (deactivate_after hmem)
          entries := by simp [Reactor.entries]
          comparing := by simp
          reports := hs.reports
          dropped := hs.dropped }
  · simp at hstep

theorem delete_inv {s t : State} (hs : Inv b s) (hstep : s.delete = some t) :
    Inv b t := by
  unfold State.delete at hstep
  split at hstep
  · next fd hreactor =>
      obtain rfl := Option.some.inj hstep
      exact {
        slots := fun other => update_keep (fun _ => SlotOk) (hs.slots other)
          fun hok => ⟨hok.bound, hok.generation⟩
        keys := fun other => update_keep (fun key slot => ∀ word,
          slot.word = some word → word.data.setWidth 32 = key) (hs.keys other) nofun
        words := fun other => update_keep (fun key slot => ∀ word,
          key.toInt ≠ b.eventfd → slot.word = some word →
            WordOk b key word.data word.add slot) (hs.words other) nofun
        after := fun other word _ hfd hword => by
          by_cases heq : other = fd
          · subst heq
            simp [State.put] at hword
          · simp only [State.put, Function.update_of_ne heq] at hword ⊢
            exact hs.after other word (by simp [hreactor, Ne.symm heq]) hfd hword
        calls := fun c hc => update_keep
          (fun key slot => c.fd = key → CallOk b c slot) (fun _ => hs.calls c hc)
          (fun hold hkey => ⟨(hold hkey).range, (hold hkey).le, (hold hkey).after,
            (hold hkey).stage⟩) rfl
        entries := by simp [Reactor.entries]
        comparing := by simp
        reports := hs.reports
        dropped := hs.dropped }
  · simp at hstep

/-! ### `wait` -/

theorem epollWait_inv {s t : State} (hs : Inv b s)
    {events : List (BitVec 32 × BitVec 32)} (hstep : s.epollWait events = some t) :
    Inv b t := by
  unfold State.epollWait at hstep
  split at hstep
  · next hreactor =>
      obtain rfl := Option.some.inj hstep
      exact { hs with
        after := fun fd word _ => hs.after fd word (by simp [hreactor])
        entries := by
          intro ready hready hfd
          obtain ⟨⟨fd, flags⟩, -, hreturned⟩ := List.mem_filterMap.mp hready
          obtain ⟨word, hword, rfl⟩ := Option.map_eq_some_iff.mp hreturned
          obtain rfl : word.data.setWidth 32 = fd := hs.keys fd word hword
          exact ⟨hs.words _ word hfd hword,
            hs.after _ word (by simp [hreactor]) hfd hword⟩
        comparing := by simp }
  · simp at hstep

/-- The loop goes on with the rest of the batch. -/
theorem Inv.next {s : State} (hs : Inv b s) {rest : List Ready}
    (hrest : ∀ ready ∈ rest, ready ∈ s.reactor.entries)
    (hremoving : ∀ fd, s.reactor ≠ .removing fd) :
    Inv b { s with reactor := .batch rest } :=
  { hs with
    after := fun fd word _ => hs.after fd word (hremoving fd)
    entries := fun ready hready => hs.entries ready (hrest ready hready)
    comparing := by simp }

theorem Inv.drop {s : State} (hs : Inv b s) {ready : Ready} {rest : List Ready}
    (hrest : ∀ ready ∈ rest, ready ∈ s.reactor.entries)
    (hremoving : ∀ fd, s.reactor ≠ .removing fd)
    (hdrop : ¬ Drop.Current ⟨ready, s.slots ready.fd⟩) : Inv b (s.drop ready rest) :=
  { hs.next hrest hremoving with
    dropped := by
      intro drop hmem
      rcases List.mem_append.mp hmem with hold | hnew
      · exact hs.dropped drop hold
      · obtain rfl := List.mem_singleton.mp hnew
        exact hdrop }

theorem loadActive_inv {s t : State} (hs : Inv b s)
    (hstep : s.loadActive b = some t) : Inv b t := by
  unfold State.loadActive at hstep
  split at hstep
  · next hreactor =>
      obtain rfl := Option.some.inj hstep
      exact { hs with
        after := fun fd word _ => hs.after fd word (by simp [hreactor])
        entries := by simp [Reactor.entries]
        comparing := by simp }
  · next ready rest hreactor =>
      have hremoving : ∀ fd, s.reactor ≠ .removing fd := by simp [hreactor]
      have hrest : ∀ other ∈ rest, other ∈ s.reactor.entries := by
        intro other hother
        simp [hreactor, Reactor.entries, hother]
      simp only at hstep
      split at hstep
      · obtain rfl := Option.some.inj hstep
        exact hs.next hrest hremoving
      · next hfd =>
          obtain ⟨hword, hafter⟩ :=
            hs.entries ready (by simp [hreactor, Reactor.entries]) hfd
          rw [if_neg (not_not.mpr hword.range)] at hstep
          split at hstep
          · next hactive =>
              obtain rfl := Option.some.inj hstep
              exact hs.drop hrest hremoving
                fun hcurrent => hword.since hcurrent.1 hcurrent.2 hactive
          · next hactive =>
              obtain rfl := Option.some.inj hstep
              exact { hs with
                after := fun fd word _ => hs.after fd word (hremoving fd)
                entries := by
                  have hentries := hs.entries
                  rw [hreactor] at hentries
                  exact hentries
                comparing := by
                  intro _ _ _ heq
                  obtain ⟨rfl, rfl, rfl⟩ := Reactor.comparing.inj heq
                  exact ⟨hfd, hactive⟩ }
  · simp at hstep

/-- Behind the checks of the descriptor and of `fd_active_` the generation decides. -/
theorem decode_eq_none_iff (gen : BitVec 32) {active : Nat} {raw : EpollEvent}
    (hfd : unpackFd raw.data ≠ b.eventfd)
    (hrange : inRange b (raw.data.setWidth 32) = true) (hactive : active ≠ 0) :
    decode b (fun _ => ⟨active, gen⟩) raw = none ↔ gen ≠ unpackGen raw.data := by
  simp only [inRange, Bool.and_eq_true, decide_eq_true_eq] at hrange
  have hchecked : ¬ (unpackFd raw.data < 0 ∨
      b.fdCapacity ≤ (unpackFd raw.data).toNat) := by
    unfold unpackFd
    omega
  simp [decode, hfd, hchecked, hactive]

theorem decode_fd {loaded : Nat → Registration} {raw : EpollEvent}
    {event : BackendEvent} (hdecode : decode b loaded raw = some event) :
    event.fd = unpackFd raw.data := by
  simp only [decode, Option.ite_none_left_eq_some, Option.some.injEq] at hdecode
  rw [← hdecode.2.2.2.2]

/-- Below the bound a generation names one registration. -/
theorem SlotOk.unpackGen_eq_iff {slot : Slot} (hok : SlotOk slot) {fd : BitVec 32}
    {data : BitVec 64} {add : Nat} (hword : WordOk b fd data add slot) :
    slot.reg.generation = unpackGen data ↔ add = slot.adds := by
  have hbound := hok.bound
  have hle := hword.le
  rw [hok.generation, hword.names, unpackGen_packFdGen, ← BitVec.toNat_inj,
    BitVec.toNat_ofNat, BitVec.toNat_ofNat, Nat.mod_eq_of_lt (by omega),
    Nat.mod_eq_of_lt (by omega)]
  exact eq_comm

theorem loadGeneration_inv {s t : State} (hs : Inv b s)
    (hstep : s.loadGeneration b = some t) : Inv b t := by
  unfold State.loadGeneration at hstep
  split at hstep
  · next ready active rest hreactor =>
      have hremoving : ∀ fd, s.reactor ≠ .removing fd := by simp [hreactor]
      have hrest : ∀ other ∈ rest, other ∈ s.reactor.entries := by
        intro other hother
        simp [hreactor, Reactor.entries, hother]
      obtain ⟨hfd, hactive⟩ := hs.comparing ready active rest hreactor
      obtain ⟨hword, hafter⟩ :=
        hs.entries ready (by simp [hreactor, Reactor.entries]) hfd
      have hgen := (hs.slots ready.fd).unpackGen_eq_iff hword
      have hnone := decode_eq_none_iff (s.slots ready.fd).reg.generation hfd
        hword.range hactive
      simp only at hstep
      split at hstep
      · next event hdecode =>
          obtain rfl := Option.some.inj hstep
          have hmatch : (s.slots ready.fd).reg.generation =
              unpackGen ready.raw.data := by
            by_contra hne
            rw [hnone.mpr hne] at hdecode
            simp at hdecode
          exact { hs.next hrest hremoving with
            reports := by
              intro report hreport
              rcases List.mem_append.mp hreport with hold | hnew
              · exact hs.reports report hold
              · obtain rfl := List.mem_singleton.mp hnew
                exact ⟨decode_fd hdecode, hmatch.symm, hgen.mp hmatch,
                  hafter (hgen.mp hmatch)⟩ }
      · next hdecode =>
          obtain rfl := Option.some.inj hstep
          exact hs.drop hrest hremoving
            fun hcurrent => hnone.mp hdecode (hgen.mpr hcurrent.1)
  · simp at hstep

theorem start_inv : Inv b (system b).start where
  slots fd := by
    simp only [system]
    split <;> exact ⟨Nat.zero_lt_succ _, rfl⟩
  keys fd word hword := by
    simp only [system] at hword
    split at hword
    · obtain rfl := Option.some.inj hword
      exact setWidth_packFdGen fd 0
    · simp at hword
  words fd word hfd hword := by simp [system, hfd] at hword
  after fd word _ hfd hword := by simp [system, hfd] at hword
  calls := by simp [system]
  entries := by simp [system, Reactor.entries]
  comparing := by simp [system]
  reports := by simp [system]
  dropped := by simp [system]

theorem step_inv {s t : State} {a : Action} (hs : Inv b s)
    (hbounded : s.bounded a = true) (hstep : step b s a = some t) : Inv b t := by
  cases a with
  | addFd fd =>
      obtain rfl := Option.some.inj hstep
      exact addFd_inv hs (of_decide_eq_true hbounded)
  | advance index succeeds => exact advance_inv hs hstep
  | removeFd fd => exact removeFd_inv hs hstep
  | delete => exact delete_inv hs hstep
  | epollWait events => exact epollWait_inv hs hstep
  | loadActive => exact loadActive_inv hs hstep
  | loadGeneration => exact loadGeneration_inv hs hstep

/-- In every run that stays below the bound, what `wait` reports belongs to the latest
`add_fd` with no `remove_fd` after it, and what it filters out does not belong to the
current registration. -/
theorem filter_exact (b : Backend) (s : State)
    (hs : (system b).ReachableUnder (fun s a => s.bounded a = true) s) :
    (∀ report ∈ s.reports, report.Current) ∧ ∀ drop ∈ s.dropped, ¬ drop.Current := by
  have hinv : Inv b s := hs.invariant start_inv
    fun _ _ _ h hbounded hstep => step_inv h hbounded hstep
  exact ⟨hinv.reports, hinv.dropped⟩

/-- An event is reported, the descriptor is added again while another event of it is
looked at, and then a third event is reported under the new generation. -/
theorem filter_exact_readded : ∃ s,
    (system ⟨3, 1024⟩).ReachableUnder (fun s a => s.bounded a = true) s ∧
    s.reports.map (fun report => report.ready.add) = [1, 2] ∧
    s.dropped.map (fun drop => drop.ready.add) = [1] ∧
    (∀ report ∈ s.reports, report.Current) ∧ ∀ drop ∈ s.dropped, ¬ drop.Current := by
  obtain ⟨s, hs, hp⟩ := TransitionSystem.exists_reachableUnder_of_execUnder
    (system ⟨3, 1024⟩) (fun s a => s.bounded a = true)
    [.addFd 5, .advance 0 true, .advance 0 true, .advance 0 true,
      .epollWait [(3, 1), (5, 1)], .loadActive, .loadActive, .loadGeneration,
      .loadActive, .epollWait [(5, 4)], .loadActive, .addFd 5, .loadGeneration,
      .loadActive, .advance 0 true, .advance 0 true, .removeFd 6, .delete,
      .epollWait [(5, 1)], .loadActive, .loadGeneration]
    (fun s => decide (s.reports.map (fun report => report.ready.add) = [1, 2] ∧
      s.dropped.map (fun drop => drop.ready.add) = [1])) (by decide)
  obtain ⟨hreports, hdropped⟩ := of_decide_eq_true hp
  exact ⟨s, hs, hreports, hdropped, filter_exact ⟨3, 1024⟩ s hs⟩

end Filter

end Epoll

end Iocoro
