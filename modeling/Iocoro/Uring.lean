/-
`backend_uring`: the table of polls with the lists of interest changes, and the words
that travel through the ring with a poll.  Each function of the table is a section
under `poll_mtx_`.
-/
import Iocoro.ReactorTypes
import Iocoro.TransitionSystem
import Mathlib.Data.BitVec
import Mathlib.Data.List.Perm.Basic
import Mathlib.Logic.Function.Basic

namespace Iocoro

namespace Uring

def tagPoll : BitVec 64 := 0
def tagWakeup : BitVec 64 := 1
def tagRemove : BitVec 64 := 2

def fdShift : Nat := 2
def genShift : Nat := 34

def packFd (fd : BitVec 32) (tag : BitVec 64) (gen : BitVec 32) : BitVec 64 :=
  gen.setWidth 64 <<< genShift ||| fd.setWidth 64 <<< fdShift ||| tag &&& 0x3#64

def unpackTag (data : BitVec 64) : BitVec 64 := data &&& 0x3#64

def unpackFd (data : BitVec 64) : BitVec 32 :=
  (data >>> fdShift &&& 0xFFFFFFFF#64).setWidth 32

def unpackGen (data : BitVec 64) : BitVec 32 := (data >>> genShift).setWidth 32

def pollIn : BitVec 32 := 0x001
def pollOut : BitVec 32 := 0x004
def pollErr : BitVec 32 := 0x008
def pollHup : BitVec 32 := 0x010
def pollRdHup : BitVec 32 := 0x2000

/-- The mask of `add_fd`. -/
def pollMask : BitVec 32 := pollIn ||| pollOut ||| pollErr ||| pollHup ||| pollRdHup

def ecanceled : Nat := 125

/-- `uring_poll_state`. -/
structure PollState where
  armed : Bool := false
  cancelRequested : Bool := false
  activeGen : BitVec 32 := 0
  activeUserData : BitVec 64 := 0
  activeMask : BitVec 32 := 0
  desiredMask : BitVec 32 := 0
  nextGen : BitVec 32 := 1
deriving DecidableEq, Repr

structure PendingAdd where
  fd : BitVec 32
  mask : BitVec 32
  userData : BitVec 64
deriving DecidableEq, Repr

structure PendingRemove where
  fd : BitVec 32
  userData : BitVec 64
deriving DecidableEq, Repr

/-- `polls_`, `pending_adds_` and `pending_removes_`. -/
structure Backend where
  polls : BitVec 32 → Option PollState := fun _ => none
  pendingAdds : List PendingAdd := []
  pendingRemoves : List PendingRemove := []

structure Cqe where
  data : BitVec 64
  res : Int
deriving DecidableEq, Repr

def Backend.put (b : Backend) (fd : BitVec 32) (st : Option PollState) : Backend :=
  { b with polls := Function.update b.polls fd st }

/-- A poll is armed under the next generation. -/
def PollState.arm (st : PollState) (fd mask : BitVec 32) : PollState :=
  { st with
    armed := true
    cancelRequested := false
    activeMask := mask
    activeGen := st.nextGen
    activeUserData := packFd fd tagPoll st.nextGen
    nextGen := st.nextGen + 1 }

/-- What is submitted for the armed poll. -/
def PollState.pendingAdd (st : PollState) (fd : BitVec 32) : PendingAdd :=
  { fd, mask := st.activeMask, userData := st.activeUserData }

def PollState.disarm (st : PollState) : PollState :=
  { st with
    armed := false
    cancelRequested := false
    activeUserData := 0
    activeGen := 0
    activeMask := 0 }

/-- The armed poll is to be cancelled, unless that was asked for already. -/
def Backend.requestCancel (b : Backend) (fd : BitVec 32) (st : PollState) : Backend :=
  if st.cancelRequested then b.put fd (some st)
  else { b.put fd (some { st with cancelRequested := true }) with
    pendingRemoves := b.pendingRemoves ++ [⟨fd, st.activeUserData⟩] }

/-- `add_fd`, and whether it goes on to `wakeup`. -/
def Backend.addFd (b : Backend) (fd : BitVec 32) : Backend × Bool :=
  let st := { (b.polls fd).getD {} with desiredMask := pollMask }
  if st.armed then
    if st.activeMask = pollMask then (b.put fd (some st), false)
    else (b.requestCancel fd st, true)
  else if pollMask ≠ 0 then
    let st := st.arm fd pollMask
    ({ b.put fd (some st) with pendingAdds := b.pendingAdds ++ [st.pendingAdd fd] },
      true)
  else (b.put fd (some st), true)

/-- `remove_fd`, and whether it goes on to `wakeup`. -/
def Backend.removeFd (b : Backend) (fd : BitVec 32) : Backend × Bool :=
  match b.polls fd with
  | none => (b, false)
  | some st =>
      let st := { st with desiredMask := 0 }
      if st.armed then (b.requestCancel fd st, true) else (b.put fd none, false)

/-- `generation_matched`. -/
def PollState.isActive (st : PollState) (gen : BitVec 32) : Bool :=
  st.armed && st.activeGen == gen

/-- The section of `handle_cqe` on an entry of the table: the entry, unless it is
erased, and the poll to submit. -/
def PollState.complete (st : PollState) (fd gen : BitVec 32) :
    Option PollState × Option PendingAdd :=
  let st := if st.isActive gen then st.disarm else st
  if st.armed then (some st, none)
  else if st.desiredMask ≠ 0 then
    let st := st.arm fd st.desiredMask
    (some st, some (st.pendingAdd fd))
  else (none, none)

/-- The event of a completed poll. -/
def decode (fd : BitVec 32) (res : Int) : BackendEvent :=
  let ev : BitVec 32 := if 0 ≤ res then BitVec.ofInt 32 res else 0
  let hasError := ev &&& pollErr != 0
  let hasHup := ev &&& (pollHup ||| pollRdHup) != 0
  let isError := decide (res < 0) || hasError
  { fd := fd.toInt
    isError
    canRead := isError || hasHup || ev &&& pollIn != 0
    canWrite := isError || hasHup || ev &&& pollOut != 0
    ec := if isError then
        if res < 0 then .system (-res).toNat else .connectionReset
      else .none }

/-- The table after a completion, the poll it wants submitted, and the event it
reports. -/
structure Handled where
  backend : Backend
  arm : Option PendingAdd := none
  event : Option BackendEvent := none

/-- `handle_cqe`.  A completion of the eventfd or of a cancellation does not touch
the table. -/
def Backend.handleCqe (b : Backend) (cqe : Cqe) : Handled :=
  let tag := unpackTag cqe.data
  if tag = tagWakeup ∨ tag = tagRemove then { backend := b }
  else
    let fd := unpackFd cqe.data
    let gen := unpackGen cqe.data
    match b.polls fd with
    | none => { backend := b }
    | some st =>
        let (entry, arm) := st.complete fd gen
        { backend := b.put fd entry
          arm
          event :=
            if st.isActive gen ∧ cqe.res ≠ -(ecanceled : Int) then
              some (decode fd cqe.res)
            else none }

/-! ### The word of a poll -/

theorem low_bits : 0x3#64 = (BitVec.allOnes 2).setWidth 64 := rfl

theorem fd_bits : 0xFFFFFFFF#64 = (BitVec.allOnes 32).setWidth 64 := rfl

theorem getLsbD_packFd (fd : BitVec 32) (tag : BitVec 64) (gen : BitVec 32)
    (i : Nat) : (packFd fd tag gen).getLsbD i =
      if i < 2 then tag.getLsbD i
      else if i < 34 then fd.getLsbD (i - 2)
      else decide (i < 64) && gen.getLsbD (i - 34) := by
  have hfd : ∀ j, 32 ≤ j → fd.getLsbD j = false := BitVec.getLsbD_of_ge fd
  simp only [packFd, fdShift, genShift, low_bits, BitVec.getLsbD_or,
    BitVec.getLsbD_shiftLeft, BitVec.getLsbD_and, BitVec.getLsbD_setWidth,
    BitVec.getLsbD_allOnes]
  grind

theorem unpackFd_packFd (fd : BitVec 32) (tag : BitVec 64) (gen : BitVec 32) :
    unpackFd (packFd fd tag gen) = fd := by
  apply BitVec.eq_of_getLsbD_eq
  intro i hi
  simp only [unpackFd, fdShift, fd_bits, BitVec.getLsbD_setWidth, BitVec.getLsbD_and,
    BitVec.getLsbD_ushiftRight, BitVec.getLsbD_allOnes, getLsbD_packFd]
  grind

theorem unpackTag_packFd (fd : BitVec 32) (tag : BitVec 64) (gen : BitVec 32) :
    unpackTag (packFd fd tag gen) = tag &&& 0x3#64 := by
  apply BitVec.eq_of_getLsbD_eq
  intro i hi
  simp only [unpackTag, low_bits, BitVec.getLsbD_and, BitVec.getLsbD_setWidth,
    BitVec.getLsbD_allOnes, getLsbD_packFd]
  grind

/-- Two bits of the generation do not fit. -/
theorem unpackGen_packFd (fd : BitVec 32) (tag : BitVec 64) (gen : BitVec 32) :
    unpackGen (packFd fd tag gen) = (gen.setWidth 30).setWidth 32 := by
  apply BitVec.eq_of_getLsbD_eq
  intro i hi
  simp only [unpackGen, genShift, BitVec.getLsbD_setWidth, BitVec.getLsbD_ushiftRight,
    getLsbD_packFd]
  grind

theorem unpackGen_packFd_eq_iff (fd : BitVec 32) (tag : BitVec 64) (gen : BitVec 32) :
    unpackGen (packFd fd tag gen) = gen ↔ gen.toNat < 2 ^ 30 := by
  rw [unpackGen_packFd, ← BitVec.toNat_inj, BitVec.toNat_setWidth,
    BitVec.toNat_setWidth]
  have hgen := gen.isLt
  omega

theorem unpackTag_poll (fd gen : BitVec 32) :
    unpackTag (packFd fd tagPoll gen) = tagPoll := by
  rw [unpackTag_packFd]
  rfl

/-! ### The table -/

/-- An entry between two sections: its poll is armed, under the word that names it. -/
structure EntryOk (fd : BitVec 32) (st : PollState) : Prop where
  armed : st.armed = true
  userData : st.activeUserData = packFd fd tagPoll st.activeGen
  activeMask : st.activeMask = pollMask
  desiredMask : st.desiredMask = 0 ∨ st.desiredMask = pollMask

def Backend.Ok (b : Backend) : Prop :=
  ∀ fd st, b.polls fd = some st → EntryOk fd st

@[simp] theorem Backend.put_polls (b : Backend) (fd : BitVec 32)
    (st : Option PollState) :
    (b.put fd st).polls = Function.update b.polls fd st := rfl

@[simp] theorem Backend.put_pendingAdds (b : Backend) (fd : BitVec 32)
    (st : Option PollState) : (b.put fd st).pendingAdds = b.pendingAdds := rfl

@[simp] theorem Backend.put_pendingRemoves (b : Backend) (fd : BitVec 32)
    (st : Option PollState) : (b.put fd st).pendingRemoves = b.pendingRemoves := rfl

theorem Backend.Ok.update {b t : Backend} (hb : b.Ok) {fd : BitVec 32}
    {entry : Option PollState} (hpolls : t.polls = Function.update b.polls fd entry)
    (hentry : ∀ st, entry = some st → EntryOk fd st) : t.Ok := by
  intro other st hst
  rw [hpolls] at hst
  by_cases heq : other = fd
  · subst heq
    rw [Function.update_self] at hst
    exact hentry st hst
  · rw [Function.update_of_ne heq] at hst
    exact hb other st hst

/-- `add_fd` on a registered descriptor. -/
theorem Backend.addFd_of_some {b : Backend} {fd : BitVec 32} {st : PollState}
    (hst : b.polls fd = some st) (hok : EntryOk fd st) :
    b.addFd fd = (b.put fd (some { st with desiredMask := pollMask }), false) := by
  simp [Backend.addFd, hst, hok.armed, hok.activeMask]

/-- The entry `add_fd` makes for a descriptor that has none. -/
def fresh (fd : BitVec 32) : PollState :=
  PollState.arm { desiredMask := pollMask } fd pollMask

theorem Backend.addFd_of_none {b : Backend} {fd : BitVec 32}
    (hst : b.polls fd = none) :
    b.addFd fd = ({ b.put fd (some (fresh fd)) with
      pendingAdds := b.pendingAdds ++ [(fresh fd).pendingAdd fd] }, true) := by
  simp [Backend.addFd, hst, fresh, pollMask, pollIn]

theorem Backend.removeFd_of_none {b : Backend} {fd : BitVec 32}
    (hst : b.polls fd = none) : b.removeFd fd = (b, false) := by
  simp [Backend.removeFd, hst]

theorem Backend.removeFd_of_some {b : Backend} {fd : BitVec 32} {st : PollState}
    (hst : b.polls fd = some st) (hok : EntryOk fd st) :
    b.removeFd fd = (b.requestCancel fd { st with desiredMask := 0 }, true) := by
  simp [Backend.removeFd, hst, hok.armed]

theorem EntryOk.complete {fd : BitVec 32} {st : PollState} (hok : EntryOk fd st)
    (gen : BitVec 32) : st.complete fd gen =
      if st.isActive gen then
        if st.desiredMask = 0 then (none, none)
        else
          (some (st.disarm.arm fd st.desiredMask),
            some ((st.disarm.arm fd st.desiredMask).pendingAdd fd))
      else (some st, none) := by
  cases hactive : st.isActive gen with
  | false => simp [PollState.complete, hactive, hok.armed]
  | true =>
      by_cases hmask : st.desiredMask = 0 <;>
        simp [PollState.complete, hactive, PollState.disarm, hmask]

theorem fresh_ok (fd : BitVec 32) : EntryOk fd (fresh fd) where
  armed := rfl
  userData := rfl
  activeMask := rfl
  desiredMask := .inr rfl

theorem EntryOk.rearm {fd : BitVec 32} {st : PollState} (hok : EntryOk fd st)
    (hmask : st.desiredMask ≠ 0) :
    EntryOk fd (st.disarm.arm fd st.desiredMask) where
  armed := rfl
  userData := rfl
  activeMask := hok.desiredMask.resolve_left hmask
  desiredMask := .inr (hok.desiredMask.resolve_left hmask)

theorem EntryOk.desire {fd : BitVec 32} {st : PollState} (hok : EntryOk fd st)
    {mask : BitVec 32} (hmask : mask = 0 ∨ mask = pollMask) :
    EntryOk fd { st with desiredMask := mask } :=
  { hok with desiredMask := hmask }

theorem Backend.Ok.addFd {b : Backend} (hb : b.Ok) (fd : BitVec 32) :
    (b.addFd fd).1.Ok := by
  cases hst : b.polls fd with
  | none =>
      rw [Backend.addFd_of_none hst]
      apply hb.update rfl
      intro st hnew
      exact Option.some.inj hnew ▸ fresh_ok fd
  | some st =>
      rw [Backend.addFd_of_some hst (hb fd st hst)]
      apply hb.update rfl
      intro new hnew
      exact Option.some.inj hnew ▸ (hb fd st hst).desire (.inr rfl)

theorem Backend.Ok.removeFd {b : Backend} (hb : b.Ok) (fd : BitVec 32) :
    (b.removeFd fd).1.Ok := by
  cases hst : b.polls fd with
  | none =>
      rw [Backend.removeFd_of_none hst]
      exact hb
  | some st =>
      have hok := (hb fd st hst).desire (.inl rfl)
      rw [Backend.removeFd_of_some hst (hb fd st hst)]
      unfold Backend.requestCancel
      split
      · apply hb.update rfl
        intro new hnew
        exact Option.some.inj hnew ▸ hok
      · apply hb.update rfl
        intro new hnew
        exact Option.some.inj hnew ▸ { hok with }

/-- What a completion does to the entry of its descriptor. -/
theorem Backend.handleCqe_of_some {b : Backend} (cqe : Cqe) {fd : BitVec 32}
    {st : PollState} (htag : unpackTag cqe.data = tagPoll)
    (hfd : unpackFd cqe.data = fd) (hst : b.polls fd = some st) :
    b.handleCqe cqe =
      { backend := b.put fd (st.complete fd (unpackGen cqe.data)).1
        arm := (st.complete fd (unpackGen cqe.data)).2
        event := if st.isActive (unpackGen cqe.data) ∧
            cqe.res ≠ -(ecanceled : Int) then some (decode fd cqe.res)
          else none } := by
  subst hfd
  simp [Backend.handleCqe, htag, tagPoll, tagWakeup, tagRemove, hst]

theorem Backend.Ok.handleCqe {b : Backend} (hb : b.Ok) (cqe : Cqe) :
    (b.handleCqe cqe).backend.Ok := by
  unfold Backend.handleCqe
  simp only
  split
  · exact hb
  · split
    · exact hb
    · next st hst =>
        have hok := hb _ st hst
        apply hb.update rfl
        intro new hnew
        rw [hok.complete] at hnew
        split at hnew
        · split at hnew
          · simp at hnew
          · next hmask => exact Option.some.inj hnew ▸ hok.rearm hmask
        · exact Option.some.inj hnew ▸ hok

theorem EntryOk.unpackTag_userData {fd : BitVec 32} {st : PollState}
    (hok : EntryOk fd st) : unpackTag st.activeUserData = tagPoll := by
  rw [hok.userData, unpackTag_poll]

theorem EntryOk.unpackFd_userData {fd : BitVec 32} {st : PollState}
    (hok : EntryOk fd st) : unpackFd st.activeUserData = fd := by
  rw [hok.userData, unpackFd_packFd]

/-! ### The completion of the armed poll -/

/-- A completion is taken out of the queue. -/
theorem cq_perm {cq : List Cqe} {index : Nat} {cqe : Cqe}
    (hcqe : cq[index]? = some cqe) : cq.Perm (cqe :: cq.eraseIdx index) := by
  obtain ⟨hlt, rfl⟩ := List.getElem?_eq_some_iff.mp hcqe
  exact (List.getElem_cons_eraseIdx_perm hlt).symm

inductive TableAction where
  | addFd (fd : BitVec 32)
  | removeFd (fd : BitVec 32)
  | cqe (cqe : Cqe)
deriving DecidableEq, Repr

def tableStep (b : Backend) : TableAction → Option Backend
  | .addFd fd => some (b.addFd fd).1
  | .removeFd fd => some (b.removeFd fd).1
  | .cqe cqe => some (b.handleCqe cqe).backend

/-- The table under calls and completions in any order. -/
def table : TransitionSystem Backend TableAction where
  start := {}
  step := tableStep

theorem table_ok {b : Backend} (hb : table.Reachable b) : b.Ok := by
  refine hb.invariant (fun fd st hst => by simp [table] at hst) ?_
  intro b a t hok hstep
  cases a with
  | addFd fd => exact Option.some.inj hstep ▸ hok.addFd fd
  | removeFd fd => exact Option.some.inj hstep ▸ hok.removeFd fd
  | cqe cqe => exact Option.some.inj hstep ▸ hok.handleCqe cqe

/-- The completion of the armed poll is taken for what it is: the entry is disarmed,
and armed again while the descriptor is wanted. -/
structure Recognised (b : Backend) (fd : BitVec 32) (st : PollState) (res : Int) :
    Prop where
  matched : st.isActive (unpackGen st.activeUserData) = true
  handled : (b.handleCqe ⟨st.activeUserData, res⟩).backend.polls fd =
    if st.desiredMask = 0 then none
    else some (st.disarm.arm fd st.desiredMask)

theorem isActive_userData_iff {fd : BitVec 32} {st : PollState}
    (hok : EntryOk fd st) : st.isActive (unpackGen st.activeUserData) = true ↔
      st.activeGen.toNat < 2 ^ 30 := by
  rw [PollState.isActive, hok.armed, Bool.true_and, beq_iff_eq, hok.userData, eq_comm,
    unpackGen_packFd_eq_iff]

theorem Backend.Ok.recognised {b : Backend} (hb : b.Ok) {fd : BitVec 32}
    {st : PollState} (hst : b.polls fd = some st)
    (hgen : st.activeGen.toNat < 2 ^ 30) (res : Int) : Recognised b fd st res := by
  have hok := hb fd st hst
  have hmatched := (isActive_userData_iff hok).mpr hgen
  refine ⟨hmatched, ?_⟩
  rw [Backend.handleCqe_of_some ⟨st.activeUserData, _⟩ hok.unpackTag_userData
      hok.unpackFd_userData hst,
    hok.complete, if_pos hmatched, Backend.put_polls, Function.update_self]
  split <;> rfl

/-- The words of all three kinds come back whole exactly when the generation fits in
30 bits; and in every reachable table the completion of the armed poll is recognised
exactly then. -/
theorem recognised_iff_gen_lt (fd : BitVec 32) :
    (∀ (tag : BitVec 64) (gen : BitVec 32), tag ∈ [tagPoll, tagWakeup, tagRemove] →
      (unpackFd (packFd fd tag gen) = fd ∧ unpackTag (packFd fd tag gen) = tag ∧
        unpackGen (packFd fd tag gen) = gen ↔ gen.toNat < 2 ^ 30)) ∧
    ∀ b, table.Reachable b → ∀ st res, b.polls fd = some st →
      (st.armed = true ∧
        (Recognised b fd st res ↔ st.activeGen.toNat < 2 ^ 30)) := by
  constructor
  · intro tag gen htag
    have hlow : tag &&& 0x3#64 = tag := by
      simp only [List.mem_cons, List.not_mem_nil, or_false] at htag
      rcases htag with rfl | rfl | rfl <;> rfl
    rw [unpackFd_packFd, unpackTag_packFd, hlow, unpackGen_packFd_eq_iff]
    simp
  · intro b hb st res hst
    have hok := table_ok hb
    refine ⟨(hok fd st hst).armed, fun h => ?_, fun h => hok.recognised hst h res⟩
    exact (isActive_userData_iff (hok fd st hst)).mp h.matched

/-- A table with a registered descriptor whose poll has completed once. -/
theorem recognised_iff_gen_lt_rearmed : ∃ b, table.Reachable b ∧
    ∃ st, b.polls 5 = some st ∧ st.activeGen = 2 ∧ Recognised b 5 st 1 := by
  obtain ⟨b, hb, hp⟩ := TransitionSystem.exists_reachable_of_exec table
    [.addFd 5, .cqe ⟨packFd 5 tagPoll 1, 1⟩]
    (fun b => (b.polls 5).any fun st => st.activeGen == 2) (by decide)
  cases hst : b.polls 5 with
  | none =>
      rw [hst] at hp
      simp at hp
  | some st =>
      rw [hst] at hp
      have hgen : st.activeGen = 2 := by simpa using hp
      refine ⟨b, hb, st, hst, hgen, ?_⟩
      exact (((recognised_iff_gen_lt 5).2 b hb st 1 hst).2).mpr (by rw [hgen]; decide)

/-- After `n` completions of its poll a descriptor is armed under generation
`n + 1`. -/
theorem exists_reachable_gen (fd : BitVec 32) (n : Nat) (hn : n < 2 ^ 30) :
    ∃ b st, table.Reachable b ∧ b.polls fd = some st ∧
      st.desiredMask = pollMask ∧ st.activeGen.toNat = n + 1 ∧
      st.nextGen = st.activeGen + 1 := by
  induction n with
  | zero =>
      refine ⟨_, fresh fd, .step .start trivial (a := .addFd fd) rfl, ?_, rfl, rfl,
        rfl⟩
      rw [Backend.addFd_of_none rfl, Backend.put_polls, Function.update_self]
  | succ n ih =>
      obtain ⟨b, st, hb, hst, hmask, hgen, hnext⟩ := ih (by omega)
      have hrec := (table_ok hb).recognised hst (by omega) 1
      refine ⟨_, st.disarm.arm fd st.desiredMask,
        .step hb trivial (a := .cqe ⟨st.activeUserData, 1⟩) rfl, ?_, ?_, ?_, rfl⟩
      · rw [hrec.handled, hmask, if_neg (by decide)]
      · exact hmask
      · change st.nextGen.toNat = n + 1 + 1
        rw [hnext, BitVec.toNat_add, hgen]
        simp only [BitVec.ofNat_eq_ofNat, BitVec.toNat_ofNat]
        omega

/-- The first generation that does not fit: it does not come back out of the word,
and a descriptor reaches it after enough events and is deaf from then on. -/
theorem not_recognised_largeGen :
    unpackGen (packFd 5 tagPoll (BitVec.ofNat 32 (2 ^ 30))) ≠
      BitVec.ofNat 32 (2 ^ 30) ∧
    ∃ b st, table.Reachable b ∧ b.polls 5 = some st ∧ st.armed = true ∧
      st.desiredMask = pollMask ∧ ¬ Recognised b 5 st 1 ∧
      (b.handleCqe ⟨st.activeUserData, 1⟩).backend.polls 5 = some st := by
  constructor
  · decide
  · obtain ⟨b, st, hb, hst, hmask, hgen, -⟩ :=
      exists_reachable_gen 5 (2 ^ 30 - 1) (by decide)
    have hok := table_ok hb 5 st hst
    have hmissed : ¬ st.isActive (unpackGen st.activeUserData) = true := by
      rw [isActive_userData_iff hok]
      omega
    refine ⟨b, st, hb, hst, hok.armed, hmask, fun h => hmissed h.matched, ?_⟩
    rw [Backend.handleCqe_of_some ⟨st.activeUserData, _⟩ hok.unpackTag_userData
      hok.unpackFd_userData hst,
      hok.complete, if_neg hmissed, Backend.put_polls, Function.update_self]

end Uring

end Iocoro
