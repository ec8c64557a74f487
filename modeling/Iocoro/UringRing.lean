/-
`backend_uring` with the ring: the kernel holds armed one-shot polls, each on the file
that its number denoted when it was submitted; calls of `add_fd` and `remove_fd` come
from any thread between any two steps of `wait`.  Wake-ups are left to
`Iocoro.UringWakeup`.
-/
import Iocoro.Uring
import Mathlib.Data.List.Basic

namespace Iocoro

namespace Uring

namespace Ring

/-- A poll the kernel holds. -/
structure Poll where
  userData : BitVec 64
  file : Nat
deriving DecidableEq, Repr

/-- `wait` on the reactor thread, with what it has taken out of the shared lists and
not submitted.  `final` is the flush after the completions were handled. -/
inductive Reactor where
  | outside
  | flushing (final : Bool) (removes : List PendingRemove) (adds : List PendingAdd)
  | handling (arms : List PendingAdd)
  | arming (arms : List PendingAdd)
deriving DecidableEq, Repr

/-- An event that `wait` has put into `out`, with the number of `remove_fd` calls on
its descriptor before the poll was armed and before the event was reported. -/
structure Report where
  event : BackendEvent
  born : Nat
  removals : Nat
deriving DecidableEq, Repr

/-- `registered` is the last of `add_fd` and `remove_fd` that was called; `removals`
counts the calls of `remove_fd`, and `born` holds that count as of when the poll of
the entry was armed. -/
structure State where
  backend : Backend := {}
  reactor : Reactor := .outside
  armed : List Poll := []
  cq : List Cqe := []
  files : BitVec 32 → Option Nat := fun _ => none
  registered : BitVec 32 → Bool := fun _ => false
  removals : BitVec 32 → Nat := fun _ => 0
  born : BitVec 32 → Nat := fun _ => 0
  reports : List Report := []

inductive Action where
  | addFd (fd : BitVec 32)
  | removeFd (fd : BitVec 32)
  | assign (fd : BitVec 32) (file : Option Nat)
  | flush
  | submit
  | turn (completed : Bool)
  | handle (index : Nat)
  | complete (index : Nat) (res : Int)
deriving DecidableEq, Repr

def ebadf : Nat := 9
def enoent : Nat := 2

/-- The kernel takes a poll: it is armed on the file the number denotes now. -/
def State.pollAdd (s : State) (add : PendingAdd) : State :=
  match s.files add.fd with
  | some file => { s with armed := s.armed ++ [⟨add.userData, file⟩] }
  | none => { s with cq := s.cq ++ [⟨add.userData, -(ebadf : Int)⟩] }

def Poll.has (userData : BitVec 64) (poll : Poll) : Bool :=
  decide (poll.userData = userData)

/-- The kernel takes a cancellation: the armed poll with that word completes as
cancelled, and the request completes itself. -/
def State.pollRemove (s : State) (remove : PendingRemove) : State :=
  let done := packFd remove.fd tagRemove 0
  if s.armed.any (Poll.has remove.userData) then
    { s with
      armed := s.armed.eraseP (Poll.has remove.userData)
      cq := s.cq ++ [⟨remove.userData, -(ecanceled : Int)⟩, ⟨done, 0⟩] }
  else { s with cq := s.cq ++ [⟨done, -(enoent : Int)⟩] }

/-- The next submission of a flush, cancellations first, or of the re-arms. -/
def State.submit (s : State) : Option State :=
  match s.reactor with
  | .flushing final (remove :: removes) adds =>
      some { s.pollRemove remove with reactor := .flushing final removes adds }
  | .flushing final [] (add :: adds) =>
      some { s.pollAdd add with reactor := .flushing final [] adds }
  | .arming (add :: arms) => some { s.pollAdd add with reactor := .arming arms }
  | _ => none

/-- `flush_pending_updates` takes the shared lists. -/
def State.flush (s : State) : Option State :=
  let taken (final : Bool) : State :=
    { s with
      backend := { s.backend with pendingAdds := [], pendingRemoves := [] }
      reactor := .flushing final s.backend.pendingRemoves s.backend.pendingAdds }
  match s.reactor with
  | .outside => some (taken false)
  | .arming [] => some (taken true)
  | _ => none

/-- `wait` goes on: with completions to handle or without after the first flush, to
the re-arms after the completions, and out after the second flush. -/
def State.turn (s : State) (completed : Bool) : Option State :=
  match s.reactor with
  | .flushing false [] [] =>
      some { s with reactor := if completed then .handling [] else .outside }
  | .flushing true [] [] => some { s with reactor := .outside }
  | .handling arms => some { s with reactor := .arming arms }
  | _ => none

/-- `handle_cqe` on a completion of the queue. -/
def State.handle (s : State) (index : Nat) : Option State :=
  match s.reactor with
  | .handling arms => s.cq[index]?.map fun cqe =>
      let fd := unpackFd cqe.data
      let handled := s.backend.handleCqe cqe
      { s with
        backend := handled.backend
        reactor := .handling (arms ++ handled.arm.toList)
        cq := s.cq.eraseIdx index
        born :=
          if handled.arm.isSome then Function.update s.born fd (s.removals fd)
          else s.born
        reports := s.reports ++ (handled.event.map fun event =>
          ⟨event, s.born fd, s.removals fd⟩).toList }
  | _ => none

def State.addFd (s : State) (fd : BitVec 32) : State :=
  { s with
    backend := (s.backend.addFd fd).1
    registered := Function.update s.registered fd true
    born :=
      if (s.backend.polls fd).isNone then
        Function.update s.born fd (s.removals fd)
      else s.born }

def State.removeFd (s : State) (fd : BitVec 32) : State :=
  { s with
    backend := (s.backend.removeFd fd).1
    registered := Function.update s.registered fd false
    removals := Function.update s.removals fd (s.removals fd + 1) }

/-- A number is added while it is open, and closed or opened only after
`remove_fd`. -/
def step (s : State) : Action → Option State
  | .addFd fd => if (s.files fd).isSome then some (s.addFd fd) else none
  | .removeFd fd => some (s.removeFd fd)
  | .assign fd file =>
      if s.registered fd then none
      else some { s with files := Function.update s.files fd file }
  | .flush => s.flush
  | .submit => s.submit
  | .turn completed => s.turn completed
  | .handle index => s.handle index
  | .complete index res => s.armed[index]?.map fun poll =>
      { s with
        armed := s.armed.eraseIdx index
        cq := s.cq ++ [⟨poll.userData, res⟩] }

def system : TransitionSystem State Action where
  start := {}
  step := step

/-! ### One word for each entry -/

/-- Cancellations the reactor has still to submit. -/
def Reactor.removes : Reactor → List PendingRemove
  | .flushing _ removes _ => removes
  | _ => []

/-- Polls the reactor has still to submit. -/
def Reactor.adds : Reactor → List PendingAdd
  | .outside => []
  | .flushing _ _ adds | .handling adds | .arming adds => adds

section Reactor

variable (final : Bool) (removes : List PendingRemove) (adds : List PendingAdd)

@[simp] theorem Reactor.removes_outside : Reactor.outside.removes = [] := rfl
@[simp] theorem Reactor.adds_outside : Reactor.outside.adds = [] := rfl

@[simp] theorem Reactor.removes_flushing :
    (Reactor.flushing final removes adds).removes = removes := rfl
@[simp] theorem Reactor.adds_flushing :
    (Reactor.flushing final removes adds).adds = adds := rfl

@[simp] theorem Reactor.removes_handling : (Reactor.handling adds).removes = [] := rfl
@[simp] theorem Reactor.adds_handling : (Reactor.handling adds).adds = adds := rfl

@[simp] theorem Reactor.removes_arming : (Reactor.arming adds).removes = [] := rfl
@[simp] theorem Reactor.adds_arming : (Reactor.arming adds).adds = adds := rfl

end Reactor

def isPoll (cqe : Cqe) : Bool := decide (unpackTag cqe.data = tagPoll)

/-- The words of the polls that are armed or have completed. -/
def inKernel (armed : List Poll) (cq : List Cqe) : List (BitVec 64) :=
  armed.map Poll.userData ++ (cq.filter isPoll).map Cqe.data

/-- Beside these, the words of the polls that are on their way to the kernel. -/
def State.tokens (s : State) : List (BitVec 64) :=
  s.backend.pendingAdds.map PendingAdd.userData ++
    s.reactor.adds.map PendingAdd.userData ++ inKernel s.armed s.cq

/-- How often the entry of its descriptor names the word. -/
def named (b : Backend) (word : BitVec 64) : Nat :=
  ((b.polls (unpackFd word)).toList.map PollState.activeUserData).count word

theorem named_update {b t : Backend} {fd : BitVec 32} {entry : Option PollState}
    (hpolls : t.polls = Function.update b.polls fd entry) (word : BitVec 64) :
    named t word =
      if unpackFd word = fd then
        (entry.toList.map PollState.activeUserData).count word
      else named b word := by
  unfold named
  rw [hpolls]
  by_cases hfd : unpackFd word = fd
  · subst hfd
    simp
  · simp [hfd]

theorem named_eq_one {b : Backend} {word : BitVec 64} (h : 0 < named b word) :
    ∃ st, b.polls (unpackFd word) = some st ∧ st.activeUserData = word := by
  obtain ⟨st, hst, hdata⟩ := List.mem_map.mp (List.count_pos_iff.mp h)
  exact ⟨st, Option.mem_toList.mp hst, hdata⟩

/-- An entry keeps the word of its poll. -/
theorem named_of_userData {b t : Backend} {fd : BitVec 32} {st : PollState}
    (hst : b.polls fd = some st) (new : PollState)
    (hpolls : t.polls = Function.update b.polls fd (some new))
    (huserData : new.activeUserData = st.activeUserData) (word : BitVec 64) :
    named t word = named b word := by
  rw [named_update hpolls]
  split
  · next hfd =>
      subst hfd
      simp [named, hst, huserData]
  · rfl

structure Inv (s : State) : Prop where
  ok : s.backend.Ok
  tokens : ∀ word, s.tokens.count word ≤ named s.backend word
  adds : ∀ add ∈ s.backend.pendingAdds ++ s.reactor.adds,
    unpackFd add.userData = add.fd
  cq : ∀ cqe ∈ s.cq, isPoll cqe = true ∨ unpackTag cqe.data = tagRemove

theorem Inv.entry {s : State} (hs : Inv s) {word : BitVec 64}
    (hword : word ∈ s.tokens) :
    ∃ st, s.backend.polls (unpackFd word) = some st ∧ st.activeUserData = word ∧
      unpackTag word = tagPoll := by
  have hpos := List.count_pos_iff.mpr hword
  obtain ⟨st, hst, hdata⟩ := named_eq_one (Nat.lt_of_lt_of_le hpos (hs.tokens word))
  have hok := hs.ok _ st hst
  exact ⟨st, hst, hdata, hdata ▸ hok.unpackTag_userData⟩

/-- A step that gains and loses words as the table does. -/
def Moves (s t : State) : Prop :=
  ∀ word, t.tokens.count word + named s.backend word =
    s.tokens.count word + named t.backend word

theorem Moves.tokens_le {s t : State} (hmoves : Moves s t) (hs : Inv s)
    (word : BitVec 64) : t.tokens.count word ≤ named t.backend word := by
  have hmove := hmoves word
  have hle := hs.tokens word
  omega

theorem Moves.of_perm {s t : State} (hbackend : ∀ word,
    named t.backend word = named s.backend word)
    (hperm : t.tokens.Perm s.tokens) : Moves s t := by
  intro word
  rw [hbackend word, hperm.count_eq]

/-! ### Calls -/

theorem fresh_userData (fd : BitVec 32) : unpackFd (fresh fd).activeUserData = fd :=
  (fresh_ok fd).unpackFd_userData

theorem count_singleton_of_fd {data word : BitVec 64} {fd : BitVec 32}
    (hdata : unpackFd data = fd) (hword : ¬ unpackFd word = fd) :
    [data].count word = 0 := by
  apply List.count_eq_zero_of_not_mem
  rw [List.mem_singleton]
  rintro rfl
  exact hword hdata

theorem addFd_moves {s : State} (hs : Inv s) (fd : BitVec 32) :
    Moves s (s.addFd fd) := by
  cases hst : s.backend.polls fd with
  | none =>
      intro word
      have hpolls : ((s.addFd fd).backend).polls =
          Function.update s.backend.polls fd (some (fresh fd)) := by
        simp only [State.addFd, Backend.addFd_of_none hst, Backend.put_polls]
      have htokens : (s.addFd fd).tokens.count word =
          s.tokens.count word + [(fresh fd).activeUserData].count word := by
        simp only [State.tokens, State.addFd, Backend.addFd_of_none hst,
          List.map_append, List.count_append, PollState.pendingAdd, List.map_cons,
          List.map_nil]
        omega
      rw [htokens, named_update hpolls]
      split
      · next hfd =>
          subst hfd
          simp [named, hst]
      · next hfd =>
          have hother : [(fresh fd).activeUserData].count word = 0 :=
            count_singleton_of_fd (fresh_userData fd) hfd
          omega
  | some st =>
      have hadd := Backend.addFd_of_some hst (hs.ok fd st hst)
      apply Moves.of_perm
      · exact named_of_userData hst { st with desiredMask := pollMask }
          (by simp only [State.addFd, hadd, Backend.put_polls]) rfl
      · simp only [State.tokens, State.addFd, hadd]
        exact List.Perm.refl _

theorem requestCancel_polls (b : Backend) (fd : BitVec 32) (st : PollState) :
    (b.requestCancel fd st).polls =
      Function.update b.polls fd (some { st with cancelRequested := true }) := by
  unfold Backend.requestCancel
  split
  · next hrequested =>
      have hsame : { st with cancelRequested := true } = st := by
        rw [← hrequested]
      rw [hsame]
      rfl
  · rfl

theorem requestCancel_pendingAdds (b : Backend) (fd : BitVec 32) (st : PollState) :
    (b.requestCancel fd st).pendingAdds = b.pendingAdds := by
  unfold Backend.requestCancel
  split <;> rfl

theorem removeFd_moves {s : State} (hs : Inv s) (fd : BitVec 32) :
    Moves s (s.removeFd fd) := by
  cases hst : s.backend.polls fd with
  | none =>
      apply Moves.of_perm
      · simp only [State.removeFd, Backend.removeFd_of_none hst, implies_true]
      · simp only [State.tokens, State.removeFd, Backend.removeFd_of_none hst]
        exact List.Perm.refl _
  | some st =>
      have hremove := Backend.removeFd_of_some hst (hs.ok fd st hst)
      apply Moves.of_perm
      · exact named_of_userData hst
          { st with desiredMask := 0, cancelRequested := true }
          (by simp only [State.removeFd, hremove, requestCancel_polls]) rfl
      · simp only [State.tokens, State.removeFd, hremove, requestCancel_pendingAdds]
        exact List.Perm.refl _

/-! ### The kernel -/

/-- Where a word may stand. -/
theorem mem_tokens {s : State} {word : BitVec 64} : word ∈ s.tokens ↔
    (∃ add ∈ s.backend.pendingAdds ++ s.reactor.adds, add.userData = word) ∨
    (∃ poll ∈ s.armed, poll.userData = word) ∨
    ∃ cqe ∈ s.cq, isPoll cqe = true ∧ cqe.data = word := by
  rw [State.tokens, ← List.map_append, inKernel]
  simp only [List.mem_append, List.mem_map, List.mem_filter, and_assoc]

/-- A poll that completes moves from the armed ones to the queue. -/
theorem inKernel_complete {armed rest : List Poll} {poll : Poll}
    (harmed : armed.Perm (poll :: rest)) (htag : unpackTag poll.userData = tagPoll)
    (cq : List Cqe) (res : Int) :
    (inKernel rest (cq ++ [⟨poll.userData, res⟩])).Perm (inKernel armed cq) := by
  have hpoll : isPoll ⟨poll.userData, res⟩ = true := by simp [isPoll, htag]
  have hmap := harmed.map Poll.userData
  simp only [inKernel, List.filter_append, List.filter_cons, hpoll, if_true,
    List.filter_nil, List.map_append, List.map_cons, List.map_nil] at hmap ⊢
  rw [← List.append_assoc]
  exact (List.perm_append_singleton _ _).trans (hmap.append_right _).symm

theorem pollAdd_inKernel (s : State) {add : PendingAdd}
    (hadd : unpackTag add.userData = tagPoll) :
    (inKernel (s.pollAdd add).armed (s.pollAdd add).cq).Perm
      (add.userData :: inKernel s.armed s.cq) := by
  unfold State.pollAdd
  split
  · next file hfile =>
      simp only [inKernel, List.map_append, List.map_cons, List.map_nil,
        List.append_assoc, List.singleton_append]
      exact List.perm_middle
  · exact inKernel_complete (List.Perm.refl (⟨add.userData, 0⟩ :: s.armed)) hadd _ _

theorem eraseP_perm {armed : List Poll} {word : BitVec 64}
    (hany : armed.any (Poll.has word) = true) :
    ∃ poll, poll.userData = word ∧
      armed.Perm (poll :: armed.eraseP (Poll.has word)) := by
  obtain ⟨found, hmem, hfound⟩ := List.any_eq_true.mp hany
  obtain ⟨poll, before, after, -, hpoll, hsplit, herase⟩ :=
    List.exists_of_eraseP hmem hfound
  refine ⟨poll, by simpa [Poll.has] using hpoll, ?_⟩
  rw [herase, hsplit]
  exact List.perm_middle

theorem isPoll_remove (fd : BitVec 32) (res : Int) :
    isPoll ⟨packFd fd tagRemove 0, res⟩ = false := by
  simp [isPoll, unpackTag_packFd, tagRemove, tagPoll]

theorem pollRemove_inKernel {s : State}
    (htags : ∀ poll ∈ s.armed, unpackTag poll.userData = tagPoll)
    (remove : PendingRemove) :
    (inKernel (s.pollRemove remove).armed (s.pollRemove remove).cq).Perm
      (inKernel s.armed s.cq) := by
  have hignored : ∀ armed cq res, inKernel armed
      (cq ++ [⟨packFd remove.fd tagRemove 0, res⟩]) = inKernel armed cq := by
    intro armed cq res
    simp only [inKernel, List.filter_append, List.filter_cons, isPoll_remove,
      Bool.false_eq_true, if_false, List.filter_nil, List.append_nil]
  unfold State.pollRemove
  simp only
  split
  · next hany =>
      obtain ⟨poll, hpoll, hperm⟩ := eraseP_perm hany
      have htag := htags poll (hperm.mem_iff.mpr List.mem_cons_self)
      have hdone := inKernel_complete hperm htag s.cq (-(ecanceled : Int))
      rw [hpoll] at hdone
      rw [List.append_cons, hignored]
      exact hdone
  · rw [hignored]

/-! ### Completions -/

theorem inKernel_ignored (armed : List Poll) {cq : List Cqe} {index : Nat}
    {cqe : Cqe} (hcqe : cq[index]? = some cqe) (hignored : isPoll cqe = false) :
    (inKernel armed cq).Perm (inKernel armed (cq.eraseIdx index)) := by
  have hfilter := (cq_perm hcqe).filter isPoll
  simp only [List.filter_cons, hignored, Bool.false_eq_true, if_false] at hfilter
  exact (hfilter.map Cqe.data).append_left _

theorem inKernel_taken (armed : List Poll) {cq : List Cqe} {index : Nat}
    {cqe : Cqe} (hcqe : cq[index]? = some cqe) (hpoll : isPoll cqe = true) :
    (inKernel armed cq).Perm (cqe.data :: inKernel armed (cq.eraseIdx index)) := by
  have hfilter := (cq_perm hcqe).filter isPoll
  simp only [List.filter_cons, hpoll, if_true] at hfilter
  exact ((hfilter.map Cqe.data).append_left _).trans List.perm_middle

/-- The report of a completion that the entry takes for its own. -/
def State.reported (s : State) (cqe : Cqe) : List Report :=
  if cqe.res = -(ecanceled : Int) then []
  else [⟨decode (unpackFd cqe.data) cqe.res, s.born (unpackFd cqe.data),
    s.removals (unpackFd cqe.data)⟩]

/-- What a completion finds: that of a cancellation nothing, and that of a poll the
entry that names it.  The entry takes no notice of the completion, or it is erased,
or its poll is armed again. -/
inductive Handles (s t : State) (index : Nat) : Prop
  | ignored (arms : List PendingAdd) (cqe : Cqe)
      (hreactor : s.reactor = .handling arms) (hcqe : s.cq[index]? = some cqe)
      (hpoll : isPoll cqe = false)
      (ht : t = { s with cq := s.cq.eraseIdx index })
  | missed (arms : List PendingAdd) (cqe : Cqe) (st : PollState)
      (hreactor : s.reactor = .handling arms) (hcqe : s.cq[index]? = some cqe)
      (hpoll : isPoll cqe = true)
      (hst : s.backend.polls (unpackFd cqe.data) = some st)
      (hdata : st.activeUserData = cqe.data)
      (hgen : ¬ st.activeGen.toNat < 2 ^ 30)
      (ht : t = { s with cq := s.cq.eraseIdx index })
  | erased (arms : List PendingAdd) (cqe : Cqe) (st : PollState)
      (hreactor : s.reactor = .handling arms) (hcqe : s.cq[index]? = some cqe)
      (hpoll : isPoll cqe = true)
      (hst : s.backend.polls (unpackFd cqe.data) = some st)
      (hdata : st.activeUserData = cqe.data)
      (hgen : st.activeGen.toNat < 2 ^ 30) (hmask : st.desiredMask = 0)
      (ht : t = { s with
        backend := s.backend.put (unpackFd cqe.data) none
        cq := s.cq.eraseIdx index
        reports := s.reports ++ s.reported cqe })
  | rearmed (arms : List PendingAdd) (cqe : Cqe) (st new : PollState)
      (hreactor : s.reactor = .handling arms) (hcqe : s.cq[index]? = some cqe)
      (hpoll : isPoll cqe = true)
      (hst : s.backend.polls (unpackFd cqe.data) = some st)
      (hdata : st.activeUserData = cqe.data)
      (hgen : st.activeGen.toNat < 2 ^ 30) (hmask : st.desiredMask ≠ 0)
      (hnew : new = st.disarm.arm (unpackFd cqe.data) st.desiredMask)
      (ht : t = { s with
        backend := s.backend.put (unpackFd cqe.data) (some new)
        reactor := .handling (arms ++ [new.pendingAdd (unpackFd cqe.data)])
        cq := s.cq.eraseIdx index
        born := Function.update s.born (unpackFd cqe.data)
          (s.removals (unpackFd cqe.data))
        reports := s.reports ++ s.reported cqe })

theorem handle_cases {s t : State} {index : Nat} (hs : Inv s)
    (hstep : s.handle index = some t) : Handles s t index := by
  unfold State.handle at hstep
  split at hstep
  · next arms hreactor =>
      obtain ⟨cqe, hcqe, rfl⟩ := Option.map_eq_some_iff.mp hstep
      cases hpoll : isPoll cqe with
      | false =>
          apply Handles.ignored arms cqe hreactor hcqe hpoll
          have htag := (hs.cq cqe (List.mem_of_getElem? hcqe)).resolve_left
            (by simp [hpoll])
          have hhandled : s.backend.handleCqe cqe = { backend := s.backend } := by
            simp [Backend.handleCqe, htag]
          simp [hhandled, ← hreactor]
      | true =>
          have htag : unpackTag cqe.data = tagPoll := by simpa [isPoll] using hpoll
          obtain ⟨st, hst, hdata, -⟩ := hs.entry
            (mem_tokens.mpr (.inr (.inr ⟨cqe, List.mem_of_getElem? hcqe, hpoll, rfl⟩)))
          have hok := hs.ok _ st hst
          have hhandled := Backend.handleCqe_of_some cqe htag rfl hst
          rw [hok.complete] at hhandled
          have hactive := isActive_userData_iff hok
          rw [hdata] at hactive
          by_cases hgen : st.activeGen.toNat < 2 ^ 30
          · have hmatched := hactive.mpr hgen
            rw [if_pos hmatched] at hhandled
            have hreports : ((if st.isActive (unpackGen cqe.data) = true ∧
                cqe.res ≠ -(ecanceled : Int) then
                  some (decode (unpackFd cqe.data) cqe.res)
                else none).map fun event => (⟨event, s.born (unpackFd cqe.data),
                  s.removals (unpackFd cqe.data)⟩ : Report)).toList =
                s.reported cqe := by
              unfold State.reported
              by_cases hcancelled : cqe.res = -(ecanceled : Int) <;>
                simp [hmatched, hcancelled]
            by_cases hmask : st.desiredMask = 0
            · apply Handles.erased arms cqe st hreactor hcqe hpoll hst hdata
                hgen hmask
              rw [if_pos hmask] at hhandled
              simp only [hhandled, hreports, Option.toList_none, List.append_nil,
                Option.isSome_none, Bool.false_eq_true, if_false, ← hreactor]
            · apply Handles.rearmed arms cqe st _ hreactor hcqe hpoll hst hdata
                hgen hmask rfl
              rw [if_neg hmask] at hhandled
              simp only [hhandled, hreports, Option.toList_some, Option.isSome_some,
                if_true]
          · have hmissed : ¬ st.isActive (unpackGen cqe.data) = true :=
              fun h => hgen (hactive.mp h)
            apply Handles.missed arms cqe st hreactor hcqe hpoll hst hdata hgen
            rw [if_neg hmissed] at hhandled
            have hsame : s.backend.put (unpackFd cqe.data) (some st) = s.backend := by
              unfold Backend.put
              rw [← hst, Function.update_eq_self]
            simp only [hhandled, hsame, hmissed, false_and, if_false, Option.map_none,
              Option.toList_none, List.append_nil, Option.isSome_none,
              Bool.false_eq_true, ← hreactor]
  · simp at hstep

theorem count_taken {s : State} {index : Nat} {cqe : Cqe}
    (hcqe : s.cq[index]? = some cqe) (hpoll : isPoll cqe = true) (word : BitVec 64) :
    s.tokens.count word =
      (State.tokens { s with cq := s.cq.eraseIdx index }).count word +
        [cqe.data].count word := by
  have hcount := (inKernel_taken s.armed hcqe hpoll).count_eq word
  rw [← List.singleton_append, List.count_append] at hcount
  simp only [State.tokens, List.count_append]
  omega

/-- A completion leaves the queue and the entry takes another word, or none. -/
theorem Moves.of_taken {s t : State} {index : Nat} {cqe : Cqe} {st : PollState}
    (entry : Option PollState) (hcqe : s.cq[index]? = some cqe)
    (hpoll : isPoll cqe = true)
    (hst : s.backend.polls (unpackFd cqe.data) = some st)
    (hdata : st.activeUserData = cqe.data)
    (hentry : ∀ new, entry = some new → unpackFd new.activeUserData = unpackFd cqe.data)
    (hpolls : t.backend.polls =
      Function.update s.backend.polls (unpackFd cqe.data) entry)
    (htokens : ∀ word, t.tokens.count word =
      (State.tokens { s with cq := s.cq.eraseIdx index }).count word +
        (entry.toList.map PollState.activeUserData).count word) : Moves s t := by
  intro word
  have htaken := count_taken hcqe hpoll word
  rw [named_update hpolls, htokens word, htaken]
  split
  · next hfd =>
      have hnamed : named s.backend word = [cqe.data].count word := by
        rw [← hdata, named, hfd, hst]
        rfl
      omega
  · next hfd =>
      have hold : [cqe.data].count word = 0 := count_singleton_of_fd rfl hfd
      have hnew : (entry.toList.map PollState.activeUserData).count word = 0 := by
        cases entry with
        | none => simp
        | some new => exact count_singleton_of_fd (hentry new rfl) hfd
      omega

theorem Handles.moves {s t : State} (hs : Inv s) {index : Nat}
    (hhandles : Handles s t index) :
    Moves s t ∨ ((∃ fd st, s.backend.polls fd = some st ∧
        ¬ st.activeGen.toNat < 2 ^ 30) ∧ t.backend = s.backend ∧
      ∀ word, t.tokens.count word ≤ s.tokens.count word) := by
  cases hhandles with
  | ignored arms cqe hreactor hcqe hpoll ht =>
      subst ht
      refine .inl (Moves.of_perm (fun _ => rfl) ?_)
      exact (inKernel_ignored s.armed hcqe hpoll).symm.append_left _
  | missed arms cqe st hreactor hcqe hpoll hst hdata hgen ht =>
      subst ht
      refine .inr ⟨⟨_, st, hst, hgen⟩, rfl, fun word => ?_⟩
      have hcount := count_taken hcqe hpoll word
      omega
  | erased arms cqe st hreactor hcqe hpoll hst hdata hgen hmask ht =>
      subst ht
      exact .inl (Moves.of_taken none hcqe hpoll hst hdata (by simp) rfl fun _ => rfl)
  | rearmed arms cqe st new hreactor hcqe hpoll hst hdata hgen hmask hnew ht =>
      subst ht
      refine .inl (Moves.of_taken (some new) hcqe hpoll hst hdata ?_ rfl ?_)
      · intro other hother
        obtain rfl := Option.some.inj hother
        rw [hnew]
        exact ((hs.ok _ st hst).rearm hmask).unpackFd_userData
      · intro word
        simp only [State.tokens, hreactor, Reactor.adds_handling, List.map_append,
          List.count_append, PollState.pendingAdd, List.map_cons, List.map_nil,
          Option.toList_some, Backend.put_pendingAdds]
        omega

/-! ### Every step -/

theorem Inv.armed_tag {s : State} (hs : Inv s) {poll : Poll} (hpoll : poll ∈ s.armed) :
    unpackTag poll.userData = tagPoll := by
  obtain ⟨-, -, -, htag⟩ := hs.entry (mem_tokens.mpr (.inr (.inl ⟨poll, hpoll, rfl⟩)))
  exact htag

theorem Inv.add_tag {s : State} (hs : Inv s) {add : PendingAdd}
    (hadd : add ∈ s.reactor.adds) : unpackTag add.userData = tagPoll := by
  obtain ⟨-, -, -, htag⟩ := hs.entry
    (mem_tokens.mpr (.inl ⟨add, List.mem_append_right _ hadd, rfl⟩))
  exact htag

theorem pollAdd_frame (s : State) (add : PendingAdd) :
    (s.pollAdd add).backend = s.backend ∧ (s.pollAdd add).files = s.files ∧
      (s.pollAdd add).registered = s.registered ∧
      (s.pollAdd add).removals = s.removals ∧ (s.pollAdd add).born = s.born ∧
      (s.pollAdd add).reports = s.reports := by
  unfold State.pollAdd
  split <;> exact ⟨rfl, rfl, rfl, rfl, rfl, rfl⟩

theorem pollRemove_frame (s : State) (remove : PendingRemove) :
    (s.pollRemove remove).backend = s.backend ∧
      (s.pollRemove remove).files = s.files ∧
      (s.pollRemove remove).registered = s.registered ∧
      (s.pollRemove remove).removals = s.removals ∧
      (s.pollRemove remove).born = s.born ∧
      (s.pollRemove remove).reports = s.reports := by
  unfold State.pollRemove
  simp only
  split <;> exact ⟨rfl, rfl, rfl, rfl, rfl, rfl⟩

theorem pollAdd_cq {s : State} {add : PendingAdd}
    (hadd : unpackTag add.userData = tagPoll)
    (hcq : ∀ cqe ∈ s.cq, isPoll cqe = true ∨ unpackTag cqe.data = tagRemove) :
    ∀ cqe ∈ (s.pollAdd add).cq, isPoll cqe = true ∨ unpackTag cqe.data = tagRemove := by
  unfold State.pollAdd
  split
  · exact hcq
  · intro cqe hcqe
    rcases List.mem_append.mp hcqe with hold | hnew
    · exact hcq cqe hold
    · obtain rfl := List.mem_singleton.mp hnew
      exact .inl (by simp [isPoll, hadd])

theorem pollRemove_cq {s : State} (hs : Inv s) (remove : PendingRemove) :
    ∀ cqe ∈ (s.pollRemove remove).cq,
      isPoll cqe = true ∨ unpackTag cqe.data = tagRemove := by
  have hremove : unpackTag (packFd remove.fd tagRemove 0) = tagRemove := by
    rw [unpackTag_packFd]
    rfl
  unfold State.pollRemove
  simp only
  split
  · next hany =>
      obtain ⟨poll, hpoll, hperm⟩ := eraseP_perm hany
      have htag := hs.armed_tag (hperm.mem_iff.mpr List.mem_cons_self)
      rw [hpoll] at htag
      intro cqe hcqe
      simp only [List.mem_append, List.mem_cons, List.not_mem_nil, or_false] at hcqe
      rcases hcqe with hold | rfl | rfl
      · exact hs.cq cqe hold
      · exact .inl (by simp [isPoll, htag])
      · exact .inr hremove
  · intro cqe hcqe
    rcases List.mem_append.mp hcqe with hold | hnew
    · exact hs.cq cqe hold
    · obtain rfl := List.mem_singleton.mp hnew
      exact .inr hremove

/-- The reactor hands the next poll of its list to the kernel. -/
theorem pollAdd_moves {s : State} (hs : Inv s) {add : PendingAdd}
    {rest : List PendingAdd} (hadds : s.reactor.adds = add :: rest)
    (reactor : Reactor) (hreactor : reactor.adds = rest) :
    Moves s { s.pollAdd add with reactor } := by
  have htag : unpackTag add.userData = tagPoll :=
    hs.add_tag (by rw [hadds]; exact List.mem_cons_self)
  have hkernel := pollAdd_inKernel s htag
  intro word
  have hcount := hkernel.count_eq word
  rw [← List.singleton_append, List.count_append] at hcount
  simp only [State.tokens, (pollAdd_frame s add).1, hadds, hreactor, List.map_cons,
    List.count_append]
  rw [← List.singleton_append, List.count_append]
  omega

theorem pollAdd_inv {s : State} (hs : Inv s) {add : PendingAdd}
    {rest : List PendingAdd} (hadds : s.reactor.adds = add :: rest)
    (reactor : Reactor) (hreactor : reactor.adds = rest) :
    Inv { s.pollAdd add with reactor } := by
  have htag : unpackTag add.userData = tagPoll :=
    hs.add_tag (by rw [hadds]; exact List.mem_cons_self)
  have htokens := (pollAdd_moves hs hadds reactor hreactor).tokens_le hs
  refine ⟨?_, htokens, ?_, pollAdd_cq htag hs.cq⟩
  · simpa [pollAdd_frame] using hs.ok
  · intro other hother
    simp only [(pollAdd_frame s add).1, hreactor] at hother
    apply hs.adds other
    rw [hadds]
    rcases List.mem_append.mp hother with hold | hold
    · exact List.mem_append_left _ hold
    · exact List.mem_append_right _ (List.mem_cons_of_mem _ hold)

theorem submit_moves {s t : State} (hs : Inv s) (hstep : s.submit = some t) :
    Moves s t := by
  unfold State.submit at hstep
  split at hstep
  · next final remove removes adds hreactor =>
      obtain rfl := Option.some.inj hstep
      have hkernel := pollRemove_inKernel (fun _ h => hs.armed_tag h) remove
      intro word
      have hcount := hkernel.count_eq word
      simp only [State.tokens, (pollRemove_frame s remove).1, hreactor,
        Reactor.adds_flushing, List.count_append]
      omega
  · next final add adds hreactor =>
      obtain rfl := Option.some.inj hstep
      exact pollAdd_moves hs (by simp [hreactor]) _ rfl
  · next add arms hreactor =>
      obtain rfl := Option.some.inj hstep
      exact pollAdd_moves hs (by simp [hreactor]) _ rfl
  · simp at hstep

theorem flush_moves {s t : State} (hstep : s.flush = some t) : Moves s t := by
  have htaken : ∀ final, s.reactor.adds = [] → Moves s { s with
      backend := { s.backend with pendingAdds := [], pendingRemoves := [] }
      reactor := .flushing final s.backend.pendingRemoves s.backend.pendingAdds } := by
    intro final hadds word
    simp [State.tokens, hadds, named]
  unfold State.flush at hstep
  simp only at hstep
  split at hstep
  · next hreactor =>
      obtain rfl := Option.some.inj hstep
      exact htaken false (by simp [hreactor])
  · next hreactor =>
      obtain rfl := Option.some.inj hstep
      exact htaken true (by simp [hreactor])
  · simp at hstep

theorem turn_adds {s t : State} {completed : Bool} (hstep : s.turn completed = some t) :
    t.reactor.adds = s.reactor.adds ∧ t.reactor.removes = s.reactor.removes ∧
      ∃ reactor, t = { s with reactor } := by
  unfold State.turn at hstep
  split at hstep
  · next hreactor =>
      obtain rfl := Option.some.inj hstep
      cases completed <;> exact ⟨by simp [hreactor], by simp [hreactor], _, rfl⟩
  · next hreactor =>
      obtain rfl := Option.some.inj hstep
      exact ⟨by simp [hreactor], by simp [hreactor], _, rfl⟩
  · next arms hreactor =>
      obtain rfl := Option.some.inj hstep
      exact ⟨by simp [hreactor], by simp [hreactor], _, rfl⟩
  · simp at hstep

theorem complete_moves {s : State} (hs : Inv s) {index : Nat} {poll : Poll}
    (hpoll : s.armed[index]? = some poll) (res : Int) :
    Moves s { s with
      armed := s.armed.eraseIdx index
      cq := s.cq ++ [⟨poll.userData, res⟩] } := by
  obtain ⟨hlt, hget⟩ := List.getElem?_eq_some_iff.mp hpoll
  have hperm : s.armed.Perm (poll :: s.armed.eraseIdx index) :=
    hget ▸ (List.getElem_cons_eraseIdx_perm hlt).symm
  refine Moves.of_perm (fun _ => rfl) ?_
  exact (inKernel_complete hperm (hs.armed_tag (List.mem_of_getElem? hpoll)) _
    res).append_left _

theorem handle_inv {s t : State} (hs : Inv s) {index : Nat}
    (hhandles : Handles s t index) : Inv t := by
  have htokens : ∀ word, t.tokens.count word ≤ named t.backend word := by
    rcases hhandles.moves hs with hmoves | ⟨-, hbackend, hle⟩
    · exact hmoves.tokens_le hs
    · intro word
      rw [hbackend]
      exact (hle word).trans (hs.tokens word)
  have hcq : ∀ index, ∀ cqe ∈ s.cq.eraseIdx index,
      isPoll cqe = true ∨ unpackTag cqe.data = tagRemove :=
    fun index cqe hcqe => hs.cq cqe (List.mem_of_mem_eraseIdx hcqe)
  cases hhandles with
  | ignored arms cqe hreactor hcqe hpoll ht =>
      subst ht
      exact ⟨hs.ok, htokens, hs.adds, hcq index⟩
  | missed arms cqe st hreactor hcqe hpoll hst hdata hgen ht =>
      subst ht
      exact ⟨hs.ok, htokens, hs.adds, hcq index⟩
  | erased arms cqe st hreactor hcqe hpoll hst hdata hgen hmask ht =>
      subst ht
      refine ⟨hs.ok.update rfl (by simp), htokens, hs.adds, hcq index⟩
  | rearmed arms cqe st new hreactor hcqe hpoll hst hdata hgen hmask hnew ht =>
      subst ht
      have hnewOk : EntryOk (unpackFd cqe.data) new :=
        hnew ▸ (hs.ok _ st hst).rearm hmask
      refine ⟨hs.ok.update rfl ?_, htokens, ?_, hcq index⟩
      · intro other hother
        exact Option.some.inj hother ▸ hnewOk
      · intro add hadd
        have hadds := hs.adds
        rw [hreactor] at hadds
        simp only [Backend.put_pendingAdds, Reactor.adds_handling, List.mem_append,
          List.mem_singleton] at hadd hadds
        rcases hadd with hold | hold | rfl
        · exact hadds add (.inl hold)
        · exact hadds add (.inr hold)
        · exact hnewOk.unpackFd_userData

/-- Through every step, each word in flight is the one that its entry names, and in
flight once. -/
theorem step_inv {s t : State} {a : Action} (hs : Inv s)
    (hstep : step s a = some t) : Inv t := by
  cases a with
  | addFd fd =>
      simp only [step, Option.ite_none_right_eq_some, Option.some.injEq] at hstep
      obtain ⟨-, rfl⟩ := hstep
      refine ⟨hs.ok.addFd fd, (addFd_moves hs fd).tokens_le hs, ?_, hs.cq⟩
      cases hst : s.backend.polls fd with
      | none =>
          simp only [State.addFd, Backend.addFd_of_none hst]
          intro add hadd
          simp only [List.mem_append, List.mem_singleton] at hadd
          rcases hadd with (hold | rfl) | hold
          · exact hs.adds add (List.mem_append_left _ hold)
          · exact fresh_userData fd
          · exact hs.adds add (List.mem_append_right _ hold)
      | some st =>
          simp only [State.addFd, Backend.addFd_of_some hst (hs.ok fd st hst)]
          exact hs.adds
  | removeFd fd =>
      obtain rfl := Option.some.inj hstep
      refine ⟨hs.ok.removeFd fd, (removeFd_moves hs fd).tokens_le hs, ?_, hs.cq⟩
      cases hst : s.backend.polls fd with
      | none =>
          simp only [State.removeFd, Backend.removeFd_of_none hst]
          exact hs.adds
      | some st =>
          simp only [State.removeFd, Backend.removeFd_of_some hst (hs.ok fd st hst),
            requestCancel_pendingAdds]
          exact hs.adds
  | assign fd file =>
      simp only [step, Option.ite_none_left_eq_some, Option.some.injEq] at hstep
      obtain ⟨-, rfl⟩ := hstep
      exact { hs with }
  | flush =>
      have hmoves := flush_moves hstep
      simp only [step, State.flush] at hstep
      split at hstep
      · next hreactor =>
          obtain rfl := Option.some.inj hstep
          refine ⟨hs.ok, hmoves.tokens_le hs, ?_, hs.cq⟩
          simpa [hreactor] using hs.adds
      · next hreactor =>
          obtain rfl := Option.some.inj hstep
          refine ⟨hs.ok, hmoves.tokens_le hs, ?_, hs.cq⟩
          simpa [hreactor] using hs.adds
      · simp at hstep
  | submit =>
      have hmoves := submit_moves hs hstep
      simp only [step, State.submit] at hstep
      split at hstep
      · next final remove removes adds hreactor =>
          obtain rfl := Option.some.inj hstep
          refine ⟨?_, hmoves.tokens_le hs, ?_, pollRemove_cq hs remove⟩
          · simpa [pollRemove_frame] using hs.ok
          · simpa [pollRemove_frame, hreactor] using hs.adds
      · next final add adds hreactor =>
          obtain rfl := Option.some.inj hstep
          exact pollAdd_inv hs (by simp [hreactor]) _ rfl
      · next add arms hreactor =>
          obtain rfl := Option.some.inj hstep
          exact pollAdd_inv hs (by simp [hreactor]) _ rfl
      · simp at hstep
  | turn completed =>
      obtain ⟨hadds, -, reactor, rfl⟩ := turn_adds hstep
      refine ⟨hs.ok, ?_, ?_, hs.cq⟩
      · simpa only [State.tokens, hadds] using hs.tokens
      · simpa only [hadds] using hs.adds
  | handle index => exact handle_inv hs (handle_cases hs hstep)
  | complete index res =>
      obtain ⟨poll, hpoll, rfl⟩ := Option.map_eq_some_iff.mp hstep
      refine ⟨hs.ok, (complete_moves hs hpoll res).tokens_le hs, hs.adds, ?_⟩
      intro cqe hcqe
      rcases List.mem_append.mp hcqe with hold | hnew
      · exact hs.cq cqe hold
      · obtain rfl := List.mem_singleton.mp hnew
        exact .inl (by simp [isPoll, hs.armed_tag (List.mem_of_getElem? hpoll)])

theorem start_inv : Inv system.start where
  ok fd st hst := by simp [system] at hst
  tokens word := by simp [system, State.tokens, inKernel]
  adds := by simp [system]
  cq := by simp [system]

end Ring

end Uring

end Iocoro
