/-
What the kernel polls once everything `backend_uring` was asked for has been
submitted and handled.
-/
import Iocoro.UringRing

namespace Iocoro

namespace Uring

namespace Ring

/-- Nothing is left to submit and every completion has been handled. -/
def State.quiescent (s : State) : Prop :=
  s.backend.pendingAdds = [] ∧ s.backend.pendingRemoves = [] ∧
    s.reactor.adds = [] ∧ s.reactor.removes = [] ∧ s.cq = []

instance (s : State) : Decidable s.quiescent :=
  inferInstanceAs (Decidable (s.backend.pendingAdds = [] ∧
    s.backend.pendingRemoves = [] ∧ s.reactor.adds = [] ∧ s.reactor.removes = [] ∧
    s.cq = []))

/-- The kernel polls nothing for a removed descriptor, and for a registered one the
file it denotes, once. -/
structure PollsRegistered (s : State) : Prop where
  removed : ∀ fd, s.registered fd = false →
    s.armed.filter (fun poll => unpackFd poll.userData = fd) = []
  added : ∀ fd, s.registered fd = true → ∃ poll,
    s.armed.filter (fun poll => unpackFd poll.userData = fd) = [poll] ∧
      s.files fd = some poll.file

/-- `remove_fd` is not called while the poll of its descriptor waits in
`pending_adds_`, and no poll is armed again under a generation that does not fit in
its word. -/
def State.orderly (s : State) : Action → Bool
  | .removeFd fd => s.backend.pendingAdds.all fun add => add.fd != fd
  | .handle index => s.cq[index]?.all fun cqe =>
      (s.backend.polls (unpackFd cqe.data)).all fun st =>
        st.desiredMask == 0 || decide (st.nextGen.toNat < 2 ^ 30)
  | _ => true

/-! ### The invariant -/

/-- A cancellation of the poll is still to be submitted. -/
def cancels (removes : List PendingRemove) (word : BitVec 64) : Prop :=
  ∃ remove ∈ removes, remove.userData = word

/-- The poll of an entry: where it is cancelled, the cancellation will find it armed;
where it is not, it is armed on the file its descriptor denotes. -/
structure Tracked (s : State) (fd : BitVec 32) (st : PollState) : Prop where
  gen : st.activeGen.toNat < 2 ^ 30
  unwanted : st.desiredMask = 0 → st.cancelRequested = true
  pending : st.cancelRequested = true → ∀ add ∈ s.backend.pendingAdds,
    add.userData ≠ st.activeUserData
  taken : st.cancelRequested = true → ∀ add ∈ s.reactor.adds,
    add.userData = st.activeUserData →
      cancels s.backend.pendingRemoves st.activeUserData
  armed : st.cancelRequested = true → ∀ poll ∈ s.armed,
    poll.userData = st.activeUserData →
      cancels (s.backend.pendingRemoves ++ s.reactor.removes) st.activeUserData
  files : st.cancelRequested = false → ∀ poll ∈ s.armed,
    poll.userData = st.activeUserData → s.files fd = some poll.file

structure Quiet (s : State) : Prop where
  inv : Inv s
  whole : ∀ word, named s.backend word ≤ s.tokens.count word
  wanted : ∀ fd, s.registered fd = true ↔
    ∃ st, s.backend.polls fd = some st ∧ st.desiredMask ≠ 0
  tracked : ∀ fd st, s.backend.polls fd = some st → Tracked s fd st

theorem Moves.whole {s t : State} (hmoves : Moves s t)
    (hs : ∀ word, named s.backend word ≤ s.tokens.count word) (word : BitVec 64) :
    named t.backend word ≤ t.tokens.count word := by
  have hmove := hmoves word
  have hle := hs word
  omega

/-- The poll of an entry at rest is armed, on the right file, and wanted. -/
theorem Quiet.entry {s : State} (hs : Quiet s) (hquiescent : s.quiescent)
    {fd : BitVec 32} {st : PollState} (hst : s.backend.polls fd = some st) :
    st.desiredMask ≠ 0 ∧ ∃ poll ∈ s.armed, poll.userData = st.activeUserData ∧
      s.files fd = some poll.file := by
  obtain ⟨hadds, hremoves, hlocal, hlocalRemoves, hcq⟩ := hquiescent
  have hok := hs.inv.ok fd st hst
  have htracked := hs.tracked fd st hst
  have hnamed : 0 < named s.backend st.activeUserData := by
    rw [named, hok.unpackFd_userData, hst]
    simp
  have hmem : st.activeUserData ∈ s.tokens :=
    List.count_pos_iff.mp (Nat.lt_of_lt_of_le hnamed (hs.whole _))
  obtain ⟨poll, hpoll, hdata⟩ : ∃ poll ∈ s.armed,
      poll.userData = st.activeUserData := by
    simpa [mem_tokens, hadds, hlocal, hcq] using hmem
  have hfree : st.cancelRequested = false := by
    by_contra hcancelled
    obtain ⟨remove, hremove, -⟩ :=
      htracked.armed (by simpa using hcancelled) poll hpoll hdata
    simp [hremoves, hlocalRemoves] at hremove
  refine ⟨fun hmask => ?_, poll, hpoll, hdata, htracked.files hfree poll hpoll hdata⟩
  rw [htracked.unwanted hmask] at hfree
  exact Bool.noConfusion hfree

theorem Inv.armed_userData {s : State} (hs : Inv s) {fd : BitVec 32} {st : PollState}
    (hst : s.backend.polls fd = some st) {poll : Poll} (hpoll : poll ∈ s.armed)
    (hfd : unpackFd poll.userData = fd) : poll.userData = st.activeUserData := by
  subst hfd
  obtain ⟨found, hfound, hdata, -⟩ :=
    hs.entry (mem_tokens.mpr (.inr (.inl ⟨poll, hpoll, rfl⟩)))
  rw [hst] at hfound
  rw [← hdata, Option.some.inj hfound]

theorem named_le_one (b : Backend) (word : BitVec 64) : named b word ≤ 1 := by
  unfold named
  refine (List.count_le_length).trans ?_
  cases b.polls (unpackFd word) <;> simp

/-- A descriptor has at most one armed poll. -/
theorem Inv.filter_armed {s : State} (hs : Inv s) {fd : BitVec 32} {st : PollState}
    (hst : s.backend.polls fd = some st) {poll : Poll} (hpoll : poll ∈ s.armed)
    (hdata : poll.userData = st.activeUserData) :
    s.armed.filter (fun poll => unpackFd poll.userData = fd) = [poll] := by
  have hok := hs.ok fd st hst
  have hsame : ∀ other ∈ s.armed,
      (decide (unpackFd other.userData = fd) = true ↔
        (other.userData == st.activeUserData) = true) := by
    intro other hother
    simp only [decide_eq_true_eq, beq_iff_eq]
    exact ⟨hs.armed_userData hst hother, fun h => h ▸ hok.unpackFd_userData⟩
  have hcount : (s.armed.filter fun poll => unpackFd poll.userData = fd).length =
      (s.armed.map Poll.userData).count st.activeUserData := by
    rw [← List.countP_eq_length_filter, List.count, List.countP_map]
    exact List.countP_congr hsame
  have hle : (s.armed.map Poll.userData).count st.activeUserData ≤ 1 := by
    have htokens := (hs.tokens st.activeUserData).trans (named_le_one _ _)
    simp only [State.tokens, inKernel, List.count_append] at htokens
    omega
  have hmem : poll ∈ s.armed.filter fun poll => unpackFd poll.userData = fd :=
    List.mem_filter.mpr ⟨hpoll, (hsame poll hpoll).mpr (beq_iff_eq.mpr hdata)⟩
  have hone := List.length_pos_of_mem hmem
  obtain ⟨other, hother⟩ := List.length_eq_one_iff.mp (by omega :
    (s.armed.filter fun poll => unpackFd poll.userData = fd).length = 1)
  rw [hother] at hmem ⊢
  rw [List.mem_singleton.mp hmem]

theorem Quiet.pollsRegistered {s : State} (hs : Quiet s)
    (hquiescent : s.quiescent) : PollsRegistered s where
  removed := by
    intro fd hremoved
    apply List.filter_eq_nil_iff.mpr
    intro poll hpoll hfd
    obtain ⟨st, hst, -, -⟩ :=
      hs.inv.entry (mem_tokens.mpr (.inr (.inl ⟨poll, hpoll, rfl⟩)))
    rw [of_decide_eq_true hfd] at hst
    have hregistered := (hs.wanted fd).mpr ⟨st, hst, (hs.entry hquiescent hst).1⟩
    exact Bool.noConfusion (hremoved.symm.trans hregistered)
  added := by
    intro fd hregistered
    obtain ⟨st, hst, -⟩ := (hs.wanted fd).mp hregistered
    obtain ⟨-, poll, hpoll, hdata, hfile⟩ := hs.entry hquiescent hst
    exact ⟨poll, hs.inv.filter_armed hst hpoll hdata, hfile⟩

/-! ### Steps -/

/-- A step that does not touch the entry and takes nothing from its poll. -/
theorem Tracked.keep {s t : State} {fd : BitVec 32} {st : PollState}
    (h : Tracked s fd st)
    (hpending : ∀ add ∈ t.backend.pendingAdds, add.userData = st.activeUserData →
      add ∈ s.backend.pendingAdds)
    (htaken : ∀ add ∈ t.reactor.adds, add.userData = st.activeUserData →
      add ∈ s.reactor.adds)
    (harmed : ∀ poll ∈ t.armed, poll.userData = st.activeUserData → poll ∈ s.armed)
    (hremoves : cancels s.backend.pendingRemoves st.activeUserData →
      cancels t.backend.pendingRemoves st.activeUserData)
    (hlocal : ∀ poll ∈ t.armed, poll.userData = st.activeUserData →
      cancels s.reactor.removes st.activeUserData →
      cancels (t.backend.pendingRemoves ++ t.reactor.removes) st.activeUserData)
    (hfiles : st.cancelRequested = false → t.files fd = s.files fd) :
    Tracked t fd st where
  gen := h.gen
  unwanted := h.unwanted
  pending hcancel add hadd hdata :=
    h.pending hcancel add (hpending add hadd hdata) hdata
  taken hcancel add hadd hdata :=
    hremoves (h.taken hcancel add (htaken add hadd hdata) hdata)
  armed := by
    intro hcancel poll hpoll hdata
    obtain ⟨remove, hremove, hword⟩ :=
      h.armed hcancel poll (harmed poll hpoll hdata) hdata
    rcases List.mem_append.mp hremove with hshared | htakenOut
    · obtain ⟨other, hother, hsame⟩ := hremoves ⟨remove, hshared, hword⟩
      exact ⟨other, List.mem_append_left _ hother, hsame⟩
    · exact hlocal poll hpoll hdata ⟨remove, htakenOut, hword⟩
  files hfree poll hpoll hdata :=
    (hfiles hfree).trans (h.files hfree poll (harmed poll hpoll hdata) hdata)

theorem cancels_append_right {removes more : List PendingRemove} {word : BitVec 64}
    (h : cancels removes word) : cancels (removes ++ more) word := by
  obtain ⟨remove, hremove, hword⟩ := h
  exact ⟨remove, List.mem_append_left _ hremove, hword⟩

theorem cancels_append_left {removes more : List PendingRemove} {word : BitVec 64}
    (h : cancels removes word) : cancels (more ++ removes) word := by
  obtain ⟨remove, hremove, hword⟩ := h
  exact ⟨remove, List.mem_append_right _ hremove, hword⟩

/-- The same where the lists of cancellations stay or grow. -/
theorem Tracked.grow {s t : State} {fd : BitVec 32} {st : PollState}
    (h : Tracked s fd st)
    (hpending : ∀ add ∈ t.backend.pendingAdds, add.userData = st.activeUserData →
      add ∈ s.backend.pendingAdds)
    (htaken : ∀ add ∈ t.reactor.adds, add.userData = st.activeUserData →
      add ∈ s.reactor.adds)
    (harmed : ∀ poll ∈ t.armed, poll.userData = st.activeUserData → poll ∈ s.armed)
    (hremoves : ∀ remove ∈ s.backend.pendingRemoves,
      remove ∈ t.backend.pendingRemoves)
    (hlocal : t.reactor.removes = s.reactor.removes)
    (hfiles : st.cancelRequested = false → t.files fd = s.files fd) :
    Tracked t fd st := by
  apply h.keep hpending htaken harmed
  · rintro ⟨remove, hremove, hword⟩
    exact ⟨remove, hremoves remove hremove, hword⟩
  · intro _ _ _ hcancels
    rw [hlocal]
    exact cancels_append_left hcancels
  · exact hfiles

theorem polls_update_cases {b t : Backend} {fd other : BitVec 32}
    {entry : Option PollState} {st : PollState}
    (hpolls : t.polls = Function.update b.polls fd entry)
    (hst : t.polls other = some st) :
    (other = fd ∧ entry = some st) ∨ (other ≠ fd ∧ b.polls other = some st) := by
  rw [hpolls] at hst
  by_cases heq : other = fd
  · subst heq
    rw [Function.update_self] at hst
    exact .inl ⟨rfl, hst⟩
  · rw [Function.update_of_ne heq] at hst
    exact .inr ⟨heq, hst⟩

/-- Words of different descriptors differ. -/
theorem userData_ne {fd other : BitVec 32} {st : PollState} {word : BitVec 64}
    (hok : EntryOk other st) (hword : unpackFd word = fd) (hne : other ≠ fd) :
    word ≠ st.activeUserData := by
  rintro rfl
  exact hne (hok.unpackFd_userData.symm.trans hword)

/-- Calls set what is wanted of their descriptor. -/
theorem wanted_update {s t : State} {fd : BitVec 32} (entry : Option PollState)
    {value : Bool}
    (hs : ∀ fd, s.registered fd = true ↔
      ∃ st, s.backend.polls fd = some st ∧ st.desiredMask ≠ 0)
    (hregistered : t.registered = Function.update s.registered fd value)
    (hpolls : t.backend.polls = Function.update s.backend.polls fd entry)
    (hvalue : value = true ↔ ∃ st, entry = some st ∧ st.desiredMask ≠ 0)
    (other : BitVec 32) : t.registered other = true ↔
      ∃ st, t.backend.polls other = some st ∧ st.desiredMask ≠ 0 := by
  rw [hregistered, hpolls]
  by_cases heq : other = fd
  · subst heq
    simpa using hvalue
  · simpa [heq] using hs other

theorem Inv.armed_ne_add {s : State} (hs : Inv s) {add : PendingAdd} {poll : Poll}
    (hadd : add ∈ s.backend.pendingAdds ++ s.reactor.adds) (hpoll : poll ∈ s.armed) :
    poll.userData ≠ add.userData := by
  intro hsame
  have htokens := (hs.tokens add.userData).trans (named_le_one _ _)
  rw [State.tokens, ← List.map_append, inKernel, List.count_append,
    List.count_append] at htokens
  have hin : 0 < ((s.backend.pendingAdds ++ s.reactor.adds).map
      PendingAdd.userData).count add.userData :=
    List.count_pos_iff.mpr (List.mem_map_of_mem hadd)
  have harmed : 0 < (s.armed.map Poll.userData).count add.userData :=
    List.count_pos_iff.mpr (hsame ▸ List.mem_map_of_mem hpoll)
  omega

/-- A poll that was just armed in the table is on its way to the kernel. -/
theorem Tracked.of_new {s : State} (hs : Inv s) {fd : BitVec 32} {st : PollState}
    (hgen : st.activeGen.toNat < 2 ^ 30) (hmask : st.desiredMask ≠ 0)
    (hfree : st.cancelRequested = false) {add : PendingAdd}
    (hadd : add ∈ s.backend.pendingAdds ++ s.reactor.adds)
    (hdata : add.userData = st.activeUserData) : Tracked s fd st where
  gen := hgen
  unwanted h := absurd h hmask
  pending h := Bool.noConfusion (hfree.symm.trans h)
  taken h := Bool.noConfusion (hfree.symm.trans h)
  armed h := Bool.noConfusion (hfree.symm.trans h)
  files _ _ hpoll hword :=
    absurd (hword.trans hdata.symm) (hs.armed_ne_add hadd hpoll)

theorem addFd_quiet {s : State} (hs : Quiet s) {fd : BitVec 32}
    (hinv : Inv (s.addFd fd)) : Quiet (s.addFd fd) := by
  have hwhole := (addFd_moves hs.inv fd).whole hs.whole
  cases hst : s.backend.polls fd with
  | none =>
      have hadd := Backend.addFd_of_none hst
      have hpolls : (s.addFd fd).backend.polls =
          Function.update s.backend.polls fd (some (fresh fd)) := by
        simp only [State.addFd, hadd, Backend.put_polls]
      have hadds : (s.addFd fd).backend.pendingAdds =
          s.backend.pendingAdds ++ [(fresh fd).pendingAdd fd] := by
        simp only [State.addFd, hadd]
      have hremoves : (s.addFd fd).backend.pendingRemoves =
          s.backend.pendingRemoves := by
        simp only [State.addFd, hadd, Backend.put_pendingRemoves]
      refine ⟨hinv, hwhole, ?_, ?_⟩
      · apply wanted_update _ hs.wanted rfl hpolls
        simp [fresh, PollState.arm, pollMask, pollIn]
      · intro other st hnew
        rcases polls_update_cases hpolls hnew with ⟨rfl, hentry⟩ | ⟨hne, hold⟩
        · obtain rfl := Option.some.inj hentry
          have hmem : (fresh other).pendingAdd other ∈
              (s.addFd other).backend.pendingAdds := by simp [hadds]
          exact Tracked.of_new hinv (by simp [fresh, PollState.arm])
            (by simp [fresh, PollState.arm, pollMask, pollIn]) rfl
            (List.mem_append_left _ hmem) rfl
        · have hok := hs.inv.ok other st hold
          apply (hs.tracked other st hold).grow
          · intro add hmem hdata
            rw [hadds] at hmem
            rcases List.mem_append.mp hmem with hbefore | hnewAdd
            · exact hbefore
            · rw [List.mem_singleton.mp hnewAdd] at hdata
              exact absurd hdata (userData_ne hok (fresh_userData fd) hne)
          · exact fun _ h _ => h
          · exact fun _ h _ => h
          · rw [hremoves]
            exact fun _ h => h
          · rfl
          · exact fun _ => rfl
  | some old =>
      have hok := hs.inv.ok fd old hst
      have hadd := Backend.addFd_of_some hst hok
      have hpolls : (s.addFd fd).backend.polls = Function.update s.backend.polls fd
          (some { old with desiredMask := pollMask }) := by
        simp only [State.addFd, hadd, Backend.put_polls]
      have hsame : (s.addFd fd).backend.pendingAdds = s.backend.pendingAdds ∧
          (s.addFd fd).backend.pendingRemoves = s.backend.pendingRemoves := by
        simp [State.addFd, hadd]
      have hkeep : ∀ other st, Tracked s other st → Tracked (s.addFd fd) other st := by
        intro other st h
        apply h.grow
        · rw [hsame.1]
          exact fun _ h _ => h
        · exact fun _ h _ => h
        · exact fun _ h _ => h
        · rw [hsame.2]
          exact fun _ h => h
        · rfl
        · exact fun _ => rfl
      refine ⟨hinv, hwhole, ?_, ?_⟩
      · apply wanted_update _ hs.wanted rfl hpolls
        simp [pollMask, pollIn]
      · intro other st hnew
        rcases polls_update_cases hpolls hnew with ⟨rfl, hentry⟩ | ⟨hne, hold⟩
        · obtain rfl := Option.some.inj hentry
          exact { hkeep other old (hs.tracked other old hst) with
            unwanted := by simp [pollMask, pollIn] }
        · exact hkeep other st (hs.tracked other st hold)

theorem requestCancel_pendingRemoves (b : Backend) (fd : BitVec 32)
    (st : PollState) :
    (∀ remove ∈ b.pendingRemoves, remove ∈ (b.requestCancel fd st).pendingRemoves) ∧
    (st.cancelRequested = true ∨
      cancels (b.requestCancel fd st).pendingRemoves st.activeUserData) := by
  unfold Backend.requestCancel
  split
  · next hrequested => exact ⟨fun _ h => h, .inl hrequested⟩
  · refine ⟨fun _ h => List.mem_append_left _ h, .inr ?_⟩
    exact ⟨⟨fd, st.activeUserData⟩, by simp, rfl⟩

/-- The entry after `remove_fd`: the cancellation it asks for, or the one asked for
before, will find the poll. -/
theorem Tracked.removed {s t : State} {fd : BitVec 32} {st : PollState}
    (h : Tracked s fd st) (hok : EntryOk fd st)
    (hadds : ∀ add ∈ t.backend.pendingAdds, unpackFd add.userData ≠ fd)
    (hreactor : t.reactor = s.reactor) (harmed : t.armed = s.armed)
    (hremoves : ∀ remove ∈ s.backend.pendingRemoves,
      remove ∈ t.backend.pendingRemoves)
    (hasked : st.cancelRequested = true ∨
      cancels t.backend.pendingRemoves st.activeUserData) :
    Tracked t fd { st with desiredMask := 0, cancelRequested := true } where
  gen := h.gen
  unwanted _ := rfl
  pending _ add hadd hdata := hadds add hadd (hdata ▸ hok.unpackFd_userData)
  taken := by
    intro _ add hadd hdata
    rcases hasked with hbefore | hnew
    · obtain ⟨remove, hremove, hword⟩ := h.taken hbefore add (hreactor ▸ hadd) hdata
      exact ⟨remove, hremoves remove hremove, hword⟩
    · exact hnew
  armed := by
    intro _ poll hpoll hdata
    rcases hasked with hbefore | hnew
    · obtain ⟨remove, hremove, hword⟩ := h.armed hbefore poll (harmed ▸ hpoll) hdata
      refine ⟨remove, ?_, hword⟩
      rw [hreactor]
      rcases List.mem_append.mp hremove with hshared | htaken
      · exact List.mem_append_left _ (hremoves remove hshared)
      · exact List.mem_append_right _ htaken
    · exact cancels_append_right hnew
  files hfree := by simp at hfree

theorem removeFd_quiet {s : State} (hs : Quiet s) {fd : BitVec 32}
    (horderly : s.orderly (.removeFd fd) = true) (hinv : Inv (s.removeFd fd)) :
    Quiet (s.removeFd fd) := by
  have hwhole := (removeFd_moves hs.inv fd).whole hs.whole
  cases hst : s.backend.polls fd with
  | none =>
      have hremove := Backend.removeFd_of_none hst
      have hbackend : (s.removeFd fd).backend = s.backend := by
        simp only [State.removeFd, hremove]
      refine ⟨hinv, hwhole, ?_, ?_⟩
      · apply wanted_update none hs.wanted rfl
        · rw [hbackend, ← hst, Function.update_eq_self]
        · simp
      · intro other st hold
        rw [hbackend] at hold
        apply (hs.tracked other st hold).grow
        · rw [hbackend]
          exact fun _ h _ => h
        · exact fun _ h _ => h
        · exact fun _ h _ => h
        · rw [hbackend]
          exact fun _ h => h
        · rfl
        · exact fun _ => rfl
  | some old =>
      have hok := hs.inv.ok fd old hst
      have hremove := Backend.removeFd_of_some hst hok
      have hpolls : (s.removeFd fd).backend.polls = Function.update s.backend.polls fd
          (some { old with desiredMask := 0, cancelRequested := true }) := by
        simp only [State.removeFd, hremove, requestCancel_polls]
      have hadds : (s.removeFd fd).backend.pendingAdds = s.backend.pendingAdds := by
        simp only [State.removeFd, hremove, requestCancel_pendingAdds]
      obtain ⟨hremoves, hasked⟩ := requestCancel_pendingRemoves s.backend fd
        { old with desiredMask := 0 }
      have hbackend : (s.removeFd fd).backend =
          s.backend.requestCancel fd { old with desiredMask := 0 } := by
        simp only [State.removeFd, hremove]
      rw [← hbackend] at hremoves hasked
      refine ⟨hinv, hwhole, ?_, ?_⟩
      · apply wanted_update _ hs.wanted rfl hpolls
        simp
      · intro other st hnew
        rcases polls_update_cases hpolls hnew with ⟨rfl, hentry⟩ | ⟨hne, hold⟩
        · obtain rfl := Option.some.inj hentry
          refine Tracked.removed (t := s.removeFd other) (hs.tracked other old hst)
            hok ?_ rfl rfl hremoves hasked
          intro add hadd
          rw [hadds] at hadd
          rw [hs.inv.adds add (List.mem_append_left _ hadd)]
          simpa using List.all_eq_true.mp horderly add hadd
        · apply (hs.tracked other st hold).grow
          · rw [hadds]
            exact fun _ h _ => h
          · exact fun _ h _ => h
          · exact fun _ h _ => h
          · exact hremoves
          · rfl
          · exact fun _ => rfl

theorem assign_quiet {s : State} (hs : Quiet s) {fd : BitVec 32}
    (hremoved : s.registered fd = false) (file : Option Nat) :
    Quiet { s with files := Function.update s.files fd file } := by
  refine ⟨{ hs.inv with }, hs.whole, hs.wanted, ?_⟩
  intro other st hst
  have h := hs.tracked other st hst
  apply h.grow
  · exact fun _ h _ => h
  · exact fun _ h _ => h
  · exact fun _ h _ => h
  · exact fun _ h => h
  · rfl
  · intro hfree
    apply Function.update_of_ne
    rintro rfl
    have hmask : st.desiredMask ≠ 0 := by
      intro hzero
      rw [h.unwanted hzero] at hfree
      exact Bool.noConfusion hfree
    have hregistered := (hs.wanted other).mpr ⟨st, hst, hmask⟩
    exact Bool.noConfusion (hremoved.symm.trans hregistered)

/-- The shared lists are taken: cancelled polls are not among the polls taken, so
their cancellations come in time. -/
theorem taken_quiet {s : State} (hs : Quiet s) (final : Bool)
    (hremoves : s.reactor.removes = [])
    (hinv : Inv { s with
      backend := { s.backend with pendingAdds := [], pendingRemoves := [] }
      reactor := .flushing final s.backend.pendingRemoves s.backend.pendingAdds })
    (hmoves : Moves s { s with
      backend := { s.backend with pendingAdds := [], pendingRemoves := [] }
      reactor := .flushing final s.backend.pendingRemoves s.backend.pendingAdds }) :
    Quiet { s with
      backend := { s.backend with pendingAdds := [], pendingRemoves := [] }
      reactor := .flushing final s.backend.pendingRemoves s.backend.pendingAdds } := by
  refine ⟨hinv, hmoves.whole hs.whole, hs.wanted, ?_⟩
  intro fd st hst
  have h := hs.tracked fd st hst
  exact {
    gen := h.gen
    unwanted := h.unwanted
    pending := by simp
    taken := fun hcancel add hadd hdata => absurd hdata (h.pending hcancel add hadd)
    armed := by
      intro hcancel poll hpoll hdata
      have hcancels := h.armed hcancel poll hpoll hdata
      rw [hremoves, List.append_nil] at hcancels
      exact hcancels
    files := h.files }

theorem flush_quiet {s t : State} (hs : Quiet s) (hinv : Inv t)
    (hstep : s.flush = some t) : Quiet t := by
  have hmoves := flush_moves hstep
  unfold State.flush at hstep
  simp only at hstep
  split at hstep
  · next hreactor =>
      obtain rfl := Option.some.inj hstep
      exact taken_quiet hs false (by simp [hreactor]) hinv hmoves
  · next hreactor =>
      obtain rfl := Option.some.inj hstep
      exact taken_quiet hs true (by simp [hreactor]) hinv hmoves
  · simp at hstep

/-- After its cancellation no armed poll has the word. -/
theorem pollRemove_armed {s : State} (hs : Inv s) (remove : PendingRemove) :
    ∀ poll ∈ (s.pollRemove remove).armed,
      poll ∈ s.armed ∧ poll.userData ≠ remove.userData := by
  unfold State.pollRemove
  simp only
  split
  · next hany =>
      obtain ⟨found, hfound, hperm⟩ := eraseP_perm hany
      intro poll hpoll
      refine ⟨List.mem_of_mem_eraseP hpoll, fun hsame => ?_⟩
      have htokens := (hs.tokens remove.userData).trans (named_le_one _ _)
      have hcount := (hperm.map Poll.userData).count_eq remove.userData
      rw [List.map_cons, hfound, List.count_cons_self] at hcount
      have hleft : 0 < ((s.armed.eraseP (Poll.has remove.userData)).map
          Poll.userData).count remove.userData :=
        List.count_pos_iff.mpr (List.mem_map.mpr ⟨poll, hpoll, hsame⟩)
      simp only [State.tokens, inKernel, List.count_append] at htokens
      omega
  · next hnone =>
      intro poll hpoll
      refine ⟨hpoll, fun hsame => hnone ?_⟩
      exact List.any_eq_true.mpr ⟨poll, hpoll, by simp [Poll.has, hsame]⟩

theorem pollRemove_quiet {s : State} (hs : Quiet s) {final : Bool}
    {remove : PendingRemove} {removes : List PendingRemove} {adds : List PendingAdd}
    (hreactor : s.reactor = .flushing final (remove :: removes) adds)
    (hinv : Inv { s.pollRemove remove with reactor := .flushing final removes adds })
    (hmoves : Moves s
      { s.pollRemove remove with reactor := .flushing final removes adds }) :
    Quiet { s.pollRemove remove with reactor := .flushing final removes adds } := by
  obtain ⟨hbackend, hfiles, hregistered, -⟩ := pollRemove_frame s remove
  have harmed := pollRemove_armed hs.inv remove
  refine ⟨hinv, hmoves.whole hs.whole, ?_, ?_⟩
  · simpa only [hbackend, hregistered] using hs.wanted
  · intro fd st hst
    simp only [hbackend] at hst
    apply (hs.tracked fd st hst).keep
    · simp only [hbackend]
      exact fun _ h _ => h
    · rw [hreactor]
      exact fun _ h _ => h
    · exact fun poll h _ => (harmed poll h).1
    · simp only [hbackend]
      exact id
    · intro poll hpoll hdata
      rintro ⟨other, hother, hword⟩
      rw [hreactor, Reactor.removes_flushing, List.mem_cons] at hother
      rcases hother with rfl | hrest
      · exact absurd (hdata.trans hword.symm) (harmed poll hpoll).2
      · exact ⟨other, List.mem_append_right _ hrest, hword⟩
    · exact fun _ => congrFun hfiles fd

theorem pollAdd_quiet {s : State} (hs : Quiet s) {add : PendingAdd}
    {rest : List PendingAdd} {reactor : Reactor} (hadds : s.reactor.adds = add :: rest)
    (hrest : reactor.adds = rest) (hremoves : reactor.removes = s.reactor.removes)
    (hinv : Inv { s.pollAdd add with reactor }) :
    Quiet { s.pollAdd add with reactor } := by
  obtain ⟨hbackend, hfiles, hregistered, -⟩ := pollAdd_frame s add
  have hmem : add ∈ s.reactor.adds := by
    rw [hadds]
    exact List.mem_cons_self
  have hfd : unpackFd add.userData = add.fd :=
    hs.inv.adds add (List.mem_append_right _ hmem)
  have harmed : ∀ poll ∈ (s.pollAdd add).armed, poll ∈ s.armed ∨
      (poll.userData = add.userData ∧ s.files add.fd = some poll.file) := by
    unfold State.pollAdd
    split
    · next file hfile =>
        intro poll hpoll
        rcases List.mem_append.mp hpoll with hold | hnew
        · exact .inl hold
        · obtain rfl := List.mem_singleton.mp hnew
          exact .inr ⟨rfl, hfile⟩
    · exact fun poll hpoll => .inl hpoll
  refine ⟨hinv, (pollAdd_moves hs.inv hadds reactor hrest).whole hs.whole, ?_, ?_⟩
  · simpa only [hbackend, hregistered] using hs.wanted
  · intro fd st hst
    simp only [hbackend] at hst
    have h := hs.tracked fd st hst
    have hok := hs.inv.ok fd st hst
    exact {
      gen := h.gen
      unwanted := h.unwanted
      pending := by simpa only [hbackend] using h.pending
      taken := by
        intro hcancel other hother hdata
        simp only [hrest] at hother
        simp only [hbackend]
        refine h.taken hcancel other ?_ hdata
        rw [hadds]
        exact List.mem_cons_of_mem _ hother
      armed := by
        intro hcancel poll hpoll hdata
        simp only [hbackend, hremoves]
        rcases harmed poll hpoll with hold | ⟨hsame, -⟩
        · exact h.armed hcancel poll hold hdata
        · exact cancels_append_right
            (h.taken hcancel add hmem (hsame.symm.trans hdata))
      files := by
        intro hfree poll hpoll hdata
        simp only [hfiles]
        rcases harmed poll hpoll with hold | ⟨hsame, hfile⟩
        · exact h.files hfree poll hold hdata
        · rw [← hok.unpackFd_userData, ← hdata, hsame, hfd]
          exact hfile }

theorem wanted_erase {s : State} {fd : BitVec 32} {st : PollState}
    (hs : ∀ fd, s.registered fd = true ↔
      ∃ st, s.backend.polls fd = some st ∧ st.desiredMask ≠ 0)
    (hst : s.backend.polls fd = some st) {entry : Option PollState}
    (hentry : (∃ new, entry = some new ∧ new.desiredMask ≠ 0) ↔ st.desiredMask ≠ 0)
    (other : BitVec 32) : s.registered other = true ↔
      ∃ st, Function.update s.backend.polls fd entry other = some st ∧
        st.desiredMask ≠ 0 := by
  by_cases heq : other = fd
  · subst heq
    simp only [Function.update_self, hs other, hst, hentry, Option.some.injEq,
      exists_eq_left']
  · simpa [heq] using hs other

theorem handle_quiet {s t : State} (hs : Quiet s) {index : Nat} (hinv : Inv t)
    (horderly : s.orderly (.handle index) = true)
    (hhandles : Handles s t index) : Quiet t := by
  have hmoves : Moves s t := by
    rcases hhandles.moves hs.inv with hmoves | ⟨⟨fd, st, hst, hgen⟩, -, -⟩
    · exact hmoves
    · exact absurd (hs.tracked fd st hst).gen hgen
  have hwhole := hmoves.whole hs.whole
  cases hhandles with
  | ignored arms cqe hreactor hcqe hpoll ht =>
      subst ht
      exact ⟨hinv, hwhole, hs.wanted, fun fd st hst => { hs.tracked fd st hst with }⟩
  | missed arms cqe st hreactor hcqe hpoll hst hdata hgen ht =>
      exact absurd (hs.tracked _ st hst).gen hgen
  | erased arms cqe st hreactor hcqe hpoll hst hdata hgen hmask ht =>
      subst ht
      refine ⟨hinv, hwhole, wanted_erase hs.wanted hst (by simp [hmask]), ?_⟩
      intro other new hnew
      rcases polls_update_cases rfl hnew with ⟨-, hentry⟩ | ⟨-, hold⟩
      · simp at hentry
      · exact { hs.tracked other new hold with }
  | rearmed arms cqe st new hreactor hcqe hpoll hst hdata hgen hmask hnew ht =>
      subst ht
      have hdesired : new.desiredMask = st.desiredMask := by rw [hnew]; rfl
      have hnewGen : new.activeGen.toNat < 2 ^ 30 := by
        have hcases : st.desiredMask = 0 ∨ st.nextGen.toNat < 2 ^ 30 := by
          simpa [State.orderly, hcqe, hst] using horderly
        rw [hnew]
        exact hcases.resolve_left hmask
      have hnewFd : unpackFd new.activeUserData = unpackFd cqe.data := by
        rw [hnew]
        exact ((hs.inv.ok _ st hst).rearm hmask).unpackFd_userData
      refine ⟨hinv, hwhole, wanted_erase hs.wanted hst (by simp [hdesired]), ?_⟩
      intro other entry hentry
      rcases polls_update_cases rfl hentry with ⟨rfl, hsome⟩ | ⟨hne, hold⟩
      · obtain rfl := Option.some.inj hsome
        refine Tracked.of_new hinv hnewGen (hdesired ▸ hmask) (by rw [hnew]; rfl)
          (List.mem_append_right _ (List.mem_append_right _ List.mem_cons_self)) rfl
      · apply (hs.tracked other entry hold).grow
        · exact fun _ h _ => h
        · intro add hadd hword
          rw [hreactor]
          rcases List.mem_append.mp hadd with hbefore | hlast
          · exact hbefore
          · rw [List.mem_singleton.mp hlast] at hword
            exact absurd hword (userData_ne (hs.inv.ok other entry hold) hnewFd hne)
        · exact fun _ h _ => h
        · exact fun _ h => h
        · rw [hreactor]
          rfl
        · exact fun _ => rfl

theorem turn_quiet {s t : State} (hs : Quiet s) {completed : Bool} (hinv : Inv t)
    (hstep : s.turn completed = some t) : Quiet t := by
  obtain ⟨hadds, hremoves, reactor, rfl⟩ := turn_adds hstep
  refine ⟨hinv, ?_, hs.wanted, ?_⟩
  · simpa only [State.tokens, hadds] using hs.whole
  · intro fd st hst
    apply (hs.tracked fd st hst).grow
    · exact fun _ h _ => h
    · rw [hadds]
      exact fun _ h _ => h
    · exact fun _ h _ => h
    · exact fun _ h => h
    · exact hremoves
    · exact fun _ => rfl

theorem complete_quiet {s : State} (hs : Quiet s) {index : Nat} {poll : Poll}
    (hpoll : s.armed[index]? = some poll) (res : Int)
    (hinv : Inv { s with
      armed := s.armed.eraseIdx index
      cq := s.cq ++ [⟨poll.userData, res⟩] }) :
    Quiet { s with
      armed := s.armed.eraseIdx index
      cq := s.cq ++ [⟨poll.userData, res⟩] } := by
  refine ⟨hinv, (complete_moves hs.inv hpoll res).whole hs.whole, hs.wanted, ?_⟩
  intro fd st hst
  apply (hs.tracked fd st hst).grow
  · exact fun _ h _ => h
  · exact fun _ h _ => h
  · exact fun _ h _ => List.mem_of_mem_eraseIdx h
  · exact fun _ h => h
  · rfl
  · exact fun _ => rfl

theorem submit_quiet {s t : State} (hs : Quiet s) (hinv : Inv t)
    (hstep : s.submit = some t) : Quiet t := by
  have hmoves := submit_moves hs.inv hstep
  unfold State.submit at hstep
  split at hstep
  · next final remove removes adds hreactor =>
      obtain rfl := Option.some.inj hstep
      exact pollRemove_quiet hs hreactor hinv hmoves
  · next final add adds hreactor =>
      obtain rfl := Option.some.inj hstep
      exact pollAdd_quiet hs (by simp [hreactor]) rfl (by simp [hreactor]) hinv
  · next add arms hreactor =>
      obtain rfl := Option.some.inj hstep
      exact pollAdd_quiet hs (by simp [hreactor]) rfl (by simp [hreactor]) hinv
  · simp at hstep

theorem step_quiet {s t : State} {a : Action} (hs : Quiet s)
    (horderly : s.orderly a = true) (hstep : step s a = some t) : Quiet t := by
  have hinv := step_inv hs.inv hstep
  cases a with
  | addFd fd =>
      simp only [step, Option.ite_none_right_eq_some, Option.some.injEq] at hstep
      obtain ⟨-, rfl⟩ := hstep
      exact addFd_quiet hs hinv
  | removeFd fd =>
      obtain rfl := Option.some.inj hstep
      exact removeFd_quiet hs horderly hinv
  | assign fd file =>
      simp only [step, Option.ite_none_left_eq_some, Option.some.injEq] at hstep
      obtain ⟨hremoved, rfl⟩ := hstep
      exact assign_quiet hs (by simpa using hremoved) file
  | flush => exact flush_quiet hs hinv hstep
  | submit => exact submit_quiet hs hinv hstep
  | turn completed => exact turn_quiet hs hinv hstep
  | handle index => exact handle_quiet hs hinv horderly (handle_cases hs.inv hstep)
  | complete index res =>
      obtain ⟨poll, hpoll, rfl⟩ := Option.map_eq_some_iff.mp hstep
      exact complete_quiet hs hpoll res hinv

theorem start_quiet : Quiet system.start where
  inv := start_inv
  whole word := by simp [system, named]
  wanted fd := by simp [system]
  tracked fd st hst := by simp [system] at hst

/-- In every run where `remove_fd` finds no poll of its descriptor in
`pending_adds_` and the generations fit in their words, the kernel polls exactly the
registered files at quiescence. -/
theorem pollsRegistered_of_orderly (s : State)
    (hs : system.ReachableUnder (fun s a => s.orderly a = true) s)
    (hquiescent : s.quiescent) : PollsRegistered s := by
  have hquiet : Quiet s := hs.invariant start_quiet
    fun _ _ _ h horderly hstep => step_quiet h horderly hstep
  exact hquiet.pollsRegistered hquiescent

/-- A descriptor is removed and added again while the kernel polls it, under a new
file. -/
theorem pollsRegistered_of_orderly_reused : ∃ s,
    system.ReachableUnder (fun s a => s.orderly a = true) s ∧ s.quiescent ∧
    s.registered 5 = true ∧ s.files 5 = some 2 ∧ PollsRegistered s := by
  obtain ⟨s, hs, hp⟩ := TransitionSystem.exists_reachableUnder_of_execUnder system
    (fun s a => s.orderly a = true)
    [.assign 5 (some 1), .addFd 5, .flush, .submit, .turn false, .removeFd 5,
      .assign 5 (some 2), .addFd 5, .flush, .submit, .turn true, .handle 0, .handle 0,
      .turn true, .submit, .flush, .turn true]
    (fun s => decide (s.quiescent ∧ s.registered 5 = true ∧ s.files 5 = some 2))
    (by decide)
  obtain ⟨hquiescent, hregistered, hfile⟩ := of_decide_eq_true hp
  exact ⟨s, hs, hquiescent, hregistered, hfile,
    pollsRegistered_of_orderly s hs hquiescent⟩

/-- Added and removed before a flush: the cancellation is submitted before the poll,
which stays armed for ever. -/
theorem not_pollsRegistered_addRemove : ∃ s, system.Reachable s ∧ s.quiescent ∧
    s.registered 5 = false ∧ s.armed = [⟨packFd 5 tagPoll 1, 1⟩] ∧
    ¬ PollsRegistered s := by
  obtain ⟨s, hs, hp⟩ := TransitionSystem.exists_reachable_of_exec system
    [.assign 5 (some 1), .addFd 5, .removeFd 5, .flush, .submit, .submit, .turn true,
      .handle 0, .turn true, .flush, .turn true]
    (fun s => decide (s.quiescent ∧ s.registered 5 = false ∧
      s.armed = [⟨packFd 5 tagPoll 1, 1⟩])) (by decide)
  obtain ⟨hquiescent, hremoved, harmed⟩ := of_decide_eq_true hp
  refine ⟨s, hs, hquiescent, hremoved, harmed, fun h => ?_⟩
  have hnone := h.removed 5 hremoved
  rw [harmed] at hnone
  exact absurd hnone (by decide)

end Ring

end Uring

end Iocoro
