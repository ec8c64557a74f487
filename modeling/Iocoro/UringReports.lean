/-
Which registration an event of `backend_uring` belongs to.
-/
import Iocoro.UringRing

namespace Iocoro

namespace Uring

namespace Ring

/-- No `remove_fd` was called on the descriptor between the arming of the poll and
the report of its event; calls of `add_fd` in between belong to the same
registration. -/
def Report.current (report : Report) : Prop := report.born = report.removals

/-- No completion with an event is handled for a descriptor whose poll is to be
cancelled. -/
def State.heeds (s : State) : Action → Bool
  | .handle index => s.cq[index]?.all fun cqe =>
      !isPoll cqe || cqe.res == -(ecanceled : Int) ||
        (s.backend.polls (unpackFd cqe.data)).all fun st => !st.cancelRequested
  | _ => true

structure Born (s : State) : Prop where
  inv : Inv s
  entry : ∀ fd st, s.backend.polls fd = some st → st.cancelRequested = false →
    s.born fd = s.removals fd
  reports : ∀ report ∈ s.reports, report.current

/-- A step that leaves the table alone. -/
theorem Born.frame {s t : State} (hs : Born s) (hinv : Inv t)
    (hpolls : t.backend.polls = s.backend.polls) (hborn : t.born = s.born)
    (hremovals : t.removals = s.removals) (hreports : t.reports = s.reports) :
    Born t where
  inv := hinv
  entry := by
    rw [hpolls, hborn, hremovals]
    exact hs.entry
  reports := by
    rw [hreports]
    exact hs.reports

/-- A step on the entry of one descriptor. -/
theorem Born.update {s t : State} (hs : Born s) (hinv : Inv t) {fd : BitVec 32}
    (entry : Option PollState)
    (hpolls : t.backend.polls = Function.update s.backend.polls fd entry)
    (hentry : ∀ st, entry = some st → st.cancelRequested = false →
      t.born fd = t.removals fd)
    (hothers : ∀ other, other ≠ fd →
      t.born other = s.born other ∧ t.removals other = s.removals other)
    (hreports : ∀ report ∈ t.reports, report.current) : Born t where
  inv := hinv
  entry := by
    intro other st hst hfree
    rw [hpolls] at hst
    by_cases heq : other = fd
    · subst heq
      rw [Function.update_self] at hst
      exact hentry st hst hfree
    · rw [Function.update_of_ne heq] at hst
      rw [(hothers other heq).1, (hothers other heq).2]
      exact hs.entry other st hst hfree
  reports := hreports

theorem addFd_born {s : State} (hs : Born s) {fd : BitVec 32}
    (hinv : Inv (s.addFd fd)) : Born (s.addFd fd) := by
  cases hst : s.backend.polls fd with
  | none =>
      have hpolls : (s.addFd fd).backend.polls =
          Function.update s.backend.polls fd (some (fresh fd)) := by
        simp only [State.addFd, Backend.addFd_of_none hst, Backend.put_polls]
      apply hs.update hinv _ hpolls
      · intro st _ _
        simp [State.addFd, hst]
      · intro other hne
        simp [State.addFd, hst, hne]
      · exact hs.reports
  | some st =>
      have hadd := Backend.addFd_of_some hst (hs.inv.ok fd st hst)
      have hpolls : (s.addFd fd).backend.polls = Function.update s.backend.polls fd
          (some { st with desiredMask := pollMask }) := by
        simp only [State.addFd, hadd, Backend.put_polls]
      have hborn : (s.addFd fd).born = s.born := by simp [State.addFd, hst]
      apply hs.update hinv _ hpolls
      · intro new hnew hfree
        obtain rfl := Option.some.inj hnew
        rw [hborn]
        exact hs.entry fd st hst hfree
      · exact fun other _ => ⟨congrFun hborn other, rfl⟩
      · exact hs.reports

theorem removeFd_born {s : State} (hs : Born s) {fd : BitVec 32}
    (hinv : Inv (s.removeFd fd)) : Born (s.removeFd fd) := by
  have hothers : ∀ other, other ≠ fd → (s.removeFd fd).born other = s.born other ∧
      (s.removeFd fd).removals other = s.removals other := by
    intro other hne
    simp [State.removeFd, hne]
  cases hst : s.backend.polls fd with
  | none =>
      refine hs.update hinv none ?_ (by simp) hothers hs.reports
      simp only [State.removeFd, Backend.removeFd_of_none hst]
      rw [← hst, Function.update_eq_self]
  | some st =>
      have hremove := Backend.removeFd_of_some hst (hs.inv.ok fd st hst)
      refine hs.update hinv (some { st with desiredMask := 0, cancelRequested := true })
        ?_ ?_ hothers hs.reports
      · simp only [State.removeFd, hremove, requestCancel_polls]
      · intro new hnew hfree
        rw [← Option.some.inj hnew] at hfree
        simp at hfree

/-- The report of a completion whose poll is not to be cancelled. -/
theorem reported_current {s : State} (hs : Born s) {index : Nat} {cqe : Cqe}
    {st : PollState} (hheeds : s.heeds (.handle index) = true)
    (hcqe : s.cq[index]? = some cqe) (hpoll : isPoll cqe = true)
    (hst : s.backend.polls (unpackFd cqe.data) = some st) :
    ∀ report ∈ s.reports ++ s.reported cqe, report.current := by
  intro report hreport
  rcases List.mem_append.mp hreport with hold | hnew
  · exact hs.reports report hold
  · unfold State.reported at hnew
    split at hnew
    · simp at hnew
    · next hevent =>
        obtain rfl := List.mem_singleton.mp hnew
        apply hs.entry _ st hst
        simpa [State.heeds, hcqe, hpoll, hevent, hst] using hheeds

theorem handle_born {s t : State} (hs : Born s) {index : Nat} (hinv : Inv t)
    (hheeds : s.heeds (.handle index) = true) (hhandles : Handles s t index) :
    Born t := by
  cases hhandles with
  | ignored arms cqe hreactor hcqe hpoll ht =>
      subst ht
      exact hs.frame hinv rfl rfl rfl rfl
  | missed arms cqe st hreactor hcqe hpoll hst hdata hgen ht =>
      subst ht
      exact hs.frame hinv rfl rfl rfl rfl
  | erased arms cqe st hreactor hcqe hpoll hst hdata hgen hmask ht =>
      subst ht
      exact hs.update hinv none rfl (by simp) (fun _ _ => ⟨rfl, rfl⟩)
        (reported_current hs hheeds hcqe hpoll hst)
  | rearmed arms cqe st new hreactor hcqe hpoll hst hdata hgen hmask hnew ht =>
      subst ht
      refine hs.update hinv (some new) rfl ?_ ?_
        (reported_current hs hheeds hcqe hpoll hst)
      · exact fun _ _ _ => Function.update_self _ _ _
      · exact fun other hne => ⟨Function.update_of_ne hne _ _, rfl⟩

/-- A submission changes the ring only. -/
theorem submit_frame {s t : State} (hsubmit : s.submit = some t) :
    t.backend.polls = s.backend.polls ∧ t.born = s.born ∧
      t.removals = s.removals ∧ t.reports = s.reports := by
  unfold State.submit at hsubmit
  split at hsubmit
  · next final remove removes adds hreactor =>
      obtain rfl := Option.some.inj hsubmit
      obtain ⟨hbackend, -, -, hremovals, hborn, hreports⟩ := pollRemove_frame s remove
      exact ⟨congrArg Backend.polls hbackend, hborn, hremovals, hreports⟩
  · next final add adds hreactor =>
      obtain rfl := Option.some.inj hsubmit
      obtain ⟨hbackend, -, -, hremovals, hborn, hreports⟩ := pollAdd_frame s add
      exact ⟨congrArg Backend.polls hbackend, hborn, hremovals, hreports⟩
  · next add arms hreactor =>
      obtain rfl := Option.some.inj hsubmit
      obtain ⟨hbackend, -, -, hremovals, hborn, hreports⟩ := pollAdd_frame s add
      exact ⟨congrArg Backend.polls hbackend, hborn, hremovals, hreports⟩
  · simp at hsubmit

theorem step_born {s t : State} {a : Action} (hs : Born s)
    (hheeds : s.heeds a = true) (hstep : step s a = some t) : Born t := by
  have hinv := step_inv hs.inv hstep
  cases a with
  | addFd fd =>
      simp only [step, Option.ite_none_right_eq_some, Option.some.injEq] at hstep
      obtain ⟨-, rfl⟩ := hstep
      exact addFd_born hs hinv
  | removeFd fd =>
      obtain rfl := Option.some.inj hstep
      exact removeFd_born hs hinv
  | assign fd file =>
      simp only [step, Option.ite_none_left_eq_some, Option.some.injEq] at hstep
      obtain ⟨-, rfl⟩ := hstep
      exact hs.frame hinv rfl rfl rfl rfl
  | flush =>
      simp only [step, State.flush] at hstep
      split at hstep
      · obtain rfl := Option.some.inj hstep
        exact hs.frame hinv rfl rfl rfl rfl
      · obtain rfl := Option.some.inj hstep
        exact hs.frame hinv rfl rfl rfl rfl
      · simp at hstep
  | submit =>
      obtain ⟨hpolls, hborn, hremovals, hreports⟩ := submit_frame hstep
      exact hs.frame hinv hpolls hborn hremovals hreports
  | turn completed =>
      obtain ⟨-, -, reactor, rfl⟩ := turn_adds hstep
      exact hs.frame hinv rfl rfl rfl rfl
  | handle index => exact handle_born hs hinv hheeds (handle_cases hs.inv hstep)
  | complete index res =>
      obtain ⟨poll, hpoll, rfl⟩ := Option.map_eq_some_iff.mp hstep
      exact hs.frame hinv rfl rfl rfl rfl

theorem start_born : Born system.start where
  inv := start_inv
  entry fd st hst := by simp [system] at hst
  reports := by simp [system]

/-- In every run that handles no event of a poll that is to be cancelled, every event
belongs to the current registration. -/
theorem current_of_heeds (s : State)
    (hs : system.ReachableUnder (fun s a => s.heeds a = true) s) :
    ∀ report ∈ s.reports, report.current := by
  have hborn : Born s := hs.invariant start_born
    fun _ _ _ h hheeds hstep => step_born h hheeds hstep
  exact hborn.reports

/-- An event before and one after the descriptor was removed, reused and added
again. -/
theorem current_of_heeds_reused : ∃ s,
    system.ReachableUnder (fun s a => s.heeds a = true) s ∧
    s.reports.map Report.removals = [0, 1] ∧
    ∀ report ∈ s.reports, report.current := by
  obtain ⟨s, hs, hp⟩ := TransitionSystem.exists_reachableUnder_of_execUnder system
    (fun s a => s.heeds a = true)
    [.assign 5 (some 1), .addFd 5, .flush, .submit, .complete 0 1, .turn true,
      .handle 0, .turn true, .submit, .flush, .turn true, .removeFd 5,
      .assign 5 (some 2), .addFd 5, .flush, .submit, .turn true, .handle 0, .handle 0,
      .turn true, .submit, .flush, .turn true, .flush, .complete 0 4, .turn true,
      .handle 0]
    (fun s => decide (s.reports.map Report.removals = [0, 1])) (by decide)
  exact ⟨s, hs, of_decide_eq_true hp, current_of_heeds s hs⟩

/-- The poll has completed with an event when its descriptor is removed; the number
is reused and added again, and the event of the old file is reported. -/
theorem not_current_removedAfterEvent : ∃ s, system.Reachable s ∧
    s.registered 5 = true ∧ s.reports = [⟨decode 5 1, 0, 1⟩] ∧
    ¬ ∀ report ∈ s.reports, report.current := by
  obtain ⟨s, hs, hp⟩ := TransitionSystem.exists_reachable_of_exec system
    [.assign 5 (some 1), .addFd 5, .flush, .submit, .complete 0 1, .removeFd 5,
      .assign 5 (some 2), .addFd 5, .turn true, .handle 0]
    (fun s => decide (s.registered 5 = true ∧ s.reports = [⟨decode 5 1, 0, 1⟩]))
    (by decide)
  obtain ⟨hregistered, hreports⟩ := of_decide_eq_true hp
  refine ⟨s, hs, hregistered, hreports, fun h => ?_⟩
  have hcurrent := h ⟨decode 5 1, 0, 1⟩ (by simp [hreports])
  simp [Report.current] at hcurrent

end Ring

end Uring

end Iocoro
