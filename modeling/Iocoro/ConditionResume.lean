/-
Resumption of the waiters of `condition_event`: what the calls at work on a
waiter owe it, and that they all return.
-/
import Mathlib.Algebra.Order.BigOperators.Group.Finset
import Iocoro.ConditionWaiter

namespace Iocoro

namespace ConditionWaiter

/-! ### Resumption -/

theorem Wait.settled_iff {w : Wait} :
    w.settled = true ↔ (∃ suspended, w.pc = .over suspended) ∧
      (w.stopPc = .idle ∨ w.stopPc = .over) ∧
      w.taker.bind Taker.stage = none := by
  obtain ⟨pc, stopPc, taker⟩ := w
  simp only [Wait.settled, Bool.and_eq_true, Bool.or_eq_true, beq_iff_eq]
  rw [and_assoc]
  refine and_congr ?_ (and_congr Iff.rfl ?_)
  · cases pc <;> simp
  · rcases taker with _ | ⟨_, _ | _⟩ <;> simp

/-- A settled waiter that was linked is posted if and only if its `done` flag is
set. -/
theorem WaitOk.posted_of_settled {destroyed : Bool} {w : Wait}
    (hw : WaitOk destroyed w) (hsettled : w.settled = true) :
    w.posted = w.done.toNat := by
  obtain ⟨⟨suspended, hpc⟩, hstop, htaker⟩ := Wait.settled_iff.mp hsettled
  have hcount := hw.count
  rw [hpc, htaker] at hcount
  rcases hstop with hstop | hstop <;> simpa [hstop] using hcount

/-- What may wake a settled waiter that was linked has set `done`. -/
theorem done_of_woken {s : State} (hs : Inv s) {id : Nat}
    (hentered : (s.wait id).pc.entered = true) (hwoken : s.woken id = true)
    (hsettled : (s.wait id).settled = true) : (s.wait id).done = true := by
  have hw := hs.waits id
  obtain ⟨⟨suspended, hpc⟩, hstop, htaker⟩ := Wait.settled_iff.mp hsettled
  have htaken : (s.wait id).taker.isSome = true → (s.wait id).done = true := by
    intro hsome
    rcases hw.taken hsome with hexchange | hdone
    · simp [htaker] at hexchange
    · exact hdone
  simp only [State.woken, Bool.or_eq_true] at hwoken
  rcases hwoken with (hpopped | hrequested) | hdestroyed
  · apply htaken
    unfold Wait.popped at hpopped
    split at hpopped
    · next hsome => simp [hsome]
    · simp at hpopped
  · rcases hw.heard (WaitPc.armed_of_entered hentered) hrequested with
      hdone | hwill | ⟨-, hwill⟩
    · exact hdone
    · rcases hstop with hstop | hstop <;> simp [hstop] at hwill
    · simp [hpc] at hwill
  · rcases hw.kept hentered with hlinked | hsome | hdone | hcancel | hcomplete
    · rw [← hs.waiters id, hs.destroyed hdestroyed] at hlinked
      simp at hlinked
    · exact htaken hsome
    · exact hdone
    · simp [hpc] at hcancel
    · rcases hstop with hstop | hstop <;> simp [hstop] at hcomplete

theorem Inv.resumedOnce {s : State} (hs : Inv s) (id : Nat) :
    ResumedOnce s id := by
  have hw := hs.waits id
  have hcount := hw.count
  have hle : (s.wait id).posted ≤ (s.wait id).done.toNat := by omega
  have hdone : 0 < (s.wait id).posted → (s.wait id).done = true := by
    intro hposted
    by_contra hfalse
    rw [Bool.not_eq_true] at hfalse
    rw [hfalse, Bool.toNat_false] at hle
    omega
  have hentered : 0 < (s.wait id).posted → (s.wait id).pc.entered = true := by
    intro hposted
    by_contra hfresh
    rw [Bool.not_eq_true] at hfresh
    have hclear := (hw.fresh hfresh).1
    rw [hdone hposted] at hclear
    simp at hclear
  refine ⟨hle.trans (Bool.toNat_le _), ?_, hentered, ?_, ?_, ?_⟩
  · intro hpc
    by_contra hposted
    have hlinked := hentered (Nat.pos_of_ne_zero hposted)
    simp [hpc] at hlinked
  · intro hposted
    simp only [State.woken, Bool.or_eq_true]
    rcases hw.caused (hdone hposted) with hstop | htaker
    · exact .inl (.inr hstop)
    · obtain ⟨⟨caller, stage⟩, htaker⟩ := Option.isSome_iff_exists.mp htaker
      cases caller with
      | notify => exact .inl (.inl (by simp [Wait.popped, htaker]))
      | destroy => exact .inr (hw.destroyed (by simp [htaker]))
  · intro hlinked hwoken hsettled
    rw [hw.posted_of_settled hsettled, done_of_woken hs hlinked hwoken hsettled]
    rfl
  · intro hcause hsettled hmem
    have hlinked := (hs.waiters id).mp hmem
    have hclear := (hw.linked hlinked).1
    have hlinked : (s.wait id).pc.entered = true := by
      by_contra hfresh
      rw [Bool.not_eq_true] at hfresh
      rw [(hw.fresh hfresh).2.1] at hlinked
      simp at hlinked
    rw [done_of_woken hs hlinked (by
      simp only [State.woken, Bool.or_eq_true]
      exact hcause.imp_left .inr) hsettled] at hclear
    simp at hclear

/-! ### What a step does to a waiter -/

/-- Who takes a step at a waiter: its `await_suspend`, the stop request, the
locked section of a `notify` or `abort_all_waiters` that takes it off the list,
or that call afterwards. -/
inductive Actor where
  | await
  | callback
  | lock
  | taker
deriving DecidableEq, Repr

/-- The steps of the calls at work on a waiter. -/
inductive Move (w : Wait) : Actor → Wait → Prop
  | refuse (ec : Option ErrorCode) (hpc : w.pc = .check) :
      Move w .await { w with pc := .over false, result := ec }
  | start (hpc : w.pc = .check) : Move w .await { w with pc := .arm }
  | arm (hpc : w.pc = .arm) : Move w .await { w with
      pc := .lock
      handle := true
      callback := !w.stopRequested
      cancelRequested := w.stopRequested }
  | decline (ec : Option ErrorCode) (hpc : w.pc = .lock) :
      Move w .await { w with pc := .reset, result := ec }
  | unsuspend (hpc : w.pc = .reset) :
      Move w .await { w with pc := .over false, callback := false }
  | link (hpc : w.pc = .lock) : Move w .await { w with pc := .publish, linked := true }
  | publish (hpc : w.pc = .publish) :
      Move w .await { w with pc := .recheck, suspended := true }
  | recheck (hpc : w.pc = .recheck) : Move w .await { w with
      pc := if w.cancelRequested then .cancelLock else .over true }
  | cancelLock (hpc : w.pc = .cancelLock) :
      Move w .await { w with pc := .cancel .exchange, linked := false }
  | cancel {stage : Stage} {v : Wait} {next : Option Stage}
      (hpc : w.pc = .cancel stage)
      (hstep : w.complete .operationAborted w.stopPc.running stage =
        some (v, next)) :
      Move w .await { v with pc := .ofCancel next }
  | dispatch (hpc : w.stopPc = .dispatch) : Move w .callback { w with
      stopPc := if w.callback then .store else .over, callback := false }
  | store (hpc : w.stopPc = .store) :
      Move w .callback { w with stopPc := .load, cancelRequested := true }
  | load (hpc : w.stopPc = .load) :
      Move w .callback { w with stopPc := if w.suspended then .lock else .over }
  | stopLock (hpc : w.stopPc = .lock) :
      Move w .callback { w with stopPc := .complete .exchange, linked := false }
  | stopComplete {stage : Stage} {v : Wait} {next : Option Stage}
      (hpc : w.stopPc = .complete stage)
      (hstep : w.complete .operationAborted false stage = some (v, next)) :
      Move w .callback { v with stopPc := .ofComplete next }
  | take (caller : Caller) (hlinked : w.linked = true) : Move w .lock { w with
      linked := false, taker := some { caller := caller } }
  | takerComplete {caller : Caller} {ec : ErrorCode} {stage : Stage} {v : Wait}
      {next : Option Stage} (htaker : w.taker = some ⟨caller, some stage⟩)
      (hstep : w.complete ec w.stopPc.running stage = some (v, next)) :
      Move w .taker { v with taker := some ⟨caller, next⟩ }

/-- The step from `s` to `t` is one of `actor`, which moves the waiter `id` to
`w`. -/
structure Moves (s t : State) (actor : Actor) (id : Nat) (w : Wait) : Prop where
  bound : id < s.waits.length
  waits : t.waits = s.waits.set id w
  move : Move (s.wait id) actor w
  notifying : t.notifying = s.notifying
  destroying : t.destroying = s.destroying
  destroyed : t.destroyed = s.destroyed

theorem Moves.wait {s t : State} {actor : Actor} {id : Nat} {w : Wait}
    (h : Moves s t actor id w) (other : Nat) :
    t.wait other = if other = id then w else s.wait other := by
  rw [State.wait, h.waits]
  exact wait_put h.bound w other

theorem unlink_moves {s t : State} {actor : Actor} {id : Nat} {w : Wait}
    (hid : id < s.waits.length) (hstep : s.unlink id w = some t)
    (hw : Move (s.wait id) actor { w with linked := false }) :
    Moves s t actor id { w with linked := false } := by
  unfold State.unlink at hstep
  split at hstep
  · simp at hstep
  split at hstep
  · obtain rfl := Option.some.inj hstep
    exact ⟨hid, rfl, hw, rfl, rfl, rfl⟩
  · next hgone =>
      obtain rfl := Option.some.inj hstep
      rw [Bool.not_eq_true] at hgone
      have hsame : { w with linked := false } = w := by
        cases w
        simp_all
      rw [hsame] at hw ⊢
      exact ⟨hid, rfl, hw, rfl, rfl, rfl⟩

theorem await_moves {s t : State} {id : Nat} (hid : id < s.waits.length)
    (hstep : await s id (s.wait id) = some t) :
    ∃ w, Moves s t .await id w := by
  unfold await at hstep
  split at hstep
  · next hpc =>
      split at hstep
      · obtain rfl := Option.some.inj hstep
        exact ⟨_, hid, rfl, .refuse _ hpc, rfl, rfl, rfl⟩
      · obtain rfl := Option.some.inj hstep
        exact ⟨_, hid, rfl, .start hpc, rfl, rfl, rfl⟩
  · next hpc =>
      obtain rfl := Option.some.inj hstep
      exact ⟨_, hid, rfl, .arm hpc, rfl, rfl, rfl⟩
  · next hpc =>
      unfold State.enter at hstep
      split at hstep
      · simp at hstep
      split at hstep
      · obtain rfl := Option.some.inj hstep
        exact ⟨_, hid, rfl, .decline _ hpc, rfl, rfl, rfl⟩
      split at hstep
      · obtain rfl := Option.some.inj hstep
        exact ⟨_, hid, rfl, .decline _ hpc, rfl, rfl, rfl⟩
      · obtain rfl := Option.some.inj hstep
        exact ⟨_, hid, rfl, .link hpc, rfl, rfl, rfl⟩
  · next hpc =>
      split at hstep
      · simp at hstep
      · obtain rfl := Option.some.inj hstep
        exact ⟨_, hid, rfl, .unsuspend hpc, rfl, rfl, rfl⟩
  · next hpc =>
      obtain rfl := Option.some.inj hstep
      exact ⟨_, hid, rfl, .publish hpc, rfl, rfl, rfl⟩
  · next hpc =>
      obtain rfl := Option.some.inj hstep
      exact ⟨_, hid, rfl, .recheck hpc, rfl, rfl, rfl⟩
  · next hpc => exact ⟨_, unlink_moves hid hstep (.cancelLock hpc)⟩
  · next stage hpc =>
      obtain ⟨⟨v, next⟩, hcomplete, rfl⟩ := Option.map_eq_some_iff.mp hstep
      exact ⟨_, hid, rfl, .cancel hpc hcomplete, rfl, rfl, rfl⟩
  · simp at hstep

theorem callback_moves {s t : State} {id : Nat} (hid : id < s.waits.length)
    (hstep : callback s id (s.wait id) = some t) :
    ∃ w, Moves s t .callback id w := by
  unfold callback at hstep
  split at hstep
  · next hpc =>
      obtain rfl := Option.some.inj hstep
      exact ⟨_, hid, rfl, .dispatch hpc, rfl, rfl, rfl⟩
  · next hpc =>
      obtain rfl := Option.some.inj hstep
      exact ⟨_, hid, rfl, .store hpc, rfl, rfl, rfl⟩
  · next hpc =>
      obtain rfl := Option.some.inj hstep
      exact ⟨_, hid, rfl, .load hpc, rfl, rfl, rfl⟩
  · next hpc => exact ⟨_, unlink_moves hid hstep (.stopLock hpc)⟩
  · next stage hpc =>
      obtain ⟨⟨v, next⟩, hcomplete, rfl⟩ := Option.map_eq_some_iff.mp hstep
      exact ⟨_, hid, rfl, .stopComplete hpc hcomplete, rfl, rfl, rfl⟩
  · simp at hstep

theorem takerStep_move {w v : Wait} {caller : Caller} {ec : ErrorCode}
    (hstep : w.takerStep caller ec = some v) : w ≠ {} ∧ Move w .taker v := by
  unfold Wait.takerStep at hstep
  split at hstep
  · next found stage htaker =>
      split at hstep
      · next hcaller =>
          obtain rfl := hcaller
          obtain ⟨⟨v, next⟩, hcomplete, rfl⟩ := Option.map_eq_some_iff.mp hstep
          refine ⟨fun hdefault => ?_, .takerComplete htaker hcomplete⟩
          simp [hdefault] at htaker
      · simp at hstep
  · simp at hstep

/-- The actor of a step at the waiter `id`. -/
def Action.by (s : State) : Action → Actor → Nat → Prop
  | .await id, .await, other => other = id
  | .callback id, .callback, other => other = id
  | .complete id, .taker, other => other = id
  | .abort, .taker, other => s.aborting.head? = some other
  | _, _, _ => False

/-- What a step of a call already made does: it moves one waiter, or it is the
locked section of `notify` or of `abort_all_waiters`. -/
theorem continues_cases {s t : State} {a : Action} (ha : a.continues = true)
    (hstep : step s a = some t) :
    (∃ actor id w, a.by s actor id ∧ Moves s t actor id w) ∨
    (0 < s.notifying ∧ t = { s.notifyLock with notifying := s.notifying - 1 }) ∨
    (s.destroying = true ∧ t = { s.destroyLock with destroying := false }) := by
  cases a with
  | await id =>
      simp only [step, Option.ite_none_right_eq_some] at hstep
      obtain ⟨w, hmoves⟩ := await_moves hstep.1 hstep.2
      exact .inl ⟨.await, id, w, rfl, hmoves⟩
  | callback id =>
      simp only [step, Option.ite_none_right_eq_some] at hstep
      obtain ⟨w, hmoves⟩ := callback_moves hstep.1 hstep.2
      exact .inl ⟨.callback, id, w, rfl, hmoves⟩
  | notifyLock =>
      simp only [step, Option.ite_none_right_eq_some,
        Option.some.injEq] at hstep
      exact .inr (.inl ⟨hstep.1.1, hstep.2.symm⟩)
  | complete id =>
      simp only [step, Option.ite_none_right_eq_some,
        Option.map_eq_some_iff] at hstep
      obtain ⟨hid, w, htaker, rfl⟩ := hstep
      exact .inl ⟨.taker, id, w, rfl,
        hid, rfl, (takerStep_move htaker).2, rfl, rfl, rfl⟩
  | destroyLock =>
      simp only [step, Option.ite_none_right_eq_some,
        Option.some.injEq] at hstep
      exact .inr (.inr ⟨hstep.1.1, hstep.2.symm⟩)
  | abort =>
      simp only [step] at hstep
      split at hstep
      · next id rest haborting =>
          obtain ⟨w, htaker, rfl⟩ := Option.map_eq_some_iff.mp hstep
          obtain ⟨hheld, hmove⟩ := takerStep_move htaker
          exact .inl ⟨.taker, id, w, by simp [Action.by, haborting],
            lt_length_of_ne hheld, rfl, hmove, rfl, rfl, rfl⟩
      · simp at hstep
  | asyncWait | stop _ | notify | destroy => simp [Action.continues] at ha

/-- The waiter that the locked section of `notify` takes off the list. -/
theorem notifyLock_wait {s : State} (hs : Inv s) (id : Nat) :
    s.notifyLock.wait id = s.wait id ∨
      Move (s.wait id) .lock (s.notifyLock.wait id) := by
  unfold State.notifyLock
  split
  · exact .inl rfl
  split
  · next first rest hwaiters =>
      have hlinked : (s.wait first).linked = true := by
        rw [← hs.waiters first, hwaiters]
        exact List.mem_cons_self
      change (s.put first _).wait id = _ ∨
        Move _ .lock ((s.put first _).wait id)
      rw [wait_put (lt_length_of_linked hlinked)]
      split
      · next heq =>
          rw [heq]
          exact .inr (.take .notify hlinked)
      · exact .inl rfl
  · exact .inl rfl

theorem destroyLock_wait {s : State} (hs : Inv s) (id : Nat) :
    s.destroyLock.wait id = s.wait id ∨
      Move (s.wait id) .lock (s.destroyLock.wait id) := by
  rw [wait_destroyLock]
  split
  · next hmem => exact .inr (.take .destroy ((hs.waiters id).mp hmem.2))
  · exact .inl rfl

theorem continues_wait {s t : State} {a : Action} (hs : Inv s)
    (ha : a.continues = true) (hstep : step s a = some t) (id : Nat) :
    t.wait id = s.wait id ∨ ∃ actor, Move (s.wait id) actor (t.wait id) := by
  rcases continues_cases ha hstep with
    ⟨actor, moved, w, -, hmoves⟩ | ⟨-, rfl⟩ | ⟨-, rfl⟩
  · rw [hmoves.wait]
    split
    · next heq => exact .inr ⟨actor, heq ▸ hmoves.move⟩
    · exact .inl rfl
  · exact (notifyLock_wait hs id).imp_right fun hmove => ⟨_, hmove⟩
  · exact (destroyLock_wait hs id).imp_right fun hmove => ⟨_, hmove⟩

/-! ### Progress -/

@[simp] def Stage.work : Option Stage → Nat
  | some .exchange => 3
  | some .reset => 2
  | some .post => 1
  | none => 0

@[simp] def WaitPc.work : WaitPc → Nat
  | .check => 15
  | .arm => 14
  | .lock => 13
  | .reset => 1
  | .publish => 7
  | .recheck => 6
  | .cancelLock => 5
  | .cancel stage => Stage.work (some stage)
  | .over _ => 0

@[simp] def StopPc.work : StopPc → Nat
  | .dispatch => 7
  | .store => 6
  | .load => 5
  | .lock => 4
  | .complete stage => Stage.work (some stage)
  | _ => 0

/-- The steps that the calls at work on a waiter can still take, a linked waiter
counting for those of the call that will take it off the list. -/
def Wait.work (w : Wait) : Nat :=
  w.pc.work + w.stopPc.work + Stage.work (w.taker.bind Taker.stage) +
    4 * w.linked.toNat

def State.work (s : State) : Nat :=
  (∑ id ∈ Finset.range s.waits.length, (s.wait id).work) + s.notifying +
    s.destroying.toNat

theorem Wait.complete_work {w v : Wait} {ec : ErrorCode} {blocked : Bool}
    {stage : Stage} {next : Option Stage}
    (hstep : w.complete ec blocked stage = some (v, next)) :
    Stage.work next < Stage.work (some stage) := by
  cases stage <;> simp only [Wait.complete] at hstep <;> split at hstep <;>
    simp only [Option.some.injEq, Prod.mk.injEq, reduceCtorEq] at hstep <;>
    obtain ⟨-, rfl⟩ := hstep <;> simp

theorem Move.work {destroyed : Bool} {w v : Wait} {actor : Actor}
    (hmove : Move w actor v) (hw : WaitOk destroyed w) : v.work < w.work := by
  cases hmove with
  | refuse _ hpc | start hpc | arm hpc | decline _ hpc | unsuspend hpc
  | publish hpc =>
      simp [Wait.work, hpc]
  | link hpc =>
      simp only [Wait.work, hpc, WaitPc.work, Bool.toNat_true]
      omega
  | recheck hpc =>
      simp only [Wait.work, hpc]
      split <;> simp
  | cancelLock hpc =>
      simp only [Wait.work, hpc, WaitPc.work, Stage.work, Bool.toNat_false]
      omega
  | @cancel stage v next hpc hstep =>
      obtain ⟨hv, -⟩ := hw.cancel hpc hstep
      have hlt := Wait.complete_work hstep
      have hnext : (WaitPc.ofCancel next).work = Stage.work next := by
        cases next <;> rfl
      change (WaitPc.ofCancel next).work + v.stopPc.work +
        Stage.work (v.taker.bind Taker.stage) + 4 * v.linked.toNat < _
      rw [hnext, hv.stopPc, hv.taker, hv.sameLinked, Wait.work, hpc, WaitPc.work]
      omega
  | dispatch hpc =>
      simp only [Wait.work, hpc]
      split <;> simp
  | store hpc => simp [Wait.work, hpc]
  | load hpc =>
      simp only [Wait.work, hpc]
      split <;> simp
  | stopLock hpc =>
      simp only [Wait.work, hpc, StopPc.work, Stage.work, Bool.toNat_false]
      omega
  | @stopComplete stage v next hpc hstep =>
      obtain ⟨hv, -⟩ := hw.stopComplete hpc hstep
      have hlt := Wait.complete_work hstep
      have hnext : (StopPc.ofComplete next).work = Stage.work next := by
        cases next <;> rfl
      change v.pc.work + (StopPc.ofComplete next).work +
        Stage.work (v.taker.bind Taker.stage) + 4 * v.linked.toNat < _
      rw [hnext, hv.pc, hv.taker, hv.sameLinked, Wait.work, hpc, StopPc.work]
      omega
  | take caller hlinked =>
      simp [Wait.work, hlinked, (hw.linked hlinked).2]
  | takerComplete htaker hstep =>
      obtain ⟨hv, -⟩ := hw.takerComplete htaker hstep
      have hlt := Wait.complete_work hstep
      simp only [Wait.work, hv.pc, hv.stopPc, hv.sameLinked, htaker,
        Option.bind_some]
      omega

theorem work_lt_of_moves {s t : State} (hs : Inv s) {actor : Actor} {id : Nat}
    {w : Wait} (hmoves : Moves s t actor id w) : t.work < s.work := by
  have hlt := hmoves.move.work (hs.waits id)
  have hlength : t.waits.length = s.waits.length := by
    rw [hmoves.waits, List.length_set]
  have hsum : (∑ id ∈ Finset.range t.waits.length, (t.wait id).work) <
      ∑ id ∈ Finset.range s.waits.length, (s.wait id).work := by
    rw [hlength]
    refine Finset.sum_lt_sum ?_ ⟨id, Finset.mem_range.mpr hmoves.bound, ?_⟩
    · intro other _
      rw [hmoves.wait]
      split
      · next heq => exact heq ▸ hlt.le
      · exact le_rfl
    · rw [hmoves.wait, if_pos rfl]
      exact hlt
  rw [State.work, State.work, hmoves.notifying, hmoves.destroying]
  omega

theorem work_le_of_moves {s t : State} (hs : Inv s)
    (hlength : t.waits.length = s.waits.length)
    (hwait : ∀ id, t.wait id = s.wait id ∨
      Move (s.wait id) .lock (t.wait id)) :
    (∑ id ∈ Finset.range t.waits.length, (t.wait id).work) ≤
      ∑ id ∈ Finset.range s.waits.length, (s.wait id).work := by
  rw [hlength]
  refine Finset.sum_le_sum fun id _ => ?_
  rcases hwait id with hsame | hmove
  · rw [hsame]
  · exact (hmove.work (hs.waits id)).le

theorem length_notifyLock (s : State) :
    s.notifyLock.waits.length = s.waits.length := by
  unfold State.notifyLock
  split
  · rfl
  split
  · exact List.length_set
  · rfl

theorem step_work {s t : State} {a : Action} (hs : Inv s)
    (ha : a.continues = true) (hstep : step s a = some t) :
    t.work < s.work := by
  rcases continues_cases ha hstep with
    ⟨actor, id, w, -, hmoves⟩ | ⟨hcall, rfl⟩ | ⟨hdestroying, rfl⟩
  · exact work_lt_of_moves hs hmoves
  · have hsum := work_le_of_moves hs (length_notifyLock s) (notifyLock_wait hs)
    have hsame : s.notifyLock.destroying = s.destroying := by
      unfold State.notifyLock
      split
      · rfl
      split <;> rfl
    change (∑ id ∈ Finset.range s.notifyLock.waits.length,
      (s.notifyLock.wait id).work) + (s.notifying - 1) +
        s.notifyLock.destroying.toNat < s.work
    rw [hsame, State.work]
    omega
  · have hsum := work_le_of_moves hs (t := s.destroyLock)
      (by simp [State.destroyLock]) (destroyLock_wait hs)
    change (∑ id ∈ Finset.range s.destroyLock.waits.length,
      (s.destroyLock.wait id).work) + s.notifying + false.toNat < s.work
    rw [State.work, hdestroying, Bool.toNat_true, Bool.toNat_false]
    omega

theorem Wait.complete_isSome {w : Wait} {ec : ErrorCode} {blocked : Bool}
    (hfree : blocked = false) (stage : Stage) :
    (w.complete ec blocked stage).isSome = true := by
  cases stage <;> simp only [Wait.complete, hfree] <;> split <;> simp_all

/-- A running stop callback is never stuck while the mutex is free, nor is one
that has not been taken up. -/
theorem callback_enabled {s : State} {id : Nat} (hfree : s.locked = none)
    (hpc : (s.wait id).stopPc ≠ .idle ∧ (s.wait id).stopPc ≠ .over) :
    (callback s id (s.wait id)).isSome = true := by
  unfold callback
  split
  · rfl
  · rfl
  · rfl
  · simp only [State.unlink, hfree]
    simp only [Option.isSome_none, Bool.false_eq_true, if_false]
    split <;> rfl
  · next stage _ =>
      rw [Option.isSome_map]
      exact Wait.complete_isSome rfl stage
  · next hdispatch hstore hload hlock hcomplete =>
      cases hstop : (s.wait id).stopPc <;> simp_all

theorem await_enabled {s : State} {id : Nat} (hfree : s.locked = none)
    (hpc : ∀ suspended, (s.wait id).pc ≠ .over suspended)
    (hquiet : (s.wait id).stopPc.running = false) :
    (await s id (s.wait id)).isSome = true := by
  unfold await
  split
  · split <;> rfl
  · rfl
  · simp only [State.enter, hfree]
    simp only [Option.isSome_none, Bool.false_eq_true, if_false]
    split
    · rfl
    · split <;> rfl
  · rw [if_neg (by rw [hquiet]; exact Bool.false_ne_true)]
    rfl
  · rfl
  · rfl
  · simp only [State.unlink, hfree]
    simp only [Option.isSome_none, Bool.false_eq_true, if_false]
    split <;> rfl
  · next stage _ =>
      rw [Option.isSome_map]
      exact Wait.complete_isSome hquiet stage
  · next suspended hover => exact absurd hover (hpc suspended)

theorem takerStep_enabled {w : Wait} {caller : Caller} {stage : Stage}
    {ec : ErrorCode} (htaker : w.taker = some ⟨caller, some stage⟩)
    (hquiet : w.stopPc.running = false) :
    (w.takerStep caller ec).isSome = true := by
  simp only [Wait.takerStep, htaker, if_true, Option.isSome_map]
  exact Wait.complete_isSome hquiet stage

/-- The `await_suspend` that holds the mutex, or the callback it waits for, can
go on: that callback finds the waiter not suspended and asks for no mutex. -/
theorem holder_enabled {s : State} (hs : Inv s) {id : Nat}
    (hlocked : s.locked = some id) :
    (await s id (s.wait id)).isSome = true ∨
      (callback s id (s.wait id)).isSome = true := by
  have hw := hs.waits id
  have hpc := (hs.locked id).mp hlocked
  have hquiet : (s.wait id).suspended = false := by simp [hw.suspended, hpc]
  cases hstop : (s.wait id).stopPc with
  | store | load =>
      right
      simp [callback, hstop]
  | lock =>
      rw [hw.stopSuspended (.inl hstop)] at hquiet
      simp at hquiet
  | complete stage =>
      rw [hw.stopSuspended (.inr (by simp [hstop]))] at hquiet
      simp at hquiet
  | _ =>
      left
      simp [await, hpc, hstop]

theorem exists_unsettled {s : State} (hbusy : s.quiet = false) :
    0 < s.notifying ∨ s.destroying = true ∨
      ∃ id < s.waits.length, (s.wait id).settled = false := by
  by_contra hall
  push Not at hall
  obtain ⟨hnotifying, hdestroying, hwaits⟩ := hall
  have hquiet : s.quiet = true := by
    simp only [State.quiet, Bool.and_eq_true, beq_iff_eq, Bool.not_eq_true',
      List.all_eq_true]
    refine ⟨⟨by omega, by simpa using hdestroying⟩, fun w hw => ?_⟩
    obtain ⟨id, hid, rfl⟩ := List.getElem_of_mem hw
    have hsettled := hwaits id hid
    simpa [State.wait, List.getD_eq_getElem?_getD,
      List.getElem?_eq_getElem hid] using hsettled
  rw [hquiet] at hbusy
  simp at hbusy

theorem Wait.taker_of_not_settled {w : Wait} (hopen : w.settled = false)
    {suspended : Bool} (hpc : w.pc = .over suspended)
    (hstop : w.stopPc = .idle ∨ w.stopPc = .over) :
    ∃ caller stage, w.taker = some ⟨caller, some stage⟩ := by
  have hstage : w.taker.bind Taker.stage ≠ none := by
    intro hnone
    rw [Wait.settled_iff.mpr ⟨⟨suspended, hpc⟩, hstop, hnone⟩] at hopen
    simp at hopen
  obtain ⟨stage, hstage⟩ := Option.ne_none_iff_exists'.mp hstage
  obtain ⟨⟨caller, found⟩, htaker, rfl⟩ := Option.bind_eq_some_iff.mp hstage
  exact ⟨caller, stage, htaker⟩

/-- A `notify` or `abort_all_waiters` that holds a waiter can go on where no
stop callback is running. -/
theorem taker_enabled {s : State} (hs : Inv s) {id : Nat}
    (hid : id < s.waits.length) {caller : Caller} {stage : Stage}
    (htaker : (s.wait id).taker = some ⟨caller, some stage⟩)
    (hstill : ∀ other, (s.wait other).stopPc.running = false) :
    ∃ a : Action, a.continues = true ∧ (step s a).isSome = true := by
  cases caller with
  | notify =>
      refine ⟨.complete id, rfl, ?_⟩
      rw [step, if_pos hid, Option.isSome_map]
      exact takerStep_enabled htaker (hstill id)
  | destroy =>
      refine ⟨.abort, rfl, ?_⟩
      have hmem : id ∈ s.aborting := by
        rw [hs.aborting id]
        simp [Wait.aborting, htaker]
      -- `abort_all_waiters` is at the first waiter it has left, not at `id`.
      cases haborting : s.aborting with
      | nil => simp [haborting] at hmem
      | cons first rest =>
          have hfirst := (hs.aborting first).mp
            (haborting ▸ List.mem_cons_self)
          unfold Wait.aborting at hfirst
          split at hfirst
          · next hholds =>
              simp only [step, haborting, Option.isSome_map]
              exact takerStep_enabled hholds (hstill first)
          · simp at hfirst

/-- While a call has not returned, some call can take a step. -/
theorem progress {s : State} (hs : Inv s) (hbusy : s.quiet = false) :
    ∃ a : Action, a.continues = true ∧ (step s a).isSome = true := by
  cases hlocked : s.locked with
  | some id =>
      have hpc := (hs.locked id).mp hlocked
      have hid : id < s.waits.length :=
        lt_length_of_ne fun hdefault => by simp [hdefault] at hpc
      rcases holder_enabled hs hlocked with hawait | hcallback
      · exact ⟨.await id, rfl, by simpa [step, hid] using hawait⟩
      · exact ⟨.callback id, rfl, by simpa [step, hid] using hcallback⟩
  | none =>
      by_cases hrunning : ∃ id < s.waits.length,
          (s.wait id).stopPc ≠ .idle ∧ (s.wait id).stopPc ≠ .over
      · obtain ⟨id, hid, hpc⟩ := hrunning
        refine ⟨.callback id, rfl, ?_⟩
        rw [step, if_pos hid]
        exact callback_enabled hlocked hpc
      have hidle : ∀ id,
          (s.wait id).stopPc = .idle ∨ (s.wait id).stopPc = .over := by
        intro id
        by_cases hid : id < s.waits.length
        · by_contra hne
          rw [not_or] at hne
          exact hrunning ⟨id, hid, hne⟩
        · simp [wait_of_length_le (not_lt.mp hid)]
      have hstill : ∀ id, (s.wait id).stopPc.running = false := by
        intro id
        rcases hidle id with hstop | hstop <;> simp [hstop]
      rcases exists_unsettled hbusy with hcall | hdestroying | ⟨id, hid, hopen⟩
      · exact ⟨.notifyLock, rfl, by simp [step, hcall, hlocked]⟩
      · exact ⟨.destroyLock, rfl, by simp [step, hdestroying, hlocked]⟩
      · by_cases hpc : ∃ suspended, (s.wait id).pc = .over suspended
        · obtain ⟨suspended, hpc⟩ := hpc
          obtain ⟨caller, stage, htaker⟩ :=
            Wait.taker_of_not_settled hopen hpc (hidle id)
          exact taker_enabled hs hid htaker hstill
        · refine ⟨.await id, rfl, ?_⟩
          rw [step, if_pos hid]
          exact await_enabled hlocked (not_exists.mp hpc) (hstill id)

/-! ### What a waiter is owed -/

/-- The waiter was linked, and something has happened that resumes it. -/
def State.owed (s : State) (id : Nat) : Prop :=
  (s.wait id).pc.entered = true ∧ s.woken id = true

/-- `v` is `w` at some later time. -/
structure Later (w v : Wait) : Prop where
  entered : w.pc.entered = true → v.pc.entered = true
  popped : w.popped = true → v.popped = true
  stopRequested : w.stopRequested = true → v.stopRequested = true

theorem Later.of_same {w v : Wait}
    (hpc : w.pc.entered = true → v.pc.entered = true)
    (htaker : v.taker = w.taker) (hstop : v.stopRequested = w.stopRequested) :
    Later w v :=
  ⟨hpc, by simp [Wait.popped, htaker], by simp [hstop]⟩

theorem Later.refl (w : Wait) : Later w w := ⟨id, id, id⟩

theorem Move.later {destroyed : Bool} {w v : Wait} {actor : Actor}
    (hmove : Move w actor v) (hw : WaitOk destroyed w) : Later w v := by
  cases hmove with
  | refuse _ hpc | start hpc | arm hpc | decline _ hpc | unsuspend hpc
  | link hpc =>
      exact .of_same (by simp [hpc]) rfl rfl
  | publish hpc | cancelLock hpc => exact .of_same (fun _ => rfl) rfl rfl
  | recheck hpc =>
      refine .of_same (fun _ => ?_) rfl rfl
      simp only
      split <;> rfl
  | @cancel stage v next hpc hstep =>
      obtain ⟨hv, -⟩ := hw.cancel hpc hstep
      exact .of_same (fun _ => by cases next <;> rfl) hv.taker hv.sameStop
  | dispatch hpc | store hpc | load hpc | stopLock hpc =>
      exact .of_same (fun hin => hin) rfl rfl
  | @stopComplete stage v next hpc hstep =>
      obtain ⟨hv, -⟩ := hw.stopComplete hpc hstep
      exact .of_same (fun hin => by rwa [hv.pc]) hv.taker hv.sameStop
  | take caller hlinked =>
      refine ⟨fun hin => hin, ?_, fun hstop => hstop⟩
      simp [Wait.popped, (hw.linked hlinked).2]
  | @takerComplete caller ec stage v next htaker hstep =>
      obtain ⟨hv, -⟩ := hw.takerComplete htaker hstep
      refine ⟨fun hin => by rwa [hv.pc], ?_, fun hstop => by rwa [hv.sameStop]⟩
      cases caller <;> simp [Wait.popped, htaker]

theorem continues_destroyed {s t : State} {a : Action} (ha : a.continues = true)
    (hstep : step s a = some t) (hdestroyed : s.destroyed = true) :
    t.destroyed = true := by
  rcases continues_cases ha hstep with
    ⟨actor, id, w, -, hmoves⟩ | ⟨-, rfl⟩ | ⟨-, rfl⟩
  · exact hmoves.destroyed.trans hdestroyed
  · simp [State.notifyLock, hdestroyed]
  · rfl

/-- What a waiter is owed stays owed to it. -/
theorem owed_step {s t : State} {a : Action} (hs : Inv s)
    (ha : a.continues = true) (hstep : step s a = some t) {id : Nat}
    (howed : s.owed id) : t.owed id := by
  have hlater : Later (s.wait id) (t.wait id) := by
    rcases continues_wait hs ha hstep id with hsame | ⟨actor, hmove⟩
    · rw [hsame]
      exact Later.refl _
    · exact hmove.later (hs.waits id)
  refine ⟨hlater.entered howed.1, ?_⟩
  have hwoken := howed.2
  simp only [State.woken, Bool.or_eq_true] at hwoken ⊢
  exact hwoken.imp (Or.imp hlater.popped hlater.stopRequested)
    (continues_destroyed ha hstep)

/-- Every call has returned; the waiters that were owed a resumption in `s` have
been posted once and are off the list. -/
def Delivered (s t : State) : Prop :=
  t.quiet = true ∧ ∀ id, s.owed id → (t.wait id).posted = 1 ∧ id ∉ t.waiters

theorem settled_of_quiet {s : State} (hquiet : s.quiet = true) {id : Nat}
    (hid : id < s.waits.length) : (s.wait id).settled = true := by
  simp only [State.quiet, Bool.and_eq_true, List.all_eq_true] at hquiet
  have hmem := hquiet.2 _ (List.getElem_mem hid)
  rwa [State.wait, List.getD_eq_getElem?_getD, List.getElem?_eq_getElem hid,
    Option.getD_some]

theorem Inv.delivered {s : State} (hs : Inv s) (hquiet : s.quiet = true) :
    Delivered s s := by
  refine ⟨hquiet, fun id howed => ?_⟩
  have hid : id < s.waits.length :=
    lt_length_of_ne fun hdefault => by simp [State.owed, hdefault] at howed
  have hsettled := settled_of_quiet hquiet hid
  have hdone := done_of_woken hs howed.1 howed.2 hsettled
  refine ⟨(hs.resumedOnce id).resumed howed.1 howed.2 hsettled, fun hmem => ?_⟩
  have hclear := ((hs.waits id).linked ((hs.waiters id).mp hmem)).1
  rw [hdone] at hclear
  simp at hclear

/-- In every reachable state a waiter is posted at most once, only where it was
linked and something wakes it; and the calls in progress, in whatever order they
go on, all return, and then every waiter that was linked and woken has been
posted exactly once and is off the list. -/
theorem resumed_once {s : State} (hs : system.Reachable s) :
    (∀ id, ResumedOnce s id) ∧
      system.Inevitable (fun a => a.continues = true) (Delivered s) s := by
  have hinv : Inv s := hs.invariant start_inv
    fun _ _ _ hinv hstep => step_inv hinv hstep
  refine ⟨hinv.resumedOnce, ?_⟩
  refine TransitionSystem.Inevitable.of_work
    (fun t => Inv t ∧ ∀ id, s.owed id → t.owed id) State.work ?_ ?_ ?_
    ⟨hinv, fun _ howed => howed⟩
  · rintro t a u ⟨ht, howed⟩ ha hstep
    exact ⟨step_inv ht hstep,
      fun id hid => owed_step ht ha hstep (howed id hid)⟩
  · rintro t ⟨ht, howed⟩
    cases hquiet : t.quiet with
    | true =>
        have hdelivered := ht.delivered hquiet
        exact .inl ⟨hquiet, fun id hid => hdelivered.2 id (howed id hid)⟩
    | false =>
        obtain ⟨a, ha, hsome⟩ := progress ht hquiet
        obtain ⟨u, hstep⟩ := Option.isSome_iff_exists.mp hsome
        exact .inr ⟨a, u, ha, hstep⟩
  · rintro t a u ⟨ht, -⟩ ha hstep
    exact step_work ht ha hstep

/-- A `notify` has taken the waiter off the list, and a stop is requested, while
`await_suspend` has not yet published that it suspends. -/
def notifiedBeforePublish : List Action :=
  [.asyncWait, .await 0, .await 0, .await 0, .notify, .notifyLock, .stop 0,
    .callback 0]

theorem resumed_once_notifiedBeforePublish :
    ∃ s, (s.wait 0).pc = .publish ∧ s.woken 0 = true ∧
      (s.wait 0).posted = 0 ∧ ResumedOnce s 0 ∧
      system.Inevitable (fun a => a.continues = true) (Delivered s) s := by
  obtain ⟨s, hs, hend⟩ := TransitionSystem.exists_reachable_of_exec system
    notifiedBeforePublish
    (fun s => (s.wait 0).pc == .publish && s.woken 0 && (s.wait 0).posted == 0)
    (by decide)
  simp only [Bool.and_eq_true, beq_iff_eq] at hend
  obtain ⟨hall, hlive⟩ := resumed_once hs
  exact ⟨s, hend.1.1, hend.1.2, hend.2, hall 0, hlive⟩

end ConditionWaiter

end Iocoro
