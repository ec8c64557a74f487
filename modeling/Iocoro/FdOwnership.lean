/-
Native descriptors are given up exactly once.  Every step of a call, a guard or a
destructor moves a descriptor as its custody allows, and the references to a
resource say when its destructor may run.
-/
import Iocoro.FdCustody

namespace Iocoro

namespace SocketLifecycle

variable {ledger : Ledger Nat} {removed : List Nat} {calls : List Custody}
  {kept : List Kept}

/-! ### References -/

def State.alive (s : State) (r : Nat) : Bool :=
  s.resources[r]?.any fun y => y.phase = .alive

/-- A resource has not been destroyed for exactly as long as there are references
to it. -/
def RefInv (s : State) : Prop := ∀ r, s.alive r = true ↔ 0 < s.useCount r

theorem alive_modify_phase (s : State) (r other : Nat) :
    State.alive { s with resources := s.resources.modify r fun y =>
      { y with phase := .releasing } } other =
      (s.alive other && decide (other ≠ r)) := by
  simp only [State.alive, List.getElem?_modify]
  by_cases hr : r = other
  · cases hother : s.resources[other]? <;> simp [hr]
  · have hne : other ≠ r := fun heq => hr heq.symm
    simp [hr, hne]

/-- `reap` starts the destructor of a resource that has lost its last
reference. -/
theorem refInv_reap {t : State} (dropped : Option Nat)
    (hother : ∀ r, dropped ≠ some r → (t.alive r = true ↔ 0 < t.useCount r))
    (hmine : ∀ r, dropped = some r → t.alive r = true) :
    RefInv (t.reap dropped) := by
  cases dropped with
  | none =>
      intro r
      exact hother r (by simp)
  | some dropped =>
      intro r
      simp only [State.reap]
      split
      · next hzero =>
          rw [alive_modify_phase]
          change _ ↔ 0 < t.useCount r
          by_cases hr : r = dropped
          · simp [hr, hzero]
          · have hrest := hother r (by simpa using Ne.symm hr)
            simpa [hr] using hrest
      · next hpos =>
          by_cases hr : r = dropped
          · subst hr
            have huse : 0 < t.useCount r := Nat.pos_of_ne_zero hpos
            exact ⟨fun _ => huse, fun _ => hmine r rfl⟩
          · exact hother r (by simpa using Ne.symm hr)

theorem alive_congr {s t : State}
    (hphase : t.resources.map Resource.phase = s.resources.map Resource.phase)
    (r : Nat) : t.alive r = s.alive r := by
  have hr : (t.resources.map Resource.phase)[r]? =
      (s.resources.map Resource.phase)[r]? := by rw [hphase]
  simp only [List.getElem?_map] at hr
  simp only [State.alive]
  cases ht : t.resources[r]? <;> cases hs : s.resources[r]? <;> simp_all

/-- The descriptors of a state are balanced. -/
def FdOk (s : State) : Prop :=
  FdInv s.ledger s.removed (s.calls.map Call.custody)
    (s.resources.map Resource.kept)

structure Inv (s : State) : Prop where
  fds : FdOk s
  refs : RefInv s

/-- An update of one call. -/
theorem FdInv.setCall {table : List Call} {c : Nat} {call new : Call}
    {ledger' : Ledger Nat} {removed' : List Nat} {kept' : List Kept}
    (h : FdInv ledger removed (table.map Call.custody) kept)
    (hc : table[c]? = some call)
    (hstep : ∀ rest, FdInv ledger removed (call.custody :: rest) kept →
      FdInv ledger' removed' (new.custody :: rest) kept') :
    FdInv ledger' removed' ((table.set c new).map Call.custody) kept' := by
  obtain ⟨hi, rfl⟩ := List.getElem?_eq_some_iff.mp hc
  have hold := (List.getElem_cons_eraseIdx_perm hi).map Call.custody
  have hnew := (List.set_perm_cons_eraseIdx hi new).map Call.custody
  exact (hstep _ (h.perm hold (List.Perm.refl _))).perm hnew (List.Perm.refl _)

/-- An update of one resource. -/
theorem FdInv.setResource {table : List Resource} {r : Nat} {y new : Resource}
    {ledger' : Ledger Nat} {removed' : List Nat} {calls' : List Custody}
    (h : FdInv ledger removed calls (table.map Resource.kept))
    (hr : table[r]? = some y)
    (hstep : ∀ rest, FdInv ledger removed calls (y.kept :: rest) →
      FdInv ledger' removed' calls' (new.kept :: rest)) :
    FdInv ledger' removed' calls' ((table.set r new).map Resource.kept) := by
  obtain ⟨hi, rfl⟩ := List.getElem?_eq_some_iff.mp hr
  have hold := (List.getElem_cons_eraseIdx_perm hi).map Resource.kept
  have hnew := (List.set_perm_cons_eraseIdx hi new).map Resource.kept
  exact (hstep _ (h.perm (List.Perm.refl _) hold)).perm (List.Perm.refl _) hnew

theorem FdOk.reap {t : State} (ht : FdOk t) (dropped : Option Nat)
    (hmine : ∀ r, dropped = some r → t.alive r = true) :
    FdOk (t.reap dropped) := by
  cases dropped with
  | none => exact ht
  | some r =>
      simp only [State.reap]
      split
      · have halive := hmine r rfl
        obtain ⟨y, hy, hphase⟩ := (Option.any_eq_true _ _).mp halive
        have hy' : y.phase = .alive := of_decide_eq_true hphase
        rw [FdOk, Inventory.modify_eq_set_of_getElem? hy]
        apply FdInv.setResource ht hy
        intro rest hrest
        apply hrest.setPhase
        · simp [Resource.kept, hy']
        · simp [Resource.kept, hy', Kept.holdings]
        · simp
      · exact ht

/-- The rule for steps that copy and drop references. -/
theorem Inv.keep {s t : State} (hs : Inv s) (dropped : Option Nat)
    (gained : List Nat) (hfds : FdOk t)
    (hphase : t.resources.map Resource.phase = s.resources.map Resource.phase)
    (huse : ∀ r, t.useCount r + dropped.toList.count r =
      s.useCount r + gained.count r)
    (hgained : ∀ r ∈ gained, 0 < s.useCount r) : Inv (t.reap dropped) := by
  have hpos : ∀ r, 0 < s.useCount r + gained.count r → 0 < s.useCount r := by
    intro r hr
    by_cases hmem : r ∈ gained
    · exact hgained r hmem
    · rw [List.count_eq_zero.mpr hmem] at hr
      omega
  have halive := alive_congr hphase
  have hmine : ∀ r, dropped = some r → t.alive r = true := by
    rintro r rfl
    have hr := huse r
    rw [Option.toList_some, List.count_singleton_self] at hr
    rw [halive, hs.refs r]
    exact hpos r (by omega)
  refine ⟨hfds.reap dropped hmine, refInv_reap dropped (fun r hr => ?_) hmine⟩
  have hcount : dropped.toList.count r = 0 := by
    rw [List.count_eq_zero]
    simpa using hr
  have heq := huse r
  rw [halive, hs.refs r]
  constructor
  · omega
  · intro hlive
    exact hpos r (by omega)

/-! ### The steps of calls -/

theorem map_phase_of_kept {table other : List Resource}
    (hkept : other.map Resource.kept = table.map Resource.kept) :
    other.map Resource.phase = table.map Resource.phase := by
  have hphase := congrArg (List.map Kept.phase) hkept
  rwa [List.map_map, List.map_map] at hphase

/-- The part of a step that is not in the calls: only flags of resources change,
and the `res_` of a socket from `before` to `after`. -/
structure Aside (s s' : State) (before after : Option Nat) : Prop where
  calls : s'.calls = s.calls
  ledger : s'.ledger = s.ledger
  removed : s'.removed = s.removed
  guards : s'.guards = s.guards
  kept : s'.resources.map Resource.kept = s.resources.map Resource.kept
  sockets : ∀ r, Inventory.held Socket.refs s'.sockets r +
    before.toList.count r = Inventory.held Socket.refs s.sockets r +
      after.toList.count r

theorem Aside.refl (s : State) : Aside s s none none :=
  ⟨rfl, rfl, rfl, rfl, rfl, fun _ => rfl⟩

theorem Aside.take {s : State} {k : Nat} {x : Socket}
    (hx : s.sockets[k]? = some x) (new : Socket) (taken : List Nat) :
    Aside s { s.setSocket k new with taken } x.res new.res :=
  ⟨rfl, rfl, rfl, rfl, rfl, Inventory.held_set_of_getElem? Socket.refs hx new⟩

theorem Aside.setSocket {s : State} {k : Nat} {x : Socket}
    (hx : s.sockets[k]? = some x) (new : Socket) :
    Aside s (s.setSocket k new) x.res new.res :=
  Aside.take hx new s.taken

theorem Aside.markClosing (s : State) (old : Option Nat) :
    Aside s (s.markClosing old) none none := by
  cases old with
  | none => exact Aside.refl s
  | some r =>
      exact ⟨rfl, rfl, rfl, rfl,
        Inventory.map_modify_of_eq (by simp [Resource.kept]) _ _, fun _ => rfl⟩

theorem Aside.setResource {s : State} {r : Nat} {y new : Resource}
    (hy : s.resources[r]? = some y) (hkept : new.kept = y.kept) :
    Aside s { s with resources := s.resources.set r new } none none :=
  ⟨rfl, rfl, rfl, rfl, Inventory.map_set_of_getElem? hy hkept, fun _ => rfl⟩

/-- Calls and sockets change, and with them what refers to a resource. -/
theorem Aside.useCount {s s' : State} {before after : Option Nat}
    (hs' : Aside s s' before after) {c : Nat} {call : Call}
    (hc : s.calls[c]? = some call) (pc : Pc) (r : Nat) :
    (s'.goto c call pc).useCount r +
        (call.pc.refs.count r + before.toList.count r) =
      s.useCount r + (pc.refs.count r + after.toList.count r) := by
  have hheld := Inventory.held_set_of_getElem? Call.refs hc { call with pc } r
  have hres := hs'.sockets r
  simp only [State.useCount, State.goto, hs'.calls, hs'.guards, Call.refs]
    at hheld ⊢
  omega

/-- A step of a call that leaves the descriptors where they are.  What it loses
of its references is dropped, and what it gains is a copy. -/
theorem Inv.gotoReap {s s' : State} (hs : Inv s) {c : Nat} {call : Call}
    {pc : Pc} (hc : s.calls[c]? = some call) (hpc : call.pc = pc) (new : Pc)
    (dropped : Option Nat) (gained : List Nat) {before after : Option Nat}
    (hs' : Aside s s' before after) (hcustody : new.custody = pc.custody)
    (hrefs : ∀ r, new.refs.count r + after.toList.count r +
      dropped.toList.count r = pc.refs.count r + before.toList.count r +
        gained.count r)
    (hgained : ∀ r ∈ gained, 0 < s.useCount r) :
    Inv ((s'.goto c call new).reap dropped) := by
  subst hpc
  apply hs.keep dropped gained
  · rw [FdOk, State.goto, hs'.ledger, hs'.removed, hs'.calls, hs'.kept]
    apply FdInv.setCall hs.fds hc
    intro rest hrest
    rw [Call.custody, hcustody]
    exact hrest
  · exact map_phase_of_kept hs'.kept
  · intro r
    have huse := hs'.useCount hc new r
    have hr := hrefs r
    omega
  · exact hgained

/-- The same where nothing is dropped or copied. -/
theorem Inv.goto {s s' : State} (hs : Inv s) {c : Nat} {call : Call}
    {pc new : Pc} (hc : s.calls[c]? = some call) (hpc : call.pc = pc)
    {before after : Option Nat} (hs' : Aside s s' before after)
    (hcustody : new.custody = pc.custody)
    (hrefs : ∀ r, new.refs.count r + after.toList.count r =
      pc.refs.count r + before.toList.count r) :
    Inv (s'.goto c call new) :=
  hs.gotoReap hc hpc new none [] hs' hcustody (by simpa using hrefs) (by simp)

theorem openStep_inv {s t : State} {c : Nat} {call : Call} (hs : Inv s)
    (hc : s.calls[c]? = some call) (hstep : s.openStep c call = some t) :
    Inv t := by
  unfold State.openStep at hstep
  split at hstep
  · next hpc =>
      obtain ⟨x, hx, hstep⟩ := Option.bind_eq_some_iff.mp hstep
      split at hstep
      · simp at hstep
      · split at hstep
        · obtain rfl := Option.some.inj hstep
          exact hs.goto hc hpc (.refl s) rfl (by simp [Pc.refs])
        · obtain rfl := Option.some.inj hstep
          exact hs.goto hc hpc (.setSocket hx _) rfl (by simp [Pc.refs])
  · simp at hstep

/-- A step of a call that changes who has its descriptor. -/
theorem Inv.gotoFdsReap {s s' : State} (hs : Inv s) {c : Nat} {call : Call}
    {pc : Pc} (hc : s.calls[c]? = some call) (hpc : call.pc = pc) (new : Pc)
    (dropped : Option Nat) (hcalls : s'.calls = s.calls)
    (hguards : s'.guards = s.guards)
    (hsockets : ∀ r, Inventory.held Socket.refs s'.sockets r =
      Inventory.held Socket.refs s.sockets r)
    (hphase : s'.resources.map Resource.phase = s.resources.map Resource.phase)
    (hfds : ∀ rest, FdInv s.ledger s.removed (pc.custody :: rest)
        (s.resources.map Resource.kept) →
      FdInv s'.ledger s'.removed (new.custody :: rest)
        (s'.resources.map Resource.kept))
    (hrefs : ∀ r, new.refs.count r + dropped.toList.count r = pc.refs.count r) :
    Inv ((s'.goto c call new).reap dropped) := by
  subst hpc
  apply hs.keep dropped []
  · rw [FdOk, State.goto, hcalls]
    exact FdInv.setCall hs.fds hc hfds
  · exact hphase
  · intro r
    have hheld := Inventory.held_set_of_getElem? Call.refs hc
      { call with pc := new } r
    have hr := hrefs r
    simp only [State.useCount, State.goto, hcalls, hguards, hsockets, Call.refs,
      List.count_nil] at hheld ⊢
    omega
  · simp

theorem Inv.gotoFds {s s' : State} (hs : Inv s) {c : Nat} {call : Call}
    {pc new : Pc} (hc : s.calls[c]? = some call) (hpc : call.pc = pc)
    (hcalls : s'.calls = s.calls) (hguards : s'.guards = s.guards)
    (hsockets : ∀ r, Inventory.held Socket.refs s'.sockets r =
      Inventory.held Socket.refs s.sockets r)
    (hphase : s'.resources.map Resource.phase = s.resources.map Resource.phase)
    (hfds : ∀ rest, FdInv s.ledger s.removed (pc.custody :: rest)
        (s.resources.map Resource.kept) →
      FdInv s'.ledger s'.removed (new.custody :: rest)
        (s'.resources.map Resource.kept))
    (hrefs : ∀ r, new.refs.count r = pc.refs.count r) :
    Inv (s'.goto c call new) :=
  hs.gotoFdsReap hc hpc new none hcalls hguards hsockets hphase hfds
    (by simpa using hrefs)

theorem held_setLock {s : State} {k : Nat} {x : Socket}
    (hx : s.sockets[k]? = some x) (lock : Option Nat) (r : Nat) :
    Inventory.held Socket.refs (s.sockets.set k { x with lock }) r =
      Inventory.held Socket.refs s.sockets r := by
  have hheld := Inventory.held_set_of_getElem? Socket.refs hx { x with lock } r
  simp only [Socket.refs] at hheld
  omega

theorem socketStep_inv {s t : State} {c : Nat} {call : Call} {fd : Option Nat}
    (hs : Inv s) (hc : s.calls[c]? = some call) (hpc : call.pc = .openSocket)
    (hstep : s.socketStep c call fd = some t) : Inv t := by
  cases fd with
  | none =>
      obtain ⟨x, hx, rfl⟩ := Option.map_eq_some_iff.mp hstep
      exact hs.goto hc hpc (.setSocket hx _) rfl (by simp [Pc.refs])
  | some fd =>
      simp only [State.socketStep, Option.ite_none_right_eq_some,
        Option.some.injEq] at hstep
      obtain ⟨hfree, rfl⟩ := hstep
      have hfd : ∀ i, s.ledger.table fd ≠ .entry i := by simp [hfree]
      exact hs.gotoFds hc hpc rfl rfl (fun _ => rfl) rfl
        (fun _ hrest => hrest.enter hfd) (by simp [Pc.refs])

theorem alive_append (table : List Resource) (d : Descriptor) (r : Nat) :
    ((table ++ [Resource.make d])[r]?.any fun y => y.phase = .alive) =
      ((table[r]?.any fun y => y.phase = .alive) || decide (r = table.length)) := by
  by_cases hlt : r < table.length
  · have hne : r ≠ table.length := by omega
    simp [List.getElem?_append_left hlt, hne]
  · rw [List.getElem?_append_right (by omega),
      List.getElem?_eq_none (l := table) (by omega)]
    by_cases heq : r = table.length
    · simp [heq, Resource.make]
    · have hfar : r - table.length ≠ 0 := by omega
      simp [heq, hfar]

/-- A call makes a resource, to which it then has the only reference. -/
theorem Inv.makeResource {s s' : State} (hs : Inv s) {c : Nat} {call : Call}
    {origin : Origin} {d : Descriptor} {old : Option Nat}
    (hc : s.calls[c]? = some call) (hpc : call.pc = .makeResource origin d old)
    (new : Pc) (dropped : Option Nat) {before after : Option Nat}
    (hs' : Aside s s' before after) (hcustody : new.custody = .none)
    (hrefs : ∀ r, new.refs.count r + after.toList.count r +
      dropped.toList.count r = old.toList.count r + before.toList.count r +
        [s.resources.length].count r) :
    Inv (({ s' with resources := s.resources ++ [Resource.make d] }.goto c call
      new).reap dropped) := by
  have huse : ∀ r, (s'.goto c call new).useCount r + dropped.toList.count r =
      s.useCount r + [s.resources.length].count r := by
    intro r
    have hr := hrefs r
    have hgoto := hs'.useCount hc new r
    have hold : call.pc.refs = old.toList := by
      rw [hpc]
      rfl
    rw [hold] at hgoto
    omega
  have hmine : ∀ r, dropped = some r → (s.alive r ||
      decide (r = s.resources.length)) = true := by
    rintro r rfl
    have hr := huse r
    rw [Option.toList_some, List.count_singleton_self] at hr
    by_cases hlast : r = s.resources.length
    · simp [hlast]
    · have hcount : [s.resources.length].count r = 0 :=
        List.count_eq_zero.mpr (by simpa using hlast)
      simp [(hs.refs r).mpr (by omega)]
  have hfds : FdOk ({ s' with
      resources := s.resources ++ [Resource.make d] }.goto c call new) := by
    simp only [FdOk, State.goto, hs'.ledger, hs'.removed, hs'.calls,
      List.map_append]
    apply FdInv.setCall hs.fds hc
    intro rest hrest
    rw [Call.custody, hpc] at hrest
    rw [Call.custody, hcustody]
    exact (FdInv.wrap hrest).perm (List.Perm.refl _)
      (List.perm_append_singleton _ _)
  constructor
  · apply hfds.reap
    intro r hr
    exact (alive_append _ _ _).trans (hmine r hr)
  · apply refInv_reap
    · intro r hr
      have hcount : dropped.toList.count r = 0 := by
        rw [List.count_eq_zero]
        simpa using hr
      have hused := huse r
      refine (Bool.eq_iff_iff.mp (alive_append _ _ _)).trans ?_
      change _ ↔ 0 < (s'.goto c call new).useCount r
      by_cases hlast : r = s.resources.length
      · subst hlast
        rw [List.count_singleton_self] at hused
        simp only [decide_true, Bool.or_true, true_iff]
        omega
      · have hnone : [s.resources.length].count r = 0 :=
          List.count_eq_zero.mpr (by simpa using hlast)
        have hold := hs.refs r
        simp only [hlast, decide_false, Bool.or_false]
        rw [State.alive] at hold
        rw [hold]
        omega
    · intro r hr
      exact (alive_append _ _ _).trans (hmine r hr)

theorem setupStep_inv {s t : State} {c : Nat} {call : Call} {ok : Bool}
    (hs : Inv s) (hc : s.calls[c]? = some call)
    (hstep : s.setupStep c call ok = some t) : Inv t := by
  unfold State.setupStep at hstep
  split at hstep
  · next origin d old hpc =>
      obtain rfl := Option.some.inj hstep
      cases ok with
      | true => exact hs.goto hc hpc (.refl s) rfl (by simp [Pc.refs])
      | false => exact hs.goto hc hpc (.refl s) rfl (by simp [Pc.refs])
  · next origin d old hpc =>
      obtain rfl := Option.some.inj hstep
      cases ok with
      | true => exact hs.goto hc hpc (.refl s) rfl (by simp [Pc.refs])
      | false => exact hs.goto hc hpc (.refl s) rfl (by simp [Pc.refs])
  · next origin d old hpc =>
      cases origin with
      | opened =>
          obtain ⟨x, hx, rfl⟩ := Option.map_eq_some_iff.mp hstep
          exact hs.gotoFds hc hpc rfl rfl (held_setLock hx _) rfl
            (fun _ hrest => hrest.fail) (by simp [Pc.refs])
      | assigned =>
          obtain rfl := Option.some.inj hstep
          exact hs.gotoFds hc hpc rfl rfl (fun _ => rfl) rfl
            (fun _ hrest => hrest.fail) (by simp [Pc.refs])
  · next origin d old hpc =>
      cases origin with
      | opened =>
          obtain ⟨x, hx, rfl⟩ := Option.map_eq_some_iff.mp hstep
          apply hs.makeResource hc hpc (.dropOld old false) x.res
            (.setSocket hx _) rfl
          intro r
          simp only [Pc.refs, Option.toList_some]
          omega
      | assigned =>
          obtain rfl := Option.some.inj hstep
          apply hs.makeResource hc hpc (.publish s.resources.length old) none
            (.refl s) rfl
          intro r
          simp only [Pc.refs, Option.toList_none, List.count_nil, List.count_cons]
          omega
  · simp at hstep

theorem exchangeStep_inv {s t : State} {c : Nat} {call : Call} (hs : Inv s)
    (hc : s.calls[c]? = some call) (hstep : s.exchangeStep c call = some t) :
    Inv t := by
  unfold State.exchangeStep at hstep
  split at hstep
  · next d hpc =>
      obtain ⟨x, hx, hstep⟩ := Option.bind_eq_some_iff.mp hstep
      split at hstep
      · simp at hstep
      · obtain rfl := Option.some.inj hstep
        exact hs.goto hc hpc (.take hx _ _) rfl (by simp [Pc.refs])
  · next d old hpc =>
      obtain rfl := Option.some.inj hstep
      exact hs.goto hc hpc (.markClosing s old) rfl (by simp [Pc.refs])
  · next r old hpc =>
      obtain ⟨x, hx, hstep⟩ := Option.bind_eq_some_iff.mp hstep
      split at hstep
      · simp at hstep
      · obtain rfl := Option.some.inj hstep
        refine hs.gotoReap hc hpc (.dropOld old false) x.res [] (.setSocket hx _)
          rfl ?_ ?_
        · intro other
          simp only [Pc.refs, Option.toList_some, List.count_cons, List.count_nil]
          omega
        · simp
  · next last hpc =>
      obtain ⟨x, hx, hstep⟩ := Option.bind_eq_some_iff.mp hstep
      split at hstep
      · simp at hstep
      · obtain rfl := Option.some.inj hstep
        exact hs.goto hc hpc (.take hx _ _) rfl (by simp [Pc.refs])
  · next old last hpc =>
      obtain rfl := Option.some.inj hstep
      exact hs.goto hc hpc (.markClosing s old) rfl (by simp [Pc.refs])
  · next old last hpc =>
      obtain rfl := Option.some.inj hstep
      cases last with
      | true =>
          exact hs.gotoReap hc hpc .dropMember old [] (.refl s) rfl
            (by simp [Pc.refs]) (by simp)
      | false =>
          exact hs.gotoReap hc hpc .returned old [] (.refl s) rfl
            (by simp [Pc.refs]) (by simp)
  · next hpc =>
      obtain ⟨x, hx, rfl⟩ := Option.map_eq_some_iff.mp hstep
      exact hs.gotoReap hc hpc .returned x.res [] (.setSocket hx _) rfl
        (by simp [Pc.refs]) (by simp)
  · simp at hstep

theorem FdOk.owned_call {s : State} (hs : FdOk s) {c : Nat} {call : Call}
    {d : Descriptor} (hc : s.calls[c]? = some call)
    (hd : d ∈ call.custody.holdings) :
    s.ledger.table d.number = .entry d.entry := by
  apply hs.balanced.owned d
  apply List.mem_append_left
  exact List.mem_flatMap.mpr
    ⟨_, List.mem_map_of_mem (List.mem_of_getElem? hc), hd⟩

theorem FdOk.owned_resource {s : State} (hs : FdOk s) {r : Nat} {y : Resource}
    {d : Descriptor} (hr : s.resources[r]? = some y)
    (hd : d ∈ y.kept.holdings) :
    s.ledger.table d.number = .entry d.entry := by
  apply hs.balanced.owned d
  apply List.mem_append_right
  exact List.mem_flatMap.mpr
    ⟨_, List.mem_map_of_mem (List.mem_of_getElem? hr), hd⟩

/-- What a call refers to has not been destroyed. -/
theorem Inv.phase_of_call {s : State} (hs : Inv s) {c r : Nat} {call : Call}
    {y : Resource} (hc : s.calls[c]? = some call) (hrefs : r ∈ call.pc.refs)
    (hy : s.resources[r]? = some y) : y.phase = .alive := by
  have hheld := Inventory.held_set_of_getElem? Call.refs hc
    { call with pc := .returned } r
  have hnone : Call.refs { call with pc := .returned } = [] := rfl
  rw [hnone, List.count_nil] at hheld
  have hpos := List.count_pos_iff.mpr hrefs
  have halive : s.alive r = true := by
    rw [hs.refs r, State.useCount]
    simp only [Call.refs] at hheld ⊢
    omega
  simpa [State.alive, hy] using halive

theorem removeFdSync_eq {s : State} {fd i : Nat}
    (hentry : s.ledger.table fd = .entry i) :
    s.removeFdSync fd = { s with removed := i :: s.removed } := by
  simp only [State.removeFdSync, hentry]

/-- A reference that a socket holds. -/
theorem useCount_pos_of_socket {s : State} {k r : Nat} {x : Socket}
    (hx : s.sockets[k]? = some x) (hr : x.res = some r) : 0 < s.useCount r := by
  have hheld := Inventory.held_set_of_getElem? Socket.refs hx { x with res := none } r
  simp only [Socket.refs, hr, Option.toList_some, List.count_singleton_self,
    Option.toList_none, List.count_nil] at hheld
  rw [State.useCount]
  omega

theorem releaseStep_inv {s t : State} {c : Nat} {call : Call} (hs : Inv s)
    (hc : s.calls[c]? = some call) (hstep : s.releaseStep c call = some t) :
    Inv t := by
  unfold State.releaseStep at hstep
  split at hstep
  · next hpc =>
      obtain ⟨x, hx, hstep⟩ := Option.bind_eq_some_iff.mp hstep
      split at hstep
      · simp at hstep
      · split at hstep
        · obtain rfl := Option.some.inj hstep
          exact hs.goto hc hpc (.refl s) rfl (by simp [Pc.refs])
        · next r hr =>
            obtain rfl := Option.some.inj hstep
            refine hs.gotoReap hc hpc (.releaseCheck r) none [r]
              (.setSocket hx _) rfl ?_ ?_
            · simp [Pc.refs, Nat.add_comm]
            · simpa using useCount_pos_of_socket hx hr
  · next r hpc =>
      obtain ⟨y, hy, hstep⟩ := Option.bind_eq_some_iff.mp hstep
      split at hstep
      · obtain ⟨x, hx, rfl⟩ := Option.map_eq_some_iff.mp hstep
        exact hs.goto hc hpc (.setSocket hx _) rfl (by simp [Pc.refs])
      · obtain rfl := Option.some.inj hstep
        exact hs.goto hc hpc (.refl s) rfl (by simp [Pc.refs])
  · next r hpc =>
      obtain ⟨x, hx, rfl⟩ := Option.map_eq_some_iff.mp hstep
      split
      · exact hs.gotoReap hc hpc .returned (some r) [] (.setSocket hx _) rfl
          (by simp [Pc.refs, Nat.add_comm]) (by simp)
      · next current hcurrent =>
          refine hs.gotoReap hc hpc (.releaseMark current) (some r) []
            (.take hx _ _) rfl ?_ ?_
          · intro other
            simp only [Pc.refs, hcurrent, Option.toList_none, Option.toList_some,
              List.count_nil]
            omega
          · simp
  · next r hpc =>
      obtain rfl := Option.some.inj hstep
      exact hs.goto hc hpc (.markClosing s _) rfl (by simp [Pc.refs])
  · next r hpc =>
      obtain ⟨y, hy, rfl⟩ := Option.map_eq_some_iff.mp hstep
      cases hfd : y.fd with
      | none =>
          exact hs.goto hc hpc (.setResource hy (by simp [Resource.kept, hfd])) rfl
            (by simp [Pc.refs])
      | some d =>
          have hrefs : r ∈ call.pc.refs := by simp [hpc, Pc.refs]
          refine hs.gotoFds hc hpc rfl rfl (fun _ => rfl) ?_
            (fun _ hrest => ?_) (by simp [Pc.refs])
          · exact Inventory.map_set_of_getElem? hy rfl
          · exact FdInv.setResource hrest hy
              (fun _ hkept => hkept.takeFd hfd (hs.phase_of_call hc hrefs hy))
  · next d r hpc =>
      obtain rfl := Option.some.inj hstep
      have howned := hs.fds.owned_call hc (d := d) (by simp [Call.custody, hpc,
        Pc.custody, Custody.holdings])
      rw [removeFdSync_eq howned]
      exact hs.gotoFds hc hpc rfl rfl (fun _ => rfl) rfl
        (fun _ hrest => hrest.remove) (by simp [Pc.refs])
  · next d r hpc =>
      obtain rfl := Option.some.inj hstep
      cases d with
      | none =>
          exact hs.gotoReap hc hpc .returned (some r) [] (.refl s) rfl
            (by simp [Pc.refs]) (by simp)
      | some d =>
          apply hs.gotoFdsReap hc hpc .returned (some r)
          · rfl
          · rfl
          · exact fun _ => rfl
          · rfl
          · exact fun _ hrest => hrest.handOut
          · simp [Pc.refs]
  · simp at hstep

theorem guardStep_inv {s t : State} {c : Nat} {call : Call} {ok : Bool}
    (hs : Inv s) (hc : s.calls[c]? = some call)
    (hstep : s.guardStep c call ok = some t) : Inv t := by
  unfold State.guardStep at hstep
  split at hstep
  · next hpc =>
      obtain ⟨x, hx, rfl⟩ := Option.map_eq_some_iff.mp hstep
      split
      · exact hs.goto hc hpc (.refl s) rfl (by simp [Pc.refs])
      · next r hr =>
          refine hs.gotoReap hc hpc (.snapshot r) none [r] (.refl s) rfl ?_ ?_
          · simp [Pc.refs]
          · simpa using useCount_pos_of_socket hx hr
  · next r hpc =>
      split at hstep
      · obtain ⟨x, hx, hstep⟩ := Option.bind_eq_some_iff.mp hstep
        split at hstep
        · simp at hstep
        · obtain rfl := Option.some.inj hstep
          refine hs.gotoReap hc hpc (.guardCheck r x.res) none x.res.toList
            (.setSocket hx _) rfl ?_ ?_
          · intro other
            simp only [Pc.refs, List.count_cons, List.count_nil,
              Option.toList_none]
            omega
          · intro other hother
            exact useCount_pos_of_socket hx (by simpa using hother)
      · obtain rfl := Option.some.inj hstep
        exact hs.goto hc hpc (.refl s) rfl (by simp [Pc.refs])
  · next r current hpc =>
      split at hstep
      · next haccept =>
          obtain rfl := Option.some.inj hstep
          exact hs.goto hc hpc (.refl s) rfl (by simp [Pc.refs, haccept.1])
      · obtain ⟨x, hx, rfl⟩ := Option.map_eq_some_iff.mp hstep
        refine hs.gotoReap hc hpc (.snapshot r) current [] (.setSocket hx _) rfl
          ?_ (by simp)
        intro other
        simp only [Pc.refs, List.count_cons, List.count_nil]
        omega
  · next r current hpc =>
      obtain ⟨y, hy, hstep⟩ := Option.bind_eq_some_iff.mp hstep
      obtain ⟨x, hx, rfl⟩ := Option.map_eq_some_iff.mp hstep
      apply hs.keep none []
      · have hkept := Inventory.map_set_of_getElem? hy
          (kept_inflight y (FixedWidth.incr 32 y.inflight))
        simp only [FdOk, State.setSocket, hkept]
        apply FdInv.setCall hs.fds hc
        simp [Call.custody, hpc, Pc.custody]
      · exact Inventory.map_set_of_getElem? hy rfl
      · intro other
        have hcalls := Inventory.held_set_of_getElem? Call.refs hc
          { call with pc := .snapshot r } other
        have hlock := held_setLock hx none other
        simp only [State.useCount, State.setSocket, hlock, Call.refs,
          hpc, Pc.refs, Inventory.held_append, Inventory.held_cons,
          Inventory.held_nil, Guard.refs, List.count_cons, List.count_nil,
          Option.toList_none] at hcalls ⊢
        omega
      · simp
  · simp at hstep

theorem acceptStep_inv {s t : State} {c : Nat} {call : Call} {ok : Bool}
    (hs : Inv s) (hc : s.calls[c]? = some call)
    (hstep : s.acceptStep c call ok = some t) : Inv t := by
  unfold State.acceptStep at hstep
  split at hstep
  · next d r hpc =>
      obtain rfl := Option.some.inj hstep
      cases ok with
      | true => exact hs.goto hc hpc (.refl s) rfl (by simp [Pc.refs])
      | false => exact hs.goto hc hpc (.refl s) rfl (by simp [Pc.refs])
  · next d r hpc =>
      obtain ⟨y, hy, rfl⟩ := Option.map_eq_some_iff.mp hstep
      split
      · exact hs.goto hc hpc (.refl s) rfl (by simp [Pc.refs])
      · exact hs.goto hc hpc (.refl s) rfl (by simp [Pc.refs])
  · next d r hpc =>
      obtain rfl := Option.some.inj hstep
      exact hs.gotoFds hc hpc rfl rfl (fun _ => rfl) rfl
        (fun _ hrest => hrest.fail) (by simp [Pc.refs])
  · next d r hpc =>
      obtain rfl := Option.some.inj hstep
      exact hs.gotoReap hc hpc (.adopt d) (some r) [] (.refl s) rfl
        (by simp [Pc.refs]) (by simp)
  · next d hpc =>
      obtain rfl := Option.some.inj hstep
      apply hs.keep none []
      · apply FdInv.setCall hs.fds hc
        simp [Call.custody, hpc, Pc.custody]
      · rfl
      · intro other
        have hcalls := Inventory.held_set_of_getElem? Call.refs hc
          { socket := s.sockets.length, pc := .assignTake d } other
        simp only [State.useCount, Call.refs, hpc, Pc.refs,
          Inventory.held_append, Inventory.held_cons, Inventory.held_nil,
          Socket.refs, Socket.make, Option.toList_none, List.count_nil]
          at hcalls ⊢
        omega
      · simp
  · simp at hstep

theorem callStep_inv {s t : State} {c : Nat} {call : Call} {ok : Bool}
    (hs : Inv s) (hc : s.calls[c]? = some call)
    (hstep : s.callStep c call ok = some t) : Inv t := by
  unfold State.callStep at hstep
  split at hstep
  all_goals first
    | exact openStep_inv hs hc hstep
    | exact setupStep_inv hs hc hstep
    | exact exchangeStep_inv hs hc hstep
    | exact releaseStep_inv hs hc hstep
    | exact guardStep_inv hs hc hstep
    | exact acceptStep_inv hs hc hstep
    | simp at hstep

/-! ### The other steps -/

theorem useCount_setGuard {s t : State} {g : Nat} {guard : Guard}
    (hg : s.guards[g]? = some guard) (new : Guard)
    (hguards : t.guards = s.guards.set g new) (hsockets : t.sockets = s.sockets)
    (hcalls : t.calls = s.calls) (r : Nat) :
    t.useCount r + guard.refs.count r = s.useCount r + new.refs.count r := by
  have hheld := Inventory.held_set_of_getElem? Guard.refs hg new r
  simp only [State.useCount, hguards, hsockets, hcalls]
  omega

theorem resetStep_inv {s t : State} {g : Nat} {guard : Guard} (hs : Inv s)
    (hg : s.guards[g]? = some guard) (hstep : s.resetStep g guard = some t) :
    Inv t := by
  cases guard with
  | empty => simp [State.resetStep] at hstep
  | live r =>
      obtain ⟨y, hy, rfl⟩ := Option.map_eq_some_iff.mp hstep
      have hkept := Inventory.map_set_of_getElem? hy
        (kept_inflight y (FixedWidth.decr 32 y.inflight))
      apply hs.keep none []
      · simp only [FdOk, hkept]
        exact hs.fds
      · exact map_phase_of_kept hkept
      · intro other
        apply Nat.add_right_cancel
        apply useCount_setGuard hg (.resetting r)
        · rfl
        · rfl
        · rfl
      · simp
  | resetting r =>
      obtain rfl := Option.some.inj hstep
      apply hs.keep (some r) []
      · exact hs.fds
      · rfl
      · intro other
        apply useCount_setGuard hg .empty
        · rfl
        · rfl
        · rfl
      · simp

/-- A step of a destructor: no reference changes. -/
theorem RefInv.destruct {s t : State} (hs : RefInv s) {r : Nat}
    {y new : Resource} (hr : s.resources[r]? = some y) (hy : y.phase ≠ .alive)
    (hnew : new.phase ≠ .alive) (hresources : t.resources = s.resources.set r new)
    (huse : ∀ other, t.useCount other = s.useCount other) : RefInv t := by
  intro other
  rw [huse, ← hs other, State.alive, State.alive, hresources, List.getElem?_set]
  obtain ⟨hlt, rfl⟩ := List.getElem?_eq_some_iff.mp hr
  by_cases heq : r = other
  · subst heq
    simp [hlt, hy, hnew]
  · simp [heq]

theorem destructStep_inv {s t : State} {r : Nat} {y : Resource} (hs : Inv s)
    (hr : s.resources[r]? = some y) (hstep : s.destructStep r y = some t) :
    Inv t := by
  unfold State.destructStep at hstep
  split at hstep
  · simp at hstep
  · simp at hstep
  · next hphase =>
      obtain rfl := Option.some.inj hstep
      refine ⟨FdInv.setResource hs.fds hr fun rest hrest => ?_,
        hs.refs.destruct hr ?_ ?_ rfl fun _ => rfl⟩
      · cases hfd : y.fd with
        | some d => exact hrest.destructTake hfd hphase
        | none =>
            have hkept : y.kept =
                { fd := none, phase := .releasing, entry := y.entry } := by
              rw [Resource.kept, hfd, hphase]
            rw [hkept] at hrest
            exact hrest.setPhase .dead (by simp) rfl (by simp)
      · simp [hphase]
      · cases y.fd <;> simp
  · next d hphase =>
      obtain rfl := Option.some.inj hstep
      have howned := hs.fds.owned_resource hr (d := d)
        (by simp [Resource.kept, Kept.holdings, hphase])
      rw [removeFdSync_eq howned]
      refine ⟨FdInv.setResource hs.fds hr fun rest hrest => ?_,
        hs.refs.destruct hr ?_ ?_ rfl fun _ => rfl⟩
      · apply (hrest.mono fun _ => List.mem_cons_of_mem d.entry).setPhase (.closing d)
        · simp [Resource.kept, hphase]
        · simp [Resource.kept, Kept.holdings, hphase]
        · simp
      · simp [hphase]
      · simp
  · next d hphase =>
      obtain rfl := Option.some.inj hstep
      refine ⟨FdInv.setResource hs.fds hr fun rest hrest => ?_,
        hs.refs.destruct hr ?_ ?_ rfl fun _ => rfl⟩
      · exact hrest.destructClose hphase
      · simp [hphase]
      · simp

/-- A new call, which may have taken in a descriptor. -/
theorem Inv.spawn {s : State} (hs : Inv s) (k : Nat) {pc : Pc}
    {ledger : Ledger Nat}
    (hfds : FdInv s.ledger s.removed (.none :: s.calls.map Call.custody)
        (s.resources.map Resource.kept) →
      FdInv ledger s.removed (pc.custody :: s.calls.map Call.custody)
        (s.resources.map Resource.kept))
    (hrefs : ∀ r ∈ pc.refs, 0 < s.useCount r) :
    Inv ({ s with ledger }.spawn k pc) := by
  have hnone : FdInv s.ledger s.removed (.none :: s.calls.map Call.custody)
      (s.resources.map Resource.kept) := by
    refine { hs.fds with returning := ?_ }
    simpa using hs.fds.returning
  apply hs.keep none pc.refs
  · simp only [FdOk, List.map_append]
    exact (hfds hnone).perm (List.perm_append_singleton _ _) (List.Perm.refl _)
  · rfl
  · intro r
    simp only [State.useCount, Inventory.held_append,
      Inventory.held_cons, Inventory.held_nil, Call.refs, Option.toList_none,
      List.count_nil]
    omega
  · exact hrefs

theorem useCount_pos_of_guard {s : State} {g r : Nat} {guard : Guard}
    (hg : s.guards[g]? = some guard) (hr : r ∈ guard.refs) :
    0 < s.useCount r := by
  have hheld := Inventory.held_set_of_getElem? Guard.refs hg .empty r
  have hpos := List.count_pos_iff.mpr hr
  have hnone : Guard.empty.refs.count r = 0 := rfl
  rw [State.useCount]
  omega

/-- Putting a guard into another place does not disturb it. -/
theorem getElem?_set_of_eq {guards : List Guard} {g h : Nat} {guard : Guard}
    (hg : guards[g]? = some guard) : (guards.set h guard)[g]? = some guard := by
  rw [List.getElem?_set]
  obtain ⟨hlt, -⟩ := List.getElem?_eq_some_iff.mp hg
  by_cases heq : h = g
  · simp [heq, hlt]
  · simpa [heq] using hg

theorem step_inv {s t : State} {a : Action} (hs : Inv s)
    (hstep : step s a = some t) : Inv t := by
  cases a with
  | outsideOpen fd =>
      simp only [step, Option.ite_none_right_eq_some, Option.some.injEq] at hstep
      obtain ⟨hfree, rfl⟩ := hstep
      refine ⟨{ hs.fds with balanced := ?_ }, hs.refs⟩
      exact hs.fds.balanced.outside (by simp [hfree]) _
  | outsideClose fd =>
      simp only [step, Option.ite_none_right_eq_some, Option.some.injEq] at hstep
      obtain ⟨houtside, rfl⟩ := hstep
      refine ⟨{ hs.fds with balanced := ?_ }, hs.refs⟩
      exact hs.fds.balanced.outside (by simp [houtside]) _
  | newSocket =>
      obtain rfl := Option.some.inj hstep
      apply hs.keep none []
      · exact hs.fds
      · rfl
      · simp [State.useCount, Socket.refs, Socket.make]
      · simp
  | start k entry =>
      obtain ⟨x, hx, hstep⟩ := Option.bind_eq_some_iff.mp hstep
      simp only [Option.ite_none_right_eq_some, Option.some.injEq] at hstep
      obtain ⟨-, rfl⟩ := hstep
      cases entry with
      | «open» => exact hs.spawn k id (by simp [Entry.pc, Pc.refs])
      | close => exact hs.spawn k id (by simp [Entry.pc, Pc.refs])
      | release => exact hs.spawn k id (by simp [Entry.pc, Pc.refs])
      | acquire => exact hs.spawn k id (by simp [Entry.pc, Pc.refs])
  | assign k fd =>
      obtain ⟨x, hx, hstep⟩ := Option.bind_eq_some_iff.mp hstep
      simp only [Option.ite_none_right_eq_some, Option.some.injEq] at hstep
      obtain ⟨⟨-, houtside⟩, rfl⟩ := hstep
      exact hs.spawn k (fun hnone => hnone.enter (by simp [houtside]))
        (by simp [Pc.refs])
  | destroy k =>
      obtain ⟨x, hx, hstep⟩ := Option.bind_eq_some_iff.mp hstep
      simp only [Option.ite_none_right_eq_some, Option.some.injEq] at hstep
      obtain ⟨-, rfl⟩ := hstep
      have hdead : Inv (s.setSocket k { x with alive := false }) := by
        apply hs.keep none []
        · exact hs.fds
        · rfl
        · intro r
          have hheld := Inventory.held_set_of_getElem? Socket.refs hx
            { x with alive := false } r
          simp only [State.useCount, Socket.refs] at hheld ⊢
          simpa using hheld
        · simp
      exact hdead.spawn k id (by simp [Pc.refs])
  | accept k g fd needsSetup =>
      simp only [step] at hstep
      split at hstep
      · next r hg =>
          simp only [Option.ite_none_right_eq_some, Option.some.injEq] at hstep
          obtain ⟨hfree, rfl⟩ := hstep
          have hpos := useCount_pos_of_guard hg (r := r) (by simp [Guard.refs])
          cases needsSetup with
          | true =>
              exact hs.spawn k (fun hnone => hnone.enter (by simp [hfree]))
                (by simpa [Pc.refs] using hpos)
          | false =>
              exact hs.spawn k (fun hnone => hnone.enter (by simp [hfree]))
                (by simpa [Pc.refs] using hpos)
      · simp at hstep
  | socket c fd =>
      obtain ⟨call, hc, hstep⟩ := Option.bind_eq_some_iff.mp hstep
      simp only [Option.ite_none_right_eq_some] at hstep
      exact socketStep_inv hs hc hstep.1 hstep.2
  | resume c ok =>
      obtain ⟨call, hc, hstep⟩ := Option.bind_eq_some_iff.mp hstep
      exact callStep_inv hs hc hstep
  | newGuard =>
      obtain rfl := Option.some.inj hstep
      apply hs.keep none []
      · exact hs.fds
      · rfl
      · simp [State.useCount, Guard.refs]
      · simp
  | resetGuard g =>
      obtain ⟨guard, hg, hstep⟩ := Option.bind_eq_some_iff.mp hstep
      exact resetStep_inv hs hg hstep
  | moveGuard g h =>
      simp only [step] at hstep
      split at hstep
      · next r hg =>
          simp only [Option.ite_none_right_eq_some, Option.some.injEq] at hstep
          obtain ⟨hh, rfl⟩ := hstep
          apply hs.keep none []
          · exact hs.fds
          · rfl
          · intro other
            have hput := Inventory.held_set_of_getElem? Guard.refs hh (.live r)
              other
            have htake := Inventory.held_set_of_getElem? Guard.refs
              (getElem?_set_of_eq (h := h) hg) .empty other
            simp only [State.useCount, Option.toList_none, List.count_nil]
            omega
          · simp
      · simp at hstep
  | destruct r =>
      obtain ⟨y, hr, hstep⟩ := Option.bind_eq_some_iff.mp hstep
      exact destructStep_inv hs hr hstep

/-! ### Descriptors are given up once -/

/-- No call, guard or socket refers to a resource, and no destructor runs. -/
structure Idle (s : State) : Prop where
  calls : ∀ call ∈ s.calls, call.pc = .returned
  sockets : ∀ x ∈ s.sockets, x.res = none
  guards : ∀ g ∈ s.guards, g.refs = []
  resources : ∀ y ∈ s.resources, y.phase = .alive ∨ y.phase = .dead

theorem Idle.useCount {s : State} (hidle : Idle s) (r : Nat) :
    s.useCount r = 0 := by
  rw [State.useCount, Inventory.held_eq_zero, Inventory.held_eq_zero,
    Inventory.held_eq_zero]
  · exact hidle.guards
  · intro call hcall
    rw [Call.refs, hidle.calls call hcall]
    rfl
  · intro x hx
    rw [Socket.refs, hidle.sockets x hx]
    rfl

theorem start_inv : Inv system.start where
  fds := by
    constructor
    · exact Ledger.balanced_empty
    all_goals simp [system]
  refs := by
    intro r
    simp [State.alive, State.useCount, system]

end SocketLifecycle

end Iocoro
