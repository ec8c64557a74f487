/-
`release` and operation guards exclude each other.  While the 32-bit count of a
resource does not wrap round, it is the number of live guards; so `release` takes
no resource that a guard pins, and what a guard pins keeps its descriptor.
-/
import Iocoro.SocketLocks

namespace Iocoro

namespace SocketLifecycle

/-- The count of a resource with so many live guards. -/
structure Counts (live : Nat) (y : Resource) : Prop where
  count : y.inflight = live
  fits : y.inflight < 2 ^ 32
  pinned : y.fd = none → live = 0

structure CountInv (s : State) : Prop where
  counts : ∀ (r : Nat) (y : Resource), s.resources[r]? = some y →
    Counts (s.live r) y
  idle : ∀ call ∈ s.calls, ∀ r, call.pc.unpinned = some r → s.live r = 0

theorem Counts.congr {live : Nat} {y z : Resource} (h : Counts live z)
    (hcounted : z.counted = y.counted) : Counts live y := by
  obtain ⟨hinflight, hfd⟩ := Prod.mk.inj hcounted
  refine ⟨hinflight.symm.trans h.count, hinflight ▸ h.fits, fun hnone => ?_⟩
  apply h.pinned
  rw [hnone, Option.isNone_none] at hfd
  exact Option.isNone_iff_eq_none.mp hfd

/-- Steps that leave the guards and the counts alone. -/
theorem CountInv.quiet {s t : State} (hs : CountInv s)
    (hlive : ∀ r, t.live r = s.live r)
    (hcounted : t.resources.map Resource.counted =
      s.resources.map Resource.counted)
    (hidle : ∀ call ∈ t.calls, ∀ r, call.pc.unpinned = some r →
      s.live r = 0) : CountInv t where
  counts := by
    intro r y hy
    obtain ⟨z, hz, heq⟩ := Inventory.getElem?_of_map_eq hcounted hy
    rw [hlive]
    exact (hs.counts r z hz).congr heq
  idle := by
    intro call hcall r hr
    rw [hlive]
    exact hidle call hcall r hr

theorem live_congr {s t : State} (hguards : t.guards = s.guards) (r : Nat) :
    t.live r = s.live r := by
  rw [State.live, State.live, hguards]

/-- An update of one call that leaves the guards alone. -/
theorem CountInv.setCall {s t : State} (hs : CountInv s) {c : Nat} (new : Call)
    (hcalls : t.calls = s.calls.set c new) (hguards : t.guards = s.guards)
    (hcounts : ∀ (r : Nat) (y : Resource), t.resources[r]? = some y →
      Counts (s.live r) y)
    (hnew : ∀ r, new.pc.unpinned = some r → s.live r = 0) : CountInv t where
  counts := by
    intro r y hy
    rw [live_congr hguards]
    exact hcounts r y hy
  idle := by
    intro call hcall r hr
    rw [hcalls] at hcall
    rw [live_congr hguards]
    rcases List.mem_or_eq_of_mem_set hcall with hold | rfl
    · exact hs.idle call hold r hr
    · exact hnew r hr

theorem CountInv.reap {t : State} (ht : CountInv t) (dropped : Option Nat) :
    CountInv (t.reap dropped) := by
  cases dropped with
  | none => exact ht
  | some r =>
      simp only [State.reap]
      split
      · exact ht.quiet (fun _ => rfl)
          (Inventory.map_modify_of_eq (by simp [Resource.counted]) _ _) ht.idle
      · exact ht

/-- A step of a call that does not count. -/
theorem CountInv.move {s t : State} (hs : CountInv s) {c : Nat} {call : Call}
    {new : Pc} (hc : s.calls[c]? = some call) (h : Move s t c call new)
    (hadding : call.pc.adding = false) (hcounting : call.pc.counting = false) :
    CountInv t := by
  apply hs.quiet (live_congr (h.guards hadding)) (h.counted hcounting)
  intro other hother r hr
  rw [h.calls] at hother
  rcases List.mem_or_eq_of_mem_set hother with hold | rfl
  · exact hs.idle other hold r hr
  · exact hs.idle call (List.mem_of_getElem? hc) r (h.unpinned hcounting r hr)

/-! ### Counting steps -/

/-- Guards are references. -/
theorem live_le_useCount (s : State) (r : Nat) : s.live r ≤ s.useCount r := by
  have hguards : ∀ guards : List Guard,
      guards.count (.live r) ≤ Inventory.held Guard.refs guards r := by
    intro guards
    induction guards with
    | nil => simp
    | cons guard guards ih =>
        rw [List.count_cons, Inventory.held_cons]
        cases guard with
        | empty => simpa [Guard.refs] using ih
        | live q =>
            by_cases hq : q = r
            · simp only [hq, Guard.refs, List.count_singleton_self, beq_self_eq_true,
                if_true]
              omega
            · simpa [Guard.refs, hq] using ih
        | resetting q => simpa using Nat.le_add_left_of_le ih
  rw [State.live, State.useCount]
  exact Nat.le_add_left_of_le (hguards s.guards)

/-- There is no guard on a resource that has lost its last reference. -/
theorem RefInv.live_eq_zero {s : State} (hs : RefInv s) {r : Nat}
    (hdead : s.alive r = false) : s.live r = 0 := by
  have hrefs := hs r
  rw [hdead] at hrefs
  have hle := live_le_useCount s r
  simp only [Bool.false_eq_true, false_iff, Nat.not_lt, Nat.le_zero] at hrefs
  omega

theorem counts_append {s : State} (hs : CountInv s) (hrefs : RefInv s)
    (d : Descriptor) {r : Nat} {y : Resource}
    (hy : (s.resources ++ [Resource.make d])[r]? = some y) :
    Counts (s.live r) y := by
  rw [List.getElem?_append] at hy
  split at hy
  · exact hs.counts r y hy
  · next hlarge =>
      have hdead : s.alive r = false := by
        simp [State.alive, List.getElem?_eq_none (Nat.le_of_not_lt hlarge)]
      rw [hrefs.live_eq_zero hdead,
        List.mem_singleton.mp (List.mem_of_getElem? hy)]
      exact ⟨rfl, by simp [Resource.make], fun _ => rfl⟩

theorem setupStep_count {s t : State} {c : Nat} {call : Call} {ok : Bool}
    {origin : Origin} {d : Descriptor} {old : Option Nat} (hs : CountInv s)
    (hrefs : RefInv s) (hpc : call.pc = .makeResource origin d old)
    (hstep : s.setupStep c call ok = some t) : CountInv t := by
  simp only [State.setupStep, hpc] at hstep
  cases origin with
  | opened =>
      obtain ⟨x, hx, rfl⟩ := Option.map_eq_some_iff.mp hstep
      apply CountInv.reap
      apply hs.setCall { call with pc := .dropOld old false }
      · rfl
      · rfl
      · exact fun r y hy => counts_append hs hrefs d hy
      · simp
  | assigned =>
      obtain rfl := Option.some.inj hstep
      apply hs.setCall { call with pc := .publish s.resources.length old }
      · rfl
      · rfl
      · exact fun r y hy => counts_append hs hrefs d hy
      · simp

theorem releaseStep_count {s t : State} {c : Nat} {call : Call}
    (hs : CountInv s) (hlocks : LockInv s) (hc : s.calls[c]? = some call)
    (hcounting : call.pc.counting = true)
    (hstep : s.releaseStep c call = some t) : CountInv t := by
  unfold State.releaseStep at hstep
  split at hstep
  · next hpc => simp [hpc] at hcounting
  · next r hpc =>
      obtain ⟨y, hy, hstep⟩ := Option.bind_eq_some_iff.mp hstep
      split at hstep
      · obtain ⟨x, hx, rfl⟩ := Option.map_eq_some_iff.mp hstep
        exact hs.setCall { call with pc := .dropOld (some r) false } rfl rfl
          hs.counts (by simp)
      · next hzero =>
          obtain rfl := Option.some.inj hstep
          have hlive : s.live r = 0 := by
            rw [← (hs.counts r y hy).count]
            simpa using hzero
          exact hs.setCall { call with pc := .releaseTake r } rfl rfl hs.counts
            fun q hq => Option.some.inj hq ▸ hlive
  · next r hpc =>
      obtain ⟨x, hx, rfl⟩ := Option.map_eq_some_iff.mp hstep
      have hres : x.res = some r := (hlocks.lock_eq hc hpc hx rfl).2
      split
      · apply CountInv.reap
        exact hs.setCall { call with pc := .returned } rfl rfl hs.counts (by simp)
      · next current hcurrent =>
          -- The lock was not given up since `release` looked at `res_`.
          obtain rfl := Option.some.inj (hres.symm.trans hcurrent)
          have hlive := hs.idle call (List.mem_of_getElem? hc) r (by simp [hpc])
          apply CountInv.reap
          exact hs.setCall { call with pc := .releaseMark r } rfl rfl hs.counts
            fun q hq => Option.some.inj hq ▸ hlive
  · next r hpc => simp [hpc] at hcounting
  · next r hpc =>
      obtain ⟨y, hy, rfl⟩ := Option.map_eq_some_iff.mp hstep
      have hlive := hs.idle call (List.mem_of_getElem? hc) r (by simp [hpc])
      have hcounts : ∀ (q : Nat) (z : Resource),
          (s.resources.set r { y with fd := none })[q]? = some z →
          Counts (s.live q) z := by
        intro q z hz
        have hy' := hs.counts r y hy
        by_cases heq : r = q
        · subst heq
          rw [List.getElem?_set_self (List.getElem?_eq_some_iff.mp hy).1] at hz
          obtain rfl := Option.some.inj hz
          exact ⟨hy'.count, hy'.fits, fun _ => hlive⟩
        · rw [List.getElem?_set_ne heq] at hz
          exact hs.counts q z hz
      cases y.fd with
      | none =>
          exact hs.setCall { call with pc := .releaseReturn none r } rfl rfl
            hcounts fun q hq => Option.some.inj hq ▸ hlive
      | some d =>
          exact hs.setCall { call with pc := .removeFd d r } rfl rfl hcounts
            fun q hq => Option.some.inj hq ▸ hlive
  · next d r hpc => simp [hpc] at hcounting
  · next d r hpc => simp [hpc] at hcounting
  · simp at hstep

/-- The count of the resource that a step adds a guard to does not wrap round. -/
def State.fits (s : State) : Action → Bool
  | .resume c _ => s.calls[c]?.all fun call =>
      match call.pc with
      | .guardAdd _ current => s.resources[current]?.all fun y =>
          decide (y.inflight + 1 < 2 ^ 32)
      | _ => true
  | _ => true

/-- What a call in `make_operation_guard` found in `res_` has not been taken, and
nothing else is about to take it. -/
theorem LockInv.unpinned_ne {s : State} (hs : LockInv s) {c r current : Nat}
    {call : Call} (hc : s.calls[c]? = some call)
    (hpc : call.pc = .guardAdd r current) : current ∉ s.taken ∧
      ∀ other ∈ s.calls, other.pc.unpinned ≠ some current := by
  obtain ⟨x, hx, hlock, hres⟩ := hs.locked c call (some current) hc (by simp [hpc])
  have htaken := hs.not_taken hx hres
  refine ⟨htaken, fun other hother hunpinned => ?_⟩
  have hreleasing := hs.releasing other hother current
  cases hother' : other.pc with
  | releaseTake old =>
      have hold : old = current := by simpa [hother'] using hunpinned
      obtain ⟨i, hi⟩ := List.mem_iff_getElem?.mp hother
      obtain ⟨y, hy, hylock, hyres⟩ :=
        hs.locked i other (some current) hi (by simp [hother', hold])
      -- Two calls cannot have the lock of the only socket with this resource.
      have hsocket := hs.socket_unique hx hy hres hyres
      rw [← hsocket, hx] at hy
      obtain rfl := Option.some.inj hy
      have hci : c = i := Option.some.inj (hlock.symm.trans hylock)
      rw [← hci, hc] at hi
      rw [← Option.some.inj hi, hpc] at hother'
      simp at hother'
  | _ =>
      simp [hother'] at hunpinned hreleasing
      try exact htaken (hreleasing hunpinned)

theorem live_append (s : State) (current r : Nat) :
    (s.guards ++ [Guard.live current]).count (.live r) =
      s.live r + if current = r then 1 else 0 := by
  rw [List.count_append, List.count_singleton]
  simp [State.live]

theorem guardStep_count {s t : State} {c r current : Nat} {call : Call}
    {ok : Bool} (hs : CountInv s) (hinv : Inv s) (hlocks : LockInv s)
    (hc : s.calls[c]? = some call) (hpc : call.pc = .guardAdd r current)
    (hfits : s.fits (.resume c ok) = true)
    (hstep : s.guardStep c call ok = some t) : CountInv t := by
  simp only [State.guardStep, hpc] at hstep
  obtain ⟨y, hy, hstep⟩ := Option.bind_eq_some_iff.mp hstep
  obtain ⟨x, hx, rfl⟩ := Option.map_eq_some_iff.mp hstep
  have hroom : y.inflight + 1 < 2 ^ 32 := by
    simpa [State.fits, hc, hpc, hy] using hfits
  obtain ⟨htaken, hunpinned⟩ := hlocks.unpinned_ne hc hpc
  have hfd : y.fd ≠ none := by
    intro hnone
    have halive := hinv.phase_of_call hc (r := current) (by simp [hpc, Pc.refs]) hy
    exact htaken (hlocks.empty current y hy halive hnone)
  have hlive := live_append s current
  constructor
  · intro q z hz
    change (s.resources.set current _)[q]? = some z at hz
    change Counts ((s.guards ++ [Guard.live current]).count (.live q)) z
    rw [hlive]
    by_cases heq : current = q
    · subst heq
      rw [List.getElem?_set_self (List.getElem?_eq_some_iff.mp hy).1] at hz
      obtain rfl := Option.some.inj hz
      rw [if_pos rfl]
      have hincr := FixedWidth.incr_of_lt hroom
      have hcount := (hs.counts current y hy).count
      exact {
        count := hincr.trans (by rw [hcount])
        fits := hincr ▸ hroom
        pinned := fun hnone => absurd hnone hfd }
    · rw [List.getElem?_set_ne heq] at hz
      rw [if_neg heq]
      exact hs.counts q z hz
  · intro other hother q hq
    change (s.guards ++ [Guard.live current]).count (.live q) = 0
    rw [hlive]
    rcases List.mem_or_eq_of_mem_set hother with hold | rfl
    · have hne : current ≠ q := fun heq => hunpinned other hold (heq ▸ hq)
      rw [if_neg hne]
      exact hs.idle other hold q hq
    · simp at hq

theorem callStep_count {s t : State} {c : Nat} {call : Call} {ok : Bool}
    (hs : CountInv s) (hinv : Inv s) (hlocks : LockInv s)
    (hc : s.calls[c]? = some call) (hfits : s.fits (.resume c ok) = true)
    (hstep : s.callStep c call ok = some t) : CountInv t := by
  rcases callStep_move hstep with ⟨new, hmove⟩ | ⟨d, hpc, rfl⟩
  · cases hcounting : call.pc.counting with
    | false =>
        apply hs.move hc hmove _ hcounting
        cases hpc : call.pc <;> simp_all
    | true =>
        cases hpc : call.pc with
        | makeResource origin d old =>
            simp only [State.callStep, hpc] at hstep
            exact setupStep_count hs hinv.refs hpc hstep
        | guardAdd r current =>
            simp only [State.callStep, hpc] at hstep
            exact guardStep_count hs hinv hlocks hc hpc hfits hstep
        | releaseCheck r | releaseTake r | releaseFd r =>
            simp only [State.callStep, hpc] at hstep
            exact releaseStep_count hs hlocks hc hcounting hstep
        | _ => simp [hpc] at hcounting
  · exact hs.setCall { socket := s.sockets.length, pc := .assignTake d } rfl rfl
      hs.counts (by simp)

/-! ### Guards and destructors -/

theorem resetStep_count {s t : State} {g : Nat} {guard : Guard}
    (hs : CountInv s) (hg : s.guards[g]? = some guard)
    (hstep : s.resetStep g guard = some t) : CountInv t := by
  cases guard with
  | empty => simp [State.resetStep] at hstep
  | live r =>
      obtain ⟨y, hy, rfl⟩ := Option.map_eq_some_iff.mp hstep
      have hold := hs.counts r y hy
      have hpos : 0 < s.live r := List.count_pos_iff.mpr (List.mem_of_getElem? hg)
      have hlive : ∀ q, (s.guards.set g (.resetting r)).count (.live q) =
          s.live q - if r = q then 1 else 0 := by
        intro q
        have hset := Inventory.count_set hg (.resetting r) (.live q)
        simp only [List.count_singleton, beq_iff_eq, Guard.live.injEq,
          reduceCtorEq, if_false] at hset
        rw [State.live]
        omega
      have hdecr := FixedWidth.decr_of_pos (hold.count ▸ hpos) hold.fits
      constructor
      · intro q z hz
        change (s.resources.set r _)[q]? = some z at hz
        change Counts ((s.guards.set g (.resetting r)).count (.live q)) z
        rw [hlive]
        by_cases heq : r = q
        · subst heq
          rw [List.getElem?_set_self (List.getElem?_eq_some_iff.mp hy).1] at hz
          obtain rfl := Option.some.inj hz
          rw [if_pos rfl]
          exact {
            count := hdecr.trans (by rw [hold.count])
            fits := hdecr ▸ Nat.lt_of_le_of_lt (Nat.sub_le _ _) hold.fits
            pinned := fun hnone => by rw [hold.pinned hnone] }
        · rw [List.getElem?_set_ne heq] at hz
          rw [if_neg heq]
          exact hs.counts q z hz
      · intro call hcall q hq
        change (s.guards.set g (.resetting r)).count (.live q) = 0
        rw [hlive, hs.idle call hcall q hq, Nat.zero_sub]
  | resetting r =>
      obtain rfl := Option.some.inj hstep
      have hlive : ∀ q, (s.guards.set g .empty).count (.live q) = s.live q := by
        intro q
        have hset := Inventory.count_set hg .empty (.live q)
        simp only [List.count_singleton, beq_iff_eq, reduceCtorEq, if_false] at hset
        rw [State.live]
        omega
      apply CountInv.reap
      exact hs.quiet hlive rfl hs.idle

theorem destructStep_count {s t : State} {r : Nat} {y : Resource}
    (hs : CountInv s) (hrefs : RefInv s) (hy : s.resources[r]? = some y)
    (hstep : s.destructStep r y = some t) : CountInv t := by
  have hset : ∀ phase, (s.resources.set r { y with phase }).map
      Resource.counted = s.resources.map Resource.counted :=
    fun phase => Inventory.map_set_of_getElem? hy rfl
  unfold State.destructStep at hstep
  split at hstep
  · simp at hstep
  · simp at hstep
  · next hphase =>
      obtain rfl := Option.some.inj hstep
      have hdead : s.alive r = false := by simp [State.alive, hy, hphase]
      have hlive := hrefs.live_eq_zero hdead
      refine ⟨fun q z hz => ?_, hs.idle⟩
      change Counts (s.live q) z
      by_cases heq : r = q
      · subst heq
        rw [List.getElem?_set_self (List.getElem?_eq_some_iff.mp hy).1] at hz
        obtain rfl := Option.some.inj hz
        have hold := hs.counts r y hy
        exact ⟨hold.count, hold.fits, fun _ => hlive⟩
      · rw [List.getElem?_set_ne heq] at hz
        exact hs.counts q z hz
  · next d _ =>
      obtain rfl := Option.some.inj hstep
      unfold State.removeFdSync
      split
      · exact hs.quiet (fun _ => rfl) (hset (.closing d)) hs.idle
      · exact hs.quiet (fun _ => rfl) (hset (.closing d)) hs.idle
  · obtain rfl := Option.some.inj hstep
    exact hs.quiet (fun _ => rfl) (hset .dead) hs.idle

theorem CountInv.spawn {s t : State} (hs : CountInv s) (k : Nat) (pc : Pc)
    (hcalls : t.calls = s.calls ++ [{ socket := k, pc }])
    (hguards : t.guards = s.guards) (hresources : t.resources = s.resources)
    (hunpinned : pc.unpinned = none) : CountInv t := by
  apply hs.quiet (live_congr hguards)
  · rw [hresources]
  · intro call hcall r hr
    rw [hcalls] at hcall
    rcases List.mem_append.mp hcall with hold | hnew
    · exact hs.idle call hold r hr
    · rw [List.mem_singleton.mp hnew, hunpinned] at hr
      simp at hr

/-- A guard that moves pins what it did. -/
theorem live_moveGuard {s : State} {g h r : Nat}
    (hg : s.guards[g]? = some (.live r)) (hh : s.guards[h]? = some .empty)
    (q : Nat) :
    ((s.guards.set h (.live r)).set g .empty).count (.live q) = s.live q := by
  have hfirst := Inventory.count_set hh (.live r) (.live q)
  have hsecond := Inventory.count_set (getElem?_set_of_eq (h := h) hg) .empty
    (.live q)
  simp only [List.count_singleton, beq_iff_eq, reduceCtorEq, if_false] at hfirst hsecond
  rw [State.live]
  omega

theorem step_count {s t : State} {a : Action} (hs : CountInv s) (hinv : Inv s)
    (hlocks : LockInv s) (hfits : s.fits a = true) (hstep : step s a = some t) :
    CountInv t := by
  cases a with
  | outsideOpen fd =>
      simp only [step, Option.ite_none_right_eq_some, Option.some.injEq] at hstep
      obtain ⟨-, rfl⟩ := hstep
      exact hs.quiet (fun _ => rfl) rfl hs.idle
  | outsideClose fd =>
      simp only [step, Option.ite_none_right_eq_some, Option.some.injEq] at hstep
      obtain ⟨-, rfl⟩ := hstep
      exact hs.quiet (fun _ => rfl) rfl hs.idle
  | newSocket =>
      obtain rfl := Option.some.inj hstep
      exact hs.quiet (fun _ => rfl) rfl hs.idle
  | start k entry =>
      obtain ⟨x, hx, hstep⟩ := Option.bind_eq_some_iff.mp hstep
      simp only [Option.ite_none_right_eq_some, Option.some.injEq] at hstep
      obtain ⟨-, rfl⟩ := hstep
      cases entry <;> exact hs.spawn k _ rfl rfl rfl rfl
  | assign k fd =>
      obtain ⟨x, hx, hstep⟩ := Option.bind_eq_some_iff.mp hstep
      simp only [Option.ite_none_right_eq_some, Option.some.injEq] at hstep
      obtain ⟨-, rfl⟩ := hstep
      exact hs.spawn k _ rfl rfl rfl rfl
  | destroy k =>
      obtain ⟨x, hx, hstep⟩ := Option.bind_eq_some_iff.mp hstep
      simp only [Option.ite_none_right_eq_some, Option.some.injEq] at hstep
      obtain ⟨-, rfl⟩ := hstep
      exact hs.spawn k _ rfl rfl rfl rfl
  | accept k g fd needsSetup =>
      simp only [step] at hstep
      split at hstep
      · simp only [Option.ite_none_right_eq_some, Option.some.injEq] at hstep
        obtain ⟨-, rfl⟩ := hstep
        cases needsSetup <;> exact hs.spawn k _ rfl rfl rfl rfl
      · simp at hstep
  | socket c fd =>
      obtain ⟨call, hc, hstep⟩ := Option.bind_eq_some_iff.mp hstep
      simp only [Option.ite_none_right_eq_some] at hstep
      obtain ⟨new, hmove⟩ := socketStep_move hstep.1 hstep.2
      exact hs.move hc hmove (by simp [hstep.1]) (by simp [hstep.1])
  | resume c ok =>
      obtain ⟨call, hc, hstep⟩ := Option.bind_eq_some_iff.mp hstep
      exact callStep_count hs hinv hlocks hc hfits hstep
  | newGuard =>
      obtain rfl := Option.some.inj hstep
      exact hs.quiet (fun q => by simp [State.live]) rfl hs.idle
  | resetGuard g =>
      obtain ⟨guard, hg, hstep⟩ := Option.bind_eq_some_iff.mp hstep
      exact resetStep_count hs hg hstep
  | moveGuard g h =>
      simp only [step] at hstep
      split at hstep
      · next r hg =>
          simp only [Option.ite_none_right_eq_some, Option.some.injEq] at hstep
          obtain ⟨hempty, rfl⟩ := hstep
          exact hs.quiet (live_moveGuard hg hempty) rfl hs.idle
      · simp at hstep
  | destruct r =>
      obtain ⟨y, hy, hstep⟩ := Option.bind_eq_some_iff.mp hstep
      exact destructStep_count hs hinv.refs hy hstep

/-! ### What has been taken -/

/-- A resource that is out of the sockets stays out and gets no new guard. -/
structure Retired (r : Nat) (s t : State) : Prop where
  taken : r ∈ t.taken
  live : t.live r ≤ s.live r

theorem Retired.of_guards {r : Nat} {s t : State} (hr : r ∈ s.taken)
    (htaken : s.taken ⊆ t.taken) (hguards : t.guards = s.guards) :
    Retired r s t :=
  ⟨htaken hr, Nat.le_of_eq (live_congr hguards r)⟩

theorem callStep_retired {s t : State} {c r : Nat} {call : Call} {ok : Bool}
    (hs : LockInv s) (hr : r ∈ s.taken) (hc : s.calls[c]? = some call)
    (hstep : s.callStep c call ok = some t) : Retired r s t := by
  rcases callStep_move hstep with ⟨new, hmove⟩ | ⟨d, hpc, rfl⟩
  · cases hpc : call.pc with
    | guardAdd res current =>
        refine ⟨hmove.taken hr, ?_⟩
        have hne : current ≠ r := fun heq =>
          (hs.unpinned_ne hc hpc).1 (heq ▸ hr)
        simp only [State.callStep, hpc, State.guardStep] at hstep
        obtain ⟨y, hy, hstep⟩ := Option.bind_eq_some_iff.mp hstep
        obtain ⟨x, hx, rfl⟩ := Option.map_eq_some_iff.mp hstep
        change (s.guards ++ [Guard.live current]).count (.live r) ≤ _
        rw [live_append, if_neg hne, Nat.add_zero]
    | _ => exact .of_guards hr hmove.taken (hmove.guards (by simp [hpc]))
  · exact .of_guards hr (fun _ h => h) rfl

theorem resetStep_retired {s t : State} {g r : Nat} {guard : Guard}
    (hr : r ∈ s.taken) (hg : s.guards[g]? = some guard)
    (hstep : s.resetStep g guard = some t) : Retired r s t := by
  have hapart := resetStep_apart hstep
  refine ⟨hapart.taken.symm ▸ hr, ?_⟩
  have hset : ∀ new : Guard, (∀ q, new ≠ .live q) →
      (s.guards.set g new).count (.live r) ≤ s.live r := by
    intro new hnew
    have hcount := Inventory.count_set hg new (.live r)
    have hzero : [new].count (.live r) = 0 :=
      List.count_eq_zero.mpr (by simpa using (hnew r).symm)
    rw [State.live]
    omega
  cases guard with
  | empty => simp [State.resetStep] at hstep
  | live q =>
      obtain ⟨y, hy, rfl⟩ := Option.map_eq_some_iff.mp hstep
      exact hset (.resetting q) (by simp)
  | resetting q =>
      obtain rfl := Option.some.inj hstep
      simp only [State.reap]
      split
      · exact hset .empty (by simp)
      · exact hset .empty (by simp)

theorem step_retired {s t : State} {a : Action} {r : Nat} (hs : LockInv s)
    (hr : r ∈ s.taken) (hstep : step s a = some t) : Retired r s t := by
  cases a with
  | outsideOpen fd =>
      simp only [step, Option.ite_none_right_eq_some, Option.some.injEq] at hstep
      obtain ⟨-, rfl⟩ := hstep
      exact .of_guards hr (fun _ h => h) rfl
  | outsideClose fd =>
      simp only [step, Option.ite_none_right_eq_some, Option.some.injEq] at hstep
      obtain ⟨-, rfl⟩ := hstep
      exact .of_guards hr (fun _ h => h) rfl
  | newSocket =>
      obtain rfl := Option.some.inj hstep
      exact .of_guards hr (fun _ h => h) rfl
  | start k entry =>
      obtain ⟨x, hx, hstep⟩ := Option.bind_eq_some_iff.mp hstep
      simp only [Option.ite_none_right_eq_some, Option.some.injEq] at hstep
      obtain ⟨-, rfl⟩ := hstep
      exact .of_guards hr (fun _ h => h) rfl
  | assign k fd =>
      obtain ⟨x, hx, hstep⟩ := Option.bind_eq_some_iff.mp hstep
      simp only [Option.ite_none_right_eq_some, Option.some.injEq] at hstep
      obtain ⟨-, rfl⟩ := hstep
      exact .of_guards hr (fun _ h => h) rfl
  | destroy k =>
      obtain ⟨x, hx, hstep⟩ := Option.bind_eq_some_iff.mp hstep
      simp only [Option.ite_none_right_eq_some, Option.some.injEq] at hstep
      obtain ⟨-, rfl⟩ := hstep
      exact .of_guards hr (fun _ h => h) rfl
  | accept k g fd needsSetup =>
      simp only [step] at hstep
      split at hstep
      · simp only [Option.ite_none_right_eq_some, Option.some.injEq] at hstep
        obtain ⟨-, rfl⟩ := hstep
        exact .of_guards hr (fun _ h => h) rfl
      · simp at hstep
  | socket c fd =>
      obtain ⟨call, hc, hstep⟩ := Option.bind_eq_some_iff.mp hstep
      simp only [Option.ite_none_right_eq_some] at hstep
      obtain ⟨new, hmove⟩ := socketStep_move hstep.1 hstep.2
      exact .of_guards hr hmove.taken (hmove.guards (by simp [hstep.1]))
  | resume c ok =>
      obtain ⟨call, hc, hstep⟩ := Option.bind_eq_some_iff.mp hstep
      exact callStep_retired hs hr hc hstep
  | newGuard =>
      obtain rfl := Option.some.inj hstep
      exact ⟨hr, by simp [State.live]⟩
  | resetGuard g =>
      obtain ⟨guard, hg, hstep⟩ := Option.bind_eq_some_iff.mp hstep
      exact resetStep_retired hr hg hstep
  | moveGuard g h =>
      simp only [step] at hstep
      split at hstep
      · next q hg =>
          simp only [Option.ite_none_right_eq_some, Option.some.injEq] at hstep
          obtain ⟨hempty, rfl⟩ := hstep
          exact ⟨hr, Nat.le_of_eq (live_moveGuard hg hempty r)⟩
      · simp at hstep
  | destruct q =>
      obtain ⟨y, hy, hstep⟩ := Option.bind_eq_some_iff.mp hstep
      have hapart := destructStep_apart hstep
      refine .of_guards hr (fun _ h => hapart.taken.symm ▸ h) ?_
      unfold State.destructStep at hstep
      split at hstep
      · simp at hstep
      · simp at hstep
      · obtain rfl := Option.some.inj hstep
        rfl
      · obtain rfl := Option.some.inj hstep
        unfold State.removeFdSync
        split <;> rfl
      · obtain rfl := Option.some.inj hstep
        rfl

/-! ### Exclusion -/

/-- `release` takes a resource out of its socket, and hands out its descriptor,
only while no guard on it is live; a resource that was taken gets no new guard;
`inflight_count` is the number of live guards, so that it is not zero when a
guard is reset; and the descriptor of a pinned resource is one that this resource
still has. -/
structure Excluded (s : State) : Prop where
  take : ∀ call ∈ s.calls, ∀ (old r : Nat) (x : Socket),
    call.pc = .releaseTake old → s.sockets[call.socket]? = some x →
    x.res = some r → s.live r = 0
  handOut : ∀ call ∈ s.calls, ∀ r, call.pc.releasing = some r → s.live r = 0
  retired : ∀ r ∈ s.taken, ∀ a t, step s a = some t → Retired r s t
  count : ∀ (r : Nat) (y : Resource), s.resources[r]? = some y →
    y.inflight = s.live r
  pinned : ∀ r, Guard.live r ∈ s.guards → ∃ (y : Resource) (d : Descriptor),
    s.resources[r]? = some y ∧ 0 < y.inflight ∧ y.fd = some d ∧
      y.nativeHandle = d.number ∧ s.ledger.table d.number = .entry y.entry

structure Sound (s : State) : Prop where
  inv : Inv s
  life : LifeInv s
  locks : LockInv s
  counts : CountInv s

theorem step_sound {s t : State} {a : Action} (hs : Sound s)
    (hfits : s.fits a = true) (hstep : step s a = some t) : Sound t where
  inv := step_inv hs.inv hstep
  life := step_life hs.life hstep
  locks := step_lock hs.locks hs.life hstep
  counts := step_count hs.counts hs.inv hs.locks hfits hstep

theorem start_sound : Sound system.start where
  inv := start_inv
  life := by constructor <;> simp [system]
  locks := by constructor <;> simp [system, State.placed]
  counts := by constructor <;> simp [system]

theorem Sound.pinned {s : State} (hs : Sound s) {r : Nat}
    (hr : Guard.live r ∈ s.guards) : ∃ (y : Resource) (d : Descriptor),
      s.resources[r]? = some y ∧ 0 < y.inflight ∧ y.fd = some d ∧
        y.nativeHandle = d.number ∧ s.ledger.table d.number = .entry y.entry := by
  have hpos : 0 < s.live r := List.count_pos_iff.mpr hr
  have halive := (hs.inv.refs r).mpr
    (Nat.lt_of_lt_of_le hpos (live_le_useCount s r))
  obtain ⟨y, hy, hphase⟩ := (Option.any_eq_true _ _).mp halive
  have hcounts := hs.counts.counts r y hy
  have hfd : y.fd ≠ none := fun hnone =>
    Nat.ne_of_gt hpos (hcounts.pinned hnone)
  obtain ⟨d, hd⟩ := Option.ne_none_iff_exists'.mp hfd
  have hholds : d ∈ y.kept.holdings := by
    have hlive : y.phase = .alive := of_decide_eq_true hphase
    simp [Kept.holdings, Resource.kept, hlive, hd]
  have hentry : d.entry = y.entry := hs.inv.fds.entry y.kept
    (List.mem_map_of_mem (List.mem_of_getElem? hy)) d hholds
  have howned : s.ledger.table d.number = .entry y.entry := by
    rw [← hentry]
    exact hs.inv.fds.owned_resource hy hholds
  exact ⟨y, d, hy, hcounts.count ▸ hpos, hd, by simp [Resource.nativeHandle, hd],
    howned⟩

theorem Sound.excluded {s : State} (hs : Sound s) : Excluded s where
  take := by
    intro call hcall old r x hpc hx hres
    obtain ⟨c, hc⟩ := List.mem_iff_getElem?.mp hcall
    have hold := (hs.locks.lock_eq hc hpc hx rfl).2
    obtain rfl := Option.some.inj (hold.symm.trans hres)
    exact hs.counts.idle call hcall old (by simp [hpc])
  handOut := by
    intro call hcall r hr
    apply hs.counts.idle call hcall r
    cases hpc : call.pc <;> simp_all
  retired r hr a t hstep := step_retired hs.locks hr hstep
  count r y hy := (hs.counts.counts r y hy).count
  pinned r hr := hs.pinned hr

/-- The only step that does not fit adds a guard to a resource with a full count. -/
theorem full_of_not_fits {s : State} {a : Action} (hwrap : s.fits a = false) :
    ∃ c ok call r current y, a = .resume c ok ∧ s.calls[c]? = some call ∧
      call.pc = .guardAdd r current ∧ s.resources[current]? = some y ∧
      2 ^ 32 ≤ y.inflight + 1 := by
  unfold State.fits at hwrap
  split at hwrap
  · next c ok =>
      obtain ⟨call, hc, hcall⟩ := (Option.all_eq_false _ _).mp hwrap
      split at hcall
      · next r current hpc =>
          obtain ⟨y, hy, hfull⟩ := (Option.all_eq_false _ _).mp hcall
          exact ⟨c, ok, call, r, current, y, rfl, hc, hpc, hy, by simpa using hfull⟩
      · simp at hcall
  · simp at hwrap

/-- A guard too many wraps the count of its resource round to zero. -/
theorem Sound.not_excluded {s t : State} {a : Action} (hs : Sound s)
    (hwrap : s.fits a = false) (hstep : step s a = some t) : ¬ Excluded t := by
  intro ht
  obtain ⟨c, ok, call, r, current, y, rfl, hc, hpc, hy, hfull⟩ :=
    full_of_not_fits hwrap
  simp only [step, hc, Option.bind_some, State.callStep, hpc, State.guardStep,
    hy] at hstep
  obtain ⟨x, hx, rfl⟩ := Option.map_eq_some_iff.mp hstep
  have hlast : y.inflight + 1 = 2 ^ 32 :=
    Nat.le_antisymm (hs.counts.counts current y hy).fits hfull
  have hcount := ht.count current _
    (List.getElem?_set_self (List.getElem?_eq_some_iff.mp hy).1)
  change FixedWidth.truncate 32 (y.inflight + 1) =
    (s.guards ++ [Guard.live current]).count (.live current) at hcount
  rw [hlast, FixedWidth.truncate_self, live_append, if_pos rfl] at hcount
  simp at hcount

/-- In every run in which no count wraps round, `release` and guards exclude each
other; and they do not where one does. -/
theorem reachableUnder_excluded (s : State)
    (hs : system.ReachableUnder (fun s a => s.fits a = true) s) :
    Excluded s ∧
      ∀ a t, s.fits a = false → step s a = some t → ¬ Excluded t := by
  have hsound : Sound s :=
    hs.invariant start_sound fun _ _ _ hs hfits hstep => step_sound hs hfits hstep
  exact ⟨hsound.excluded, fun _ _ hwrap hstep => hsound.not_excluded hwrap hstep⟩

/-- Two operations pin a resource, one of them moves its guard and resets it, and
`release` is refused. -/
theorem reachableUnder_excluded_busy :
    ∃ s, system.ReachableUnder (fun s a => s.fits a = true) s ∧
      s.guards = [.live 0, .empty, .empty] ∧ s.ledger.released = [] ∧
      s.calls.map Call.pc = [.returned, .snapshot 0, .dropOld (some 0) false] ∧
      Excluded s := by
  obtain ⟨s, hs, hp⟩ := TransitionSystem.exists_reachableUnder_of_execUnder system
    (fun s a => s.fits a = true)
    [.newSocket, .start 0 .open, .resume 0 true, .socket 0 (some 3),
      .resume 0 true, .resume 0 true, .resume 0 true, .resume 0 true,
      .start 0 .acquire, .resume 1 true, .resume 1 true, .resume 1 true,
      .resume 1 true, .resume 1 true, .resume 1 true, .resume 1 true,
      .newGuard, .moveGuard 1 2, .resetGuard 2, .resetGuard 2,
      .start 0 .release, .resume 2 true, .resume 2 true]
    (fun s => s.guards = [.live 0, .empty, .empty] ∧ s.ledger.released = [] ∧
      s.calls.map Call.pc = [.returned, .snapshot 0, .dropOld (some 0) false])
    (by decide)
  obtain ⟨hguards, hreleased, hcalls⟩ := of_decide_eq_true hp
  exact ⟨s, hs, hguards, hreleased, hcalls, (reachableUnder_excluded s hs).1⟩

/-- One socket with an open descriptor, on which these guards are live. -/
def crowded (guards : List Guard) (inflight : Nat) : State where
  ledger := Ledger.enter {} 3
  sockets := [{ res := some 0 }]
  resources := [{ Resource.make { number := 3, entry := 0 } with inflight }]
  guards := guards
  calls := [{ socket := 0, pc := .returned }, { socket := 0, pc := .snapshot 0 }]

/-- The operations of one snapshot can take any number of guards. -/
theorem reachable_crowded (n : Nat) : system.Reachable
    (crowded (List.replicate n (.live 0)) (FixedWidth.truncate 32 n)) := by
  induction n with
  | zero =>
      have hword : system.exec system.start
          [.newSocket, .start 0 .open, .resume 0 true, .socket 0 (some 3),
            .resume 0 true, .resume 0 true, .resume 0 true, .resume 0 true,
            .start 0 .acquire, .resume 1 true] = some (crowded [] 0) := rfl
      exact .exec .start hword
  | succ n ih =>
      have hword : system.exec
          (crowded (List.replicate n (.live 0)) (FixedWidth.truncate 32 n))
          [.resume 1 true, .resume 1 true, .resume 1 true] =
            some (crowded (List.replicate n (.live 0) ++ [Guard.live 0])
              (FixedWidth.incr 32 (FixedWidth.truncate 32 n))) := rfl
      rw [FixedWidth.incr_truncate, ← List.replicate_succ'] at hword
      exact ih.exec hword

theorem reap_of_live {s : State} {r : Nat} (hr : Guard.live r ∈ s.guards) :
    s.reap (some r) = s := by
  have hpos : 0 < s.live r := List.count_pos_iff.mpr hr
  have huse := Nat.lt_of_lt_of_le hpos (live_le_useCount s r)
  exact if_neg (Nat.ne_of_gt huse)

/-- The call of `release` is at some place. -/
def leaving (guards : List Guard) (socket : Socket) (y : Resource)
    (taken removed : List Nat) (pc : Pc) : State :=
  { crowded guards 0 with
    sockets := [socket], resources := [y], taken, removed
    calls := (crowded guards 0).calls ++ [{ socket := 0, pc }] }

/-- `release` hands out the descriptor of a resource that counts no guard. -/
theorem exec_release {guards : List Guard} (hguard : Guard.live 0 ∈ guards) :
    ∃ t, system.exec (crowded guards 0)
      [.start 0 .release, .resume 2 true, .resume 2 true, .resume 2 true,
        .resume 2 true, .resume 2 true, .resume 2 true, .resume 2 true] =
          some t ∧
      t.guards = guards ∧ t.ledger.released = [0] ∧
      t.resources.map Resource.nativeHandle = [-1] ∧
      t.resources.map Resource.inflight = [0] := by
  let d : Descriptor := { number := 3, entry := 0 }
  let y := Resource.make d
  let given : Resource := { y with fd := none, closing := true }
  have hreap : ∀ (t : State), t.guards = guards → t.reap (some 0) = t :=
    fun t ht => reap_of_live (ht ▸ hguard)
  have htake : step (leaving guards { res := some 0, lock := some 2 } y [] []
      (.releaseTake 0)) (.resume 2 true) =
        some ((leaving guards {} y [0] [] (.releaseMark 0)).reap (some 0)) := rfl
  have hreturn : step (leaving guards {} given [0] [0]
      (.releaseReturn (some d) 0)) (.resume 2 true) =
        some ({ leaving guards {} given [0] [0] .returned with
          ledger := (Ledger.enter {} 3).handOut 3 }.reap (some 0)) := rfl
  rw [hreap _ rfl] at htake hreturn
  refine ⟨{ leaving guards {} given [0] [0] .returned with
    ledger := (Ledger.enter {} 3).handOut 3 }, ?_, rfl, rfl, rfl, rfl⟩
  change (step (leaving guards { res := some 0, lock := some 2 } y [] []
    (.releaseTake 0)) (.resume 2 true)).bind (fun t => system.exec t
      [.resume 2 true, .resume 2 true, .resume 2 true, .resume 2 true]) = _
  rw [htake]
  change (step (leaving guards {} given [0] [0] (.releaseReturn (some d) 0))
    (.resume 2 true)).bind (fun t => system.exec t []) = _
  rw [hreturn]
  rfl

/-- With 2^32 guards the count is zero again, and `release` hands out the
descriptor that all of them pin. -/
theorem released_under_guards : ∃ s, system.Reachable s ∧
    s.live 0 = 2 ^ 32 ∧ s.ledger.released = [0] ∧
    s.resources.map Resource.nativeHandle = [-1] ∧ ¬ Excluded s := by
  have hfull := reachable_crowded (2 ^ 32)
  rw [FixedWidth.truncate_self] at hfull
  have hmem : Guard.live 0 ∈ List.replicate (2 ^ 32) (Guard.live 0) :=
    List.mem_replicate.mpr ⟨by simp, rfl⟩
  obtain ⟨t, hword, hguards, hreleased, hhandle, hcount⟩ := exec_release hmem
  have hlive : t.live 0 = 2 ^ 32 := by
    rw [State.live, hguards, List.count_replicate_self]
  refine ⟨t, hfull.exec hword, hlive, hreleased, hhandle, fun ht => ?_⟩
  obtain ⟨y, hy, hzero⟩ := List.map_eq_singleton_iff.mp hcount
  have heq := ht.count 0 y (by simp [hy])
  rw [hlive, hzero] at heq
  simp at heq

end SocketLifecycle

end Iocoro
