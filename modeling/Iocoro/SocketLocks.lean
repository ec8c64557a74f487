/-
The lock of a socket and the place of a resource.  A call in a locked section
knows what `res_` is, and a resource is at most once in a socket, on its way into
one, or taken out of one; so what `close`, `assign` or `release` has taken never
comes back.
-/
import Iocoro.SocketMoves

namespace Iocoro

namespace SocketLifecycle

/-- What `res_` is while a call has the lock of its socket. -/
@[simp] def Pc.expects : Pc → Option (Option Nat)
  | .openSocket => some none
  | .setup .opened _ _ => some none
  | .addFd .opened _ _ => some none
  | .setupFailed .opened _ _ => some none
  | .makeResource .opened _ _ => some none
  | .releaseCheck old => some (some old)
  | .releaseTake old => some (some old)
  | .guardCheck _ current => some current
  | .guardAdd _ current => some (some current)
  | _ => none

/-- The resource that `assign` is about to store. -/
@[simp] def Pc.publishing : Pc → List Nat
  | .publish res _ => [res]
  | _ => []

def Call.publishing (call : Call) : List Nat := call.pc.publishing

/-- The resource that `release` has taken. -/
@[simp] def Pc.releasing : Pc → Option Nat
  | .releaseMark old => some old
  | .releaseFd old => some old
  | .removeFd _ old => some old
  | .releaseReturn _ old => some old
  | _ => none

/-- How often a resource is in a socket, on its way into one, or taken out. -/
def State.placed (s : State) (r : Nat) : Nat :=
  Inventory.held Socket.refs s.sockets r +
    Inventory.held Call.publishing s.calls r + s.taken.count r

structure LockInv (s : State) : Prop where
  locked : ∀ (c : Nat) (call : Call) (v : Option Nat), s.calls[c]? = some call →
    call.pc.expects = some v →
    ∃ x : Socket, s.sockets[call.socket]? = some x ∧ x.lock = some c ∧ x.res = v
  placed : ∀ r, s.placed r ≤ if r < s.resources.length then 1 else 0
  releasing : ∀ call ∈ s.calls, ∀ r, call.pc.releasing = some r → r ∈ s.taken
  empty : ∀ (r : Nat) (y : Resource), s.resources[r]? = some y →
    y.phase = .alive → y.fd = none → r ∈ s.taken

/-- What is in a socket has not been taken out of one. -/
theorem LockInv.not_taken {s : State} (hs : LockInv s) {k r : Nat} {x : Socket}
    (hx : s.sockets[k]? = some x) (hr : x.res = some r) : r ∉ s.taken := by
  have hplaced := hs.placed r
  have hheld := Inventory.held_pos Socket.refs hx (x := r) (by simp [Socket.refs, hr])
  rw [State.placed] at hplaced
  rw [← List.count_eq_zero]
  split at hplaced <;> omega

/-- No resource is in two sockets. -/
theorem LockInv.socket_unique {s : State} (hs : LockInv s) {k l r : Nat}
    {x y : Socket} (hx : s.sockets[k]? = some x) (hy : s.sockets[l]? = some y)
    (hxr : x.res = some r) (hyr : y.res = some r) : k = l := by
  by_contra hne
  have hplaced := hs.placed r
  have htwo := Inventory.two_le_held Socket.refs hne hx hy (x := r)
    (by simp [Socket.refs, hxr]) (by simp [Socket.refs, hyr])
  rw [State.placed] at hplaced
  split at hplaced <;> omega

/-- An update of one call.  Sockets that other calls have locked stay as they
are. -/
theorem LockInv.setCall {s t : State} (hs : LockInv s) {c : Nat} {call : Call}
    (hc : s.calls[c]? = some call) (new : Call)
    (hcalls : t.calls = s.calls.set c new)
    (hsockets : ∀ (other : Nat) (mine : Call) (v : Option Nat) (x : Socket),
      s.calls[other]? = some mine → other ≠ c → mine.pc.expects = some v →
      s.sockets[mine.socket]? = some x → x.lock = some other →
      t.sockets[mine.socket]? = some x)
    (hexpects : ∀ v, new.pc.expects = some v → ∃ x : Socket,
      t.sockets[new.socket]? = some x ∧ x.lock = some c ∧ x.res = v)
    (hplaced : ∀ r, t.placed r ≤ if r < t.resources.length then 1 else 0)
    (htaken : ∀ r ∈ s.taken, r ∈ t.taken)
    (hreleasing : ∀ r, new.pc.releasing = some r → r ∈ t.taken)
    (hempty : ∀ (r : Nat) (y : Resource), t.resources[r]? = some y →
      y.phase = .alive → y.fd = none → r ∈ t.taken) : LockInv t where
  locked := by
    intro other mine v hmine hv
    have hlt : c < s.calls.length := (List.getElem?_eq_some_iff.mp hc).1
    rw [hcalls, List.getElem?_set] at hmine
    by_cases heq : c = other
    · subst heq
      simp only [hlt, if_true, Option.some.injEq] at hmine
      subst hmine
      exact hexpects v hv
    · rw [if_neg heq] at hmine
      obtain ⟨x, hx, hlock, hres⟩ := hs.locked other mine v hmine hv
      exact ⟨x, hsockets other mine v x hmine (Ne.symm heq) hv hx hlock, hlock,
        hres⟩
  placed := hplaced
  releasing := by
    intro mine hmine r hr
    rw [hcalls] at hmine
    rcases List.mem_or_eq_of_mem_set hmine with hold | rfl
    · exact htaken r (hs.releasing mine hold r hr)
    · exact hreleasing r hr
  empty := hempty

theorem LockInv.empty_of_kept {s : State} (hs : LockInv s)
    {table : List Resource}
    (hkept : table.map Resource.kept = s.resources.map Resource.kept) {r : Nat}
    {y : Resource} (hy : table[r]? = some y) (hphase : y.phase = .alive)
    (hfd : y.fd = none) : r ∈ s.taken := by
  obtain ⟨z, hz, heq⟩ := Inventory.getElem?_of_map_eq hkept hy
  simp only [Resource.kept, Kept.mk.injEq] at heq
  exact hs.empty r z hz (heq.2.1.trans hphase) (heq.1.trans hfd)

theorem placed_goto {s s' : State} {c : Nat} {call : Call}
    (hc : s.calls[c]? = some call) (hcalls : s'.calls = s.calls) (pc : Pc)
    (r : Nat) :
    (s'.goto c call pc).placed r + call.pc.publishing.count r +
        Inventory.held Socket.refs s.sockets r + s.taken.count r =
      s.placed r + pc.publishing.count r +
        Inventory.held Socket.refs s'.sockets r + s'.taken.count r := by
  have hheld := Inventory.held_set_of_getElem? Call.publishing hc
    { call with pc } r
  simp only [State.placed, State.goto, hcalls, Call.publishing] at hheld ⊢
  omega

/-- The part of a step that is neither in the calls nor in the sockets. -/
structure Level (s s' : State) : Prop where
  calls : s'.calls = s.calls
  sockets : s'.sockets = s.sockets
  taken : s'.taken = s.taken
  kept : s'.resources.map Resource.kept = s.resources.map Resource.kept

theorem Level.markClosing (s : State) (old : Option Nat) :
    Level s (s.markClosing old) := by
  cases old with
  | none => exact ⟨rfl, rfl, rfl, rfl⟩
  | some r => exact ⟨rfl, rfl, rfl, (Aside.markClosing s (some r)).kept⟩

theorem Level.removeFdSync (s : State) (fd : Nat) :
    Level s (s.removeFdSync fd) := by
  unfold State.removeFdSync
  split
  · exact ⟨rfl, rfl, rfl, rfl⟩
  · exact ⟨rfl, rfl, rfl, rfl⟩

/-- A place of a call that knows and has no more than the one before. -/
structure Pc.Keeps (pc new : Pc) : Prop where
  expects : ∀ v, new.expects = some v → pc.expects = some v
  publishing : ∀ r, new.publishing.count r ≤ pc.publishing.count r
  releasing : ∀ r, new.releasing = some r → pc.releasing = some r

/-- A step of a call that leaves the sockets alone. -/
theorem LockInv.goto {s s' : State} (hs : LockInv s) {c : Nat} {call : Call}
    {pc : Pc} (hc : s.calls[c]? = some call) (hpc : call.pc = pc) (new : Pc)
    (hs' : Level s s') (hnew : pc.Keeps new) : LockInv (s'.goto c call new) := by
  subst hpc
  obtain ⟨hcalls, hsockets, htaken, hkept⟩ := hs'
  have hlength : s'.resources.length = s.resources.length := by
    simpa using congrArg List.length hkept
  apply hs.setCall hc { call with pc := new }
  · simp only [State.goto, hcalls]
  · intro _ _ _ _ _ _ _ hx _
    simpa only [State.goto, hsockets] using hx
  · intro v hv
    simpa only [State.goto, hsockets] using hs.locked c call v hc (hnew.expects v hv)
  · intro r
    have hplaced := hs.placed r
    have hgoto := placed_goto hc hcalls new r
    have hr := hnew.publishing r
    rw [hsockets, htaken] at hgoto
    change _ ≤ if r < s'.resources.length then 1 else 0
    rw [hlength]
    omega
  · simp [State.goto, htaken]
  · intro r hr
    simpa only [State.goto, htaken] using
      hs.releasing call (List.mem_of_getElem? hc) r (hnew.releasing r hr)
  · intro r y hy hphase hfd
    simpa only [State.goto, htaken] using hs.empty_of_kept hkept hy hphase hfd

/-- In a locked section the call has the lock of its socket. -/
theorem LockInv.lock_eq {s : State} (hs : LockInv s) {c : Nat} {call : Call}
    {pc : Pc} {x : Socket} {v : Option Nat} (hc : s.calls[c]? = some call)
    (hpc : call.pc = pc) (hx : s.sockets[call.socket]? = some x)
    (hv : pc.expects = some v) : x.lock = some c ∧ x.res = v := by
  subst hpc
  obtain ⟨y, hy, hlock, hres⟩ := hs.locked c call v hc hv
  obtain rfl := Option.some.inj (hx.symm.trans hy)
  exact ⟨hlock, hres⟩

/-- A call changes a socket that no other call has locked. -/
theorem getElem?_setSocket {sockets : List Socket} {k c : Nat} {x : Socket}
    (hx : sockets[k]? = some x) (hlock : x.lock = none ∨ x.lock = some c)
    (new : Socket) {l other : Nat} {y : Socket} (hy : sockets[l]? = some y)
    (hother : y.lock = some other) (hne : other ≠ c) :
    (sockets.set k new)[l]? = some y := by
  have hkl : k ≠ l := by
    rintro rfl
    obtain rfl := Option.some.inj (hx.symm.trans hy)
    rw [hother] at hlock
    rcases hlock with hnone | hmine
    · simp at hnone
    · exact hne (Option.some.inj hmine)
  rw [List.getElem?_set_ne hkl]
  exact hy

/-- A step of a call that changes its socket, which no other call has locked. -/
theorem LockInv.gotoSocket {s s' : State} (hs : LockInv s) {c : Nat}
    {call : Call} {pc : Pc} {x : Socket} (hc : s.calls[c]? = some call)
    (hpc : call.pc = pc) (hx : s.sockets[call.socket]? = some x)
    (hlock : x.lock = none ∨ x.lock = some c) (new : Pc) (socket : Socket)
    (extra : List Nat) (hcalls : s'.calls = s.calls)
    (hsockets : s'.sockets = s.sockets.set call.socket socket)
    (htaken : s'.taken = extra ++ s.taken)
    (hkept : s'.resources.map Resource.kept = s.resources.map Resource.kept)
    (hexpects : ∀ v, new.expects = some v →
      socket.lock = some c ∧ socket.res = v)
    (hplaced : ∀ r, socket.res.toList.count r + new.publishing.count r +
      extra.count r ≤ x.res.toList.count r + pc.publishing.count r)
    (hreleasing : ∀ r, new.releasing = some r → r ∈ extra ++ s.taken) :
    LockInv (s'.goto c call new) := by
  subst hpc
  have hlength : s'.resources.length = s.resources.length := by
    simpa using congrArg List.length hkept
  have hmine : (s'.goto c call new).sockets[call.socket]? = some socket := by
    simp only [State.goto, hsockets]
    exact List.getElem?_set_self (List.getElem?_eq_some_iff.mp hx).1
  apply hs.setCall hc { call with pc := new }
  · simp only [State.goto, hcalls]
  · intro other mine v y _ hne _ hy hother
    simp only [State.goto, hsockets]
    exact getElem?_setSocket hx hlock socket hy hother hne
  · exact fun v hv => ⟨socket, hmine, hexpects v hv⟩
  · intro r
    have hold := hs.placed r
    have hgoto := placed_goto hc hcalls new r
    have hheld := Inventory.held_set_of_getElem? Socket.refs hx socket r
    have hr := hplaced r
    rw [hsockets, htaken, List.count_append] at hgoto
    change _ ≤ if r < s'.resources.length then 1 else 0
    rw [hlength]
    simp only [Socket.refs] at hheld
    omega
  · intro r hr
    simpa only [State.goto, htaken] using List.mem_append_right extra hr
  · intro r hr
    simpa only [State.goto, htaken] using hreleasing r hr
  · intro r y hy hphase hfd
    simpa only [State.goto, htaken] using
      List.mem_append_right extra (hs.empty_of_kept hkept hy hphase hfd)

theorem LockInv.reap {t : State} (ht : LockInv t) (dropped : Option Nat) :
    LockInv (t.reap dropped) := by
  cases dropped with
  | none => exact ht
  | some r =>
      simp only [State.reap]
      split
      · refine { ht with placed := ?_, empty := ?_ }
        · intro other
          rw [List.length_modify]
          exact ht.placed other
        · intro other y hy hphase hfd
          rw [List.getElem?_modify] at hy
          obtain ⟨z, hz, hzy⟩ := Option.map_eq_some_iff.mp hy
          split at hzy
          · rw [← hzy] at hphase
            simp at hphase
          · exact ht.empty other y (hzy ▸ hz) hphase hfd
      · exact ht

theorem openStep_lock {s t : State} {c : Nat} {call : Call} (hs : LockInv s)
    (hc : s.calls[c]? = some call) (hstep : s.openStep c call = some t) :
    LockInv t := by
  unfold State.openStep at hstep
  split at hstep
  · next hpc =>
      obtain ⟨x, hx, hstep⟩ := Option.bind_eq_some_iff.mp hstep
      split at hstep
      · simp at hstep
      · next hlock =>
          have hfree : x.lock = none := by simpa using hlock
          split at hstep
          · obtain rfl := Option.some.inj hstep
            exact hs.goto hc hpc .returned ⟨rfl, rfl, rfl, rfl⟩
              (by constructor <;> simp)
          · next hres =>
              obtain rfl := Option.some.inj hstep
              exact hs.gotoSocket hc hpc hx (.inl hfree) .openSocket _ [] rfl rfl
                rfl rfl (by simpa using hres)
                (by simp) (by simp)
  · simp at hstep

theorem socketStep_lock {s t : State} {c : Nat} {call : Call} {fd : Option Nat}
    (hs : LockInv s) (hc : s.calls[c]? = some call) (hpc : call.pc = .openSocket)
    (hstep : s.socketStep c call fd = some t) : LockInv t := by
  cases fd with
  | none =>
      obtain ⟨x, hx, rfl⟩ := Option.map_eq_some_iff.mp hstep
      have hlock := hs.lock_eq hc hpc hx rfl
      exact hs.gotoSocket hc hpc hx (.inr hlock.1) .returned _ [] rfl rfl rfl rfl
        (by simp) (by simp) (by simp)
  | some fd =>
      simp only [State.socketStep, Option.ite_none_right_eq_some,
        Option.some.injEq] at hstep
      obtain ⟨-, rfl⟩ := hstep
      exact hs.goto hc hpc (.setup .opened _ none) ⟨rfl, rfl, rfl, rfl⟩
        (by constructor <;> simp)

/-- A call makes a resource and puts it into its socket, or is about to. -/
theorem LockInv.makeResource {s t : State} (hs : LockInv s) {c : Nat}
    {call : Call} (hc : s.calls[c]? = some call) (d : Descriptor) (new : Pc)
    (hcalls : t.calls = s.calls.set c { call with pc := new })
    (hresources : t.resources = s.resources ++ [Resource.make d])
    (htaken : t.taken = s.taken)
    (hsockets : ∀ (other : Nat) (mine : Call) (v : Option Nat) (x : Socket),
      s.calls[other]? = some mine → other ≠ c → mine.pc.expects = some v →
      s.sockets[mine.socket]? = some x → x.lock = some other →
      t.sockets[mine.socket]? = some x)
    (hexpects : new.expects = none) (hreleasing : new.releasing = none)
    (hplaced : ∀ r, t.placed r ≤ s.placed r + [s.resources.length].count r) :
    LockInv t := by
  apply hs.setCall hc _ hcalls hsockets
  · intro v hv
    rw [hexpects] at hv
    simp at hv
  · intro r
    have hold := hs.placed r
    have hr := hplaced r
    rw [hresources, List.length_append, List.length_singleton]
    rw [List.count_singleton] at hr
    by_cases hlast : r = s.resources.length
    · subst hlast
      rw [if_neg (Nat.lt_irrefl _)] at hold
      rw [if_pos (Nat.lt_succ_self _)]
      simp only [beq_self_eq_true, if_true] at hr
      omega
    · have hne : (s.resources.length == r) = false := by
        simpa using Ne.symm hlast
      rw [hne] at hr
      simp only [Bool.false_eq_true, if_false, Nat.add_zero] at hr
      apply hr.trans
      apply hold.trans
      split
      · next hlt => rw [if_pos (Nat.lt_succ_of_lt hlt)]
      · exact Nat.zero_le _
  · simp [htaken]
  · intro r hr
    rw [hreleasing] at hr
    simp at hr
  · intro r y hy hphase hfd
    rw [htaken]
    rw [hresources, List.getElem?_append] at hy
    split at hy
    · exact hs.empty r y hy hphase hfd
    · obtain rfl := List.mem_singleton.mp (List.mem_of_getElem? hy)
      simp [Resource.make] at hfd

theorem setupStep_lock {s t : State} {c : Nat} {call : Call} {ok : Bool}
    (hs : LockInv s) (hc : s.calls[c]? = some call)
    (hstep : s.setupStep c call ok = some t) : LockInv t := by
  unfold State.setupStep at hstep
  split at hstep
  · next origin d old hpc =>
      obtain rfl := Option.some.inj hstep
      exact hs.goto hc hpc _ ⟨rfl, rfl, rfl, rfl⟩
        (by constructor <;> cases origin <;> cases ok <;> simp)
  · next origin d old hpc =>
      obtain rfl := Option.some.inj hstep
      exact hs.goto hc hpc _ ⟨rfl, rfl, rfl, rfl⟩
        (by constructor <;> cases origin <;> cases ok <;> simp)
  · next origin d old hpc =>
      cases origin with
      | opened =>
          obtain ⟨x, hx, rfl⟩ := Option.map_eq_some_iff.mp hstep
          have hlock := hs.lock_eq hc hpc hx rfl
          exact hs.gotoSocket hc hpc hx (.inr hlock.1) (.dropOld old false) _ []
            rfl rfl rfl rfl (by simp) (by simp) (by simp)
      | assigned =>
          obtain rfl := Option.some.inj hstep
          exact hs.goto hc hpc (.dropOld old false) ⟨rfl, rfl, rfl, rfl⟩
            (by constructor <;> simp)
  · next origin d old hpc =>
      cases origin with
      | opened =>
          obtain ⟨x, hx, rfl⟩ := Option.map_eq_some_iff.mp hstep
          have hlock := hs.lock_eq hc hpc hx rfl
          apply LockInv.reap
          apply hs.makeResource hc d (.dropOld old false)
          · rfl
          · rfl
          · rfl
          · intro other mine v y _ hne _ hy hother
            exact getElem?_setSocket hx (.inr hlock.1) _ hy hother hne
          · rfl
          · rfl
          · intro r
            have hheld := Inventory.held_set_of_getElem? Socket.refs hx
              { x with res := some s.resources.length, lock := none } r
            have hcalls := Inventory.held_set_of_getElem? Call.publishing hc
              { call with pc := .dropOld old false } r
            simp only [Socket.refs, hlock.2, Option.toList_none, List.count_nil,
              Option.toList_some, Call.publishing, hpc, Pc.publishing]
              at hheld hcalls
            simp only [State.placed, State.goto, State.setSocket]
            omega
      | assigned =>
          obtain rfl := Option.some.inj hstep
          apply hs.makeResource hc d (.publish s.resources.length old)
          · rfl
          · rfl
          · rfl
          · exact fun _ _ _ _ _ _ _ hx _ => hx
          · rfl
          · rfl
          · intro r
            have hcalls := Inventory.held_set_of_getElem? Call.publishing hc
              { call with pc := .publish s.resources.length old } r
            simp only [Call.publishing, hpc, Pc.publishing, List.count_nil]
              at hcalls
            simp only [State.placed, State.goto]
            omega
  · simp at hstep

theorem working_of_expects {pc : Pc} {v : Option Nat}
    (hv : pc.expects = some v) : pc.working = true := by
  cases pc <;> simp_all

/-- Nobody has locked a socket whose destructor has started. -/
theorem LifeInv.unlocked {s : State} (hlife : LifeInv s)
    {c : Nat} {call : Call} (hc : s.calls[c]? = some call)
    (hdestroying : call.pc.destroying = true) {other : Nat} {mine : Call}
    (hother : s.calls[other]? = some mine) {v : Option Nat}
    (hv : mine.pc.expects = some v) : mine.socket ≠ call.socket := by
  intro heq
  have hdead := hlife.destroying call (List.mem_of_getElem? hc) hdestroying
  have halive := hlife.working mine (List.mem_of_getElem? hother)
    (working_of_expects hv)
  rw [heq, hdead] at halive
  simp at halive

theorem exchangeStep_lock {s t : State} {c : Nat} {call : Call} (hs : LockInv s)
    (hlife : LifeInv s) (hc : s.calls[c]? = some call)
    (hstep : s.exchangeStep c call = some t) :
    LockInv t := by
  unfold State.exchangeStep at hstep
  split at hstep
  · next d hpc =>
      obtain ⟨x, hx, hstep⟩ := Option.bind_eq_some_iff.mp hstep
      split at hstep
      · simp at hstep
      · next hlock =>
          have hfree : x.lock = none := by simpa using hlock
          obtain rfl := Option.some.inj hstep
          exact hs.gotoSocket hc hpc hx (.inl hfree) (.assignMark d x.res) _
            x.res.toList rfl rfl rfl rfl (by simp) (by simp) (by simp)
  · next d old hpc =>
      obtain rfl := Option.some.inj hstep
      exact hs.goto hc hpc (.setup .assigned d old) (.markClosing s old)
        (by constructor <;> simp)
  · next r old hpc =>
      obtain ⟨x, hx, hstep⟩ := Option.bind_eq_some_iff.mp hstep
      split at hstep
      · simp at hstep
      · next hlock =>
          have hfree : x.lock = none := by simpa using hlock
          obtain rfl := Option.some.inj hstep
          apply LockInv.reap
          exact hs.gotoSocket hc hpc hx (.inl hfree) (.dropOld old false) _ []
            rfl rfl rfl rfl (by simp) (by simp) (by simp)
  · next last hpc =>
      obtain ⟨x, hx, hstep⟩ := Option.bind_eq_some_iff.mp hstep
      split at hstep
      · simp at hstep
      · next hlock =>
          have hfree : x.lock = none := by simpa using hlock
          obtain rfl := Option.some.inj hstep
          exact hs.gotoSocket hc hpc hx (.inl hfree) (.closeMark x.res last) _
            x.res.toList rfl rfl rfl rfl (by simp) (by simp) (by simp)
  · next old last hpc =>
      obtain rfl := Option.some.inj hstep
      exact hs.goto hc hpc (.dropOld old last) (.markClosing s old)
        (by constructor <;> simp)
  · next old last hpc =>
      obtain rfl := Option.some.inj hstep
      apply LockInv.reap
      exact hs.goto hc hpc _ ⟨rfl, rfl, rfl, rfl⟩
        (by constructor <;> cases last <;> simp)
  · next hpc =>
      obtain ⟨x, hx, rfl⟩ := Option.map_eq_some_iff.mp hstep
      apply LockInv.reap
      apply hs.setCall hc { call with pc := .returned }
      · rfl
      · intro other mine v y hmine _ hv hy _
        have hne := hlife.unlocked hc (by simp [hpc]) hmine hv
        exact (List.getElem?_set_ne (Ne.symm hne)).trans hy
      · simp [Pc.expects]
      · intro r
        have hold := hs.placed r
        have hheld := Inventory.held_set_of_getElem? Socket.refs hx
          { x with res := none } r
        have hcalls := Inventory.held_set_of_getElem? Call.publishing hc
          { call with pc := .returned } r
        simp only [Call.publishing, hpc, Pc.publishing, List.count_nil] at hcalls
        simp only [Socket.refs, Option.toList_none, List.count_nil] at hheld
        apply Nat.le_trans _ hold
        simp only [State.placed, State.goto, State.setSocket]
        omega
      · exact fun _ h => h
      · simp [Pc.releasing]
      · exact hs.empty
  · simp at hstep

/-- `release` takes the descriptor of the resource that it has taken. -/
theorem LockInv.loseFd {s : State} (hs : LockInv s) {c r : Nat} {call : Call}
    (hc : s.calls[c]? = some call) (hpc : call.pc = .releaseFd r) (y : Resource)
    (new : Pc) (hexpects : new.expects = none) (hpublishing : new.publishing = [])
    (hreleasing : new.releasing = some r) :
    LockInv ({ s with
      resources := s.resources.set r { y with fd := none } }.goto c call new) := by
  have htaken : r ∈ s.taken :=
    hs.releasing call (List.mem_of_getElem? hc) r (by rw [hpc]; rfl)
  apply hs.setCall hc { call with pc := new }
  · rfl
  · exact fun _ _ _ _ _ _ _ hx _ => hx
  · intro v hv
    rw [hexpects] at hv
    simp at hv
  · intro other
    have hold := hs.placed other
    have hcalls := Inventory.held_set_of_getElem? Call.publishing hc
      { call with pc := new } other
    have hbefore : call.publishing = [] := by
      rw [Call.publishing, hpc]
      rfl
    have hafter : Call.publishing { call with pc := new } = [] := hpublishing
    rw [hbefore, hafter] at hcalls
    simp only [State.placed, State.goto, List.length_set] at hold ⊢
    omega
  · exact fun _ h => h
  · intro other hother
    rw [hreleasing] at hother
    exact Option.some.inj hother ▸ htaken
  · intro other z hz hphase hfd
    change (s.resources.set r { y with fd := none })[other]? = some z at hz
    by_cases heq : r = other
    · exact heq ▸ htaken
    · rw [List.getElem?_set_ne heq] at hz
      exact hs.empty other z hz hphase hfd

theorem releaseStep_lock {s t : State} {c : Nat} {call : Call} (hs : LockInv s)
    (hc : s.calls[c]? = some call) (hstep : s.releaseStep c call = some t) :
    LockInv t := by
  unfold State.releaseStep at hstep
  split at hstep
  · next hpc =>
      obtain ⟨x, hx, hstep⟩ := Option.bind_eq_some_iff.mp hstep
      split at hstep
      · simp at hstep
      · next hlock =>
          have hfree : x.lock = none := by simpa using hlock
          split at hstep
          · obtain rfl := Option.some.inj hstep
            exact hs.goto hc hpc .returned ⟨rfl, rfl, rfl, rfl⟩
              (by constructor <;> simp)
          · next r hr =>
              obtain rfl := Option.some.inj hstep
              exact hs.gotoSocket hc hpc hx (.inl hfree) (.releaseCheck r) _ []
                rfl rfl rfl rfl (by simp [hr])
                (by simp) (by simp)
  · next r hpc =>
      obtain ⟨y, hy, hstep⟩ := Option.bind_eq_some_iff.mp hstep
      split at hstep
      · obtain ⟨x, hx, rfl⟩ := Option.map_eq_some_iff.mp hstep
        have hlock := hs.lock_eq hc hpc hx rfl
        exact hs.gotoSocket hc hpc hx (.inr hlock.1) (.dropOld (some r) false) _
          [] rfl rfl rfl rfl (by simp) (by simp) (by simp)
      · obtain rfl := Option.some.inj hstep
        exact hs.goto hc hpc (.releaseTake r) ⟨rfl, rfl, rfl, rfl⟩
          (by constructor <;> simp)
  · next r hpc =>
      obtain ⟨x, hx, rfl⟩ := Option.map_eq_some_iff.mp hstep
      have hlock := hs.lock_eq hc hpc hx rfl
      split
      · apply LockInv.reap
        exact hs.gotoSocket hc hpc hx (.inr hlock.1) .returned _ [] rfl rfl rfl
          rfl (by simp) (by simp) (by simp)
      · next current hcurrent =>
          apply LockInv.reap
          exact hs.gotoSocket hc hpc hx (.inr hlock.1) (.releaseMark current) _
            [current] rfl rfl rfl rfl (by simp)
            (by simp [hcurrent])
            (by simp)
  · next r hpc =>
      obtain rfl := Option.some.inj hstep
      exact hs.goto hc hpc (.releaseFd r) (.markClosing s (some r))
        (by constructor <;> simp)
  · next r hpc =>
      obtain ⟨y, hy, rfl⟩ := Option.map_eq_some_iff.mp hstep
      cases y.fd with
      | none => exact hs.loseFd hc hpc y (.releaseReturn none r) rfl rfl rfl
      | some d => exact hs.loseFd hc hpc y (.removeFd d r) rfl rfl rfl
  · next d r hpc =>
      obtain rfl := Option.some.inj hstep
      exact hs.goto hc hpc (.releaseReturn (some d) r) (.removeFdSync s d.number)
        (by constructor <;> simp)
  · next d r hpc =>
      obtain rfl := Option.some.inj hstep
      apply LockInv.reap
      exact hs.goto hc hpc .returned ⟨rfl, rfl, rfl, rfl⟩
        (by constructor <;> simp)
  · simp at hstep

theorem guardStep_lock {s t : State} {c : Nat} {call : Call} {ok : Bool}
    (hs : LockInv s) (hc : s.calls[c]? = some call)
    (hstep : s.guardStep c call ok = some t) : LockInv t := by
  unfold State.guardStep at hstep
  split at hstep
  · next hpc =>
      obtain ⟨x, hx, rfl⟩ := Option.map_eq_some_iff.mp hstep
      split
      · exact hs.goto hc hpc .returned ⟨rfl, rfl, rfl, rfl⟩
          (by constructor <;> simp)
      · next r _ =>
          exact hs.goto hc hpc (.snapshot r) ⟨rfl, rfl, rfl, rfl⟩
            (by constructor <;> simp)
  · next r hpc =>
      split at hstep
      · obtain ⟨x, hx, hstep⟩ := Option.bind_eq_some_iff.mp hstep
        split at hstep
        · simp at hstep
        · next hopen =>
            have hfree : x.lock = none := by
              simp only [Bool.or_eq_true, not_or] at hopen
              simpa using hopen.2
            obtain rfl := Option.some.inj hstep
            exact hs.gotoSocket hc hpc hx (.inl hfree) (.guardCheck r x.res) _ []
              rfl rfl rfl rfl (by simp) (by simp) (by simp)
      · obtain rfl := Option.some.inj hstep
        exact hs.goto hc hpc (.dropOld (some r) false) ⟨rfl, rfl, rfl, rfl⟩
          (by constructor <;> simp)
  · next r current hpc =>
      split at hstep
      · next haccept =>
          obtain rfl := Option.some.inj hstep
          exact hs.goto hc hpc (.guardAdd r r) ⟨rfl, rfl, rfl, rfl⟩
            (by constructor <;> simp [haccept.1])
      · obtain ⟨x, hx, rfl⟩ := Option.map_eq_some_iff.mp hstep
        have hlock := hs.lock_eq hc hpc hx rfl
        apply LockInv.reap
        exact hs.gotoSocket hc hpc hx (.inr hlock.1) (.snapshot r) _ [] rfl rfl
          rfl rfl (by simp) (by simp) (by simp)
  · next r current hpc =>
      obtain ⟨y, hy, hstep⟩ := Option.bind_eq_some_iff.mp hstep
      obtain ⟨x, hx, rfl⟩ := Option.map_eq_some_iff.mp hstep
      have hlock := hs.lock_eq hc hpc hx rfl
      exact hs.gotoSocket hc hpc hx (.inr hlock.1) (.snapshot r) _ [] rfl rfl rfl
        (Inventory.map_set_of_getElem? hy (kept_inflight y _))
        (by simp) (by simp) (by simp)
  · simp at hstep

/-- An accepted descriptor gets a socket of its own. -/
theorem LockInv.adopt {s : State} (hs : LockInv s) {c : Nat} {call : Call}
    {d : Descriptor} (hc : s.calls[c]? = some call) (hpc : call.pc = .adopt d) :
    LockInv ({ s with sockets := s.sockets ++ [Socket.make] }.goto c
      { call with socket := s.sockets.length } (.assignTake d)) := by
  apply hs.setCall hc { socket := s.sockets.length, pc := .assignTake d }
  · rfl
  · intro other mine v x _ _ _ hx _
    have hlt := (List.getElem?_eq_some_iff.mp hx).1
    exact (List.getElem?_append_left hlt).trans hx
  · simp [Pc.expects]
  · intro r
    have hold := hs.placed r
    have hcalls := Inventory.held_set_of_getElem? Call.publishing hc
      { socket := s.sockets.length, pc := .assignTake d } r
    simp only [Call.publishing, hpc, Pc.publishing, List.count_nil] at hcalls
    apply Nat.le_trans _ hold
    simp only [State.placed, State.goto, Inventory.held_append,
      Inventory.held_cons, Inventory.held_nil, Socket.refs, Socket.make,
      Option.toList_none, List.count_nil]
    omega
  · exact fun _ h => h
  · simp [Pc.releasing]
  · exact hs.empty

theorem acceptStep_lock {s t : State} {c : Nat} {call : Call} {ok : Bool}
    (hs : LockInv s) (hc : s.calls[c]? = some call)
    (hstep : s.acceptStep c call ok = some t) : LockInv t := by
  unfold State.acceptStep at hstep
  split at hstep
  · next d r hpc =>
      obtain rfl := Option.some.inj hstep
      exact hs.goto hc hpc _ ⟨rfl, rfl, rfl, rfl⟩
        (by constructor <;> cases ok <;> simp)
  · next d r hpc =>
      obtain ⟨y, hy, rfl⟩ := Option.map_eq_some_iff.mp hstep
      split
      · exact hs.goto hc hpc (.acceptReturn d r) ⟨rfl, rfl, rfl, rfl⟩
          (by constructor <;> simp)
      · exact hs.goto hc hpc (.acceptFailed d r) ⟨rfl, rfl, rfl, rfl⟩
          (by constructor <;> simp)
  · next d r hpc =>
      obtain rfl := Option.some.inj hstep
      exact hs.goto hc hpc (.dropOld (some r) false) ⟨rfl, rfl, rfl, rfl⟩
        (by constructor <;> simp)
  · next d r hpc =>
      obtain rfl := Option.some.inj hstep
      apply LockInv.reap
      exact hs.goto hc hpc (.adopt d) ⟨rfl, rfl, rfl, rfl⟩
        (by constructor <;> simp)
  · next d hpc =>
      obtain rfl := Option.some.inj hstep
      exact hs.adopt hc hpc
  · simp at hstep

theorem callStep_lock {s t : State} {c : Nat} {call : Call} {ok : Bool}
    (hs : LockInv s) (hlife : LifeInv s) (hc : s.calls[c]? = some call)
    (hstep : s.callStep c call ok = some t) : LockInv t := by
  unfold State.callStep at hstep
  split at hstep
  all_goals first
    | exact openStep_lock hs hc hstep
    | exact setupStep_lock hs hc hstep
    | exact exchangeStep_lock hs hlife hc hstep
    | exact releaseStep_lock hs hc hstep
    | exact guardStep_lock hs hc hstep
    | exact acceptStep_lock hs hc hstep
    | simp at hstep

theorem LockInv.spawn {s t : State} (hs : LockInv s) (k : Nat) (pc : Pc)
    (hcalls : t.calls = s.calls ++ [{ socket := k, pc }])
    (hsockets : t.sockets = s.sockets) (htaken : t.taken = s.taken)
    (hresources : t.resources = s.resources) (hexpects : pc.expects = none)
    (hpublishing : pc.publishing = []) (hreleasing : pc.releasing = none) :
    LockInv t where
  locked := by
    intro c call v hc hv
    rw [hcalls, List.getElem?_append] at hc
    rw [hsockets]
    split at hc
    · exact hs.locked c call v hc hv
    · rw [List.mem_singleton.mp (List.mem_of_getElem? hc), hexpects] at hv
      simp at hv
  placed := by
    intro r
    have hold := hs.placed r
    rw [hresources]
    have hnew : Call.publishing { socket := k, pc } = [] := hpublishing
    simpa only [State.placed, hcalls, hsockets, htaken, Inventory.held_append,
      Inventory.held_cons, Inventory.held_nil, hnew, List.count_nil,
      Nat.add_zero] using hold
  releasing := by
    intro call hcall r hr
    rw [hcalls] at hcall
    rw [htaken]
    rcases List.mem_append.mp hcall with hold | hnew
    · exact hs.releasing call hold r hr
    · rw [List.mem_singleton.mp hnew, hreleasing] at hr
      simp at hr
  empty := by
    rw [hresources, htaken]
    exact hs.empty

theorem LockInv.setAlive {s : State} (hs : LockInv s) {k : Nat} {x : Socket}
    (hx : s.sockets[k]? = some x) (alive : Bool) :
    LockInv (s.setSocket k { x with alive }) := by
  refine { hs with locked := ?_, placed := ?_ }
  · intro c call v hc hv
    obtain ⟨y, hy, hlock⟩ := hs.locked c call v hc hv
    by_cases heq : k = call.socket
    · subst heq
      obtain rfl := Option.some.inj (hx.symm.trans hy)
      exact ⟨_, List.getElem?_set_self (List.getElem?_eq_some_iff.mp hx).1, hlock⟩
    · exact ⟨y, (List.getElem?_set_ne heq).trans hy, hlock⟩
  · intro r
    have hheld := Inventory.held_set_of_getElem? Socket.refs hx { x with alive } r
    simp only [Socket.refs] at hheld
    apply Nat.le_trans _ (hs.placed r)
    simp only [State.placed, State.setSocket]
    omega

/-- Steps that leave the calls and the sockets alone. -/
theorem LockInv.apart {s t : State} (hs : LockInv s) (h : Apart s t)
    (hlength : t.resources.length = s.resources.length)
    (hempty : ∀ (r : Nat) (y : Resource), t.resources[r]? = some y →
      y.phase = .alive → y.fd = none → r ∈ s.taken) : LockInv t where
  locked := by
    rw [h.calls, h.sockets]
    exact hs.locked
  placed := by
    intro r
    have hold := hs.placed r
    rw [State.placed, h.calls, h.sockets, h.taken, hlength]
    exact hold
  releasing := by
    rw [h.calls, h.taken]
    exact hs.releasing
  empty := by
    rw [h.taken]
    exact hempty

theorem resetStep_lock {s t : State} {g : Nat} {guard : Guard} (hs : LockInv s)
    (hstep : s.resetStep g guard = some t) : LockInv t := by
  have hapart := resetStep_apart hstep
  cases guard with
  | empty => simp [State.resetStep] at hstep
  | live r =>
      obtain ⟨y, hy, rfl⟩ := Option.map_eq_some_iff.mp hstep
      apply hs.apart hapart
      · simp
      · intro other z hz
        exact hs.empty_of_kept
          (Inventory.map_set_of_getElem? hy (kept_inflight y _)) hz
  | resetting r =>
      obtain rfl := Option.some.inj hstep
      apply LockInv.reap
      exact { hs with }

theorem destructStep_lock {s t : State} {r : Nat} {y : Resource} (hs : LockInv s)
    (hstep : s.destructStep r y = some t) : LockInv t := by
  have hapart := destructStep_apart hstep
  have hdead : ∃ new : Resource, new.phase ≠ .alive ∧
      t.resources = s.resources.set r new := by
    unfold State.destructStep at hstep
    split at hstep
    · simp at hstep
    · simp at hstep
    · obtain rfl := Option.some.inj hstep
      exact ⟨_, by cases y.fd <;> simp, rfl⟩
    · obtain rfl := Option.some.inj hstep
      exact ⟨_, by simp, rfl⟩
    · obtain rfl := Option.some.inj hstep
      exact ⟨_, by simp, rfl⟩
  obtain ⟨new, hphase, hresources⟩ := hdead
  apply hs.apart hapart
  · rw [hresources, List.length_set]
  · intro other z hz halive hfd
    rw [hresources] at hz
    by_cases heq : r = other
    · subst heq
      have hlt : r < s.resources.length := by
        simpa using (List.getElem?_eq_some_iff.mp hz).1
      rw [List.getElem?_set_self hlt] at hz
      exact absurd (Option.some.inj hz ▸ halive) hphase
    · rw [List.getElem?_set_ne heq] at hz
      exact hs.empty other z hz halive hfd

theorem step_lock {s t : State} {a : Action} (hs : LockInv s)
    (hlife : LifeInv s) (hstep : step s a = some t) : LockInv t := by
  cases a with
  | outsideOpen fd =>
      simp only [step, Option.ite_none_right_eq_some, Option.some.injEq] at hstep
      obtain ⟨-, rfl⟩ := hstep
      exact { hs with }
  | outsideClose fd =>
      simp only [step, Option.ite_none_right_eq_some, Option.some.injEq] at hstep
      obtain ⟨-, rfl⟩ := hstep
      exact { hs with }
  | newSocket =>
      obtain rfl := Option.some.inj hstep
      refine { hs with locked := ?_, placed := ?_ }
      · intro c call v hc hv
        obtain ⟨x, hx, hlock⟩ := hs.locked c call v hc hv
        have hlt := (List.getElem?_eq_some_iff.mp hx).1
        exact ⟨x, (List.getElem?_append_left hlt).trans hx, hlock⟩
      · intro r
        have hold := hs.placed r
        simpa [State.placed, Socket.refs, Socket.make] using hold
  | start k entry =>
      obtain ⟨x, hx, hstep⟩ := Option.bind_eq_some_iff.mp hstep
      simp only [Option.ite_none_right_eq_some, Option.some.injEq] at hstep
      obtain ⟨-, rfl⟩ := hstep
      cases entry <;> exact hs.spawn k _ rfl rfl rfl rfl rfl rfl rfl
  | assign k fd =>
      obtain ⟨x, hx, hstep⟩ := Option.bind_eq_some_iff.mp hstep
      simp only [Option.ite_none_right_eq_some, Option.some.injEq] at hstep
      obtain ⟨-, rfl⟩ := hstep
      exact hs.spawn k _ rfl rfl rfl rfl rfl rfl rfl
  | destroy k =>
      obtain ⟨x, hx, hstep⟩ := Option.bind_eq_some_iff.mp hstep
      simp only [Option.ite_none_right_eq_some, Option.some.injEq] at hstep
      obtain ⟨-, rfl⟩ := hstep
      exact (hs.setAlive hx false).spawn k _ rfl rfl rfl rfl rfl rfl rfl
  | accept k g fd needsSetup =>
      simp only [step] at hstep
      split at hstep
      · simp only [Option.ite_none_right_eq_some, Option.some.injEq] at hstep
        obtain ⟨-, rfl⟩ := hstep
        cases needsSetup <;> exact hs.spawn k _ rfl rfl rfl rfl rfl rfl rfl
      · simp at hstep
  | socket c fd =>
      obtain ⟨call, hc, hstep⟩ := Option.bind_eq_some_iff.mp hstep
      simp only [Option.ite_none_right_eq_some] at hstep
      exact socketStep_lock hs hc hstep.1 hstep.2
  | resume c ok =>
      obtain ⟨call, hc, hstep⟩ := Option.bind_eq_some_iff.mp hstep
      exact callStep_lock hs hlife hc hstep
  | newGuard =>
      obtain rfl := Option.some.inj hstep
      exact { hs with }
  | resetGuard g =>
      obtain ⟨guard, hg, hstep⟩ := Option.bind_eq_some_iff.mp hstep
      exact resetStep_lock hs hstep
  | moveGuard g h =>
      simp only [step] at hstep
      split at hstep
      · simp only [Option.ite_none_right_eq_some, Option.some.injEq] at hstep
        obtain ⟨-, rfl⟩ := hstep
        exact { hs with }
      · simp at hstep
  | destruct r =>
      obtain ⟨y, hr, hstep⟩ := Option.bind_eq_some_iff.mp hstep
      exact destructStep_lock hs hstep

end SocketLifecycle

end Iocoro
