/-
What the steps of calls do to sockets, guards and counts.  Most steps move a call
from one place to the next and leave the guards and the counts of all resources
alone; the few others are told apart by their place.
-/
import Iocoro.FdOwnership

namespace Iocoro

namespace SocketLifecycle

/-- The call belongs to the destructor of its socket. -/
@[simp] def Pc.destroying : Pc → Bool
  | .closeTake last => last
  | .closeMark _ last => last
  | .dropOld _ last => last
  | .dropMember => true
  | _ => false

/-- The call runs another member function. -/
@[simp] def Pc.working (pc : Pc) : Bool := pc.inside && !pc.destroying

/-- The resource that `release` is about to take or has taken. -/
@[simp] def Pc.unpinned : Pc → Option Nat
  | .releaseTake old => some old
  | .releaseMark old => some old
  | .releaseFd old => some old
  | .removeFd _ old => some old
  | .releaseReturn _ old => some old
  | _ => none

/-- The number of operations that a resource counts, and whether it has lost its
descriptor. -/
def Resource.counted (y : Resource) : Nat × Bool := (y.inflight, y.fd.isNone)

/-- The step changes how many guards there are, what a resource counts, or what
the call knows of it. -/
@[simp] def Pc.counting : Pc → Bool
  | .makeResource _ _ _ | .releaseCheck _ | .releaseTake _ | .releaseFd _
  | .guardAdd _ _ => true
  | _ => false

/-- The step adds a guard. -/
@[simp] def Pc.adding : Pc → Bool
  | .guardAdd _ _ => true
  | _ => false

def State.socketAlive (s : State) (k : Nat) : Option Bool :=
  s.sockets[k]?.map Socket.alive

/-- From one place of a call to the next. -/
structure Pc.Follows (pc new : Pc) : Prop where
  working : new.working = true → pc.working = true
  destroying : new.destroying = true → pc.destroying = true
  unpinned : pc.counting = false → ∀ r, new.unpinned = some r →
    pc.unpinned = some r

/-- A step of a call: sockets neither come nor go, the guards stay unless it adds
one, and the counts unless it is a counting one. -/
structure Move (s t : State) (c : Nat) (call : Call) (new : Pc) : Prop where
  calls : t.calls = s.calls.set c { call with pc := new }
  alive : t.sockets.map Socket.alive = s.sockets.map Socket.alive
  working : new.working = true → call.pc.working = true ∨
    s.socketAlive call.socket = some true
  destroying : new.destroying = true → call.pc.destroying = true
  taken : s.taken ⊆ t.taken
  guards : call.pc.adding = false → t.guards = s.guards
  counted : call.pc.counting = false →
    t.resources.map Resource.counted = s.resources.map Resource.counted
  unpinned : call.pc.counting = false → ∀ r, new.unpinned = some r →
    call.pc.unpinned = some r

/-- The part of a step that is not in the calls. -/
structure Still (s s' : State) : Prop where
  calls : s'.calls = s.calls
  alive : s'.sockets.map Socket.alive = s.sockets.map Socket.alive
  taken : s.taken ⊆ s'.taken
  guards : s'.guards = s.guards
  counted : s'.resources.map Resource.counted = s.resources.map Resource.counted

theorem Still.ledger (s : State) (ledger : Ledger Nat) :
    Still s { s with ledger } :=
  ⟨rfl, rfl, fun _ h => h, rfl, rfl⟩

theorem Still.refl (s : State) : Still s s := .ledger s s.ledger

theorem alive_setSocket {s : State} {k : Nat} {x : Socket}
    (hx : s.sockets[k]? = some x) (res lock : Option Nat) :
    (s.sockets.set k { x with res, lock }).map Socket.alive =
      s.sockets.map Socket.alive :=
  Inventory.map_set_of_getElem? hx rfl

theorem Still.setSocket {s : State} {k : Nat} {x : Socket}
    (hx : s.sockets[k]? = some x) (res lock : Option Nat) :
    Still s (s.setSocket k { x with res, lock }) :=
  ⟨rfl, alive_setSocket hx res lock, fun _ h => h, rfl, rfl⟩

theorem Still.markClosing (s : State) (old : Option Nat) :
    Still s (s.markClosing old) := by
  cases old with
  | none => exact .refl s
  | some r =>
      exact ⟨rfl, rfl, fun _ h => h, rfl,
        Inventory.map_modify_of_eq (by simp [Resource.counted]) _ _⟩

theorem Still.removeFdSync (s : State) (fd : Nat) : Still s (s.removeFdSync fd) := by
  unfold State.removeFdSync
  split
  · exact ⟨rfl, rfl, fun _ h => h, rfl, rfl⟩
  · exact .refl s

theorem Move.goto {s s' : State} {c : Nat} {call : Call} {pc new : Pc}
    (hpc : call.pc = pc) (hs : Still s s') (hnew : pc.Follows new) :
    Move s (s'.goto c call new) c call new := by
  subst hpc
  exact {
    calls := by rw [State.goto, hs.calls]
    alive := hs.alive
    working := fun hworking => .inl (hnew.working hworking)
    destroying := hnew.destroying
    taken := hs.taken
    guards := fun _ => hs.guards
    counted := fun _ => hs.counted
    unpinned := hnew.unpinned }

/-- A counting step that adds no guard. -/
theorem Move.ofCounting {s s' : State} {c : Nat} {call : Call} {pc new : Pc}
    (hpc : call.pc = pc) (hcounting : pc.counting = true)
    (hcalls : s'.calls = s.calls)
    (halive : s'.sockets.map Socket.alive = s.sockets.map Socket.alive)
    (htaken : s.taken ⊆ s'.taken) (hguards : s'.guards = s.guards)
    (hnew : pc.Follows new) : Move s (s'.goto c call new) c call new := by
  subst hpc
  have hnever : call.pc.counting ≠ false := by
    rw [hcounting]
    exact Bool.noConfusion
  exact {
    calls := by rw [State.goto, hcalls]
    alive := halive
    working := fun hworking => .inl (hnew.working hworking)
    destroying := hnew.destroying
    taken := htaken
    guards := fun _ => hguards
    counted := fun hquiet => absurd hquiet hnever
    unpinned := fun hquiet => absurd hquiet hnever }

theorem Move.reap {s t : State} {c : Nat} {call : Call} {new : Pc}
    {dropped : Option Nat} (h : Move s t c call new) :
    Move s (t.reap dropped) c call new := by
  cases dropped with
  | none => exact h
  | some r =>
      simp only [State.reap]
      split
      · refine { h with counted := fun hcounting => ?_ }
        rw [← h.counted hcounting]
        exact Inventory.map_modify_of_eq (by simp [Resource.counted]) _ _
      · exact h

attribute [simp] Pc.inside

theorem openStep_move {s t : State} {c : Nat} {call : Call}
    (hstep : s.openStep c call = some t) : ∃ new, Move s t c call new := by
  unfold State.openStep at hstep
  split at hstep
  · next hpc =>
      obtain ⟨x, hx, hstep⟩ := Option.bind_eq_some_iff.mp hstep
      split at hstep
      · simp at hstep
      · split at hstep
        · obtain rfl := Option.some.inj hstep
          exact ⟨.returned, .goto hpc (.refl s) (by constructor <;> simp)⟩
        · obtain rfl := Option.some.inj hstep
          exact ⟨.openSocket,
            .goto hpc (.setSocket hx _ _) (by constructor <;> simp)⟩
  · simp at hstep

theorem exchangeStep_move {s t : State} {c : Nat} {call : Call}
    (hstep : s.exchangeStep c call = some t) : ∃ new, Move s t c call new := by
  unfold State.exchangeStep at hstep
  split at hstep
  · next d hpc =>
      obtain ⟨x, hx, hstep⟩ := Option.bind_eq_some_iff.mp hstep
      split at hstep
      · simp at hstep
      · obtain rfl := Option.some.inj hstep
        exact ⟨.assignMark d x.res,
          .goto hpc ⟨rfl, alive_setSocket hx _ _, List.subset_append_right _ _,
            rfl, rfl⟩ (by constructor <;> simp)⟩
  · next d old hpc =>
      obtain rfl := Option.some.inj hstep
      exact ⟨.setup .assigned d old,
        .goto hpc (.markClosing s old) (by constructor <;> simp)⟩
  · next r old hpc =>
      obtain ⟨x, hx, hstep⟩ := Option.bind_eq_some_iff.mp hstep
      split at hstep
      · simp at hstep
      · obtain rfl := Option.some.inj hstep
        exact ⟨.dropOld old false,
          .reap (.goto hpc (.setSocket hx _ _) (by constructor <;> simp))⟩
  · next last hpc =>
      obtain ⟨x, hx, hstep⟩ := Option.bind_eq_some_iff.mp hstep
      split at hstep
      · simp at hstep
      · obtain rfl := Option.some.inj hstep
        exact ⟨.closeMark x.res last,
          .goto hpc ⟨rfl, alive_setSocket hx _ _, List.subset_append_right _ _,
            rfl, rfl⟩ (by constructor <;> simp)⟩
  · next old last hpc =>
      obtain rfl := Option.some.inj hstep
      exact ⟨.dropOld old last,
        .goto hpc (.markClosing s old) (by constructor <;> simp)⟩
  · next old last hpc =>
      obtain rfl := Option.some.inj hstep
      exact ⟨_,
        .reap (.goto hpc (.refl s) (by constructor <;> cases last <;> simp))⟩
  · next hpc =>
      obtain ⟨x, hx, rfl⟩ := Option.map_eq_some_iff.mp hstep
      exact ⟨.returned,
        .reap (.goto hpc (.setSocket hx _ _) (by constructor <;> simp))⟩
  · simp at hstep

theorem socketStep_move {s t : State} {c : Nat} {call : Call} {fd : Option Nat}
    (hpc : call.pc = .openSocket) (hstep : s.socketStep c call fd = some t) :
    ∃ new, Move s t c call new := by
  cases fd with
  | none =>
      obtain ⟨x, hx, rfl⟩ := Option.map_eq_some_iff.mp hstep
      exact ⟨.returned, .goto hpc (.setSocket hx _ _) (by constructor <;> simp)⟩
  | some fd =>
      simp only [State.socketStep, Option.ite_none_right_eq_some,
        Option.some.injEq] at hstep
      obtain ⟨-, rfl⟩ := hstep
      exact ⟨.setup .opened _ none,
        .goto hpc (.ledger s _) (by constructor <;> simp)⟩

theorem setupStep_move {s t : State} {c : Nat} {call : Call} {ok : Bool}
    (hstep : s.setupStep c call ok = some t) : ∃ new, Move s t c call new := by
  unfold State.setupStep at hstep
  split at hstep
  · next origin d old hpc =>
      obtain rfl := Option.some.inj hstep
      exact ⟨_, .goto hpc (.refl s) (by constructor <;> cases ok <;> simp)⟩
  · next origin d old hpc =>
      obtain rfl := Option.some.inj hstep
      exact ⟨_, .goto hpc (.refl s) (by constructor <;> cases ok <;> simp)⟩
  · next origin d old hpc =>
      cases origin with
      | opened =>
          obtain ⟨x, hx, rfl⟩ := Option.map_eq_some_iff.mp hstep
          exact ⟨.dropOld old false,
            .goto hpc ⟨rfl, alive_setSocket hx _ _, fun _ h => h, rfl, rfl⟩
              (by constructor <;> simp)⟩
      | assigned =>
          obtain rfl := Option.some.inj hstep
          exact ⟨.dropOld old false,
            .goto hpc (.ledger s _) (by constructor <;> simp)⟩
  · next origin d old hpc =>
      cases origin with
      | opened =>
          obtain ⟨x, hx, rfl⟩ := Option.map_eq_some_iff.mp hstep
          exact ⟨.dropOld old false,
            .reap (.ofCounting hpc rfl rfl (alive_setSocket hx _ _)
              (fun _ h => h) rfl (by constructor <;> simp))⟩
      | assigned =>
          obtain rfl := Option.some.inj hstep
          exact ⟨.publish s.resources.length old,
            .ofCounting hpc rfl rfl rfl (fun _ h => h) rfl
              (by constructor <;> simp)⟩
  · simp at hstep

theorem releaseStep_move {s t : State} {c : Nat} {call : Call}
    (hstep : s.releaseStep c call = some t) : ∃ new, Move s t c call new := by
  unfold State.releaseStep at hstep
  split at hstep
  · next hpc =>
      obtain ⟨x, hx, hstep⟩ := Option.bind_eq_some_iff.mp hstep
      split at hstep
      · simp at hstep
      · split at hstep
        · obtain rfl := Option.some.inj hstep
          exact ⟨.returned, .goto hpc (.refl s) (by constructor <;> simp)⟩
        · next r _ =>
            obtain rfl := Option.some.inj hstep
            exact ⟨.releaseCheck r,
              .goto hpc (.setSocket hx _ _) (by constructor <;> simp)⟩
  · next r hpc =>
      obtain ⟨y, hy, hstep⟩ := Option.bind_eq_some_iff.mp hstep
      split at hstep
      · obtain ⟨x, hx, rfl⟩ := Option.map_eq_some_iff.mp hstep
        exact ⟨.dropOld (some r) false,
          .ofCounting hpc rfl rfl (alive_setSocket hx _ _)
            (fun _ h => h) rfl (by constructor <;> simp)⟩
      · obtain rfl := Option.some.inj hstep
        exact ⟨.releaseTake r,
          .ofCounting hpc rfl rfl rfl (fun _ h => h) rfl
            (by constructor <;> simp)⟩
  · next r hpc =>
      obtain ⟨x, hx, rfl⟩ := Option.map_eq_some_iff.mp hstep
      split
      · exact ⟨.returned,
          .reap (.ofCounting hpc rfl rfl (alive_setSocket hx _ _)
            (fun _ h => h) rfl (by constructor <;> simp))⟩
      · next current _ =>
          exact ⟨.releaseMark current,
            .reap (.ofCounting hpc rfl rfl (alive_setSocket hx _ _)
              (List.subset_cons_self _ _) rfl (by constructor <;> simp))⟩
  · next r hpc =>
      obtain rfl := Option.some.inj hstep
      exact ⟨.releaseFd r,
        .goto hpc (.markClosing s _) (by constructor <;> simp)⟩
  · next r hpc =>
      obtain ⟨y, hy, rfl⟩ := Option.map_eq_some_iff.mp hstep
      exact ⟨_, .ofCounting hpc rfl rfl rfl (fun _ h => h) rfl
        (by constructor <;> cases y.fd <;> simp)⟩
  · next d r hpc =>
      obtain rfl := Option.some.inj hstep
      exact ⟨.releaseReturn (some d) r,
        .goto hpc (.removeFdSync s _) (by constructor <;> simp)⟩
  · next d r hpc =>
      obtain rfl := Option.some.inj hstep
      exact ⟨.returned,
        .reap (.goto hpc (.ledger s _) (by constructor <;> simp))⟩
  · simp at hstep

theorem guardStep_move {s t : State} {c : Nat} {call : Call} {ok : Bool}
    (hstep : s.guardStep c call ok = some t) : ∃ new, Move s t c call new := by
  unfold State.guardStep at hstep
  split at hstep
  · next hpc =>
      obtain ⟨x, hx, rfl⟩ := Option.map_eq_some_iff.mp hstep
      split
      · exact ⟨.returned, .goto hpc (.refl s) (by constructor <;> simp)⟩
      · next r _ =>
          exact ⟨.snapshot r, .goto hpc (.refl s) (by constructor <;> simp)⟩
  · next r hpc =>
      split at hstep
      · obtain ⟨x, hx, hstep⟩ := Option.bind_eq_some_iff.mp hstep
        split at hstep
        · simp at hstep
        · next hopen =>
            obtain rfl := Option.some.inj hstep
            have halive : s.socketAlive call.socket = some true := by
              simp only [Bool.or_eq_true, Bool.not_eq_true', not_or,
                Bool.not_eq_false] at hopen
              rw [State.socketAlive, hx, Option.map_some, hopen.1]
            exact ⟨.guardCheck r x.res, {
              calls := rfl
              alive := alive_setSocket hx _ _
              working := fun _ => .inr halive
              destroying := by simp
              taken := fun _ h => h
              guards := fun _ => rfl
              counted := fun _ => rfl
              unpinned := by simp }⟩
      · obtain rfl := Option.some.inj hstep
        exact ⟨.dropOld (some r) false,
          .goto hpc (.refl s) (by constructor <;> simp)⟩
  · next r current hpc =>
      split at hstep
      · obtain rfl := Option.some.inj hstep
        exact ⟨.guardAdd r r, .goto hpc (.refl s) (by constructor <;> simp)⟩
      · obtain ⟨x, hx, rfl⟩ := Option.map_eq_some_iff.mp hstep
        exact ⟨.snapshot r,
          .reap (.goto hpc (.setSocket hx _ _) (by constructor <;> simp))⟩
  · next r current hpc =>
      obtain ⟨y, hy, hstep⟩ := Option.bind_eq_some_iff.mp hstep
      obtain ⟨x, hx, rfl⟩ := Option.map_eq_some_iff.mp hstep
      exact ⟨.snapshot r, {
        calls := rfl
        alive := alive_setSocket hx _ _
        working := by simp
        destroying := by simp
        taken := fun _ h => h
        guards := by simp [hpc]
        counted := by simp [hpc]
        unpinned := by simp }⟩
  · simp at hstep

/-- A step of an accepted descriptor; the last one makes a socket for it. -/
theorem acceptStep_move {s t : State} {c : Nat} {call : Call} {ok : Bool}
    (hstep : s.acceptStep c call ok = some t) :
    (∃ new, Move s t c call new) ∨ ∃ d, call.pc = .adopt d ∧
      t = { s with sockets := s.sockets ++ [Socket.make] }.goto c
        { call with socket := s.sockets.length } (.assignTake d) := by
  unfold State.acceptStep at hstep
  split at hstep
  · next d r hpc =>
      obtain rfl := Option.some.inj hstep
      exact .inl ⟨_, .goto hpc (.refl s) (by constructor <;> cases ok <;> simp)⟩
  · next d r hpc =>
      obtain ⟨y, hy, rfl⟩ := Option.map_eq_some_iff.mp hstep
      left
      split
      · exact ⟨.acceptReturn d r, .goto hpc (.refl s) (by constructor <;> simp)⟩
      · exact ⟨.acceptFailed d r, .goto hpc (.refl s) (by constructor <;> simp)⟩
  · next d r hpc =>
      obtain rfl := Option.some.inj hstep
      exact .inl ⟨.dropOld (some r) false,
        .goto hpc (.ledger s _) (by constructor <;> simp)⟩
  · next d r hpc =>
      obtain rfl := Option.some.inj hstep
      exact .inl ⟨.adopt d,
        .reap (.goto hpc (.refl s) (by constructor <;> simp))⟩
  · next d hpc => exact .inr ⟨d, hpc, (Option.some.inj hstep).symm⟩
  · simp at hstep

theorem callStep_move {s t : State} {c : Nat} {call : Call} {ok : Bool}
    (hstep : s.callStep c call ok = some t) :
    (∃ new, Move s t c call new) ∨ ∃ d, call.pc = .adopt d ∧
      t = { s with sockets := s.sockets ++ [Socket.make] }.goto c
        { call with socket := s.sockets.length } (.assignTake d) := by
  unfold State.callStep at hstep
  split at hstep
  all_goals first
    | exact .inl (openStep_move hstep)
    | exact .inl (setupStep_move hstep)
    | exact .inl (exchangeStep_move hstep)
    | exact .inl (releaseStep_move hstep)
    | exact .inl (guardStep_move hstep)
    | exact acceptStep_move hstep
    | simp at hstep

/-! ### Sockets and the calls on them -/

/-- While a call runs a member function its socket is alive, apart from the call
of the destructor. -/
structure LifeInv (s : State) : Prop where
  working : ∀ call ∈ s.calls, call.pc.working = true →
    s.socketAlive call.socket = some true
  destroying : ∀ call ∈ s.calls, call.pc.destroying = true →
    s.socketAlive call.socket = some false

theorem LifeInv.congr {s t : State} (hs : LifeInv s)
    (hcalls : t.calls = s.calls)
    (halive : ∀ k b, s.socketAlive k = some b → t.socketAlive k = some b) :
    LifeInv t where
  working call hcall hworking :=
    halive _ _ (hs.working call (hcalls ▸ hcall) hworking)
  destroying call hcall hdestroying :=
    halive _ _ (hs.destroying call (hcalls ▸ hcall) hdestroying)

theorem LifeInv.move {s t : State} (hs : LifeInv s) {c : Nat} {call : Call}
    {new : Pc} (hc : s.calls[c]? = some call) (h : Move s t c call new) :
    LifeInv t := by
  have halive : ∀ k, t.socketAlive k = s.socketAlive k := by
    intro k
    rw [State.socketAlive, State.socketAlive, ← List.getElem?_map,
      ← List.getElem?_map, h.alive]
  have hmine := List.mem_of_getElem? hc
  constructor
  · intro other hother hworking
    rw [h.calls] at hother
    rw [halive]
    rcases List.mem_or_eq_of_mem_set hother with hold | rfl
    · exact hs.working other hold hworking
    · rcases h.working hworking with hbefore | hopen
      · exact hs.working call hmine hbefore
      · exact hopen
  · intro other hother hdestroying
    rw [h.calls] at hother
    rw [halive]
    rcases List.mem_or_eq_of_mem_set hother with hold | rfl
    · exact hs.destroying other hold hdestroying
    · exact hs.destroying call hmine (h.destroying hdestroying)

theorem socketAlive_append {s : State} {k : Nat} {b : Bool}
    (hk : s.socketAlive k = some b) :
    State.socketAlive { s with sockets := s.sockets ++ [Socket.make] } k =
      some b := by
  obtain ⟨x, hx, hb⟩ := Option.map_eq_some_iff.mp hk
  have hlt := (List.getElem?_eq_some_iff.mp hx).1
  rw [State.socketAlive, List.getElem?_append_left hlt]
  exact hk

theorem LifeInv.adopt {s : State} (hs : LifeInv s) {c : Nat} (call : Call)
    (d : Descriptor) :
    LifeInv ({ s with sockets := s.sockets ++ [Socket.make] }.goto c
      { call with socket := s.sockets.length } (.assignTake d)) := by
  constructor
  · intro other hother hworking
    rcases List.mem_or_eq_of_mem_set hother with hold | rfl
    · exact socketAlive_append (hs.working other hold hworking)
    · simp [State.socketAlive, State.goto, Socket.make]
  · intro other hother hdestroying
    rcases List.mem_or_eq_of_mem_set hother with hold | rfl
    · exact socketAlive_append (hs.destroying other hold hdestroying)
    · simp at hdestroying

theorem LifeInv.spawn {s t : State} (hs : LifeInv s) (k : Nat) (pc : Pc)
    (hcalls : t.calls = s.calls ++ [{ socket := k, pc }])
    (hsockets : t.sockets = s.sockets)
    (hworking : pc.working = true → s.socketAlive k = some true)
    (hdestroying : pc.destroying = false) : LifeInv t := by
  have halive : ∀ k, t.socketAlive k = s.socketAlive k := by
    intro k
    rw [State.socketAlive, State.socketAlive, hsockets]
  constructor
  · intro call hcall hcallWorking
    rw [hcalls] at hcall
    rw [halive]
    rcases List.mem_append.mp hcall with hold | hnew
    · exact hs.working call hold hcallWorking
    · rw [List.mem_singleton.mp hnew] at hcallWorking ⊢
      exact hworking hcallWorking
  · intro call hcall hcallDestroying
    rw [hcalls] at hcall
    rw [halive]
    rcases List.mem_append.mp hcall with hold | hnew
    · exact hs.destroying call hold hcallDestroying
    · rw [List.mem_singleton.mp hnew, hdestroying] at hcallDestroying
      exact Bool.noConfusion hcallDestroying

theorem inside_of_destroying {pc : Pc} (hpc : pc.destroying = true) :
    pc.inside = true := by
  cases pc <;> simp_all

/-- The destructor of a socket starts while no call is in a member function of
it. -/
theorem LifeInv.destroy {s : State} (hs : LifeInv s) {k : Nat} {x : Socket}
    (hx : s.sockets[k]? = some x)
    (hidle : ∀ call ∈ s.calls, call.socket = k → call.pc.inside = false) :
    LifeInv ((s.setSocket k { x with alive := false }).spawn k
      (.closeTake true)) := by
  have hlt := (List.getElem?_eq_some_iff.mp hx).1
  have hother : ∀ call ∈ s.calls, call.pc.inside = true →
      State.socketAlive (s.setSocket k { x with alive := false }) call.socket =
        s.socketAlive call.socket := by
    intro call hcall hinside
    have hne : k ≠ call.socket := by
      intro heq
      rw [hidle call hcall heq.symm] at hinside
      exact Bool.noConfusion hinside
    rw [State.socketAlive, State.setSocket, List.getElem?_set_ne hne,
      State.socketAlive]
  have hmine : State.socketAlive (s.setSocket k { x with alive := false }) k =
      some false := by
    rw [State.socketAlive, State.setSocket, List.getElem?_set_self hlt]
    rfl
  constructor
  · intro call hcall hworking
    rcases List.mem_append.mp hcall with hold | hnew
    · have hinside : call.pc.inside = true := (Bool.and_eq_true_iff.mp hworking).1
      exact (hother call hold hinside).trans (hs.working call hold hworking)
    · rw [List.mem_singleton.mp hnew] at hworking
      simp at hworking
  · intro call hcall hdestroying
    rcases List.mem_append.mp hcall with hold | hnew
    · exact (hother call hold (inside_of_destroying hdestroying)).trans
        (hs.destroying call hold hdestroying)
    · rw [List.mem_singleton.mp hnew]
      exact hmine

/-- Guards and destructors leave the calls, the sockets and what was taken out of
them alone. -/
structure Apart (s t : State) : Prop where
  calls : t.calls = s.calls
  sockets : t.sockets = s.sockets
  taken : t.taken = s.taken

theorem Apart.reap {s t : State} (h : Apart s t) (dropped : Option Nat) :
    Apart s (t.reap dropped) := by
  cases dropped with
  | none => exact h
  | some r =>
      simp only [State.reap]
      split
      · exact ⟨h.calls, h.sockets, h.taken⟩
      · exact h

theorem resetStep_apart {s t : State} {g : Nat} {guard : Guard}
    (hstep : s.resetStep g guard = some t) : Apart s t := by
  cases guard with
  | empty => simp [State.resetStep] at hstep
  | live r =>
      obtain ⟨y, hy, rfl⟩ := Option.map_eq_some_iff.mp hstep
      exact ⟨rfl, rfl, rfl⟩
  | resetting r =>
      obtain rfl := Option.some.inj hstep
      apply Apart.reap
      exact ⟨rfl, rfl, rfl⟩

theorem destructStep_apart {s t : State} {r : Nat} {y : Resource}
    (hstep : s.destructStep r y = some t) : Apart s t := by
  unfold State.destructStep at hstep
  split at hstep
  · simp at hstep
  · simp at hstep
  · obtain rfl := Option.some.inj hstep
    exact ⟨rfl, rfl, rfl⟩
  · obtain rfl := Option.some.inj hstep
    unfold State.removeFdSync
    split
    · exact ⟨rfl, rfl, rfl⟩
    · exact ⟨rfl, rfl, rfl⟩
  · obtain rfl := Option.some.inj hstep
    exact ⟨rfl, rfl, rfl⟩

theorem LifeInv.apart {s t : State} (hs : LifeInv s) (h : Apart s t) :
    LifeInv t := by
  apply hs.congr h.calls
  intro k b hk
  rw [State.socketAlive, h.sockets]
  exact hk

theorem step_life {s t : State} {a : Action} (hs : LifeInv s)
    (hstep : step s a = some t) : LifeInv t := by
  cases a with
  | outsideOpen fd =>
      simp only [step, Option.ite_none_right_eq_some, Option.some.injEq] at hstep
      obtain ⟨-, rfl⟩ := hstep
      exact hs.congr rfl fun _ _ h => h
  | outsideClose fd =>
      simp only [step, Option.ite_none_right_eq_some, Option.some.injEq] at hstep
      obtain ⟨-, rfl⟩ := hstep
      exact hs.congr rfl fun _ _ h => h
  | newSocket =>
      obtain rfl := Option.some.inj hstep
      exact hs.congr rfl fun _ _ h => socketAlive_append h
  | start k entry =>
      obtain ⟨x, hx, hstep⟩ := Option.bind_eq_some_iff.mp hstep
      simp only [Option.ite_none_right_eq_some, Option.some.injEq] at hstep
      obtain ⟨halive, rfl⟩ := hstep
      have hopen : s.socketAlive k = some true := by
        rw [State.socketAlive, hx, Option.map_some, halive]
      cases entry <;> exact hs.spawn k _ rfl rfl (fun _ => hopen) rfl
  | assign k fd =>
      obtain ⟨x, hx, hstep⟩ := Option.bind_eq_some_iff.mp hstep
      simp only [Option.ite_none_right_eq_some, Option.some.injEq] at hstep
      obtain ⟨⟨halive, -⟩, rfl⟩ := hstep
      have hopen : s.socketAlive k = some true := by
        rw [State.socketAlive, hx, Option.map_some, halive]
      exact hs.spawn k _ rfl rfl (fun _ => hopen) rfl
  | destroy k =>
      obtain ⟨x, hx, hstep⟩ := Option.bind_eq_some_iff.mp hstep
      simp only [Option.ite_none_right_eq_some, Option.some.injEq] at hstep
      obtain ⟨⟨-, hidle⟩, rfl⟩ := hstep
      exact hs.destroy hx hidle
  | accept k g fd needsSetup =>
      simp only [step] at hstep
      split at hstep
      · simp only [Option.ite_none_right_eq_some, Option.some.injEq] at hstep
        obtain ⟨-, rfl⟩ := hstep
        cases needsSetup <;> exact hs.spawn k _ rfl rfl (by simp) rfl
      · simp at hstep
  | socket c fd =>
      obtain ⟨call, hc, hstep⟩ := Option.bind_eq_some_iff.mp hstep
      simp only [Option.ite_none_right_eq_some] at hstep
      obtain ⟨new, hmove⟩ := socketStep_move hstep.1 hstep.2
      exact hs.move hc hmove
  | resume c ok =>
      obtain ⟨call, hc, hstep⟩ := Option.bind_eq_some_iff.mp hstep
      rcases callStep_move hstep with ⟨new, hmove⟩ | ⟨d, -, rfl⟩
      · exact hs.move hc hmove
      · exact hs.adopt call d
  | newGuard =>
      obtain rfl := Option.some.inj hstep
      exact hs.congr rfl fun _ _ h => h
  | resetGuard g =>
      obtain ⟨guard, hg, hstep⟩ := Option.bind_eq_some_iff.mp hstep
      exact hs.apart (resetStep_apart hstep)
  | moveGuard g h =>
      simp only [step] at hstep
      split at hstep
      · simp only [Option.ite_none_right_eq_some, Option.some.injEq] at hstep
        obtain ⟨-, rfl⟩ := hstep
        exact hs.congr rfl fun _ _ h => h
      · simp at hstep
  | destruct r =>
      obtain ⟨y, hr, hstep⟩ := Option.bind_eq_some_iff.mp hstep
      exact hs.apart (destructStep_apart hstep)

end SocketLifecycle

end Iocoro
