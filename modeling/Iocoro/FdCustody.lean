/-
Who has a native descriptor: a call, on its way into a resource or out of it, or
a resource.  What they all have is balanced against the ledger, and the moves of
a descriptor keep it so.
-/
import Iocoro.SocketLifecycle

namespace Iocoro

namespace SocketLifecycle

/-- What a call has of a descriptor: nothing, one that is in no resource yet, or
one that `release` has taken out of a resource, before and after
`remove_fd_sync`. -/
inductive Custody where
  | none
  | fresh (d : Descriptor)
  | taken (d : Descriptor)
  | removed (d : Descriptor)
deriving DecidableEq, Repr

def Custody.holdings : Custody → List Descriptor
  | .none => []
  | .fresh d => [d]
  | .taken d => [d]
  | .removed d => [d]

/-- The entry of a descriptor that is in no resource yet. -/
def Custody.unwrapped : Custody → List Nat
  | .fresh d => [d.entry]
  | _ => []

/-- What a resource has of a descriptor. -/
structure Kept where
  fd : Option Descriptor
  phase : Phase
  entry : Nat
deriving DecidableEq, Repr

/-- The descriptor is in `fd_`, and then in a local variable of the destructor. -/
def Kept.holdings (k : Kept) : List Descriptor :=
  match k.phase with
  | .alive | .releasing => k.fd.toList
  | .removing d | .closing d => [d]
  | .dead => []

def Pc.custody : Pc → Custody
  | .setup _ d _ => .fresh d
  | .addFd _ d _ => .fresh d
  | .setupFailed _ d _ => .fresh d
  | .makeResource _ d _ => .fresh d
  | .assignTake d => .fresh d
  | .assignMark d _ => .fresh d
  | .removeFd d _ => .taken d
  | .releaseReturn (some d) _ => .removed d
  | .acceptSetup d _ => .fresh d
  | .acceptCheck d _ => .fresh d
  | .acceptFailed d _ => .fresh d
  | .acceptReturn d _ => .fresh d
  | .adopt d => .fresh d
  | _ => .none

def Call.custody (call : Call) : Custody := call.pc.custody

def Resource.kept (y : Resource) : Kept :=
  { fd := y.fd, phase := y.phase, entry := y.entry }

theorem kept_inflight (y : Resource) (n : Nat) :
    Resource.kept { y with inflight := n } = y.kept := rfl

/-- All the descriptors that calls and resources have. -/
def holdings (calls : List Custody) (kept : List Kept) : List Descriptor :=
  calls.flatMap Custody.holdings ++ kept.flatMap Kept.holdings

structure FdInv (ledger : Ledger Nat) (removed : List Nat)
    (calls : List Custody) (kept : List Kept) : Prop where
  balanced : ledger.Balanced (holdings calls kept)
  wrapped : ∀ i, (calls.flatMap Custody.unwrapped).count i +
    (kept.map Kept.entry).count i ≤ if i < ledger.entries then 1 else 0
  entry : ∀ k ∈ kept, ∀ d ∈ k.holdings, d.entry = k.entry
  dead : ∀ k ∈ kept, k.entry ∈ ledger.closed → k.phase = .dead
  closing : ∀ k ∈ kept, ∀ d, k.phase = .closing d → d.entry ∈ removed
  returning : ∀ d, Custody.removed d ∈ calls → d.entry ∈ removed
  released : ∀ i ∈ ledger.released, i ∈ removed
  closed : ∀ k ∈ kept, k.entry ∈ ledger.closed → k.entry ∈ removed

variable {ledger : Ledger Nat} {removed : List Nat} {calls : List Custody}
  {kept : List Kept} {d : Descriptor} {k : Kept}

theorem FdInv.perm {otherCalls : List Custody} {otherKept : List Kept}
    (h : FdInv ledger removed calls kept) (hcalls : otherCalls.Perm calls)
    (hkept : otherKept.Perm kept) :
    FdInv ledger removed otherCalls otherKept where
  balanced := h.balanced.perm
    ((hcalls.flatMap_right _).append (hkept.flatMap_right _))
  wrapped i := by
    rw [(hcalls.flatMap_right _).count_eq i, (hkept.map _).count_eq i]
    exact h.wrapped i
  entry k hk := h.entry k (hkept.mem_iff.mp hk)
  dead k hk := h.dead k (hkept.mem_iff.mp hk)
  closing k hk := h.closing k (hkept.mem_iff.mp hk)
  returning d hd := h.returning d (hcalls.mem_iff.mp hd)
  released := h.released
  closed k hk := h.closed k (hkept.mem_iff.mp hk)

/-- A call takes in a descriptor. -/
theorem FdInv.enter (h : FdInv ledger removed (.none :: calls) kept) {fd : Nat}
    (hfd : ∀ i, ledger.table fd ≠ .entry i) :
    FdInv (ledger.enter fd) removed (.fresh (ledger.next fd) :: calls) kept where
  balanced := h.balanced.enter hfd
  wrapped i := by
    have hwrapped := h.wrapped i
    simp only [List.flatMap_cons, Custody.unwrapped, List.nil_append,
      List.cons_append, List.count_cons, Ledger.enter, Ledger.next] at hwrapped ⊢
    grind
  entry := h.entry
  dead := h.dead
  closing := h.closing
  returning d hd := h.returning d (by simpa using hd)
  released := h.released
  closed := h.closed

/-- A call closes a descriptor that is in no resource. -/
theorem FdInv.fail (h : FdInv ledger removed (.fresh d :: calls) kept) :
    FdInv (ledger.close d.number) removed (.none :: calls) kept := by
  have howned := h.balanced.owned d List.mem_cons_self
  have hbalanced := h.balanced.close
  have hunwrapped : ∀ k ∈ kept, k.entry ≠ d.entry := by
    intro k hk heq
    have hwrapped := h.wrapped d.entry
    have hpos := List.count_pos_iff.mpr (List.mem_map_of_mem (f := Kept.entry) hk)
    rw [heq] at hpos
    simp only [List.flatMap_cons, Custody.unwrapped, List.cons_append,
      List.nil_append, List.count_cons_self] at hwrapped
    split at hwrapped <;> omega
  simp only [Ledger.close, howned] at hbalanced ⊢
  refine { h with
    balanced := hbalanced, wrapped := ?_, dead := ?_, returning := ?_,
    closed := ?_ }
  · intro i
    have hwrapped := h.wrapped i
    simp only [List.flatMap_cons, Custody.unwrapped, List.nil_append,
      List.cons_append, List.count_cons] at hwrapped ⊢
    omega
  · intro k hk hclosed
    rcases List.mem_cons.mp hclosed with heq | hold
    · exact absurd heq (hunwrapped k hk)
    · exact h.dead k hk hold
  · exact fun other hother => h.returning other (by simpa using hother)
  · intro k hk hclosed
    rcases List.mem_cons.mp hclosed with heq | hold
    · exact absurd heq (hunwrapped k hk)
    · exact h.closed k hk hold

/-- A call makes a resource of its descriptor. -/
theorem FdInv.wrap (h : FdInv ledger removed (.fresh d :: calls) kept) :
    FdInv ledger removed (.none :: calls)
      ({ fd := some d, phase := .alive, entry := d.entry } :: kept) where
  balanced := h.balanced.perm List.perm_middle
  wrapped i := by
    have hwrapped := h.wrapped i
    simp only [List.flatMap_cons, Custody.unwrapped, List.nil_append,
      List.cons_append, List.count_cons, List.map_cons] at hwrapped ⊢
    omega
  entry := by
    simpa [Kept.holdings] using h.entry
  dead := by
    have hheld := (h.balanced.held List.mem_cons_self).1
    rintro k hk hclosed
    rcases List.mem_cons.mp hk with rfl | hold
    · exact absurd hclosed hheld
    · exact h.dead k hold hclosed
  closing := by simpa using h.closing
  returning := by simpa using h.returning
  released := h.released
  closed := by
    have hheld := (h.balanced.held List.mem_cons_self).1
    rintro k hk hclosed
    rcases List.mem_cons.mp hk with rfl | hold
    · exact absurd hclosed hheld
    · exact h.closed k hold hclosed

/-- `release` takes the descriptor out of a resource. -/
theorem FdInv.takeFd (h : FdInv ledger removed (.none :: calls) (k :: kept))
    (hfd : k.fd = some d) (hphase : k.phase = .alive) :
    FdInv ledger removed (.taken d :: calls) ({ k with fd := none } :: kept) := by
  have hmine : k.holdings = [d] := by
    simp [Kept.holdings, hfd, hphase]
  have hnone : Kept.holdings { k with fd := none } = [] := by
    simp [Kept.holdings, hphase]
  refine { h with
    balanced := ?_, wrapped := ?_, entry := ?_, dead := ?_, closing := ?_,
    returning := ?_, closed := ?_ }
  · have hbalanced := h.balanced
    simp only [holdings, List.flatMap_cons, hmine, hnone] at hbalanced ⊢
    exact hbalanced.perm List.perm_middle.symm
  · simpa [Custody.unwrapped] using h.wrapped
  · rw [List.forall_mem_cons, hnone]
    exact ⟨by simp, (List.forall_mem_cons.mp h.entry).2⟩
  · simpa using h.dead
  · simpa using h.closing
  · simpa using h.returning
  · simpa using h.closed

theorem FdInv.mono {more : List Nat} (h : FdInv ledger removed calls kept)
    (hmore : ∀ i ∈ removed, i ∈ more) : FdInv ledger more calls kept :=
  { h with
    closing := fun k hk d hd => hmore _ (h.closing k hk d hd)
    returning := fun d hd => hmore _ (h.returning d hd)
    released := fun i hi => hmore _ (h.released i hi)
    closed := fun k hk hclosed => hmore _ (h.closed k hk hclosed) }

/-- `release` has removed the descriptor from the reactor. -/
theorem FdInv.remove (h : FdInv ledger removed (.taken d :: calls) kept) :
    FdInv ledger (d.entry :: removed) (.removed d :: calls) kept :=
  { h.mono (fun _ => List.mem_cons_of_mem _) with
    returning := by
      intro other hother
      rcases List.mem_cons.mp hother with heq | hold
      · rw [Custody.removed.inj heq]
        exact List.mem_cons_self
      · exact List.mem_cons_of_mem _
          (h.returning other (List.mem_cons_of_mem _ hold)) }

/-- `release` hands the descriptor out. -/
theorem FdInv.handOut (h : FdInv ledger removed (.removed d :: calls) kept) :
    FdInv (ledger.handOut d.number) removed (.none :: calls) kept := by
  have howned := h.balanced.owned d List.mem_cons_self
  have hbalanced := h.balanced.handOut
  simp only [Ledger.handOut, howned] at hbalanced ⊢
  refine { h with balanced := hbalanced, returning := ?_, released := ?_ }
  · exact fun other hother =>
      h.returning other (List.mem_cons_of_mem _ (by simpa using hother))
  · intro i hi
    rcases List.mem_cons.mp hi with rfl | hold
    · exact h.returning d List.mem_cons_self
    · exact h.released i hold

/-! The steps of a destructor. -/

theorem FdInv.setPhase (h : FdInv ledger removed calls (k :: kept))
    (phase : Phase) (hlive : k.phase ≠ .dead)
    (hkept : Kept.holdings { k with phase } = k.holdings)
    (hclosing : ∀ d, phase = .closing d → d.entry ∈ removed) :
    FdInv ledger removed calls ({ k with phase } :: kept) := by
  have hsame : holdings calls ({ k with phase } :: kept) =
      holdings calls (k :: kept) := by
    simp only [holdings, List.flatMap_cons, hkept]
  refine { h with
    balanced := hsame ▸ h.balanced, entry := ?_, dead := ?_, closing := ?_,
    closed := ?_ }
  · rw [List.forall_mem_cons, hkept]
    exact List.forall_mem_cons.mp h.entry
  · intro other hother hclosed
    rcases List.mem_cons.mp hother with rfl | hold
    · exact absurd (h.dead k List.mem_cons_self hclosed) hlive
    · exact h.dead other (List.mem_cons_of_mem _ hold) hclosed
  · intro other hother
    rcases List.mem_cons.mp hother with rfl | hold
    · exact hclosing
    · exact h.closing other (List.mem_cons_of_mem _ hold)
  · intro other hother hclosed
    rcases List.mem_cons.mp hother with rfl | hold
    · exact h.closed k List.mem_cons_self hclosed
    · exact h.closed other (List.mem_cons_of_mem _ hold) hclosed

/-- The destructor takes the descriptor out of its resource. -/
theorem FdInv.destructTake (h : FdInv ledger removed calls (k :: kept))
    (hfd : k.fd = some d) (hphase : k.phase = .releasing) :
    FdInv ledger removed calls
      ({ k with fd := none, phase := .removing d } :: kept) := by
  have hkept : Kept.holdings { k with fd := none, phase := .removing d } =
      k.holdings := by
    simp [Kept.holdings, hfd, hphase]
  have hsame : holdings calls ({ k with fd := none, phase := .removing d } :: kept) =
      holdings calls (k :: kept) := by
    simp only [holdings, List.flatMap_cons, hkept]
  have hopen : k.entry ∉ ledger.closed := by
    intro hclosed
    have hdead := h.dead k List.mem_cons_self hclosed
    simp [hphase] at hdead
  refine { h with
    balanced := hsame ▸ h.balanced, entry := ?_, dead := ?_, closing := ?_,
    closed := ?_ }
  · rw [List.forall_mem_cons, hkept]
    exact List.forall_mem_cons.mp h.entry
  · exact List.forall_mem_cons.mpr ⟨fun hclosed => absurd hclosed hopen,
      (List.forall_mem_cons.mp h.dead).2⟩
  · exact List.forall_mem_cons.mpr ⟨by simp, (List.forall_mem_cons.mp h.closing).2⟩
  · exact List.forall_mem_cons.mpr ⟨fun hclosed => absurd hclosed hopen,
      (List.forall_mem_cons.mp h.closed).2⟩

/-- The destructor closes the descriptor. -/
theorem FdInv.destructClose (h : FdInv ledger removed calls (k :: kept))
    (hphase : k.phase = .closing d) :
    FdInv (ledger.close d.number) removed calls
      ({ k with phase := .dead } :: kept) := by
  have hmine : k.holdings = [d] := by
    simp [Kept.holdings, hphase]
  have hrest : Kept.holdings { k with phase := .dead } = [] := rfl
  have hfirst : ledger.Balanced
      (d :: holdings calls ({ k with phase := .dead } :: kept)) := by
    apply h.balanced.perm
    simp only [holdings, List.flatMap_cons, hmine, hrest]
    exact List.perm_middle.symm
  have hbalanced := hfirst.close
  have howned := hfirst.owned d List.mem_cons_self
  have hentries := List.forall_mem_cons.mp h.entry
  have hentry : d.entry = k.entry := hentries.1 d (by simp [hmine])
  have hothers : ∀ other ∈ kept, other.entry ≠ d.entry := by
    intro other hother heq
    have hwrapped := h.wrapped d.entry
    have hpos := List.count_pos_iff.mpr
      (List.mem_map_of_mem (f := Kept.entry) hother)
    rw [heq] at hpos
    rw [List.map_cons, ← hentry, List.count_cons_self] at hwrapped
    split at hwrapped <;> omega
  have hremoved := h.closing k List.mem_cons_self d hphase
  simp only [Ledger.close, howned] at hbalanced ⊢
  refine { h with
    balanced := hbalanced, entry := ?_, dead := ?_, closing := ?_, closed := ?_ }
  · rw [List.forall_mem_cons, hrest]
    exact ⟨by simp, hentries.2⟩
  · refine List.forall_mem_cons.mpr ⟨fun _ => rfl, fun other hother hclosed => ?_⟩
    rcases List.mem_cons.mp hclosed with heq | hold
    · exact absurd heq (hothers other hother)
    · exact h.dead other (List.mem_cons_of_mem _ hother) hold
  · exact List.forall_mem_cons.mpr ⟨by simp, (List.forall_mem_cons.mp h.closing).2⟩
  · refine List.forall_mem_cons.mpr ⟨fun _ => ?_, fun other hother hclosed => ?_⟩
    · change k.entry ∈ removed
      exact hentry ▸ hremoved
    · rcases List.mem_cons.mp hclosed with heq | hold
      · exact absurd heq (hothers other hother)
      · exact h.closed other (List.mem_cons_of_mem _ hother) hold

end SocketLifecycle

end Iocoro
