/-
A chain of stop sources, each with a callback on the next one that passes a stop
request down.  The chain lists the innermost source first.  A call of
`request_stop` sets the flag, then runs the callbacks that were installed
before; a callback installed later finds the flag and runs at once.
-/
import Mathlib.Data.List.Chain

namespace Iocoro

namespace StopChain

/-- A `stop_callback`: not there (any more), waiting for a stop request, or taken
out by one and being run. -/
inductive StopCallback where
  | absent
  | installed
  | executing
deriving DecidableEq, Repr

/-- The `stop_source_` of a promise and its `parent_stop_cb_` on the next source
of the chain; `calling` while a call of `request_stop` is at its callbacks. -/
structure Source where
  stopped : Bool := false
  calling : Bool := false
  link : StopCallback := .absent
deriving DecidableEq, Repr

/-- The call that is the first to set the flag runs the callbacks. -/
def Source.request (f : Source) : Source :=
  if f.stopped then f else { f with stopped := true, calling := true }

/-- `request_stop` on the source at a position. -/
def requestAt (n : Nat) (chain : List Source) : List Source :=
  chain.modify n Source.request

/-- The call on a source takes out the callback of the one before it. -/
def takeLink : Nat → List Source → Option (List Source)
  | 0, f :: g :: rest =>
      if g.calling = true ∧ f.link = .installed then
        some ({ f with link := .executing } :: g :: rest)
      else none
  | n + 1, f :: rest => (takeLink n rest).map (f :: ·)
  | _, _ => none

/-- The callback calls `request_stop`. -/
def runLink : Nat → List Source → Option (List Source)
  | 0, f :: rest =>
      if f.link = .executing then
        some ({ f.request with link := .absent } :: rest)
      else none
  | n + 1, f :: rest => (runLink n rest).map (f :: ·)
  | _, _ => none

/-- The call on a source returns when no callback is left. -/
def endCall : Nat → List Source → Option (List Source)
  | 0, f :: g :: rest =>
      if g.calling = true ∧ f.link = .absent then
        some (f :: { g with calling := false } :: rest)
      else none
  | n + 1, f :: rest => (endCall n rest).map (f :: ·)
  | _, _ => none

/-- How the callback of `f` on `g` stands: one that is there is yet to be run by
the call that stops `g`, and one that is gone has stopped `f`. -/
structure Linked (f g : Source) : Prop where
  installed : f.link = .installed → g.stopped = true → g.calling = true
  executing : f.link = .executing → g.calling = true
  absent : f.link = .absent → f.stopped = true

theorem Linked.stopped {f g : Source} (hlinked : Linked f g)
    (hstopped : g.stopped = true) : f.stopped = true ∨ g.calling = true := by
  cases hlink : f.link with
  | absent => exact Or.inl (hlinked.absent hlink)
  | installed => exact Or.inr (hlinked.installed hlink hstopped)
  | executing => exact Or.inr (hlinked.executing hlink)

/-- A stop request reaches every source before it in the chain, unless a call
between the two is still at its callbacks. -/
theorem stopped_of_chain {f g : Source} {between after : List Source}
    (hchain : (f :: (between ++ g :: after)).IsChain Linked)
    (hstopped : g.stopped = true) :
    f.stopped = true ∨ ∃ h ∈ between ++ [g], h.calling = true := by
  induction between generalizing f with
  | nil =>
      rw [List.nil_append, List.isChain_cons_cons] at hchain
      rcases hchain.1.stopped hstopped with hf | hcalling
      · exact Or.inl hf
      · exact Or.inr ⟨g, by simp, hcalling⟩
  | cons m between ih =>
      rw [List.cons_append, List.isChain_cons_cons] at hchain
      rcases ih hchain.2 with hm | ⟨h, hmem, hcalling⟩
      · rcases hchain.1.stopped hm with hf | hcalling
        · exact Or.inl hf
        · exact Or.inr ⟨m, by simp, hcalling⟩
      · exact Or.inr ⟨h, by simp_all, hcalling⟩

/-! ### Steps keep the chain linked -/

theorem Source.request_link (f : Source) : f.request.link = f.link := by
  unfold Source.request
  split <;> rfl

theorem Source.request_stopped (f : Source) : f.request.stopped = true := by
  unfold Source.request
  split
  · assumption
  · rfl

theorem Source.request_calling {f : Source} (hcalling : f.calling = true) :
    f.request.calling = true := by
  unfold Source.request
  split
  · exact hcalling
  · rfl

/-- A source that was not stopped before is being called now. -/
theorem Source.calling_of_request {f : Source}
    (hold : f.stopped = true → f.calling = true) : f.request.calling = true := by
  unfold Source.request
  split
  · next hstopped => exact hold hstopped
  · rfl

theorem Linked.request_left {f g : Source} (hlinked : Linked f g) :
    Linked f.request g where
  installed := by
    rw [Source.request_link]
    exact hlinked.installed
  executing := by
    rw [Source.request_link]
    exact hlinked.executing
  absent := fun _ => f.request_stopped

theorem Linked.request_right {f g : Source} (hlinked : Linked f g) :
    Linked f g.request where
  installed := fun hlink _ =>
    Source.calling_of_request (hlinked.installed hlink)
  executing := fun hlink => Source.request_calling (hlinked.executing hlink)
  absent := hlinked.absent

/-- A change to a chain that no source before it notices. -/
def Keeps (chain chain' : List Source) : Prop :=
  ∀ f, (f :: chain).IsChain Linked → (f :: chain').IsChain Linked

theorem Keeps.cons {chain chain' : List Source} (hkeeps : Keeps chain chain')
    (f : Source) : Keeps (f :: chain) (f :: chain') := by
  intro e hchain
  rw [List.isChain_cons_cons] at hchain ⊢
  exact ⟨hchain.1, hkeeps f hchain.2⟩

theorem Keeps.append {chain chain' : List Source}
    (hkeeps : Keeps chain chain') (front : List Source) :
    Keeps (front ++ chain) (front ++ chain') := by
  induction front with
  | nil => exact hkeeps
  | cons f front ih => exact ih.cons f

/-- A source that is stopped and has no callback goes before any chain. -/
theorem Keeps.isChain {chain chain' : List Source}
    (hkeeps : Keeps chain chain') (hchain : chain.IsChain Linked) :
    chain'.IsChain Linked := by
  have hfirst : ({ stopped := true } :: chain).IsChain Linked := by
    cases chain with
    | nil => exact List.isChain_singleton _
    | cons g rest =>
        exact List.isChain_cons_cons.mpr ⟨⟨by simp, by simp, by simp⟩, hchain⟩
  exact (hkeeps _ hfirst).tail

theorem keeps_request (f : Source) (rest : List Source) :
    Keeps (f :: rest) (f.request :: rest) := by
  intro e hchain
  rw [List.isChain_cons_cons] at hchain ⊢
  refine ⟨hchain.1.request_right, ?_⟩
  cases rest with
  | nil => exact List.isChain_singleton _
  | cons g rest =>
      have hrest := List.isChain_cons_cons.mp hchain.2
      exact List.isChain_cons_cons.mpr ⟨hrest.1.request_left, hrest.2⟩

theorem requestAt_keeps (n : Nat) (chain : List Source) :
    Keeps chain (requestAt n chain) := by
  induction chain generalizing n with
  | nil =>
      rw [requestAt, List.modify_nil]
      exact fun _ hchain => hchain
  | cons f rest ih =>
      cases n with
      | zero =>
          rw [requestAt, List.modify_zero_cons]
          exact keeps_request f rest
      | succ n =>
          rw [requestAt, List.modify_succ_cons]
          exact (ih n).cons f

/-- What a predecessor and a successor see when only the callback changes. -/
theorem keeps_link {f g : Source} {rest : List Source} {link : StopCallback}
    (hlink : Linked f g → Linked { f with link := link } g) :
    Keeps (f :: g :: rest) ({ f with link := link } :: g :: rest) := by
  intro e hchain
  simp only [List.isChain_cons_cons] at hchain ⊢
  obtain ⟨hef, hfg, hrest⟩ := hchain
  exact ⟨⟨hef.installed, hef.executing, hef.absent⟩, hlink hfg, hrest⟩

theorem takeLink_keeps {n : Nat} {chain chain' : List Source}
    (htake : takeLink n chain = some chain') : Keeps chain chain' := by
  induction n generalizing chain chain' with
  | zero =>
      unfold takeLink at htake
      split at htake
      · rw [Option.ite_none_right_eq_some] at htake
        obtain ⟨⟨hcalling, _⟩, htake⟩ := htake
        obtain rfl := Option.some.inj htake
        exact keeps_link (fun _ => ⟨by simp, fun _ => hcalling, by simp⟩)
      · simp_all
      · simp at htake
  | succ n ih =>
      cases chain with
      | nil => simp [takeLink] at htake
      | cons f rest =>
          simp only [takeLink, Option.map_eq_some_iff] at htake
          obtain ⟨rest', htake, rfl⟩ := htake
          exact (ih htake).cons f

theorem runLink_keeps {n : Nat} {chain chain' : List Source}
    (hrun : runLink n chain = some chain') : Keeps chain chain' := by
  induction n generalizing chain chain' with
  | zero =>
      cases chain with
      | nil => simp [runLink] at hrun
      | cons f rest =>
          simp only [runLink, Option.ite_none_right_eq_some,
            Option.some.injEq] at hrun
          obtain ⟨_, rfl⟩ := hrun
          intro e hchain
          have hrequest := keeps_request f rest e hchain
          cases rest with
          | nil =>
              simp only [List.isChain_cons_cons] at hrequest ⊢
              obtain ⟨hef, _⟩ := hrequest
              exact ⟨⟨hef.installed, hef.executing, hef.absent⟩,
                List.isChain_singleton _⟩
          | cons g rest =>
              refine keeps_link (fun _ => ?_) e hrequest
              exact ⟨by simp, by simp, fun _ => f.request_stopped⟩
  | succ n ih =>
      cases chain with
      | nil => simp [runLink] at hrun
      | cons f rest =>
          simp only [runLink, Option.map_eq_some_iff] at hrun
          obtain ⟨rest', hrun, rfl⟩ := hrun
          exact (ih hrun).cons f

/-- The end of a call does not concern the sources after it. -/
theorem isChain_ended {g : Source} {rest : List Source}
    (hchain : (g :: rest).IsChain Linked) :
    ({ g with calling := false } :: rest).IsChain Linked := by
  cases rest with
  | nil => exact List.isChain_singleton _
  | cons h rest =>
      rw [List.isChain_cons_cons] at hchain ⊢
      obtain ⟨hgh, hrest⟩ := hchain
      exact ⟨⟨hgh.installed, hgh.executing, hgh.absent⟩, hrest⟩

theorem endCall_keeps {n : Nat} {chain chain' : List Source}
    (hend : endCall n chain = some chain') : Keeps chain chain' := by
  induction n generalizing chain chain' with
  | zero =>
      unfold endCall at hend
      split at hend
      · next f g rest _ =>
          rw [Option.ite_none_right_eq_some] at hend
          obtain ⟨⟨_, hlink⟩, hend⟩ := hend
          obtain rfl := Option.some.inj hend
          intro e hchain
          simp only [List.isChain_cons_cons] at hchain ⊢
          obtain ⟨hef, hfg, hrest⟩ := hchain
          refine ⟨hef, ⟨by simp [hlink], by simp [hlink], hfg.absent⟩, ?_⟩
          exact isChain_ended hrest
      · simp_all
      · simp at hend
  | succ n ih =>
      cases chain with
      | nil => simp [endCall] at hend
      | cons f rest =>
          simp only [endCall, Option.map_eq_some_iff] at hend
          obtain ⟨rest', hend, rfl⟩ := hend
          exact (ih hend).cons f

end StopChain

end Iocoro
