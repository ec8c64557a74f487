/-
What a spawned task does in every run: no frame is resumed or destroyed where it must
not, and the completion is invoked once, with the outcome that the body has in direct
style.
-/
import Iocoro.CoroutineChains

universe u

namespace Iocoro

namespace Coroutine

variable {S V X E Op A : Type u} {code : S → Stmt S V X E Op A} {void : V}
  {s t : State S V X E Op A}
  {c : CallStack.Config (Place S V X E) (Except X V) A (Event V X Op A)}
  {frame : Frame S V X E Op A} {i j h : Nat} {job : Option Nat}

/-! ### Every run -/

theorem State.eventsOf_eq_nil {n : Nat} (hs : ∀ event ∈ s.events, event.1 < n) :
    s.eventsOf n = [] := by
  rw [State.eventsOf, List.map_eq_nil_iff, List.filter_eq_nil_iff]
  intro event hmem
  simpa using Nat.ne_of_lt (hs event hmem)

/-- A new task is at its entry point. -/
theorem Inv.coSpawn {job : Nat → Option Nat} (hs : Inv code void s job) (executor : E)
    (factory : Factory S X E) :
    Inv code void (s.coSpawn executor factory)
      (Function.update job s.tasks.length (some s.nextJob)) where
  chain := by
    intro k factory' hfactory
    have hframes : SameFrames s.tasks.length s.frames (s.coSpawn executor factory).frames := by
      refine (SameFrames.refl _ s.frames).update (fun old hold => ?_) fun new hnew => ?_
      · cases (hs.tidy.newFrame _ (Nat.le_refl _)).symm.trans hold
      · obtain rfl := Option.some.inj hnew
        rfl
    rcases Nat.lt_or_ge k s.tasks.length with hk | hk
    · have hne : k ≠ s.tasks.length := Nat.ne_of_lt hk
      obtain ⟨c, hrun, hchain⟩ := hs.chain k factory'
        ((List.getElem?_append_left hk).symm.trans hfactory)
      rw [Function.update_of_ne hne]
      refine ⟨c, hrun, hchain.congr (fun f frame hroot => hframes f frame (hroot ▸ hne)) ?_⟩
      intro i hi
      rw [hi] at hchain
      obtain ⟨_, _, hjob, _⟩ := hchain.job_spec
      exact Function.update_of_ne (Nat.ne_of_lt (hs.tidy.lt_job hjob)) _ _
    · replace hfactory := (List.getElem?_append_right hk).symm.trans hfactory
      obtain ⟨hzero, hfactory⟩ := List.getElem?_eq_some_iff.mp hfactory
      have hk : k = s.tasks.length := by
        simp only [List.length_singleton] at hzero
        omega
      subst hk
      simp only [Nat.sub_self, List.getElem_cons_zero] at hfactory
      subst hfactory
      have hevents : (s.coSpawn executor factory).eventsOf s.tasks.length = [] :=
        State.eventsOf_eq_nil (s := s) hs.recorded
      have hnew : (s.coSpawn executor factory).frames s.nextFrame =
          some (entryPoint executor factory s.tasks.length) := Function.update_self ..
      rw [hevents, Function.update_self]
      refine ⟨_, .refl, .live (.root hnew rfl rfl rfl rfl)
        (.posted (Function.update_self ..) hnew (.inl rfl)) fun f frame hframe hroot => ?_⟩
      by_cases hf : f = s.nextFrame
      · rw [hf]
        exact List.mem_singleton_self _
      · replace hframe := (Function.update_of_ne hf _ _).symm.trans hframe
        exact absurd hroot (Nat.ne_of_lt (hs.rooted f frame hframe))
  owner := by
    intro i job' hjob
    have hlength : (s.coSpawn executor factory).tasks.length = s.tasks.length + 1 :=
      List.length_append
    rw [hlength]
    by_cases hi : i = s.nextJob
    · exact ⟨s.tasks.length, Nat.lt_succ_self _, by rw [Function.update_self, hi]⟩
    · replace hjob := (Function.update_of_ne hi _ _).symm.trans hjob
      obtain ⟨j, hj, hfound⟩ := hs.owner i job' hjob
      exact ⟨j, Nat.lt_succ_of_lt hj,
        (Function.update_of_ne (Nat.ne_of_lt hj) _ _).trans hfound⟩
  rooted := by
    intro f frame hframe
    have hlength : (s.coSpawn executor factory).tasks.length = s.tasks.length + 1 :=
      List.length_append
    rw [hlength]
    by_cases hf : f = s.nextFrame
    · have hnew : (s.coSpawn executor factory).frames s.nextFrame =
          some (entryPoint executor factory s.tasks.length) := Function.update_self ..
      rw [hf] at hframe
      obtain rfl := Option.some.inj (hnew.symm.trans hframe)
      exact Nat.lt_succ_self _
    · replace hframe := (Function.update_of_ne hf _ _).symm.trans hframe
      exact Nat.lt_succ_of_lt (hs.rooted f frame hframe)
  recorded := by
    intro event hmem
    have hlength : (s.coSpawn executor factory).tasks.length = s.tasks.length + 1 :=
      List.length_append
    rw [hlength]
    exact Nat.lt_succ_of_lt (hs.recorded event hmem)
  tidy := by
    have hadd := hs.tidy.add (entryPoint executor factory s.tasks.length)
    have hlisted : Tidy
        { s.setFrame s.nextFrame (entryPoint executor factory s.tasks.length) with
          nextFrame := s.nextFrame + 1
          tasks := s.tasks ++ [factory] } :=
      ⟨hadd.newFrame, hadd.newJob, hadd.once, hadd.sound⟩
    exact hlisted.post (some executor) s.nextFrame

/-- The job that is stepped is that of a task, whose innermost coroutine it resumes. -/
theorem Inv.find {job : Nat → Option Nat} (hs : Inv code void s job) {job' : Job S V X E}
    (hjob : s.jobs i = some job') :
    ∃ j factory c h stack ids extra stmt, s.tasks[j]? = some factory ∧
      CallStack.Run (meaning code void) ⟨meaning code void (.entry factory), []⟩
        (s.eventsOf j) c ∧
      c = ⟨stmt, stack⟩ ∧ job j = some i ∧ job'.handle = h ∧
      Held s.frames j h stack ids ∧ Focus code void s j h (some i) stmt extra ∧
      Covered s j (extra ++ ids) := by
  obtain ⟨j, hj, howner⟩ := hs.owner i job' hjob
  obtain ⟨c, hrun, hchain⟩ := hs.chain j _ (List.getElem?_eq_getElem hj)
  rw [howner] at hchain
  cases hchain with
  | live hheld hfocus hall =>
      obtain ⟨found, hfound, rfl⟩ := hfocus.job_spec
      obtain rfl := Option.some.inj (hjob.symm.trans hfound)
      exact ⟨j, _, _, _, _, _, _, _, List.getElem?_eq_getElem hj, hrun, rfl, howner, rfl,
        hheld, hfocus, hall⟩

theorem Inv.advance {job : Nat → Option Nat} (hs : Inv code void s job)
    {factory : Factory S X E} (hfactory : s.tasks[j]? = some factory)
    (hrun : CallStack.Run (meaning code void) ⟨meaning code void (.entry factory), []⟩
      (s.eventsOf j) c) (hadvances : Advances code void s t j (job j) c) :
    ∃ job', Inv code void t job' := by
  obtain ⟨new, events, d, hstep, htidy, hnew, hchain⟩ := hadvances
  exact ⟨_, hs.step_of hfactory hstep htidy hrun hnew hchain⟩

theorem Inv.resume {job : Nat → Option Nat} (hs : Inv code void s job) {executor : E}
    {handle : Nat} (hjob : s.jobs i = some (.posted executor handle)) :
    ∃ job', Inv code void (s.resume i executor handle) job' := by
  obtain ⟨j, factory, c, h, stack, ids, extra, stmt, hfactory, hrun, rfl, howner, rfl, hheld,
    hfocus, hall⟩ := hs.find hjob
  refine hs.advance hfactory hrun ?_
  rw [howner]
  cases hfocus with
  | running hjob' => cases hjob.symm.trans hjob'
  | posted _ hframe hpoint =>
      have hready := resume_ready hframe hpoint i executor
      change s.resume i executor handle = _ at hready
      rw [hready]
      exact enter_advances hs.tidy hheld hframe hall hjob executor _
  | returned _ hframe hpoint hchild hfinal houtcome hroot hlt =>
      exact returned_advances hs.tidy hheld hframe hpoint hchild hfinal houtcome hroot hlt hall
        hjob executor

theorem Inv.proceed [DecidableEq E] {job : Nat → Option Nat} (hs : Inv code void s job) {current : E}
    {handle : Nat} {place : Place S V X E}
    (hjob : s.jobs i = some (.running current handle place)) (ready : Option A) :
    ∃ frame, s.frames handle = some frame ∧
      ∃ job', Inv code void (s.proceed code void i current handle frame ready place) job' := by
  obtain ⟨j, factory, c, h, stack, ids, extra, stmt, hfactory, hrun, rfl, howner, rfl, hheld,
    hfocus, hall⟩ := hs.find hjob
  cases hfocus with
  | running hjob' hframe hpoint =>
      obtain ⟨rfl, _, rfl⟩ := Job.running.inj (Option.some.inj (hjob.symm.trans hjob'))
      refine ⟨_, hframe, hs.advance hfactory hrun ?_⟩
      rw [howner]
      exact proceed_advances hs.tidy hheld hframe hall hpoint hjob ready
  | posted hjob' => cases hjob.symm.trans hjob'
  | returned hjob' => cases hjob.symm.trans hjob'

/-- A leaf operation that is under way is that of the innermost coroutine of its task. -/
theorem Chain.operating {op : Op} {next : A → Place S V X E}
    (hchain : Chain code void s frame.root job c) (hframe : s.frames h = some frame)
    (hpoint : frame.point = .operating op next) :
    ∃ stack ids, job = none ∧
      c = ⟨.ask fun answer => (.operation op answer, next answer), stack⟩ ∧
      Held s.frames frame.root h stack ids ∧ Covered s frame.root ids := by
  cases hchain with
  | ended hall => exact absurd rfl (hall h frame hframe)
  | live hheld hfocus hall =>
      have hmem := hall h frame hframe rfl
      have hinner : ∀ n ids stack, Held s.frames frame.root n stack ids → h ∈ ids →
          h = n := by
        intro n ids stack hheld hmem
        rcases hheld.awaits hmem with rfl | ⟨other, child, after, hother, hawaits⟩
        · rfl
        · obtain rfl := Option.some.inj (hframe.symm.trans hother)
          cases hpoint.symm.trans hawaits
      cases hfocus with
      | running _ hframe' hpoint' =>
          obtain rfl := hinner _ _ _ hheld hmem
          obtain rfl := Option.some.inj (hframe.symm.trans hframe')
          cases hpoint.symm.trans hpoint'
      | posted _ hframe' hpoint' =>
          obtain rfl := hinner _ _ _ hheld hmem
          obtain rfl := Option.some.inj (hframe.symm.trans hframe')
          rcases hpoint' with hpoint' | hpoint' <;> cases hpoint.symm.trans hpoint'
      | returned _ hframe' hpoint' hchild hfinal =>
          rcases List.mem_cons.mp hmem with rfl | hmem
          · obtain rfl := Option.some.inj (hframe.symm.trans hchild)
            cases hpoint.symm.trans hfinal
          · obtain rfl := hinner _ _ _ hheld hmem
            obtain rfl := Option.some.inj (hframe.symm.trans hframe')
            cases hpoint.symm.trans hpoint'
      | operating hframe' hpoint' =>
          obtain rfl := hinner _ _ _ hheld hmem
          obtain rfl := Option.some.inj (hframe.symm.trans hframe')
          obtain ⟨rfl, rfl⟩ := Point.operating.inj (hpoint.symm.trans hpoint')
          exact ⟨_, _, rfl, rfl, hheld, hall⟩

theorem Inv.complete {job : Nat → Option Nat} (hs : Inv code void s job) {handle : Nat}
    {answer : A} (hstep : s.complete handle answer = some t) :
    ∃ job', Inv code void t job' := by
  have hfound := hstep
  rw [State.complete] at hfound
  split at hfound
  · next frame hframe =>
      split at hfound
      · next op next hpoint =>
          have hroot := hs.rooted handle frame hframe
          obtain ⟨c, hrun, hchain⟩ := hs.chain _ _ (List.getElem?_eq_getElem hroot)
          obtain ⟨stack, ids, hnone, rfl, hheld, hall⟩ := hchain.operating hframe hpoint
          refine hs.advance (List.getElem?_eq_getElem hroot) hrun ?_
          rw [hnone]
          exact complete_advances hs.tidy hheld hframe hall hpoint hstep
      · cases hfound
  · cases hfound

theorem Inv.preserved [DecidableEq E] {job : Nat → Option Nat} {a : Action S X E A}
    (hs : Inv code void s job) (hstep : step code void s a = some t) :
    ∃ job', Inv code void t job' := by
  cases a with
  | coSpawn executor factory =>
      obtain rfl := Option.some.inj hstep
      exact ⟨_, hs.coSpawn executor factory⟩
  | run i =>
      rw [step] at hstep
      split at hstep
      · next hjob =>
          obtain rfl := Option.some.inj hstep
          exact hs.resume hjob
      · cases hstep
  | proceed i ready =>
      rw [step] at hstep
      split at hstep
      · next hjob =>
          obtain ⟨frame, hframe, job', hnext⟩ := hs.proceed hjob ready
          rw [hframe] at hstep
          obtain rfl := Option.some.inj hstep
          exact ⟨job', hnext⟩
      · cases hstep
  | complete handle answer => exact hs.complete hstep

theorem Inv.start : Inv code void ({} : State S V X E Op A) fun _ => none where
  chain := by
    intro j factory hfactory
    cases hfactory
  owner := by
    intro i job hjob
    cases hjob
  rooted := by
    intro f frame hframe
    cases hframe
  recorded := fun _ hmem => absurd hmem List.not_mem_nil
  tidy :=
    { newFrame := fun _ _ => rfl
      newJob := fun _ _ => rfl
      once := fun f => (if_neg fun hlt => Nat.not_lt_zero f hlt.1).symm
      sound := rfl }

theorem Inv.reachable [DecidableEq E] (hs : (system code void).Reachable s) :
    ∃ job, Inv code void s job := by
  have hkeep : ∀ (s : State S V X E Op A) (a : Action S X E A) (t : State S V X E Op A),
      (∃ job, Inv code void s job) → (system code void).step s a = some t →
        ∃ job, Inv code void t job := by
    rintro s a t ⟨job, hinv⟩ hstep
    exact hinv.preserved hstep
  exact TransitionSystem.Reachable.invariant ⟨_, Inv.start⟩ hkeep hs

/-! ### The frames -/

/-- No frame is used that is destroyed, and none is resumed or destroyed where it must
not; a frame is destroyed once.  No two threads resume one coroutine.  The frames of a
task are destroyed before that of its entry point; and a task whose frames are there is
posted, runs, or waits for the answer of a leaf operation. -/
structure Sound (s : State S V X E Op A) : Prop where
  fault : s.fault = false
  once : ∀ f, s.destroyed.count f = if f < s.nextFrame ∧ s.frames f = none then 1 else 0
  apart : ∀ i k job job', s.jobs i = some job → s.jobs k = some job' →
    job.handle = job'.handle → i = k
  owned : ∀ f frame, s.frames f = some frame → ∃ h entry, s.frames h = some entry ∧
    entry.root = frame.root ∧ entry.detached = true
  alive : ∀ f frame, s.frames f = some frame →
    (∃ i job frame', s.jobs i = some job ∧ s.frames job.handle = some frame' ∧
      frame'.root = frame.root) ∨
    ∃ h frame' op next, s.frames h = some frame' ∧ frame'.root = frame.root ∧
      frame'.point = .operating op next

theorem Held.entry {frames : Nat → Option (Frame S V X E Op A)}
    {stack : List (After S V X E)} {ids : List Nat} (hheld : Held frames j h stack ids) :
    ∃ e entry, frames e = some entry ∧ entry.root = j ∧ entry.detached = true := by
  induction hheld with
  | root hframe hroot _ _ hdetached => exact ⟨_, _, hframe, hroot, hdetached⟩
  | child _ _ _ _ _ _ _ _ _ _ ih => exact ih

theorem Inv.sound {job : Nat → Option Nat} (hs : Inv code void s job) : Sound s where
  fault := hs.tidy.sound
  once := hs.tidy.once
  apart := by
    intro i k job job' hi hk hsame
    obtain ⟨j, _, _, h, _, _, _, _, hfactory, _, _, howner, hhandle, hheld, _⟩ := hs.find hi
    obtain ⟨j', _, _, h', _, _, _, _, hfactory', _, _, howner', hhandle', hheld', _⟩ :=
      hs.find hk
    obtain rfl : h = h' := hhandle.symm.trans (hsame.trans hhandle')
    obtain ⟨frame, hframe, rfl, _⟩ := hheld.head
    obtain ⟨frame', hframe', rfl, _⟩ := hheld'.head
    obtain rfl := Option.some.inj (hframe.symm.trans hframe')
    exact Option.some.inj (howner.symm.trans howner')
  owned := by
    intro f frame hframe
    have hroot := hs.rooted f frame hframe
    obtain ⟨c, _, hchain⟩ := hs.chain _ _ (List.getElem?_eq_getElem hroot)
    generalize job frame.root = now at hchain
    cases hchain with
    | live hheld => exact hheld.entry
    | ended hall => exact absurd rfl (hall f frame hframe)
  alive := by
    intro f frame hframe
    have hroot := hs.rooted f frame hframe
    obtain ⟨c, _, hchain⟩ := hs.chain _ _ (List.getElem?_eq_getElem hroot)
    generalize job frame.root = now at hchain
    cases hchain with
    | ended hall => exact absurd rfl (hall f frame hframe)
    | live hheld hfocus =>
        obtain ⟨head, hhead, hmine, _⟩ := hheld.head
        cases hfocus with
        | running hjob | posted hjob | returned hjob =>
            exact .inl ⟨_, _, head, hjob, hhead, hmine⟩
        | operating hframe' hpoint =>
            obtain rfl := Option.some.inj (hhead.symm.trans hframe')
            exact .inr ⟨_, head, _, _, hhead, hmine, hpoint⟩

def Event.isOperation : Event V X Op A → Bool
  | .operation _ _ => true
  | .completion _ => false

def Place.isUser : Place S V X E → Bool
  | .user _ => true
  | _ => false

/-- A statement of the user's code leads to such statements, and says nothing to the
completion. -/
def IsUser : CallStack.Stmt (Place S V X E) (Except X V) A (Event V X Op A) → Prop
  | .ret _ => True
  | .call callee after => callee.isUser = true ∧ ∀ result, (after result).isUser = true
  | .skip next => next.isUser = true
  | .tell _ _ => False
  | .ask next => ∀ answer, (next answer).1.isOperation = true ∧
      (next answer).2.isUser = true

theorem isUser_meaning {place : Place S V X E} (hplace : place.isUser = true) :
    IsUser (meaning code void place) := by
  cases place with
  | user position =>
      rw [meaning, Place.act]
      cases code position with
      | coReturn outcome => exact trivial
      | coAwait bound child after => exact ⟨rfl, fun _ => rfl⟩
      | switchTo target next | on target next => exact rfl
      | operate op next => exact fun _ => ⟨rfl, rfl⟩
  | entry | invoke | finish => cases hplace

/-- The user's code performs operations and nothing else. -/
theorem operations_of_run {labels : List (Event V X Op A)} {place : Place S V X E}
    (hplace : place.isUser = true)
    (hrun : CallStack.Run (meaning code void) ⟨meaning code void place, []⟩ labels c) :
    ∀ event ∈ labels, event.isOperation = true := by
  let Inv (c : CallStack.Config (Place S V X E) (Except X V) A (Event V X Op A)) : Prop :=
    IsUser c.stmt ∧ ∀ after ∈ c.stack, ∀ result, (after result).isUser = true
  have hkeep : ∀ c new d, Inv c → CallStack.Step (meaning code void) c new d →
      Inv d ∧ ∀ event ∈ new, event.isOperation = true := by
    rintro c new d ⟨hstmt, hstack⟩ hstep
    cases hstep with
    | ret result after stack =>
        exact ⟨⟨isUser_meaning (hstack after List.mem_cons_self result),
          fun other hmem => hstack other (List.mem_cons_of_mem _ hmem)⟩,
          fun _ hmem => absurd hmem List.not_mem_nil⟩
    | call callee after stack =>
        refine ⟨⟨isUser_meaning hstmt.1, fun other hmem => ?_⟩,
          fun _ hmem => absurd hmem List.not_mem_nil⟩
        rcases List.mem_cons.mp hmem with rfl | hmem
        · exact hstmt.2
        · exact hstack other hmem
    | skip next stack =>
        exact ⟨⟨isUser_meaning hstmt, hstack⟩, fun _ hmem => absurd hmem List.not_mem_nil⟩
    | tell => exact absurd hstmt id
    | ask next answer stack =>
        refine ⟨⟨isUser_meaning (hstmt answer).2, hstack⟩, fun event hmem => ?_⟩
        rw [List.mem_singleton.mp hmem]
        exact (hstmt answer).1
  exact (hrun.invariant hkeep
    ⟨isUser_meaning hplace, fun _ hmem => absurd hmem List.not_mem_nil⟩).2

/-- The outcome of a task in direct style, with the operations that it performs: that of
the body, or the exception of the factory. -/
def Delivers (code : S → Stmt S V X E Op A) (void : V) (factory : Factory S X E)
    (operations : List (Event V X Op A)) (result : Except X V) : Prop :=
  match factory with
  | .ok (_, body) => CallStack.Evaluates (meaning code void)
      (meaning code void (.user body)) operations result
  | .error exception => operations = [] ∧ result = .error exception

/-- What a task has done so far: operations, and then the completion. -/
inductive Done (code : S → Stmt S V X E Op A) (void : V) (factory : Factory S X E) :
    Bool → List (Event V X Op A) → Prop
  | under {events : List (Event V X Op A)}
      (hops : ∀ event ∈ events, event.isOperation = true) : Done code void factory false events
  | completed {operations : List (Event V X Op A)} {result : Except X V}
      (hops : ∀ event ∈ operations, event.isOperation = true)
      (hdelivers : Delivers code void factory operations result) :
      Done code void factory true (operations ++ [.completion result])

/-- The last part of the entry point. -/
theorem tell_cases {result : Except X V} {labels : List (Event V X Op A)}
    {place : Place S V X E}
    (hplace : meaning code void place = .tell (.completion result) .finish)
    (hrun : CallStack.Run (meaning code void) ⟨meaning code void place, []⟩ labels c) :
    (labels = [] ∧ c.stmt = .tell (.completion result) .finish) ∨
      labels = [.completion result] := by
  rw [hplace] at hrun
  rcases hrun.head with ⟨rfl, rfl⟩ | ⟨new, rest, mid, rfl, hstep, hrest⟩
  · exact .inl ⟨rfl, rfl⟩
  · cases hstep with
    | tell =>
        rcases hrest.head with ⟨rfl, rfl⟩ | ⟨new, rest, mid, rfl, hstep, _⟩
        · exact .inr rfl
        · cases hstep

theorem done_of_run {factory : Factory S X E} {events : List (Event V X Op A)}
    (hrun : CallStack.Run (meaning code void) ⟨meaning code void (.entry factory), []⟩
      events c) :
    (Done code void factory false events ∧ ∀ result, c ≠ ⟨.ret result, []⟩) ∨
      Done code void factory true events := by
  have htell : ∀ {result : Except X V}, c.stmt = .tell (.completion result) .finish →
      ∀ result', c ≠ ⟨.ret result', []⟩ := by
    intro result hstmt result' hc
    rw [hc] at hstmt
    cases hstmt
  cases factory with
  | error exception =>
      rcases tell_cases rfl hrun with ⟨rfl, hstmt⟩ | rfl
      · exact .inl ⟨.under fun _ hmem => absurd hmem List.not_mem_nil, htell hstmt⟩
      · have hdone : Done code void (.error exception) true
            ([] ++ [.completion (.error exception)]) :=
          .completed (fun _ hmem => absurd hmem List.not_mem_nil) ⟨rfl, rfl⟩
        exact .inr hdone
  | ok awaitable =>
      obtain ⟨bound, body⟩ := awaitable
      rcases CallStack.Run.call_cases hrun with ⟨rfl, rfl⟩ | ⟨now, hnow, hbody⟩ |
        ⟨first, second, result, rfl, hbody, hsecond⟩
      · refine .inl ⟨.under fun _ hmem => absurd hmem List.not_mem_nil, fun result hc => ?_⟩
        cases hc
      · refine .inl ⟨.under (operations_of_run rfl hbody), fun result hc => ?_⟩
        rw [hc] at hnow
        cases now <;> cases hnow
      · rcases tell_cases rfl hsecond with ⟨rfl, hstmt⟩ | rfl
        · refine .inl ⟨.under ?_, htell hstmt⟩
          rw [List.append_nil]
          exact operations_of_run rfl hbody
        · exact .inr (.completed (operations_of_run rfl hbody) hbody.evaluates)

/-- In every run the completion of a task is invoked at most once, after all that its
body does, and with the outcome that the body has in direct style; and when the frames
of the task are gone, it was invoked. -/
theorem task_outcome [DecidableEq E] (code : S → Stmt S V X E Op A) (void : V)
    (s : State S V X E Op A) (hs : (system code void).Reachable s) (j : Nat)
    (factory : Factory S X E) (hfactory : s.tasks[j]? = some factory) :
    (Done code void factory false (s.eventsOf j) ∨
        Done code void factory true (s.eventsOf j)) ∧
      ((∀ f frame, s.frames f = some frame → frame.root ≠ j) →
        Done code void factory true (s.eventsOf j)) := by
  obtain ⟨job, hinv⟩ := Inv.reachable hs
  obtain ⟨c, hrun, hchain⟩ := hinv.chain j factory hfactory
  rcases done_of_run hrun with ⟨hunder, hopen⟩ | hdone
  · refine ⟨.inl hunder, fun hgone => ?_⟩
    generalize job j = now at hchain
    cases hchain with
    | live hheld =>
        obtain ⟨frame, hframe, hroot, _⟩ := hheld.head
        exact absurd hroot (hgone _ frame hframe)
    | ended => exact absurd rfl (hopen _)
  · exact ⟨.inr hdone, fun _ => hdone⟩

/-- The body awaits a child that is bound to executor 1, and that performs an
operation. -/
def awaitsChild : Nat → Stmt Nat Nat Nat Nat Nat Nat
  | 0 => .coAwait (some 1) 2 fun
      | .ok value => value + 3
      | .error _ => 1
  | 1 => .coReturn (.error 0)
  | 2 => .operate 7 fun answer => answer + 3
  | n + 3 => .coReturn (.ok n)

/-- The child goes on in the thread of its executor, the entry point in that of its
own. -/
def awaitsChildRun : List (Action Nat Nat Nat Nat) :=
  [.coSpawn 0 (.ok (none, 0)), .run 0, .proceed 0 none, .proceed 0 none, .proceed 0 none,
    .complete 2 5, .run 1, .proceed 1 none, .proceed 1 none, .run 2, .proceed 2 none,
    .proceed 2 none]

theorem task_outcome_awaitsChild : ∃ s : State Nat Nat Nat Nat Nat Nat,
    s.eventsOf 0 = [.operation 7 5, .completion (.ok 5)] ∧
      Done awaitsChild 0 (.ok (none, 0)) true (s.eventsOf 0) := by
  obtain ⟨s, hs, hend⟩ := TransitionSystem.exists_reachable_of_exec (system awaitsChild 0)
    awaitsChildRun (fun s => s.tasks = [.ok (none, 0)] ∧
      s.eventsOf 0 = [.operation 7 5, .completion (.ok 5)]) (by decide)
  obtain ⟨htasks, hevents⟩ := of_decide_eq_true hend
  have hfactory : s.tasks[0]? = some (.ok (none, 0)) := by
    rw [htasks]
    rfl
  refine ⟨s, hevents, ?_⟩
  rcases (task_outcome awaitsChild 0 s hs 0 _ hfactory).1 with hunder | hdone
  · cases hunder with
    | under hops =>
        rw [hevents] at hops
        cases hops _ (List.mem_cons_of_mem _ (List.mem_singleton_self _))
  · exact hdone

end Coroutine

end Iocoro
