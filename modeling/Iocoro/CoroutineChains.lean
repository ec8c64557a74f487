/-
The frames of a spawned task: they form a chain from the entry point to the coroutine
that runs, and the chain stands for a state of the call stack machine.  Each step of the
task is one of that machine, and does not concern the other tasks.
-/
import Mathlib.Data.List.Count
import Iocoro.Coroutine

universe u

namespace Iocoro

namespace Coroutine

variable {S V X E Op A : Type u}

/-! ### The meaning of a body -/

/-- The executors are left out. -/
def Act.meaning : Act S V X E Op A →
    CallStack.Stmt (Place S V X E) (Except X V) A (Event V X Op A)
  | .complete result next => .tell (.completion result) next
  | .body (.coReturn outcome) => .ret outcome
  | .body (.coAwait _ child after) => .call child after
  | .body (.switchTo _ next) | .body (.on _ next) => .skip next
  | .body (.operate op next) => .ask fun answer => (.operation op answer, next answer)

def meaning (code : S → Stmt S V X E Op A) (void : V) (place : Place S V X E) :
    CallStack.Stmt (Place S V X E) (Except X V) A (Event V X Op A) :=
  (place.act code void).meaning

def State.eventsOf (s : State S V X E Op A) (j : Nat) : List (Event V X Op A) :=
  (s.events.filter fun event => event.1 = j).map Prod.snd

abbrev After (S V X E : Type u) := Except X V → Place S V X E

/-! ### The coroutines that await one another -/

/-- The suspended coroutines above the one that runs: each awaits the next, down to the
entry point.  The list has what each does with the outcome of the next. -/
inductive Held (frames : Nat → Option (Frame S V X E Op A)) (j : Nat) :
    Nat → List (After S V X E) → List Nat → Prop
  | root {h : Nat} {frame : Frame S V X E Op A} (hframe : frames h = some frame)
      (hroot : frame.root = j) (hex : frame.ex.isSome = true)
      (hopen : frame.exception = none) (hdetached : frame.detached = true) :
      Held frames j h [] [h]
  | child {h p : Nat} {frame parent : Frame S V X E Op A} {after : After S V X E}
      {stack : List (After S V X E)} {ids : List Nat} (hframe : frames h = some frame)
      (hroot : frame.root = j) (hex : frame.ex.isSome = true)
      (hopen : frame.exception = none) (hdetached : frame.detached = false)
      (hcontinuation : frame.continuation = some p)
      (hparent : frames p = some parent) (hpoint : parent.point = .awaiting h after)
      (hlt : p < h) (hheld : Held frames j p stack ids) :
      Held frames j h (after :: stack) (h :: ids)

variable {frames frames' : Nat → Option (Frame S V X E Op A)} {j h : Nat}
  {stack : List (After S V X E)} {ids : List Nat} {frame : Frame S V X E Op A}

theorem Held.head (hheld : Held frames j h stack ids) :
    ∃ frame, frames h = some frame ∧ frame.root = j ∧ frame.ex.isSome = true ∧
      frame.exception = none := by
  cases hheld with
  | root hframe hroot hex hopen | child hframe hroot hex hopen =>
      exact ⟨_, hframe, hroot, hex, hopen⟩

theorem Held.mem_head (hheld : Held frames j h stack ids) : h ∈ ids := by
  cases hheld with
  | root | child => exact List.mem_cons_self

theorem Held.mono (hheld : Held frames j h stack ids)
    (hkeep : ∀ f ≤ h, ∀ frame, frame.root = j → frames f = some frame →
      frames' f = some frame) : Held frames' j h stack ids := by
  induction hheld with
  | root hframe hroot hex hopen hdetached =>
      exact .root (hkeep _ (Nat.le_refl _) _ hroot hframe) hroot hex hopen hdetached
  | child hframe hroot hex hopen hdetached hcontinuation hparent hpoint hlt hheld ih =>
      obtain ⟨parent, hparent', hparentRoot, _⟩ := hheld.head
      obtain rfl := Option.some.inj (hparent.symm.trans hparent')
      exact .child (hkeep _ (Nat.le_refl _) _ hroot hframe) hroot hex hopen hdetached
        hcontinuation (hkeep _ (Nat.le_of_lt hlt) _ hparentRoot hparent) hpoint hlt
        (ih fun f hf => hkeep f (Nat.le_trans hf (Nat.le_of_lt hlt)))

/-- The others than the innermost one await a coroutine. -/
theorem Held.awaits (hheld : Held frames j h stack ids) {f : Nat} (hf : f ∈ ids) :
    f = h ∨ ∃ frame child after, frames f = some frame ∧
      frame.point = .awaiting child after := by
  induction hheld with
  | root => exact .inl (List.mem_singleton.mp hf)
  | child _ _ _ _ _ _ hparent hpoint _ _ ih =>
      rcases List.mem_cons.mp hf with rfl | hf
      · exact .inl rfl
      · rcases ih hf with rfl | hawaits
        · exact .inr ⟨_, _, _, hparent, hpoint⟩
        · exact .inr hawaits

/-- A coroutine that goes on keeps its links. -/
structure Moves (old new : Frame S V X E Op A) : Prop where
  root : new.root = old.root
  bound : new.ex.isSome = true
  unfinished : new.exception = none
  detached : new.detached = old.detached
  continuation : new.continuation = old.continuation

/-- The innermost coroutine moves on. -/
theorem Held.move (hheld : Held frames j h stack ids) (hframe : frames h = some frame)
    {new : Frame S V X E Op A} (hmoves : Moves frame new) :
    Held (Function.update frames h (some new)) j h stack ids := by
  have hself : Function.update frames h (some new) h = some new := Function.update_self ..
  cases hheld with
  | root hframe' hroot _ _ hdetached =>
      obtain rfl := Option.some.inj (hframe.symm.trans hframe')
      exact .root hself (hmoves.root.trans hroot) hmoves.bound hmoves.unfinished
        (hmoves.detached.trans hdetached)
  | child hframe' hroot _ _ hdetached hcontinuation hparent hpoint hlt hheld =>
      obtain rfl := Option.some.inj (hframe.symm.trans hframe')
      have hother : ∀ f < h, Function.update frames h (some new) f = frames f :=
        fun f hf => Function.update_of_ne (Nat.ne_of_lt hf) _ _
      exact .child hself (hmoves.root.trans hroot) hmoves.bound hmoves.unfinished
        (hmoves.detached.trans hdetached) (hmoves.continuation.trans hcontinuation)
        ((hother _ hlt).trans hparent) hpoint hlt (hheld.mono fun f hf frame _ hfound =>
          (hother f (Nat.lt_of_le_of_lt hf hlt)).trans hfound)

/-! ### Where a task stands -/

section Chains

variable (code : S → Stmt S V X E Op A) (void : V)

/-- The job of the innermost coroutine, if it does not wait for an answer; the statement
that follows; and the frame of a child that has ended and whose outcome is to be taken. -/
inductive Focus (s : State S V X E Op A) (j h : Nat) : Option Nat →
    CallStack.Stmt (Place S V X E) (Except X V) A (Event V X Op A) → List Nat → Prop
  | running {i : Nat} {current : E} {place : Place S V X E} {frame : Frame S V X E Op A}
      (hjob : s.jobs i = some (.running current h place)) (hframe : s.frames h = some frame)
      (hpoint : frame.point = .running) :
      Focus s j h (some i) (meaning code void place) []
  | posted {i : Nat} {executor : E} {next : Place S V X E} {frame : Frame S V X E Op A}
      (hjob : s.jobs i = some (.posted executor h)) (hframe : s.frames h = some frame)
      (hpoint : frame.point = .initial next ∨ frame.point = .suspended next) :
      Focus s j h (some i) (meaning code void next) []
  | returned {i c : Nat} {executor : E} {after : After S V X E} {outcome : Except X V}
      {frame child : Frame S V X E Op A} (hjob : s.jobs i = some (.posted executor h))
      (hframe : s.frames h = some frame) (hpoint : frame.point = .awaiting c after)
      (hchild : s.frames c = some child) (hfinal : child.point = .final)
      (houtcome : child.awaitResume = some outcome) (hroot : child.root = j)
      (hlt : h < c) : Focus s j h (some i) (meaning code void (after outcome)) [c]
  | operating {op : Op} {next : A → Place S V X E} {frame : Frame S V X E Op A}
      (hframe : s.frames h = some frame) (hpoint : frame.point = .operating op next) :
      Focus s j h none (.ask fun answer => (.operation op answer, next answer)) []

/-- The frames of a task and the state of the call stack machine that they stand for. -/
inductive Chain (s : State S V X E Op A) (j : Nat) : Option Nat →
    CallStack.Config (Place S V X E) (Except X V) A (Event V X Op A) → Prop
  | live {job : Option Nat} {h : Nat} {stack : List (After S V X E)} {ids extra : List Nat}
      {stmt : CallStack.Stmt (Place S V X E) (Except X V) A (Event V X Op A)}
      (hheld : Held s.frames j h stack ids) (hfocus : Focus code void s j h job stmt extra)
      (hall : ∀ f frame, s.frames f = some frame → frame.root = j → f ∈ extra ++ ids) :
      Chain s j job ⟨stmt, stack⟩
  | ended {result : Except X V}
      (hall : ∀ f frame, s.frames f = some frame → frame.root ≠ j) :
      Chain s j none ⟨.ret result, []⟩

end Chains

variable {code : S → Stmt S V X E Op A} {void : V} {s t : State S V X E Op A}
  {c : CallStack.Config (Place S V X E) (Except X V) A (Event V X Op A)}
  {stmt : CallStack.Stmt (Place S V X E) (Except X V) A (Event V X Op A)}
  {job job' : Option Nat} {extra : List Nat} {i : Nat}

theorem Focus.job_spec (hfocus : Focus code void s j h (some i) stmt extra) :
    ∃ job, s.jobs i = some job ∧ job.handle = h := by
  cases hfocus with
  | running hjob | posted hjob | returned hjob => exact ⟨_, hjob, rfl⟩

/-- The job of a task resumes a coroutine of the task. -/
theorem Chain.job_spec (hchain : Chain code void s j (some i) c) :
    ∃ job frame, s.jobs i = some job ∧ s.frames job.handle = some frame ∧
      frame.root = j := by
  cases hchain with
  | live hheld hfocus =>
      obtain ⟨job, hjob, rfl⟩ := hfocus.job_spec
      obtain ⟨frame, hframe, hroot, _⟩ := hheld.head
      exact ⟨job, frame, hjob, hframe, hroot⟩

/-- A task does not see what happens to the others. -/
theorem Chain.congr (hchain : Chain code void s j job c)
    (hframes : ∀ f frame, frame.root = j → (t.frames f = some frame ↔
      s.frames f = some frame))
    (hjobs : ∀ i, job = some i → t.jobs i = s.jobs i) : Chain code void t j job c := by
  have hhead : ∀ {h stack ids frame}, Held s.frames j h stack ids →
      s.frames h = some frame → t.frames h = some frame := by
    intro h stack ids frame hheld hframe
    obtain ⟨head, hhead, hroot, _⟩ := hheld.head
    obtain rfl := Option.some.inj (hhead.symm.trans hframe)
    exact (hframes h _ hroot).mpr hframe
  cases hchain with
  | live hheld hfocus hall =>
      have hheld' := hheld.mono fun f _ frame hroot hframe =>
        (hframes f frame hroot).mpr hframe
      refine .live hheld' ?_ fun f frame hframe hroot =>
        hall f frame ((hframes f frame hroot).mp hframe) hroot
      cases hfocus with
      | running hjob hframe hpoint =>
          exact .running ((hjobs _ rfl).trans hjob) (hhead hheld hframe) hpoint
      | posted hjob hframe hpoint =>
          exact .posted ((hjobs _ rfl).trans hjob) (hhead hheld hframe) hpoint
      | returned hjob hframe hpoint hchild hfinal houtcome hroot hlt =>
          exact .returned ((hjobs _ rfl).trans hjob) (hhead hheld hframe) hpoint
            ((hframes _ _ hroot).mpr hchild) hfinal houtcome hroot hlt
      | operating hframe hpoint => exact .operating (hhead hheld hframe) hpoint
  | ended hall =>
      exact .ended fun f frame hframe hroot =>
        hall f frame ((hframes f frame hroot).mp hframe) hroot

/-! ### The other tasks -/

/-- Only frames of task `j` differ. -/
def SameFrames (j : Nat) (frames frames' : Nat → Option (Frame S V X E Op A)) : Prop :=
  ∀ f frame, frame.root ≠ j → (frames' f = some frame ↔ frames f = some frame)

theorem SameFrames.update {new : Option (Frame S V X E Op A)}
    (hsame : SameFrames j frames frames')
    (hold : ∀ frame, frames' h = some frame → frame.root = j)
    (hnew : ∀ frame, new = some frame → frame.root = j) :
    SameFrames j frames (Function.update frames' h new) := by
  intro f frame hroot
  rw [← hsame f frame hroot, Function.update_apply]
  split
  · next hf =>
      constructor
      · intro hframe
        exact absurd (hnew frame hframe) hroot
      · intro hframe
        rw [hf] at hframe
        exact absurd (hold frame hframe) hroot
  · exact Iff.rfl

/-- The jobs where a task had the job `old` and now has the job `new`. -/
structure JobsMove (jobs jobs' : Nat → Option (Job S V X E)) (old new : Option Nat) :
    Prop where
  others : ∀ i, old ≠ some i → new ≠ some i → jobs' i = jobs i
  fresh : ∀ i, new = some i → old = some i ∨ jobs i = none
  ended : ∀ i, old = some i → new ≠ some i → jobs' i = none

theorem JobsMove.keep (jobs : Nat → Option (Job S V X E)) (i : Nat)
    (new : Option (Job S V X E)) :
    JobsMove jobs (Function.update jobs i new) (some i) (some i) where
  others := fun _ hk _ => Function.update_of_ne (fun hne => hk (congrArg some hne.symm)) _ _
  fresh := fun _ hk => .inl hk
  ended := fun _ hk hne => absurd hk hne

theorem JobsMove.stop (jobs : Nat → Option (Job S V X E)) (i : Nat) :
    JobsMove jobs (Function.update jobs i none) (some i) none where
  others := fun _ hk _ => Function.update_of_ne (fun hne => hk (congrArg some hne.symm)) _ _
  fresh := by
    intro k hk
    cases hk
  ended := by
    intro k hk _
    obtain rfl := Option.some.inj hk
    exact Function.update_self ..

theorem JobsMove.start {jobs : Nat → Option (Job S V X E)} {n : Nat}
    (hn : jobs n = none) (new : Option (Job S V X E)) :
    JobsMove jobs (Function.update jobs n new) none (some n) where
  others := fun _ _ hk => Function.update_of_ne (fun hne => hk (congrArg some hne.symm)) _ _
  fresh := by
    intro k hk
    obtain rfl := Option.some.inj hk
    exact .inr hn
  ended := by
    intro k hk
    cases hk

theorem JobsMove.post {jobs : Nat → Option (Job S V X E)} {n : Nat} (hn : jobs n = none)
    (i : Nat) (new : Option (Job S V X E)) :
    JobsMove jobs (Function.update (Function.update jobs i none) n new) (some i)
      (some n) where
  others := by
    intro k hi hk
    rw [Function.update_of_ne (fun hne => hk (congrArg some hne.symm)),
      Function.update_of_ne (fun hne => hi (congrArg some hne.symm))]
  fresh := by
    intro k hk
    obtain rfl := Option.some.inj hk
    exact .inr hn
  ended := by
    intro k hi hk
    obtain rfl := Option.some.inj hi
    rw [Function.update_of_ne (fun hne => hk (congrArg some hne.symm)), Function.update_self]

/-! ### The heap of frames -/

/-- The numbers of frames and jobs are new, every frame was destroyed once if it is not
there, and there was no fault. -/
structure Tidy (s : State S V X E Op A) : Prop where
  newFrame : ∀ f, s.nextFrame ≤ f → s.frames f = none
  newJob : ∀ i, s.nextJob ≤ i → s.jobs i = none
  once : ∀ f, s.destroyed.count f = if f < s.nextFrame ∧ s.frames f = none then 1 else 0
  sound : s.fault = false

theorem Tidy.lt (hs : Tidy s) (hframe : s.frames h = some frame) : h < s.nextFrame := by
  by_contra hge
  cases (hs.newFrame h (Nat.le_of_not_lt hge)).symm.trans hframe

theorem Tidy.lt_job (hs : Tidy s) {job : Job S V X E} (hjob : s.jobs i = some job) :
    i < s.nextJob := by
  by_contra hge
  cases (hs.newJob i (Nat.le_of_not_lt hge)).symm.trans hjob

theorem Tidy.setFrame (hs : Tidy s) (hframe : s.frames h = some frame)
    (new : Frame S V X E Op A) : Tidy (s.setFrame h new) where
  newFrame := by
    intro f hf
    have hne : f ≠ h := by
      rintro rfl
      exact Nat.not_lt.mpr hf (hs.lt hframe)
    exact (Function.update_of_ne hne _ _).trans (hs.newFrame f hf)
  newJob := hs.newJob
  once := by
    intro f
    refine (hs.once f).trans ?_
    by_cases hf : f = h
    · subst hf
      simp only [State.setFrame, Function.update_self, hframe, reduceCtorEq, and_false]
    · simp only [State.setFrame, Function.update_of_ne hf]
  sound := hs.sound

theorem Tidy.setJob (hs : Tidy s) (hi : i < s.nextJob) (new : Option (Job S V X E)) :
    Tidy (s.setJob i new) where
  newFrame := hs.newFrame
  newJob := by
    intro k hk
    have hne : k ≠ i := fun heq => Nat.not_lt.mpr hk (heq ▸ hi)
    exact (Function.update_of_ne hne _ _).trans (hs.newJob k hk)
  once := hs.once
  sound := hs.sound

theorem Tidy.post (hs : Tidy s) (executor : Option E) (h : Nat) :
    Tidy (s.post executor h) := by
  cases executor with
  | none => exact hs
  | some executor =>
      refine ⟨hs.newFrame, fun k hk => ?_, hs.once, hs.sound⟩
      have hne : k ≠ s.nextJob := fun heq => Nat.not_succ_le_self _ (heq ▸ hk)
      exact (Function.update_of_ne hne _ _).trans (hs.newJob k (Nat.le_of_succ_le hk))

theorem State.destroy_eq (hframe : s.frames h = some frame) :
    s.destroy h = { s with
      frames := Function.update s.frames h none
      destroyed := s.destroyed ++ [h] } := by
  rw [State.destroy, hframe]

theorem Tidy.destroy (hs : Tidy s) (hframe : s.frames h = some frame) :
    Tidy (s.destroy h) := by
  have hlt := hs.lt hframe
  rw [State.destroy_eq hframe]
  refine ⟨fun f hf => ?_, hs.newJob, fun f => ?_, hs.sound⟩
  · have hne : f ≠ h := fun heq => Nat.not_lt.mpr hf (heq ▸ hlt)
    exact (Function.update_of_ne hne _ _).trans (hs.newFrame f hf)
  · rw [List.count_append, hs.once f, List.count_singleton]
    by_cases hf : f = h
    · subst hf
      simp [hframe, hlt]
    · simp [hf, Ne.symm hf]

theorem Tidy.record (hs : Tidy s) (j : Nat) (event : Event V X Op A) :
    Tidy (s.record j event) :=
  ⟨hs.newFrame, hs.newJob, hs.once, hs.sound⟩

/-- A new frame. -/
theorem Tidy.add (hs : Tidy s) (new : Frame S V X E Op A) :
    Tidy { s.setFrame s.nextFrame new with nextFrame := s.nextFrame + 1 } where
  newFrame := by
    intro f hf
    have hne : f ≠ s.nextFrame := fun heq => Nat.not_succ_le_self _ (heq ▸ hf)
    exact (Function.update_of_ne hne _ _).trans (hs.newFrame f (Nat.le_of_succ_le hf))
  newJob := hs.newJob
  once := by
    intro f
    refine (hs.once f).trans ?_
    by_cases hf : f = s.nextFrame
    · subst hf
      simp [State.setFrame]
    · simp only [State.setFrame, Function.update_of_ne hf]
      exact if_congr (and_congr_left fun _ => by omega) rfl rfl
  sound := hs.sound

/-! ### The invariant -/

/-- Each task is where a run of its entry point has come, with the events of the task;
`job` gives the job of each. -/
structure Inv (code : S → Stmt S V X E Op A) (void : V) (s : State S V X E Op A)
    (job : Nat → Option Nat) : Prop where
  chain : ∀ j factory, s.tasks[j]? = some factory → ∃ c,
    CallStack.Run (meaning code void) ⟨meaning code void (.entry factory), []⟩
      (s.eventsOf j) c ∧
    Chain code void s j (job j) c
  owner : ∀ i job', s.jobs i = some job' → ∃ j < s.tasks.length, job j = some i
  rooted : ∀ f frame, s.frames f = some frame → frame.root < s.tasks.length
  recorded : ∀ event ∈ s.events, event.1 < s.tasks.length
  tidy : Tidy s

theorem Inv.job_inj {job : Nat → Option Nat} (hs : Inv code void s job) {j k : Nat}
    (hj : j < s.tasks.length) (hk : k < s.tasks.length) (hjob : job j = some i)
    (hjob' : job k = some i) : j = k := by
  obtain ⟨c, _, hchain⟩ := hs.chain j _ (List.getElem?_eq_getElem hj)
  obtain ⟨d, _, hchain'⟩ := hs.chain k _ (List.getElem?_eq_getElem hk)
  rw [hjob] at hchain
  rw [hjob'] at hchain'
  obtain ⟨job, frame, hfound, hframe, rfl⟩ := hchain.job_spec
  obtain ⟨job', frame', hfound', hframe', rfl⟩ := hchain'.job_spec
  obtain rfl := Option.some.inj (hfound.symm.trans hfound')
  obtain rfl := Option.some.inj (hframe.symm.trans hframe')
  rfl

theorem Inv.fresh_job {job : Nat → Option Nat} (hs : Inv code void s job) {k : Nat}
    (hk : k < s.tasks.length) (hnone : s.jobs i = none) : job k ≠ some i := by
  intro hjob
  obtain ⟨c, _, hchain⟩ := hs.chain k _ (List.getElem?_eq_getElem hk)
  rw [hjob] at hchain
  obtain ⟨job, _, hfound, _⟩ := hchain.job_spec
  cases hnone.symm.trans hfound

/-- A step of task `j` alone. -/
structure StepOf (s t : State S V X E Op A) (j : Nat) (old new : Option Nat)
    (events : List (Event V X Op A)) : Prop where
  frames : SameFrames j s.frames t.frames
  jobs : JobsMove s.jobs t.jobs old new
  tasks : t.tasks = s.tasks
  events : t.events = s.events ++ events.map (j, ·)

theorem StepOf.eventsOf {old new : Option Nat} {events : List (Event V X Op A)}
    (hstep : StepOf s t j old new events) : t.eventsOf j = s.eventsOf j ++ events := by
  rw [State.eventsOf, hstep.events, List.filter_append, List.map_append, State.eventsOf]
  congr 1
  rw [List.filter_eq_self.mpr, List.map_map]
  · exact List.map_id _
  · intro event hmem
    obtain ⟨_, _, rfl⟩ := List.mem_map.mp hmem
    exact decide_eq_true rfl

theorem StepOf.eventsOf_ne {old new : Option Nat} {events : List (Event V X Op A)}
    (hstep : StepOf s t j old new events) {k : Nat} (hk : k ≠ j) :
    t.eventsOf k = s.eventsOf k := by
  rw [State.eventsOf, hstep.events, List.filter_append, List.map_append, State.eventsOf]
  have hnone : (events.map (j, ·)).filter (fun event => event.1 = k) = [] := by
    rw [List.filter_eq_nil_iff]
    intro event hmem
    obtain ⟨_, _, rfl⟩ := List.mem_map.mp hmem
    simpa using Ne.symm hk
  rw [hnone, List.map_nil, List.append_nil]

/-- The invariant is a matter of the task that takes the step. -/
theorem Inv.step_of {job : Nat → Option Nat} (hs : Inv code void s job)
    {factory : Factory S X E} (hfactory : s.tasks[j]? = some factory) {new : Option Nat}
    {events : List (Event V X Op A)} (hstep : StepOf s t j (job j) new events)
    (htidy : Tidy t)
    {c d : CallStack.Config (Place S V X E) (Except X V) A (Event V X Op A)}
    (hrun : CallStack.Run (meaning code void) ⟨meaning code void (.entry factory), []⟩
      (s.eventsOf j) c) (hnew : CallStack.Run (meaning code void) c events d)
    (hchain : Chain code void t j new d) :
    Inv code void t (Function.update job j new) where
  chain := by
    intro k factory' hfactory'
    rw [hstep.tasks] at hfactory'
    by_cases heq : k = j
    · subst heq
      obtain rfl := Option.some.inj (hfactory.symm.trans hfactory')
      rw [hstep.eventsOf, Function.update_self]
      exact ⟨d, hrun.trans hnew, hchain⟩
    · obtain ⟨c, hrun, hchain⟩ := hs.chain k factory' hfactory'
      have hk : k < s.tasks.length := (List.getElem?_eq_some_iff.mp hfactory').1
      have hj : j < s.tasks.length := (List.getElem?_eq_some_iff.mp hfactory).1
      rw [hstep.eventsOf_ne heq, Function.update_of_ne heq]
      refine ⟨c, hrun, hchain.congr (fun f frame hroot => hstep.frames f frame ?_) ?_⟩
      · rw [hroot]
        exact heq
      · intro i hi
        refine hstep.jobs.others i (fun hold => heq (hs.job_inj hk hj hi hold)) ?_
        intro hnew
        rcases hstep.jobs.fresh i hnew with hold | hnone
        · exact heq (hs.job_inj hk hj hi hold)
        · exact hs.fresh_job hk hnone hi
  owner := by
    intro i job' hjob'
    rw [hstep.tasks]
    by_cases hnew : new = some i
    · exact ⟨j, (List.getElem?_eq_some_iff.mp hfactory).1, by
        rw [Function.update_self, hnew]⟩
    · by_cases hold : job j = some i
      · cases (hstep.jobs.ended i hold hnew).symm.trans hjob'
      · rw [hstep.jobs.others i hold hnew] at hjob'
        obtain ⟨k, hk, hjob⟩ := hs.owner i job' hjob'
        have hne : k ≠ j := by
          rintro rfl
          exact hold hjob
        exact ⟨k, hk, (Function.update_of_ne hne _ _).trans hjob⟩
  rooted := by
    intro f frame hframe
    rw [hstep.tasks]
    by_cases hroot : frame.root = j
    · rw [hroot]
      exact (List.getElem?_eq_some_iff.mp hfactory).1
    · exact hs.rooted f frame ((hstep.frames f frame hroot).mp hframe)
  recorded := by
    intro event hmem
    rw [hstep.events] at hmem
    rw [hstep.tasks]
    rcases List.mem_append.mp hmem with hold | hmem
    · exact hs.recorded event hold
    · obtain ⟨_, _, rfl⟩ := List.mem_map.mp hmem
      exact (List.getElem?_eq_some_iff.mp hfactory).1
  tidy := htidy

/-! ### The steps of a task -/

/-- A step of task `j`, after which its chain has taken steps of the call stack
machine. -/
def Advances (code : S → Stmt S V X E Op A) (void : V) (s t : State S V X E Op A) (j : Nat)
    (old : Option Nat)
    (c : CallStack.Config (Place S V X E) (Except X V) A (Event V X Op A)) : Prop :=
  ∃ new events d, StepOf s t j old new events ∧ Tidy t ∧
    CallStack.Run (meaning code void) c events d ∧ Chain code void t j new d

theorem SameFrames.refl (j : Nat) (frames : Nat → Option (Frame S V X E Op A)) :
    SameFrames j frames frames := fun _ _ _ => Iff.rfl

theorem SameFrames.trans {frames'' : Nat → Option (Frame S V X E Op A)}
    (hfirst : SameFrames j frames frames') (hsecond : SameFrames j frames' frames'') :
    SameFrames j frames frames'' :=
  fun f frame hroot => (hsecond f frame hroot).trans (hfirst f frame hroot)

/-- The frames of task `j` are among `ids`. -/
def Covered (s : State S V X E Op A) (j : Nat) (ids : List Nat) : Prop :=
  ∀ f frame, s.frames f = some frame → frame.root = j → f ∈ ids

theorem Covered.setFrame (hall : Covered s j ids) (hmem : h ∈ ids)
    (new : Frame S V X E Op A) : Covered (s.setFrame h new) j ids := by
  intro f frame hframe hroot
  by_cases hf : f = h
  · rw [hf]
    exact hmem
  · replace hframe := (Function.update_of_ne hf _ _).symm.trans hframe
    exact hall f frame hframe hroot

/-- A step that the chain takes before or without a change of its job. -/
theorem Advances.after {r : State S V X E Op A} {old : Option Nat}
    {d : CallStack.Config (Place S V X E) (Except X V) A (Event V X Op A)}
    (hadvances : Advances code void r t j old d) (hframes : SameFrames j s.frames r.frames)
    (hjobs : r.jobs = s.jobs) (htasks : r.tasks = s.tasks) (hevents : r.events = s.events)
    (hrun : CallStack.Run (meaning code void) c [] d) :
    Advances code void s t j old c := by
  obtain ⟨new, events, e, hstep, htidy, hnew, hchain⟩ := hadvances
  refine ⟨new, events, e, ⟨hframes.trans hstep.frames, ?_, hstep.tasks.trans htasks, ?_⟩,
    htidy, hrun.trans hnew, hchain⟩
  · rw [← hjobs]
    exact hstep.jobs
  · rw [← hevents]
    exact hstep.events

/-- The innermost coroutine moves on, and its task with it. -/
theorem Advances.of_move (hheld : Held s.frames j h stack ids)
    (hframe : s.frames h = some frame) (hall : Covered s j ids)
    {new : Frame S V X E Op A} (hmoves : Moves frame new)
    (hframes : t.frames = Function.update s.frames h (some new))
    (hjobs : JobsMove s.jobs t.jobs job job') (htasks : t.tasks = s.tasks)
    {events : List (Event V X Op A)} (hevents : t.events = s.events ++ events.map (j, ·))
    (htidy : Tidy t) (hfocus : Focus code void t j h job' stmt [])
    (hrun : CallStack.Run (meaning code void) c events ⟨stmt, stack⟩) :
    Advances code void s t j job c := by
  obtain ⟨head, hhead, hroot, _⟩ := hheld.head
  obtain rfl := Option.some.inj (hframe.symm.trans hhead)
  refine ⟨job', events, _, ⟨?_, hjobs, htasks, hevents⟩, htidy, hrun, ?_⟩
  · rw [hframes]
    refine (SameFrames.refl j s.frames).update (fun old hold => ?_) fun new' hnew => ?_
    · obtain rfl := Option.some.inj (hframe.symm.trans hold)
      exact hroot
    · obtain rfl := Option.some.inj hnew
      exact hmoves.root.trans hroot
  · have hheld' : Held t.frames j h stack ids := by
      rw [hframes]
      exact hheld.move hframe hmoves
    refine .live hheld' hfocus fun f frame hfound hroot => ?_
    rw [hframes] at hfound
    exact hall.setFrame hheld.mem_head new f frame hfound hroot

theorem Held.moves (hheld : Held frames j h stack ids) (hframe : frames h = some frame)
    (point : Point S V X E Op A) : Moves frame { frame with point } := by
  obtain ⟨head, hhead, _, hbound, hunfinished⟩ := hheld.head
  obtain rfl := Option.some.inj (hframe.symm.trans hhead)
  exact ⟨rfl, hbound, hunfinished, rfl, rfl⟩

/-- A thread enters the innermost coroutine. -/
theorem enter_advances (hs : Tidy s) (hheld : Held s.frames j h stack ids)
    (hframe : s.frames h = some frame) (hall : Covered s j ids) {job : Job S V X E}
    (hjob : s.jobs i = some job) (current : E) (place : Place S V X E) :
    Advances code void s (s.enter i current h frame place) j (some i)
      ⟨meaning code void place, stack⟩ :=
  .of_move hheld hframe hall (hheld.moves hframe .running) rfl (.keep _ _ _) rfl
    (List.append_nil _).symm ((hs.setFrame hframe _).setJob (hs.lt_job hjob) _)
    (.running (Function.update_self ..) (Function.update_self ..) rfl) .refl

theorem resume_ready (hframe : s.frames h = some frame) {next : Place S V X E}
    (hpoint : frame.point = .initial next ∨ frame.point = .suspended next) (i : Nat)
    (current : E) : s.resume i current h = s.enter i current h frame next := by
  rcases hpoint with hpoint | hpoint
  · simp only [State.resume, hframe, hpoint]
  · simp only [State.resume, hframe, hpoint]

theorem resume_returned {n : Nat} {child : Frame S V X E Op A} {after : After S V X E}
    {outcome : Except X V} (hframe : s.frames h = some frame)
    (hpoint : frame.point = .awaiting n after) (hchild : s.frames n = some child)
    (hfinal : child.point = .final) (houtcome : child.awaitResume = some outcome) (i : Nat)
    (current : E) : s.resume i current h =
      (s.destroy n).enter i current h frame (after outcome) := by
  simp only [State.resume, hframe, hpoint, hchild, Option.bind_some, hfinal, houtcome]

/-- The innermost coroutine takes the outcome of its child, and destroys it. -/
theorem returned_advances (hs : Tidy s) {n : Nat} {child : Frame S V X E Op A}
    {after : After S V X E} {outcome : Except X V} (hheld : Held s.frames j h stack ids)
    (hframe : s.frames h = some frame) (hpoint : frame.point = .awaiting n after)
    (hchild : s.frames n = some child) (hfinal : child.point = .final)
    (houtcome : child.awaitResume = some outcome) (hroot : child.root = j) (hlt : h < n)
    (hall : Covered s j (n :: ids)) {job : Job S V X E} (hjob : s.jobs i = some job)
    (current : E) :
    Advances code void s (s.resume i current h) j (some i)
      ⟨meaning code void (after outcome), stack⟩ := by
  have hother : ∀ f ≠ n, (s.destroy n).frames f = s.frames f := by
    intro f hf
    rw [State.destroy_eq hchild]
    exact Function.update_of_ne hf _ _
  have hgone : (s.destroy n).frames n = none := by
    rw [State.destroy_eq hchild]
    exact Function.update_self ..
  have hheld' : Held (s.destroy n).frames j h stack ids :=
    hheld.mono fun f hf frame _ hfound =>
      (hother f (Nat.ne_of_lt (Nat.lt_of_le_of_lt hf hlt))).trans hfound
  have hall' : Covered (s.destroy n) j ids := by
    intro f frame hfound hroot
    by_cases hf : f = n
    · rw [hf, hgone] at hfound
      cases hfound
    · rw [hother f hf] at hfound
      exact (List.mem_cons.mp (hall f frame hfound hroot)).resolve_left hf
  rw [resume_returned hframe hpoint hchild hfinal houtcome]
  have hjob' : (s.destroy n).jobs i = some job := by
    rw [State.destroy_eq hchild]
    exact hjob
  refine (enter_advances (hs.destroy hchild) hheld'
    ((hother h (Nat.ne_of_lt hlt)).trans hframe) hall' hjob' current _).after ?_ ?_ ?_ ?_
    .refl
  · rw [State.destroy_eq hchild]
    refine (SameFrames.refl j s.frames).update (fun old hold => ?_) fun new hnew => ?_
    · obtain rfl := Option.some.inj (hchild.symm.trans hold)
      exact hroot
    · cases hnew
  · rw [State.destroy_eq hchild]
  · rw [State.destroy_eq hchild]
  · rw [State.destroy_eq hchild]

/-- The task goes on where it is. -/
theorem continue_advances (hs : Tidy s) (hheld : Held s.frames j h stack ids)
    (hframe : s.frames h = some frame) (hall : Covered s j ids)
    (hpoint : frame.point = .running) {job : Job S V X E} (hjob : s.jobs i = some job)
    (current : E) (event : Event V X Op A) (next : Place S V X E)
    (hrun : CallStack.Run (meaning code void) c [event] ⟨meaning code void next, stack⟩) :
    Advances code void s
      ((s.record j event).setJob i (some (.running current h next))) j (some i) c := by
  have hmoves : Moves frame frame := by
    obtain ⟨head, hhead, _, hbound, hunfinished⟩ := hheld.head
    obtain rfl := Option.some.inj (hframe.symm.trans hhead)
    exact ⟨rfl, hbound, hunfinished, rfl, rfl⟩
  refine .of_move hheld hframe hall hmoves ?_ (.keep _ _ _) rfl rfl
    ((hs.record j event).setJob (hs.lt_job hjob) _)
    (.running (Function.update_self ..) hframe hpoint) hrun
  rw [← hframe]
  exact (Function.update_eq_self h s.frames).symm

/-- The innermost coroutine is suspended, and its resumption posted. -/
theorem suspend_advances (hs : Tidy s) (hheld : Held s.frames j h stack ids)
    (hframe : s.frames h = some frame) (hall : Covered s j ids)
    {new : Frame S V X E Op A} (hmoves : Moves frame new) {next : Place S V X E}
    (hpoint : new.point = .suspended next) {job : Job S V X E} (hjob : s.jobs i = some job)
    (target : E)
    (hrun : CallStack.Run (meaning code void) c [] ⟨meaning code void next, stack⟩) :
    Advances code void s (((s.setFrame h new).setJob i none).post (some target) h) j
      (some i) c :=
  .of_move hheld hframe hall hmoves rfl (.post (hs.newJob _ (Nat.le_refl _)) i _) rfl
    (List.append_nil _).symm
    (((hs.setFrame hframe new).setJob (hs.lt_job hjob) none).post (some target) h)
    (.posted (Function.update_self ..) (Function.update_self ..) (.inr hpoint)) hrun

theorem hop_advances [DecidableEq E] (hs : Tidy s) (hheld : Held s.frames j h stack ids)
    (hframe : s.frames h = some frame) (hall : Covered s j ids)
    {new : Frame S V X E Op A} (hmoves : Moves frame new) (hpoint : new.point = .running)
    {job : Job S V X E} (hjob : s.jobs i = some job) (current target : E)
    (next : Place S V X E) :
    Advances code void s (s.hop i current h new target next) j (some i)
      ⟨.skip next, stack⟩ := by
  have hrun : CallStack.Run (meaning code void) ⟨.skip next, stack⟩ []
    ⟨meaning code void next, stack⟩ := .single (.skip next stack)
  rw [State.hop]
  split
  · exact .of_move hheld hframe hall hmoves rfl (.keep _ _ _) rfl
      (List.append_nil _).symm ((hs.setFrame hframe new).setJob (hs.lt_job hjob) _)
      (.running (Function.update_self ..) (Function.update_self ..) hpoint) hrun
  · have hmoves' : Moves frame { new with point := .suspended next } :=
      ⟨hmoves.root, hmoves.bound, hmoves.unfinished, hmoves.detached, hmoves.continuation⟩
    exact suspend_advances hs hheld hframe hall hmoves' rfl hjob target hrun

theorem coAwait_advances (hs : Tidy s) (hheld : Held s.frames j h stack ids)
    (hframe : s.frames h = some frame) (hall : Covered s j ids) {job : Job S V X E}
    (hjob : s.jobs i = some job) (current : E) (bound : Option E) (child : Place S V X E)
    (after : After S V X E) :
    Advances code void s (s.coAwait i current h frame bound child after) j (some i)
      ⟨.call child after, stack⟩ := by
  obtain ⟨head, hhead, hroot, hbound, _⟩ := hheld.head
  obtain rfl := Option.some.inj (hframe.symm.trans hhead)
  have hlt := hs.lt hframe
  let new : Frame S V X E Op A :=
    { ex := inheritExecutor bound frame.ex
      continuation := some h
      point := .initial child
      root := frame.root }
  let waits := s.setFrame h { frame with point := .awaiting s.nextFrame after }
  let linked := { waits.setFrame s.nextFrame new with nextFrame := s.nextFrame + 1 }
  have hwaits := hheld.move hframe (hheld.moves hframe (.awaiting s.nextFrame after))
  have hother : ∀ f ≤ h, linked.frames f = waits.frames f := fun f hf =>
    Function.update_of_ne (Nat.ne_of_lt (Nat.lt_of_le_of_lt hf hlt)) _ _
  have hnew : linked.frames s.nextFrame = some new := Function.update_self ..
  have hheld' : Held linked.frames j s.nextFrame (after :: stack) (s.nextFrame :: ids) := by
    refine .child hnew hroot ?_ rfl rfl rfl
      ((hother h (Nat.le_refl h)).trans (Function.update_self ..)) rfl hlt
      (hwaits.mono fun f hf frame _ hfound => (hother f hf).trans hfound)
    change (bound.or frame.ex).isSome = true
    rw [Option.isSome_or, hbound, Bool.or_true]
  have hall' : Covered linked j (s.nextFrame :: ids) := by
    intro f frame hfound hroot
    by_cases hf : f = s.nextFrame
    · rw [hf]
      exact List.mem_cons_self
    · refine List.mem_cons_of_mem _ ?_
      replace hfound := (Function.update_of_ne hf _ _).symm.trans hfound
      exact hall.setFrame hheld.mem_head _ f frame hfound hroot
  have hcall : s.coAwait i current h frame bound child after =
      linked.enter i current s.nextFrame new child :=
    resume_ready hnew (.inl rfl) i current
  rw [hcall]
  refine (enter_advances ((hs.setFrame hframe _).add new) hheld' hnew hall' hjob current
    child).after ?_ rfl rfl rfl (.single (.call child after stack))
  refine ((SameFrames.refl j s.frames).update (fun old hold => ?_)
    fun new' hnew' => ?_).update (fun old hold => ?_) fun new' hnew' => ?_
  · obtain rfl := Option.some.inj (hframe.symm.trans hold)
    exact hroot
  · obtain rfl := Option.some.inj hnew'
    exact hroot
  · have hnone := hs.newFrame s.nextFrame (Nat.le_refl _)
    cases ((Function.update_of_ne (Nat.ne_of_gt hlt) _ _).trans hnone).symm.trans hold
  · obtain rfl := Option.some.inj hnew'
    exact hroot

theorem Frame.coReturn_links (frame : Frame S V X E Op A) (outcome : Except X V) :
    (frame.coReturn outcome).root = frame.root ∧
      (frame.coReturn outcome).ex = frame.ex ∧
      (frame.coReturn outcome).detached = frame.detached ∧
      (frame.coReturn outcome).continuation = frame.continuation ∧
      (frame.coReturn outcome).point = .final := by
  cases outcome with
  | ok value => exact ⟨rfl, rfl, rfl, rfl, rfl⟩
  | error exception => exact ⟨rfl, rfl, rfl, rfl, rfl⟩

theorem Frame.awaitResume_coReturn (hopen : frame.exception = none)
    (outcome : Except X V) : (frame.coReturn outcome).awaitResume = some outcome := by
  cases outcome with
  | ok value => simp only [Frame.coReturn, Frame.awaitResume, hopen, Option.map_some]
  | error exception => rfl

/-- The entry point destroys itself. -/
theorem ended_advances (hs : Tidy s) (hheld : Held s.frames j h [] ids)
    (hframe : s.frames h = some frame) (hall : Covered s j ids) {new : Frame S V X E Op A}
    (hroot : new.root = frame.root) {job : Job S V X E} (hjob : s.jobs i = some job)
    (outcome : Except X V) :
    Advances code void s (((s.setFrame h new).destroy h).setJob i none) j (some i)
      ⟨.ret outcome, []⟩ := by
  have hself : (s.setFrame h new).frames h = some new := Function.update_self ..
  have htidy := (hs.setFrame hframe new).destroy hself
  cases hheld with
  | root hframe' hroot' _ _ _ =>
      obtain rfl := Option.some.inj (hframe.symm.trans hframe')
      rw [State.destroy_eq hself] at htidy ⊢
      refine ⟨none, [], _, ⟨?_, .stop _ _, rfl, (List.append_nil _).symm⟩,
        htidy.setJob (hs.lt_job hjob) none, .refl, .ended fun f frame' hfound hmine => ?_⟩
      · refine ((SameFrames.refl j s.frames).update (fun old hold => ?_)
          fun new' hnew => ?_).update (fun old hold => ?_) fun new' hnew => ?_
        · obtain rfl := Option.some.inj (hframe.symm.trans hold)
          exact hroot'
        · obtain rfl := Option.some.inj hnew
          exact hroot.trans hroot'
        · obtain rfl := Option.some.inj (hself.symm.trans hold)
          exact hroot.trans hroot'
        · cases hnew
      · by_cases hf : f = h
        · subst hf
          cases (Function.update_self (β := fun _ => Option _) ..).symm.trans hfound
        · replace hfound := (Function.update_of_ne hf _ _).symm.trans hfound
          replace hfound := (Function.update_of_ne hf _ _).symm.trans hfound
          exact hf (List.mem_singleton.mp (hall f frame' hfound hmine))

theorem finalSuspend_of_continuation [DecidableEq E] {p : Nat} {current : E}
    (hdetached : frame.detached = false) (hcontinuation : frame.continuation = some p) :
    s.finalSuspend i current h frame =
      if frame.ex = some current then
        (s.setFrame h { frame with continuation := none }).resume i current p
      else ((s.setFrame h { frame with continuation := none }).setJob i none).post
        frame.ex p := by
  have hattached : ¬ frame.detached = true := by
    rw [hdetached]
    exact Bool.false_ne_true
  rw [State.finalSuspend, if_neg hattached, hcontinuation]

/-- A coroutine returns to the one that awaits it, in place or through its executor. -/
theorem return_advances [DecidableEq E] (hs : Tidy s) {after : After S V X E}
    (hheld : Held s.frames j h (after :: stack) ids) (hframe : s.frames h = some frame)
    (hall : Covered s j ids) {job : Job S V X E} (hjob : s.jobs i = some job) (current : E)
    (outcome : Except X V) :
    Advances code void s (s.finalSuspend i current h (frame.coReturn outcome)) j (some i)
      ⟨.ret outcome, after :: stack⟩ := by
  obtain ⟨hroot, hex, hdetached, hcontinuation, hfinal⟩ := frame.coReturn_links outcome
  cases hheld with
  | @child _ p _ parent _ _ ids hframe' hroot' hbound hopen hdetached' hcontinuation'
      hparent hpoint hlt hheld =>
      obtain rfl := Option.some.inj (hframe.symm.trans hframe')
      obtain ⟨executor, hexecutor⟩ := Option.isSome_iff_exists.mp hbound
      have houtcome := frame.awaitResume_coReturn hopen outcome
      let done : Frame S V X E Op A := { frame.coReturn outcome with continuation := none }
      have hself : (s.setFrame h done).frames h = some done := Function.update_self ..
      have hother : ∀ f ≤ p, (s.setFrame h done).frames f = s.frames f := fun f hf =>
        Function.update_of_ne (Nat.ne_of_lt (Nat.lt_of_le_of_lt hf hlt)) _ _
      have hheld' := hheld.mono fun f hf frame _ hfound => (hother f hf).trans hfound
      have hparent' := (hother p (Nat.le_refl p)).trans hparent
      have hall' := hall.setFrame (h := h) List.mem_cons_self done
      have htidy := hs.setFrame hframe done
      have hrun : CallStack.Run (meaning code void) ⟨.ret outcome, after :: stack⟩ []
        ⟨meaning code void (after outcome), stack⟩ := .single (.ret outcome after stack)
      have hframes : SameFrames j s.frames (s.setFrame h done).frames := by
        refine (SameFrames.refl j s.frames).update (fun old hold => ?_) fun new hnew => ?_
        · obtain rfl := Option.some.inj (hframe.symm.trans hold)
          exact hroot'
        · obtain rfl := Option.some.inj hnew
          exact hroot.trans hroot'
      rw [finalSuspend_of_continuation (hdetached.trans hdetached')
        (hcontinuation.trans hcontinuation')]
      split
      · exact (returned_advances htidy hheld' hparent' hpoint hself hfinal houtcome
          (hroot.trans hroot') hlt hall' hjob current).after hframes rfl rfl rfl hrun
      · change Advances code void s
          (((s.setFrame h done).setJob i none).post (frame.coReturn outcome).ex p) j _ _
        rw [hex, hexecutor]
        exact ⟨some s.nextJob, [], _,
          ⟨hframes, .post (hs.newJob _ (Nat.le_refl _)) i _, rfl, (List.append_nil _).symm⟩,
          (htidy.setJob (hs.lt_job hjob) none).post (some executor) p, hrun,
          .live hheld' (.returned (Function.update_self ..) hparent' hpoint hself hfinal
            houtcome (hroot.trans hroot') hlt) hall'⟩

theorem final_advances [DecidableEq E] (hs : Tidy s) (hheld : Held s.frames j h stack ids)
    (hframe : s.frames h = some frame) (hall : Covered s j ids) {job : Job S V X E}
    (hjob : s.jobs i = some job) (current : E) (outcome : Except X V) :
    Advances code void s (s.finalSuspend i current h (frame.coReturn outcome)) j (some i)
      ⟨.ret outcome, stack⟩ := by
  cases stack with
  | nil =>
      obtain ⟨hroot, _, hdetached, _⟩ := frame.coReturn_links outcome
      have hdetached' : frame.detached = true := by
        cases hheld with
        | root hframe' _ _ _ hdetached' =>
            obtain rfl := Option.some.inj (hframe.symm.trans hframe')
            exact hdetached'
      rw [State.finalSuspend, if_pos (hdetached.trans hdetached')]
      exact ended_advances hs hheld hframe hall hroot hjob outcome
  | cons after stack => exact return_advances hs hheld hframe hall hjob current outcome

/-- A statement of the innermost coroutine is a step of the call stack machine. -/
theorem proceed_advances [DecidableEq E] (hs : Tidy s)
    (hheld : Held s.frames j h stack ids) (hframe : s.frames h = some frame)
    (hall : Covered s j ids) (hpoint : frame.point = .running) {current : E}
    {place : Place S V X E} (hjob : s.jobs i = some (.running current h place))
    (ready : Option A) :
    Advances code void s (s.proceed code void i current h frame ready place) j (some i)
      ⟨meaning code void place, stack⟩ := by
  obtain ⟨head, hhead, rfl, hbound, hunfinished⟩ := hheld.head
  obtain rfl := Option.some.inj (hframe.symm.trans hhead)
  rw [State.proceed, meaning]
  cases place.act code void with
  | complete result next =>
      exact continue_advances hs hheld hframe hall hpoint hjob current _ next
        (.single (.tell _ next stack))
  | body stmt =>
      cases stmt with
      | coReturn outcome => exact final_advances hs hheld hframe hall hjob current outcome
      | coAwait bound child after =>
          exact coAwait_advances hs hheld hframe hall hjob current bound child after
      | switchTo target next =>
          have hmoves : Moves frame { frame with ex := some target } :=
            ⟨rfl, rfl, hunfinished, rfl, rfl⟩
          exact hop_advances hs hheld hframe hall hmoves hpoint hjob current target next
      | on target next =>
          exact hop_advances hs hheld hframe hall ⟨rfl, hbound, hunfinished, rfl, rfl⟩ hpoint
            hjob current target next
      | operate op next =>
          cases ready with
          | some answer =>
              exact continue_advances hs hheld hframe hall hpoint hjob current _
                (next answer) (.single (.ask _ answer stack))
          | none =>
              exact .of_move hheld hframe hall (hheld.moves hframe (.operating op next)) rfl
                (.stop _ _) rfl (List.append_nil _).symm
                ((hs.setFrame hframe _).setJob (hs.lt_job hjob) none)
                (.operating (Function.update_self ..) rfl) .refl

/-- The answer of a leaf operation: the resumption is posted to the executor of the
coroutine. -/
theorem complete_advances (hs : Tidy s) (hheld : Held s.frames j h stack ids)
    (hframe : s.frames h = some frame) (hall : Covered s j ids) {op : Op}
    {next : A → Place S V X E} (hpoint : frame.point = .operating op next) {answer : A}
    (hstep : s.complete h answer = some t) :
    Advances code void s t j none
      ⟨.ask fun answer => (.operation op answer, next answer), stack⟩ := by
  obtain ⟨head, hhead, rfl, hbound, _⟩ := hheld.head
  obtain rfl := Option.some.inj (hframe.symm.trans hhead)
  obtain ⟨executor, hexecutor⟩ := Option.isSome_iff_exists.mp hbound
  have hpost : ∀ r : State S V X E Op A, r.post frame.ex h = r.post (some executor) h :=
    fun r => congrArg (r.post · h) hexecutor
  simp only [State.complete, hframe, hpoint, Option.some.injEq, hpost] at hstep
  subst hstep
  have hmoves := hheld.moves hframe (.suspended (next answer))
  refine .of_move hheld hframe hall hmoves rfl
    (.start (hs.newJob _ (Nat.le_refl _)) _) rfl rfl
    (((hs.setFrame hframe _).record frame.root _).post (some executor) h)
    (.posted (Function.update_self ..) (Function.update_self ..) (.inr rfl))
    (.single (.ask _ answer stack))

end Coroutine

end Iocoro
