/-
`resolve_awaiter`: a blocking `getaddrinfo` on a pool, a stop callback, and the
suspension that starts them.  Whoever sets `done` first writes the result and posts the
continuation.
-/
import Iocoro.Race
import Iocoro.TransitionSystem

namespace Iocoro

namespace Resolver

universe u

/-! ### The task of the pool -/

inductive Error where
  | operationAborted
  | internalError
  | addrinfo (code : Int)
deriving DecidableEq, Repr

/-- `result<results_type>`. -/
abbrev Resolved (Endpoint : Type u) := Except Error (List Endpoint)

/-- What `::getaddrinfo` answers. -/
inductive Answer (Info : Type u) where
  | failed (code : Int)
  | list (infos : List Info)

section Task

variable {Info : Type u} {Endpoint : Type u}

/-- The loop over the list; `convert` is `endpoint::from_native`, and `room` the length
to which the vector can grow.  `none` is the exception. -/
def collect (convert : Info → Option Endpoint) (room : Nat) :
    List Info → List Endpoint → Option (List Endpoint)
  | [], endpoints => some endpoints
  | ai :: rest, endpoints =>
      match convert ai with
      | none => collect convert room rest endpoints
      | some ep =>
          if endpoints.length < room then
            collect convert room rest (endpoints ++ [ep])
          else none

/-- The result, and how often `freeaddrinfo` is called. -/
def resolve (convert : Info → Option Endpoint) (room : Nat) :
    Answer Info → Resolved Endpoint × Nat
  | .failed code => (.error (.addrinfo code), 0)
  | .list infos =>
      match collect convert room infos [] with
      | some endpoints => (.ok endpoints, 1)
      | none => (.error .internalError, 0)

theorem collect_eq (convert : Info → Option Endpoint) {room : Nat} (infos : List Info)
    {endpoints : List Endpoint} (hroom : endpoints.length ≤ room) :
    collect convert room infos endpoints =
      if endpoints.length + (infos.filterMap convert).length ≤ room then
        some (endpoints ++ infos.filterMap convert)
      else none := by
  induction infos generalizing endpoints with
  | nil => simp [collect, hroom]
  | cons ai rest ih =>
      rw [collect]
      cases hconvert : convert ai with
      | none => rw [List.filterMap_cons_none hconvert, ih hroom]
      | some ep =>
          rw [List.filterMap_cons_some hconvert, List.length_cons]
          simp only
          split
          · next hlt =>
              have hgrown : (endpoints ++ [ep]).length ≤ room := by
                rw [List.length_append, List.length_singleton]
                omega
              rw [ih hgrown, List.length_append, List.length_singleton,
                List.append_assoc, List.singleton_append, Nat.add_assoc,
                Nat.add_comm 1]
          · next hfull =>
              rw [if_neg]
              omega

/-- The endpoints are those of the entries that can be converted, in their order, and
the list is freed where they fit in memory. -/
theorem resolve_list (convert : Info → Option Endpoint) (room : Nat)
    (infos : List Info) :
    resolve convert room (.list infos) =
      if (infos.filterMap convert).length ≤ room then
        (.ok (infos.filterMap convert), 1)
      else (.error .internalError, 0) := by
  rw [resolve, collect_eq convert infos (Nat.zero_le room), List.length_nil,
    Nat.zero_add, List.nil_append]
  by_cases hroom : (infos.filterMap convert).length ≤ room
  · rw [if_pos hroom, if_pos hroom]
  · rw [if_neg hroom, if_neg hroom]

end Task

/-! ### The parties -/

/-- The end of a party, from `done.exchange(true)` with the value that it has for
`res`.  Only the task of the pool resets `stop_cb`. -/
inductive Finish (Endpoint : Type u) where
  | exchange (value : Resolved Endpoint)
  | write (value : Resolved Endpoint)
  | reset
  | post
  | ended

/-- Where `await_suspend` stands; `inlined` is a stop callback that runs in its
constructor, a stop having been requested since the check. -/
inductive Suspend (Endpoint : Type u) where
  | store
  | checkStop
  | stopped (finish : Finish Endpoint)
  | register
  | inlined (finish : Finish Endpoint)
  | assignCb
  | postTask
  | returned

/-- The task of the pool; `lost` is a task that the pool does not take. -/
inductive Worker (Endpoint : Type u) where
  | none
  | lost
  | queued
  | finish (finish : Finish Endpoint)

/-- The stop callback of another thread. -/
inductive Callback (Endpoint : Type u) where
  | none
  | registered
  | running (finish : Finish Endpoint)
  | removed

inductive Party where
  | suspend
  | callback
  | worker
deriving DecidableEq, Repr

/-- `result_state`.  `writes` are the values that `res` was assigned, `posts` counts the
posts of the continuation, and `resumed` is what `await_resume` gave. -/
structure Shared (Endpoint : Type u) where
  done : Bool := false
  winner : Option Party := none
  res : Resolved Endpoint := .ok []
  writes : List (Resolved Endpoint) := []
  posts : Nat := 0
  resumed : Option (Resolved Endpoint) := none

/-- `hasToken` says whether the promise has a stop token; `answer` is what
`::getaddrinfo` answered, with the room that there was for the endpoints. -/
structure State (Info Endpoint : Type u) where
  hasToken : Bool := true
  stopRequested : Bool := false
  shared : Shared Endpoint := {}
  suspend : Suspend Endpoint := .store
  callback : Callback Endpoint := .none
  worker : Worker Endpoint := .none
  answer : Option (Answer Info × Nat) := none

section Steps

variable {Info Endpoint : Type u}

/-- What a party does to the shared state in its end. -/
def Shared.finish (s : Shared Endpoint) (p : Party) : Finish Endpoint → Shared Endpoint
  | .exchange _ => if s.done then s else { s with done := true, winner := some p }
  | .write value => { s with res := value, writes := s.writes ++ [value] }
  | .post => { s with posts := s.posts + 1 }
  | .reset | .ended => s

/-- Where it goes; the loser of the exchange ends. -/
def Finish.next (p : Party) (done : Bool) : Finish Endpoint → Finish Endpoint
  | .exchange value => if done then .ended else .write value
  | .write _ => if p = .worker then .reset else .post
  | .reset => .post
  | .post | .ended => .ended

/-- The party has come to its end. -/
def Finish.isEnded : Finish Endpoint → Bool
  | .ended => true
  | _ => false

/-- `stop_callback`'s destructor waits for a callback that runs. -/
def Callback.idle : Callback Endpoint → Bool
  | .running finish => finish.isEnded
  | _ => true

/-- `stop_cb.reset()`; there is none where none was assigned. -/
def Callback.reset : Callback Endpoint → Callback Endpoint
  | .none => .none
  | _ => .removed

def aborted : Resolved Endpoint := .error .operationAborted

/-- The steps of `await_suspend`; `ok` says whether the pool takes the task. -/
def State.suspendStep (s : State Info Endpoint) (ok : Bool) : Option (State Info Endpoint) :=
  match s.suspend with
  | .store =>
      some { s with suspend := if s.hasToken then .checkStop else .postTask }
  | .checkStop =>
      some { s with
        suspend := if s.stopRequested then .stopped (.exchange aborted) else .register }
  | .stopped .ended => some { s with suspend := .returned }
  | .stopped finish =>
      some { s with
        shared := s.shared.finish .suspend finish
        suspend := .stopped (finish.next .suspend s.shared.done) }
  | .register =>
      if s.stopRequested then some { s with suspend := .inlined (.exchange aborted) }
      else some { s with suspend := .assignCb, callback := .registered }
  | .inlined .ended => some { s with suspend := .assignCb }
  | .inlined finish =>
      some { s with
        shared := s.shared.finish .suspend finish
        suspend := .inlined (finish.next .suspend s.shared.done) }
  | .assignCb => some { s with suspend := .postTask }
  | .postTask =>
      some { s with
        suspend := .returned
        worker := if ok then .queued else .lost }
  | .returned => none

/-- The thread that has requested the stop. -/
def State.callbackStep (s : State Info Endpoint) : Option (State Info Endpoint) :=
  match s.callback with
  | .registered =>
      if s.stopRequested then some { s with callback := .running (.exchange aborted) }
      else none
  | .running .ended => none
  | .running finish =>
      some { s with
        shared := s.shared.finish .callback finish
        callback := .running (finish.next .callback s.shared.done) }
  | .none | .removed => none

def State.workerStep (s : State Info Endpoint) : Option (State Info Endpoint) :=
  match s.worker with
  | .finish .ended => none
  | .finish .reset =>
      if s.callback.idle then
        some { s with callback := s.callback.reset, worker := .finish .post }
      else none
  | .finish finish =>
      some { s with
        shared := s.shared.finish .worker finish
        worker := .finish (finish.next .worker s.shared.done) }
  | .none | .lost | .queued => none

/-- `answer` ends the work of the pool, and `resume` is the executor that runs the
posted continuation. -/
inductive Action (Info : Type u) where
  | requestStop
  | suspend (ok : Bool)
  | callback
  | answer (answer : Answer Info) (room : Nat)
  | worker
  | resume

def step (convert : Info → Option Endpoint) (s : State Info Endpoint) :
    Action Info → Option (State Info Endpoint)
  | .requestStop => some { s with stopRequested := true }
  | .suspend ok => s.suspendStep ok
  | .callback => s.callbackStep
  | .answer answer room =>
      match s.worker with
      | .queued =>
          some { s with
            worker := .finish (.exchange (resolve convert room answer).1)
            answer := some (answer, room) }
      | _ => none
  | .worker => s.workerStep
  | .resume =>
      if 0 < s.shared.posts ∧ s.shared.resumed.isNone then
        some { s with shared := { s.shared with resumed := some s.shared.res } }
      else none

def system (convert : Info → Option Endpoint) (hasToken : Bool) :
    TransitionSystem (State Info Endpoint) (Action Info) where
  start := { hasToken }
  step := step convert

/-! ### The race of the parties -/

/-- Between the write and the post the task of the pool resets the callback. -/
def Finish.stage : Finish Endpoint → Race.Stage (Resolved Endpoint)
  | .exchange value => .exchange value
  | .write value => .write value
  | .reset | .post => .publish
  | .ended => .ended

def Suspend.stage : Suspend Endpoint → Race.Stage (Resolved Endpoint)
  | .store | .checkStop | .register => .idle
  | .stopped finish | .inlined finish => finish.stage
  | .assignCb | .postTask | .returned => .out

def Callback.stage : Callback Endpoint → Race.Stage (Resolved Endpoint)
  | .none | .registered => .idle
  | .running finish => finish.stage
  | .removed => .out

def Worker.stage : Worker Endpoint → Race.Stage (Resolved Endpoint)
  | .none | .lost | .queued => .idle
  | .finish last => last.stage

def State.stage (s : State Info Endpoint) : Party → Race.Stage (Resolved Endpoint)
  | .suspend => s.suspend.stage
  | .callback => s.callback.stage
  | .worker => s.worker.stage

def Shared.race (s : Shared Endpoint) (stage : Party → Race.Stage (Resolved Endpoint)) :
    Race.State Party (Resolved Endpoint) where
  flag := s.done
  winner := s.winner
  cell := s.res
  writes := s.writes
  posts := s.posts
  taken := s.resumed
  stage := stage

def State.race (s : State Info Endpoint) : Race.State Party (Resolved Endpoint) :=
  s.shared.race s.stage

/-- What a party writes. -/
def Writes (convert : Info → Option Endpoint) : Party → Resolved Endpoint → Prop
  | .worker, value => ∃ answer room, value = (resolve convert room answer).1
  | .suspend, value | .callback, value => value = aborted

variable {convert : Info → Option Endpoint} {s t : State Info Endpoint}

/-- A step of the awaiter is one of the race, or none. -/
def Refines (convert : Info → Option Endpoint) (s t : State Info Endpoint) : Prop :=
  t.race = s.race ∨ ∃ a, Race.Allowed (Writes convert) s.race a ∧
    Race.step s.race a = some t.race

section Refine

variable {p : Party}

/-- What one party's step makes of the stages. -/
theorem stage_update {new : Race.Stage (Resolved Endpoint)} (hnew : t.stage p = new)
    (hothers : ∀ q, q ≠ p → t.stage q = s.stage q) :
    t.stage = Function.update s.stage p new := by
  funext q
  rw [Function.update_apply]
  split
  · next hq => rw [hq, hnew]
  · next hq => exact hothers q hq

/-- A party takes a step of its end. -/
theorem refines_finish {finish : Finish Endpoint} (hp : s.stage p = finish.stage)
    (hopen : finish.isEnded = false) (hshared : t.shared = s.shared.finish p finish)
    (hnew : t.stage p = (finish.next p s.shared.done).stage)
    (hothers : ∀ q, q ≠ p → t.stage q = s.stage q) : Refines convert s t := by
  have hadvance : ∀ shared new, t.shared = shared →
      (finish.next p s.shared.done).stage = new →
      s.race.advance p = some (shared.race (Function.update s.stage p new)) →
        Refines convert s t := by
    intro shared new hsame hstage hrace
    refine .inr ⟨.advance p, trivial, ?_⟩
    change s.race.advance p = some (t.shared.race t.stage)
    rw [hsame, stage_update (hnew.trans hstage) hothers, hrace]
  cases finish with
  | exchange value =>
      cases hdone : s.shared.done with
      | true =>
          refine hadvance s.shared .ended ?_ ?_ (Race.advance_lost hp hdone)
          · rw [hshared, Shared.finish, if_pos hdone]
          · rw [hdone]
            rfl
      | false =>
          have hnot : ¬ s.shared.done = true := by
            rw [hdone]
            exact Bool.false_ne_true
          refine hadvance { s.shared with done := true, winner := some p } (.write value)
            ?_ ?_ (Race.advance_won hp hdone)
          · rw [hshared, Shared.finish, if_neg hnot]
          · rw [hdone]
            rfl
  | write value =>
      refine hadvance _ .publish hshared ?_ (Race.advance_write hp)
      rw [Finish.next]
      split
      · rfl
      · rfl
  | reset =>
      have hstage : t.stage = s.stage := by
        funext q
        by_cases hq : q = p
        · rw [hq, hnew, hp]
          rfl
        · exact hothers q hq
      left
      rw [State.race, hshared, hstage]
      rfl
  | post => exact hadvance _ .ended hshared rfl (Race.advance_publish hp)
  | ended => cases hopen

/-- A party starts with a value, or leaves. -/
theorem refines_start {value : Resolved Endpoint} (hp : s.stage p = .idle)
    (hwrites : Writes convert p value) (hshared : t.shared = s.shared)
    (hnew : t.stage p = .exchange value) (hothers : ∀ q, q ≠ p → t.stage q = s.stage q) :
    Refines convert s t := by
  refine .inr ⟨.start p value, hwrites, ?_⟩
  rw [Race.step_start hp, State.race, State.race, hshared, stage_update hnew hothers]
  rfl

theorem refines_leave (hp : s.stage p = .idle ∨ s.stage p = .ended)
    (hshared : t.shared = s.shared) (hnew : t.stage p = .out)
    (hothers : ∀ q, q ≠ p → t.stage q = s.stage q) : Refines convert s t := by
  refine .inr ⟨.leave p, trivial, ?_⟩
  rw [Race.step_leave hp, State.race, State.race, hshared, stage_update hnew hothers]
  rfl

theorem refines_same (hshared : t.shared = s.shared) (hstage : ∀ p, t.stage p = s.stage p) :
    Refines convert s t :=
  .inl (by rw [State.race, State.race, hshared, funext hstage])

end Refine

/-- The other parties, of which nothing has changed. -/
theorem stage_of_ne_suspend (hcallback : t.callback.stage = s.callback.stage)
    (hworker : t.worker.stage = s.worker.stage) (q : Party) (hq : q ≠ .suspend) :
    t.stage q = s.stage q := by
  cases q with
  | suspend => exact absurd rfl hq
  | callback => exact hcallback
  | worker => exact hworker

theorem stage_of_ne_callback (hsuspend : t.suspend = s.suspend)
    (hworker : t.worker = s.worker) (q : Party) (hq : q ≠ .callback) :
    t.stage q = s.stage q := by
  cases q with
  | suspend => exact congrArg Suspend.stage hsuspend
  | callback => exact absurd rfl hq
  | worker => exact congrArg Worker.stage hworker

theorem stage_of_ne_worker (hsuspend : t.suspend = s.suspend)
    (hcallback : t.callback = s.callback) (q : Party) (hq : q ≠ .worker) :
    t.stage q = s.stage q := by
  cases q with
  | suspend => exact congrArg Suspend.stage hsuspend
  | callback => exact congrArg Callback.stage hcallback
  | worker => exact absurd rfl hq

/-- The callback is still to be registered. -/
def Suspend.early : Suspend Endpoint → Bool
  | .store | .checkStop | .register | .stopped _ | .inlined _ => true
  | .assignCb | .postTask | .returned => false

/-- It runs the steps of a stop. -/
def Suspend.stops : Suspend Endpoint → Bool
  | .stopped _ | .inlined _ => true
  | _ => false

def Suspend.isReturned : Suspend Endpoint → Bool
  | .returned => true
  | _ => false

/-- The order in which `await_suspend` starts the others. -/
structure Order (s : State Info Endpoint) : Prop where
  callback : s.suspend.early = true → s.callback = .none
  worker : s.suspend.isReturned = false → s.worker = .none

/-- The steps of `await_suspend`. -/
inductive SuspendStep (s : State Info Endpoint) (ok : Bool) : State Info Endpoint → Prop
  | move {before after : Suspend Endpoint} (hbefore : s.suspend = before)
      (hstage : after.stage = before.stage) (hlive : before.isReturned = false)
      (hafter : after.isReturned = false)
      (hearly : after.early = true → before.early = true) (hstops : after.stops = false) :
      SuspendStep s ok { s with suspend := after }
  | start {before after : Suspend Endpoint} (hbefore : s.suspend = before)
      (hidle : before.stage = .idle) (hstart : after.stage = .exchange aborted)
      (hlive : before.isReturned = false) (hafter : after.isReturned = false)
      (hearly : before.early = true) (hstop : s.stopRequested = true) :
      SuspendStep s ok { s with suspend := after }
  | leave {before after : Suspend Endpoint} (hbefore : s.suspend = before)
      (hstage : before.stage = .idle ∨ before.stage = .ended) (hout : after.stage = .out)
      (hlive : before.isReturned = false) (hafter : after.early = false)
      (hstops : after.stops = false) (hearly : before.early = true)
      (hreturned : after.isReturned = true → before.stage = .ended) :
      SuspendStep s ok { s with suspend := after }
  | register (hbefore : s.suspend = .register) :
      SuspendStep s ok { s with suspend := .assignCb, callback := .registered }
  | finish {before after : Suspend Endpoint} {finish : Finish Endpoint}
      (hbefore : s.suspend = before) (hstage : before.stage = finish.stage)
      (hopen : finish.isEnded = false)
      (hafter : after.stage = (finish.next .suspend s.shared.done).stage)
      (hlive : before.isReturned = false) (hlive' : after.isReturned = false)
      (hearly : before.early = true) (hstops : before.stops = true) :
      SuspendStep s ok { s with
        shared := s.shared.finish .suspend finish, suspend := after }
  | postTask (hbefore : s.suspend = .postTask) :
      SuspendStep s ok { s with
        suspend := .returned
        worker := if ok then .queued else .lost }

theorem suspendStep_cases {ok : Bool} (hstep : s.suspendStep ok = some t) :
    SuspendStep s ok t := by
  cases hsuspend : s.suspend with
  | store =>
      simp only [State.suspendStep, hsuspend] at hstep
      cases hstep
      split
      · exact .move hsuspend rfl rfl rfl (fun _ => rfl) rfl
      · exact .leave hsuspend (.inl rfl) rfl rfl rfl rfl rfl (by intro h; cases h)
  | checkStop =>
      simp only [State.suspendStep, hsuspend] at hstep
      cases hstep
      split
      · next hstop => exact .start hsuspend rfl rfl rfl rfl rfl hstop
      · exact .move hsuspend rfl rfl rfl (fun _ => rfl) rfl
  | stopped finish =>
      cases finish with
      | ended =>
          simp only [State.suspendStep, hsuspend] at hstep
          cases hstep
          exact .leave hsuspend (.inr rfl) rfl rfl rfl rfl rfl fun _ => rfl
      | exchange | write | reset | post =>
          simp only [State.suspendStep, hsuspend] at hstep
          cases hstep
          exact .finish hsuspend rfl rfl rfl rfl rfl rfl rfl
  | register =>
      simp only [State.suspendStep, hsuspend] at hstep
      split at hstep
      · next hstop =>
          cases hstep
          exact .start hsuspend rfl rfl rfl rfl rfl hstop
      · cases hstep
        exact .register hsuspend
  | inlined finish =>
      cases finish with
      | ended =>
          simp only [State.suspendStep, hsuspend] at hstep
          cases hstep
          exact .leave hsuspend (.inr rfl) rfl rfl rfl rfl rfl fun _ => rfl
      | exchange | write | reset | post =>
          simp only [State.suspendStep, hsuspend] at hstep
          cases hstep
          exact .finish hsuspend rfl rfl rfl rfl rfl rfl rfl
  | assignCb =>
      simp only [State.suspendStep, hsuspend] at hstep
      cases hstep
      refine .move hsuspend rfl rfl rfl (fun h => ?_) rfl
      cases h
  | postTask =>
      simp only [State.suspendStep, hsuspend] at hstep
      cases hstep
      exact .postTask hsuspend
  | returned =>
      simp only [State.suspendStep, hsuspend] at hstep
      cases hstep

theorem SuspendStep.order {ok : Bool} (hs : Order s) (hstep : SuspendStep s ok t) : Order t := by
  cases hstep with
  | move hbefore _ hlive hafter hearly =>
      exact ⟨fun h => hs.callback (hbefore ▸ hearly h), fun _ => hs.worker (hbefore ▸ hlive)⟩
  | start hbefore _ _ hlive hafter hearly =>
      exact ⟨fun _ => hs.callback (hbefore ▸ hearly), fun _ => hs.worker (hbefore ▸ hlive)⟩
  | leave hbefore _ _ hlive hafter =>
      refine ⟨fun h => ?_, fun _ => hs.worker (hbefore ▸ hlive)⟩
      cases hafter.symm.trans h
  | register hbefore =>
      refine ⟨fun h => ?_, fun _ => hs.worker (hbefore ▸ rfl)⟩
      cases h
  | finish hbefore _ _ _ hlive hlive' hearly =>
      exact ⟨fun _ => hs.callback (hbefore ▸ hearly), fun _ => hs.worker (hbefore ▸ hlive)⟩
  | postTask hbefore =>
      refine ⟨fun h => ?_, fun h => ?_⟩
      · cases h
      · cases h

theorem SuspendStep.refines {ok : Bool} (hs : Order s) (hstep : SuspendStep s ok t) :
    Refines convert s t := by
  have hcallback : ∀ {before : Suspend Endpoint}, s.suspend = before →
      before.early = true → s.callback.stage = .idle := by
    intro before hbefore hearly
    rw [hs.callback (hbefore ▸ hearly)]
    rfl
  cases hstep with
  | @move before after hbefore hstage hlive hafter hearly =>
      refine refines_same rfl fun p => ?_
      cases p with
      | suspend => exact hstage.trans (congrArg Suspend.stage hbefore).symm
      | callback | worker => rfl
  | start hbefore hidle hstart hlive hafter hearly =>
      exact refines_start (p := .suspend) ((congrArg Suspend.stage hbefore).trans hidle)
        rfl rfl hstart (stage_of_ne_suspend rfl rfl)
  | leave hbefore hstage hout hlive hafter =>
      refine refines_leave (p := .suspend) ?_ rfl hout (stage_of_ne_suspend rfl rfl)
      change s.suspend.stage = .idle ∨ s.suspend.stage = .ended
      rw [hbefore]
      exact hstage
  | register hbefore =>
      refine refines_leave (p := .suspend) (.inl ?_) rfl rfl
        (stage_of_ne_suspend (hcallback hbefore rfl).symm rfl)
      change s.suspend.stage = .idle
      rw [hbefore]
      rfl
  | finish hbefore hstage hopen hafter hlive hlive' hearly =>
      exact refines_finish (p := .suspend) ((congrArg Suspend.stage hbefore).trans hstage)
        hopen rfl hafter (stage_of_ne_suspend rfl rfl)
  | postTask hbefore =>
      have hworker : s.worker = .none := hs.worker (hbefore ▸ rfl)
      refine refines_same rfl fun p => ?_
      cases p with
      | suspend => exact (congrArg Suspend.stage hbefore).symm
      | callback => rfl
      | worker =>
          change (if ok then Worker.queued else Worker.lost).stage = s.worker.stage
          rw [hworker]
          split
          · rfl
          · rfl

theorem callbackStep_cases (hstep : s.callbackStep = some t) :
    (s.stopRequested = true ∧ s.callback = .registered ∧
        t = { s with callback := .running (.exchange aborted) }) ∨
      ∃ last, s.callback = .running last ∧ last.isEnded = false ∧
        t = { s with
          shared := s.shared.finish .callback last
          callback := .running (last.next .callback s.shared.done) } := by
  cases hcallback : s.callback with
  | none | removed =>
      simp only [State.callbackStep, hcallback] at hstep
      cases hstep
  | registered =>
      simp only [State.callbackStep, hcallback] at hstep
      split at hstep
      · next hstop =>
          cases hstep
          exact .inl ⟨hstop, rfl, rfl⟩
      · cases hstep
  | running last =>
      cases last with
      | ended =>
          simp only [State.callbackStep, hcallback] at hstep
          cases hstep
      | exchange | write | reset | post =>
          simp only [State.callbackStep, hcallback] at hstep
          cases hstep
          exact .inr ⟨_, rfl, rfl, rfl⟩

theorem workerStep_cases (hstep : s.workerStep = some t) :
    (s.worker = .finish .reset ∧ s.callback.idle = true ∧
        t = { s with callback := s.callback.reset, worker := .finish .post }) ∨
      ∃ last, s.worker = .finish last ∧ last.isEnded = false ∧
        t = { s with
          shared := s.shared.finish .worker last
          worker := .finish (last.next .worker s.shared.done) } := by
  cases hworker : s.worker with
  | none | lost | queued =>
      simp only [State.workerStep, hworker] at hstep
      cases hstep
  | finish last =>
      cases last with
      | ended =>
          simp only [State.workerStep, hworker] at hstep
          cases hstep
      | reset =>
          simp only [State.workerStep, hworker] at hstep
          split at hstep
          · next hidle =>
              cases hstep
              exact .inl ⟨rfl, hidle, rfl⟩
          · cases hstep
      | exchange | write | post =>
          simp only [State.workerStep, hworker] at hstep
          cases hstep
          exact .inr ⟨_, rfl, rfl, rfl⟩

theorem step_answer {answer : Answer Info} {room : Nat}
    (hstep : step convert s (.answer answer room) = some t) : s.worker = .queued ∧
      t = { s with
        worker := .finish (.exchange (resolve convert room answer).1)
        answer := some (answer, room) } := by
  simp only [step] at hstep
  split at hstep
  · next hworker =>
      cases hstep
      exact ⟨hworker, rfl⟩
  · cases hstep

theorem step_resume (hstep : step convert s .resume = some t) :
    0 < s.shared.posts ∧ s.shared.resumed = none ∧
      t = { s with shared := { s.shared with resumed := some s.shared.res } } := by
  simp only [step] at hstep
  split at hstep
  · next hready =>
      cases hstep
      exact ⟨hready.1, Option.isNone_iff_eq_none.mp hready.2, rfl⟩
  · cases hstep

theorem callbackStep_refines (hstep : s.callbackStep = some t) : Refines convert s t := by
  rcases callbackStep_cases hstep with ⟨_, hcallback, rfl⟩ | ⟨last, hcallback, hopen, rfl⟩
  · exact refines_start (p := .callback) (congrArg Callback.stage hcallback) rfl rfl rfl
      (stage_of_ne_callback rfl rfl)
  · exact refines_finish (p := .callback) (congrArg Callback.stage hcallback) hopen rfl rfl
      (stage_of_ne_callback rfl rfl)

/-- The reset takes a callback that has not started, or has ended, out of the race. -/
theorem workerStep_refines (hstep : s.workerStep = some t) : Refines convert s t := by
  rcases workerStep_cases hstep with ⟨hworker, hidle, rfl⟩ | ⟨last, hworker, hopen, rfl⟩
  · have hsame : ∀ q, q ≠ .callback → State.stage { s with
        callback := s.callback.reset, worker := .finish .post } q = s.stage q := by
      intro q hq
      cases q with
      | suspend => rfl
      | callback => exact absurd rfl hq
      | worker => exact (congrArg Worker.stage hworker).symm
    cases hcallback : s.callback with
    | none =>
        refine refines_same rfl fun q => ?_
        by_cases hq : q = .callback
        · subst hq
          exact (congrArg Callback.stage hcallback).symm
        · exact hcallback ▸ hsame q hq
    | registered =>
        refine refines_leave (p := .callback) (.inl ?_) rfl rfl fun q hq => ?_
        · exact congrArg Callback.stage hcallback
        · exact hcallback ▸ hsame q hq
    | running last =>
        rw [hcallback] at hidle
        cases last with
        | ended =>
            refine refines_leave (p := .callback) (.inr ?_) rfl rfl fun q hq => ?_
            · exact congrArg Callback.stage hcallback
            · exact hcallback ▸ hsame q hq
        | exchange | write | reset | post => cases hidle
    | removed =>
        refine refines_same rfl fun q => ?_
        by_cases hq : q = .callback
        · subst hq
          exact (congrArg Callback.stage hcallback).symm
        · exact hcallback ▸ hsame q hq
  · exact refines_finish (p := .worker) (congrArg Worker.stage hworker) hopen rfl rfl
      (stage_of_ne_worker rfl rfl)

theorem step_refines {a : Action Info} (hs : Order s)
    (hstep : step convert s a = some t) : Refines convert s t := by
  cases a with
  | requestStop =>
      cases hstep
      exact refines_same rfl fun _ => rfl
  | suspend ok => exact (suspendStep_cases hstep).refines hs
  | callback => exact callbackStep_refines hstep
  | answer answer room =>
      obtain ⟨hworker, rfl⟩ := step_answer hstep
      exact refines_start (p := .worker) (congrArg Worker.stage hworker)
        ⟨answer, room, rfl⟩ rfl rfl (stage_of_ne_worker rfl rfl)
  | worker => exact workerStep_refines hstep
  | resume =>
      obtain ⟨hposts, hresumed, rfl⟩ := step_resume hstep
      refine .inr ⟨.take, trivial, ?_⟩
      have hready : 0 < s.race.posts ∧ s.race.taken.isNone = true :=
        ⟨hposts, Option.isNone_iff_eq_none.mpr hresumed⟩
      rw [Race.step, if_pos hready]
      rfl

theorem Order.preserved {a : Action Info} (hs : Order s)
    (hstep : step convert s a = some t) : Order t := by
  -- a callback or a task that is under way was started by then
  have hcallback : s.callback ≠ .none → ∀ callback : Callback Endpoint,
      s.suspend.early = true → callback = .none := by
    intro hsome callback hearly
    exact absurd (hs.callback hearly) hsome
  have hworker : s.worker ≠ .none → ∀ worker : Worker Endpoint,
      s.suspend.isReturned = false → worker = .none := by
    intro hsome worker hlive
    exact absurd (hs.worker hlive) hsome
  cases a with
  | requestStop =>
      cases hstep
      exact ⟨hs.callback, hs.worker⟩
  | suspend ok => exact (suspendStep_cases hstep).order hs
  | callback =>
      rcases callbackStep_cases hstep with ⟨-, hold, rfl⟩ | ⟨last, hold, -, rfl⟩
      all_goals
        refine ⟨hcallback (fun h => ?_) _, hs.worker⟩
        cases hold.symm.trans h
  | answer answer room =>
      obtain ⟨hold, rfl⟩ := step_answer hstep
      refine ⟨hs.callback, hworker (fun h => ?_) _⟩
      cases hold.symm.trans h
  | worker =>
      rcases workerStep_cases hstep with ⟨hold, -, rfl⟩ | ⟨last, hold, -, rfl⟩
      · refine ⟨fun hearly => ?_, hworker (fun h => ?_) _⟩
        · rw [hs.callback hearly]
          rfl
        · cases hold.symm.trans h
      · refine ⟨hs.callback, hworker (fun h => ?_) _⟩
        cases hold.symm.trans h
  | resume =>
      obtain ⟨-, -, rfl⟩ := step_resume hstep
      exact ⟨hs.callback, hs.worker⟩

theorem Order.reachable {hasToken : Bool} (hs : (system convert hasToken).Reachable s) :
    Order s := by
  have hstart : Order (system convert hasToken).start := ⟨fun _ => rfl, fun _ => rfl⟩
  exact hs.invariant hstart fun _ _ _ hinv hstep => hinv.preserved hstep

/-- The parties of an awaiter race for `done`. -/
theorem race_reachable {hasToken : Bool} (hs : (system convert hasToken).Reachable s) :
    (Race.system Party (.ok [])).ReachableUnder (Race.Allowed (Writes convert)) s.race := by
  refine hs.refine (Race.system Party (.ok [])) _ State.race ?_ ?_
  · exact Race.State.ext rfl rfl rfl rfl rfl rfl (funext fun p => by cases p <;> rfl)
  · intro s a t hs _ hstep
    exact step_refines (Order.reachable hs) hstep

theorem race_inv {hasToken : Bool} (hs : (system convert hasToken).Reachable s) :
    Race.Inv (Writes convert) s.race :=
  Race.Inv.reachable (race_reachable hs)

/-! ### What the parties write -/

/-- The result of the task of the pool. -/
def State.outcome (s : State Info Endpoint) (convert : Info → Option Endpoint) :
    Option (Resolved Endpoint) :=
  s.answer.map fun (answer, room) => (resolve convert room answer).1

def Callback.runs : Callback Endpoint → Bool
  | .running _ => true
  | _ => false

/-- Where the values come from: the others than the task run after a stop request. -/
structure Sources (convert : Info → Option Endpoint) (s : State Info Endpoint) : Prop where
  stops : s.suspend.stops = true → s.stopRequested = true
  runs : s.callback.runs = true → s.stopRequested = true
  winner : ∀ p, s.shared.winner = some p → p = .worker ∨ s.stopRequested = true
  value : ∀ value, s.worker.stage.value = some value → s.outcome convert = some value
  written : s.shared.winner = some .worker → ∀ value ∈ s.shared.writes,
    s.outcome convert = some value

theorem Shared.finish_winner (x : Shared Endpoint) {p q : Party} (last : Finish Endpoint)
    (hq : (x.finish p last).winner = some q) : x.winner = some q ∨ q = p := by
  cases last with
  | exchange value =>
      rw [Shared.finish] at hq
      split at hq
      · exact .inl hq
      · exact .inr (Option.some.inj hq).symm
  | write | reset | post | ended => exact .inl hq

/-- The value that is written is that of the winner. -/
theorem Shared.finish_writes {p : Party} {last : Finish Endpoint}
    (hs : Race.Inv (Writes convert) s.race) (hp : s.stage p = last.stage)
    (hwinner : (s.shared.finish p last).winner = some .worker) (value : Resolved Endpoint)
    (hmem : value ∈ (s.shared.finish p last).writes) :
    s.shared.winner = some .worker ∧ value ∈ s.shared.writes ∨
      p = .worker ∧ last.stage.value = some value := by
  cases last with
  | exchange other =>
      rw [Shared.finish] at hwinner hmem
      split at hwinner
      · next hdone =>
          rw [if_pos hdone] at hmem
          exact .inl ⟨hwinner, hmem⟩
      · next hdone =>
          rw [if_neg hdone] at hmem
          -- nothing was written before the flag was set
          have hnone : s.shared.winner = none := by
            have hflag := hs.flag
            change s.shared.done = s.shared.winner.isSome at hflag
            rw [hflag] at hdone
            exact Option.not_isSome_iff_eq_none.mp hdone
          have hnil := (hs.unwon hnone).1
          change s.shared.writes = [] at hnil
          change value ∈ s.shared.writes at hmem
          rw [hnil] at hmem
          cases hmem
  | write other =>
      have hwon : s.shared.winner = some p := hs.won p (by
        change (s.stage p).won = true
        rw [hp]
        rfl)
      change s.shared.winner = some .worker at hwinner
      change value ∈ s.shared.writes ++ [other] at hmem
      rcases List.mem_append.mp hmem with hold | hnew
      · exact .inl ⟨hwinner, hold⟩
      · rw [List.mem_singleton.mp hnew]
        exact .inr ⟨Option.some.inj (hwon.symm.trans hwinner), rfl⟩
  | reset | post | ended => exact .inl ⟨hwinner, hmem⟩

end Steps

end Resolver

end Iocoro
