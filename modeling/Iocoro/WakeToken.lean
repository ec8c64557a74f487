/-
The token of `wake_state`: a notifier claims it, writes it to the eventfd, and the
reactor drains and consumes it.  Any number of threads run `wakeup`, each as often as it
likes, against one reactor that waits again and again.
-/
import Iocoro.Inventory
import Iocoro.TransitionSystem
import Iocoro.WakeState

namespace Iocoro

namespace WakeToken

/-- A thread in `wakeup`: outside it, in the loop of `notify` after it has read
`waiting`, and before the write to the eventfd. -/
inductive Notifier where
  | idle
  | looping
  | claimed
deriving DecidableEq, Repr

/-- Its `notify` has returned true and its write is still to come. -/
def Notifier.isClaimed : Notifier → Bool
  | .claimed => true
  | _ => false

/-- The reactor: outside `wait`, between `begin_wait` and the wait, in `epoll_wait` with
or without a `begin_wait` before it, in `drain_eventfd`, before `consume_notification`,
and before the load and in the loop of `finish_wait`. -/
inductive Reactor where
  | idle
  | prepared
  | blocked (window : Bool)
  | draining
  | consuming
  | finishing
  | closing
deriving DecidableEq, Repr

/-- Between `begin_wait` and the end of the blocking wait. -/
def Reactor.window : Reactor → Bool
  | .prepared | .blocked true => true
  | _ => false

/-- `drained` is what was read from the eventfd and not yet consumed. -/
structure State where
  phase : Phase := .running
  eventfd : Nat := 0
  drained : Nat := 0
  reactor : Reactor := .idle
  notifiers : List Notifier
deriving DecidableEq, Repr

/-- `load` and `exchange` are the atomic operations of `notify`; a weak exchange may
fail for no reason.  A wait ends with the eventfd among its events (`report`) or
without it: by another event, a timeout or EINTR (`leave`). -/
inductive Action where
  | load (i : Nat)
  | exchange (i : Nat) (spurious : Bool)
  | write (i : Nat)
  | beginWait
  | block
  | report
  | leave
  | read
  | consume
  | finishLoad
  | finishExchange (spurious : Bool)
deriving DecidableEq, Repr

def State.setNotifier (s : State) (i : Nat) (notifier : Notifier) : State :=
  { s with notifiers := s.notifiers.set i notifier }

/-- `wakeup`. -/
def notifierStep (s : State) : Action → Option State
  | .load i =>
      match s.notifiers[i]? with
      | some .idle =>
          if s.phase.notifyLoad then some (s.setNotifier i .looping)
          else some (s.setNotifier i .idle)
      | _ => none
  | .exchange i spurious =>
      match s.notifiers[i]? with
      | some .looping =>
          match s.phase.notifyExchange, spurious with
          | some phase, false => some { s.setNotifier i .claimed with phase := phase }
          | some _, true => some s
          | none, _ => some (s.setNotifier i .idle)
      | _ => none
  | .write i =>
      match s.notifiers[i]? with
      | some .claimed => some { s.setNotifier i .idle with eventfd := s.eventfd + 1 }
      | _ => none
  | _ => none

/-- `prepare_wait`, `wait` and what they call. -/
def reactorStep (s : State) : Action → Option State
  | .beginWait =>
      if s.reactor = .idle then
        some { s with phase := s.phase.beginWait, reactor := .prepared }
      else none
  | .block =>
      match s.reactor with
      | .idle => some { s with reactor := .blocked false }
      | .prepared => some { s with reactor := .blocked true }
      | _ => none
  | .report =>
      match s.reactor with
      | .blocked _ =>
          if 0 < s.eventfd then some { s with reactor := .draining } else none
      | _ => none
  | .leave =>
      match s.reactor with
      | .blocked _ => some { s with reactor := .finishing }
      | _ => none
  | .read =>
      if s.reactor = .draining then
        if 0 < s.eventfd then
          some { s with drained := s.drained + s.eventfd, eventfd := 0 }
        else some { s with reactor := .consuming }
      else none
  | .consume =>
      if s.reactor = .consuming then
        some { s with
          phase := s.phase.consumeNotification, drained := 0, reactor := .finishing }
      else none
  | .finishLoad =>
      if s.reactor = .finishing then
        some { s with reactor := if s.phase.finishLoad then .closing else .idle }
      else none
  | .finishExchange spurious =>
      if s.reactor = .closing then
        if spurious = true ∧ s.phase = .waiting then some s
        else some { s with phase := s.phase.finishExchange, reactor := .idle }
      else none
  | _ => none

def step (s : State) (a : Action) : Option State :=
  match a with
  | .load _ | .exchange _ _ | .write _ => notifierStep s a
  | _ => reactorStep s a

def system (n : Nat) : TransitionSystem State Action where
  start := { notifiers := List.replicate n .idle }
  step := step

/-! ### Invariant -/

/-- The tokens claimed and not yet written. -/
def State.claimed (s : State) : Nat := s.notifiers.countP Notifier.isClaimed

def State.tokens (s : State) : Nat := s.claimed + s.eventfd + s.drained

structure Inv (s : State) : Prop where
  tokens : s.tokens = if s.phase = .notified then 1 else 0
  windowed : s.reactor.window = true → s.phase ≠ .running
  draining : s.reactor = .draining → s.eventfd + s.drained = 1
  consuming : s.reactor = .consuming → s.drained = 1
  drained : s.reactor ≠ .draining → s.reactor ≠ .consuming → s.drained = 0

theorem start_inv (n : Nat) : Inv (system n).start where
  tokens := by
    have hnone : (List.replicate n Notifier.idle).countP Notifier.isClaimed = 0 := by
      rw [List.countP_replicate]
      rfl
    rw [State.tokens, State.claimed]
    change (List.replicate n Notifier.idle).countP Notifier.isClaimed + 0 + 0 = 0
    rw [hnone]
  windowed := nofun
  draining := nofun
  consuming := nofun
  drained := fun _ _ => rfl

theorem claimed_setNotifier {s : State} {i : Nat} {old : Notifier}
    (hi : s.notifiers[i]? = some old) (new : Notifier) :
    (s.setNotifier i new).claimed + old.isClaimed.toNat =
      s.claimed + new.isClaimed.toNat := by
  obtain ⟨hlt, hget⟩ := List.getElem?_eq_some_iff.mp hi
  have hset := Inventory.countP_set hlt Notifier.isClaimed new old
  rwa [List.getD_eq_getElem _ _ hlt, hget] at hset

theorem Inv.tokens_le {s : State} (hs : Inv s) : s.tokens ≤ 1 := by
  rw [hs.tokens]
  split <;> omega

/-- A notifier moves on without a token. -/
theorem Inv.pass {s : State} (hs : Inv s) {i : Nat} {old new : Notifier}
    (hi : s.notifiers[i]? = some old) (hold : old.isClaimed = false)
    (hnew : new.isClaimed = false) : Inv (s.setNotifier i new) := by
  have hclaimed := claimed_setNotifier hi new
  rw [hold, hnew] at hclaimed
  exact { hs with
    tokens := by
      have htokens := hs.tokens
      rw [State.tokens] at htokens ⊢
      change (s.setNotifier i new).claimed + s.eventfd + s.drained =
        if s.phase = .notified then 1 else 0
      omega }

/-- The exchange in `notify` creates the token. -/
theorem Inv.claim {s : State} (hs : Inv s) {i : Nat}
    (hi : s.notifiers[i]? = some .looping) (hphase : s.phase = .waiting) :
    Inv { s.setNotifier i .claimed with phase := .notified } := by
  have hclaimed := claimed_setNotifier hi .claimed
  have htokens := hs.tokens
  rw [State.tokens, hphase, if_neg nofun] at htokens
  have hone : Notifier.claimed.isClaimed.toNat = 1 := rfl
  have hzero : Notifier.looping.isClaimed.toNat = 0 := rfl
  constructor
  case tokens =>
    rw [State.tokens]
    change (s.setNotifier i .claimed).claimed + s.eventfd + s.drained = 1
    omega
  case windowed => exact fun _ => nofun
  case draining =>
    intro hreactor
    have hdraining := hs.draining hreactor
    omega
  case consuming =>
    intro hreactor
    have hconsuming := hs.consuming hreactor
    omega
  case drained => exact hs.drained

/-- The write hands the token to the eventfd. -/
theorem Inv.write {s : State} (hs : Inv s) {i : Nat}
    (hi : s.notifiers[i]? = some .claimed) :
    Inv { s.setNotifier i .idle with eventfd := s.eventfd + 1 } := by
  have hclaimed := claimed_setNotifier hi .idle
  have hle := hs.tokens_le
  have htokens := hs.tokens
  rw [State.tokens] at hle htokens
  have hone : Notifier.claimed.isClaimed.toNat = 1 := rfl
  have hzero : Notifier.idle.isClaimed.toNat = 0 := rfl
  constructor
  case tokens =>
    rw [State.tokens]
    change (s.setNotifier i .idle).claimed + (s.eventfd + 1) + s.drained =
      if s.phase = .notified then 1 else 0
    omega
  case windowed => exact hs.windowed
  case draining =>
    intro hreactor
    have hdraining := hs.draining hreactor
    omega
  case consuming => exact hs.consuming
  case drained => exact hs.drained

theorem notifierStep_inv {s t : State} (hs : Inv s) {a : Action}
    (hstep : notifierStep s a = some t) : Inv t := by
  cases a with
  | load j =>
      simp only [notifierStep] at hstep
      split at hstep
      next hi =>
        split at hstep
        · cases hstep
          exact hs.pass hi rfl rfl
        · cases hstep
          exact hs.pass hi rfl rfl
      next => nomatch hstep
  | exchange j spurious =>
      simp only [notifierStep] at hstep
      split at hstep
      next hi =>
        split at hstep
        next hexchange =>
          cases hstep
          cases hphase : s.phase with
          | waiting =>
              rw [hphase] at hexchange
              cases hexchange
              exact hs.claim hi hphase
          | running | notified =>
              rw [hphase] at hexchange
              nomatch hexchange
        next =>
          cases hstep
          exact hs
        next =>
          cases hstep
          exact hs.pass hi rfl rfl
      next => nomatch hstep
  | write j =>
      simp only [notifierStep] at hstep
      split at hstep
      next hi =>
        cases hstep
        exact hs.write hi
      next => nomatch hstep
  | _ => nomatch hstep

/-- The reactor holds no token here. -/
def Reactor.isCalm : Reactor → Bool
  | .draining | .consuming => false
  | _ => true

theorem Reactor.isCalm_iff {reactor : Reactor} :
    reactor.isCalm = true ↔ reactor ≠ .draining ∧ reactor ≠ .consuming := by
  cases reactor <;> simp [isCalm]

/-- A step of the reactor without a token. -/
theorem Inv.move {s : State} (hs : Inv s) {phase : Phase} {reactor : Reactor}
    (hbefore : s.reactor.isCalm = true) (hafter : reactor.isCalm = true)
    (hphase : phase = .notified ↔ s.phase = .notified)
    (hwindow : reactor.window = true → phase ≠ .running) :
    Inv { s with phase := phase, reactor := reactor } := by
  obtain ⟨hdraining, hconsuming⟩ := Reactor.isCalm_iff.mp hbefore
  obtain ⟨hdraining', hconsuming'⟩ := Reactor.isCalm_iff.mp hafter
  constructor
  case tokens =>
    have htokens := hs.tokens
    rw [← if_congr hphase rfl rfl] at htokens
    exact htokens
  case windowed => exact hwindow
  case draining => exact fun hreactor => absurd hreactor hdraining'
  case consuming => exact fun hreactor => absurd hreactor hconsuming'
  case drained => exact fun _ _ => hs.drained hdraining hconsuming

/-- The eventfd is only reported when it holds the token. -/
theorem Inv.report {s : State} (hs : Inv s) {window : Bool}
    (hreactor : s.reactor = .blocked window) (hpos : 0 < s.eventfd) :
    Inv { s with reactor := .draining } where
  tokens := hs.tokens
  windowed := nofun
  draining := by
    intro _
    have hle := hs.tokens_le
    have hzero := hs.drained (by rw [hreactor]; nofun) (by rw [hreactor]; nofun)
    rw [State.tokens] at hle
    change s.eventfd + s.drained = 1
    omega
  consuming := nofun
  drained := fun hnot _ => absurd rfl hnot

theorem Inv.read {s : State} (hs : Inv s) (hreactor : s.reactor = .draining) :
    Inv { s with drained := s.drained + s.eventfd, eventfd := 0 } where
  tokens := by
    have htokens := hs.tokens
    rw [State.tokens] at htokens ⊢
    change s.claimed + 0 + (s.drained + s.eventfd) =
      if s.phase = .notified then 1 else 0
    omega
  windowed := hs.windowed
  draining := by
    intro _
    have hone := hs.draining hreactor
    change 0 + (s.drained + s.eventfd) = 1
    omega
  consuming := by
    intro hconsuming
    cases hreactor.symm.trans hconsuming
  drained := fun hnot _ => absurd hreactor hnot

theorem Inv.empty {s : State} (hs : Inv s) (hreactor : s.reactor = .draining)
    (hzero : s.eventfd = 0) : Inv { s with reactor := .consuming } where
  tokens := hs.tokens
  windowed := nofun
  draining := nofun
  consuming := by
    intro _
    have hone := hs.draining hreactor
    change s.drained = 1
    omega
  drained := fun _ hnot => absurd rfl hnot

/-- What was drained is the one token, so the phase may be set back. -/
theorem Inv.consume {s : State} (hs : Inv s) (hreactor : s.reactor = .consuming) :
    Inv { s with phase := .running, drained := 0, reactor := .finishing } where
  tokens := by
    have hone := hs.consuming hreactor
    have hle := hs.tokens_le
    rw [State.tokens] at hle ⊢
    change s.claimed + s.eventfd + 0 = 0
    omega
  windowed := nofun
  draining := nofun
  consuming := nofun
  drained := fun _ _ => rfl

theorem reactorStep_inv {s t : State} (hs : Inv s) {a : Action}
    (hstep : reactorStep s a = some t) : Inv t := by
  cases a with
  | beginWait =>
      simp only [reactorStep] at hstep
      split at hstep
      next hidle =>
        cases hstep
        exact hs.move (by rw [hidle]; rfl) rfl Phase.beginWait_eq_notified
          fun _ => Phase.beginWait_ne_running s.phase
      next => nomatch hstep
  | block =>
      simp only [reactorStep] at hstep
      split at hstep
      next hidle =>
        cases hstep
        exact hs.move (by rw [hidle]; rfl) rfl Iff.rfl nofun
      next hprepared =>
        cases hstep
        exact hs.move (by rw [hprepared]; rfl) rfl Iff.rfl
          fun _ => hs.windowed (by rw [hprepared]; rfl)
      next => nomatch hstep
  | report =>
      simp only [reactorStep] at hstep
      split at hstep
      next hblocked =>
        split at hstep
        next hpos =>
          cases hstep
          exact hs.report hblocked hpos
        next => nomatch hstep
      next => nomatch hstep
  | leave =>
      simp only [reactorStep] at hstep
      split at hstep
      next hblocked =>
        cases hstep
        exact hs.move (by rw [hblocked]; rfl) rfl Iff.rfl nofun
      next => nomatch hstep
  | read =>
      simp only [reactorStep] at hstep
      split at hstep
      next hdraining =>
        split at hstep
        · cases hstep
          exact hs.read hdraining
        next hzero =>
          cases hstep
          exact hs.empty hdraining (Nat.eq_zero_of_not_pos hzero)
      next => nomatch hstep
  | consume =>
      simp only [reactorStep] at hstep
      split at hstep
      next hconsuming =>
        cases hstep
        exact hs.consume hconsuming
      next => nomatch hstep
  | finishLoad =>
      simp only [reactorStep] at hstep
      split at hstep
      next hfinishing =>
        cases hstep
        refine hs.move (by rw [hfinishing]; rfl) ?_ Iff.rfl ?_
        · split <;> rfl
        · split <;> nofun
      next => nomatch hstep
  | finishExchange spurious =>
      simp only [reactorStep] at hstep
      split at hstep
      next hclosing =>
        split at hstep
        · cases hstep
          exact hs
        · cases hstep
          exact hs.move (by rw [hclosing]; rfl) rfl Phase.finishExchange_eq_notified
            nofun
      next => nomatch hstep
  | load | exchange | write => nomatch hstep

theorem step_inv {s t : State} (hs : Inv s) {a : Action} (hstep : step s a = some t) :
    Inv t := by
  unfold step at hstep
  split at hstep
  · exact notifierStep_inv hs hstep
  · exact notifierStep_inv hs hstep
  · exact notifierStep_inv hs hstep
  · exact reactorStep_inv hs hstep

theorem inv_of_reachable {n : Nat} {s : State} (hs : (system n).Reachable s) : Inv s :=
  hs.invariant (start_inv n) fun _ _ _ hinv hstep => step_inv hinv hstep

/-! ### The end of a `notify` -/

/-- The action is a step of this thread in `notify`. -/
def Action.isNotify : Action → Nat → Bool
  | .load i, j => i == j
  | .exchange i _, j => i == j
  | _, _ => false

/-- In an open window a `notify` that returns has found or left the phase `notified`. -/
theorem notify_effective {s t : State} (hs : Inv s) (hwindow : s.reactor.window = true)
    {a : Action} {i : Nat} (hnotify : a.isNotify i = true) (hstep : step s a = some t)
    (hreturned : t.notifiers[i]? ≠ some .looping) : t.phase = .notified := by
  have hphase := hs.windowed hwindow
  cases a with
  | load j =>
      obtain rfl := of_decide_eq_true hnotify
      simp only [step, notifierStep] at hstep
      split at hstep
      next hi =>
        obtain ⟨hlt, -⟩ := List.getElem?_eq_some_iff.mp hi
        split at hstep
        next =>
          cases hstep
          exact absurd (List.getElem?_set_self hlt) hreturned
        next hload =>
          cases hstep
          change s.phase = .notified
          cases hnow : s.phase with
          | running => exact absurd hnow hphase
          | waiting => exact absurd (Phase.notifyLoad_eq_true.mpr hnow) hload
          | notified => rfl
      next => nomatch hstep
  | exchange j spurious =>
      obtain rfl := of_decide_eq_true hnotify
      simp only [step, notifierStep] at hstep
      split at hstep
      next hi =>
        split at hstep
        next hexchange =>
          cases hstep
          cases hnow : s.phase with
          | waiting =>
              rw [hnow] at hexchange
              cases hexchange
              rfl
          | running | notified =>
              rw [hnow] at hexchange
              nomatch hexchange
        next =>
          cases hstep
          exact absurd hi hreturned
        next hexchange =>
          cases hstep
          change s.phase = .notified
          cases hnow : s.phase with
          | running => exact absurd hnow hphase
          | waiting =>
              rw [hnow] at hexchange
              nomatch hexchange
          | notified => rfl
      next => nomatch hstep
  | write | beginWait | block | report | leave | read | consume | finishLoad
  | finishExchange => nomatch hnotify

/-- A claimed token stays one until the reactor consumes it. -/
theorem notified_kept {s t : State} {a : Action} (hphase : s.phase = .notified)
    (hstep : step s a = some t) : t.phase = .notified ∨ s.reactor = .consuming := by
  cases a with
  | load j =>
      simp only [step, notifierStep] at hstep
      split at hstep
      · split at hstep
        · cases hstep
          exact .inl hphase
        · cases hstep
          exact .inl hphase
      · nomatch hstep
  | exchange j spurious =>
      simp only [step, notifierStep, hphase, Phase.notifyExchange] at hstep
      split at hstep
      · cases hstep
        exact .inl hphase
      · nomatch hstep
  | write j =>
      simp only [step, notifierStep] at hstep
      split at hstep
      · cases hstep
        exact .inl hphase
      · nomatch hstep
  | beginWait =>
      simp only [step, reactorStep] at hstep
      split at hstep
      · cases hstep
        exact .inl (Phase.beginWait_eq_notified.mpr hphase)
      · nomatch hstep
  | consume =>
      simp only [step, reactorStep] at hstep
      split at hstep
      next hconsuming => exact .inr hconsuming
      next => nomatch hstep
  | finishExchange spurious =>
      simp only [step, reactorStep] at hstep
      split at hstep
      · split at hstep
        · cases hstep
          exact .inl hphase
        · cases hstep
          exact .inl (Phase.finishExchange_eq_notified.mpr hphase)
      · nomatch hstep
  | block | report | leave | read | finishLoad =>
      simp only [step, reactorStep] at hstep
      repeat' split at hstep
      all_goals cases hstep
      all_goals exact .inl hphase

/-- With all writes done, a claimed token is in the eventfd as long as the reactor is
not reading it. -/
theorem Inv.eventfd_eq_one {s : State} (hs : Inv s) (hphase : s.phase = .notified)
    (hcalm : s.reactor.isCalm = true) (hwritten : ∀ notifier ∈ s.notifiers,
      notifier.isClaimed = false) : s.eventfd = 1 := by
  obtain ⟨hdraining, hconsuming⟩ := Reactor.isCalm_iff.mp hcalm
  have hzero := hs.drained hdraining hconsuming
  have htokens := hs.tokens
  have hclaimed : s.claimed = 0 :=
    List.countP_eq_zero.mpr fun notifier hmem => by
      rw [hwritten notifier hmem]
      nofun
  rw [State.tokens, hphase, if_pos rfl] at htokens
  omega

/-- In every run there is one token when the phase is `notified` and none otherwise, and
the eventfd counter is at most 1.  A `notify` that returns in the window of a wait
leaves the phase `notified`; it stays so until the reactor consumes the token, and once
the write is done the eventfd is readable, so the wait ends. -/
theorem wake_token_unique {n : Nat} {s : State} (hs : (system n).Reachable s) :
    (s.phase = .notified ↔ s.tokens = 1) ∧ (s.phase ≠ .notified ↔ s.tokens = 0) ∧
    s.eventfd ≤ 1 ∧
    (s.reactor.window = true → ∀ a i t, a.isNotify i = true → step s a = some t →
      t.notifiers[i]? ≠ some .looping → t.phase = .notified) ∧
    (s.phase = .notified → ∀ a t, step s a = some t →
      t.phase = .notified ∨ s.reactor = .consuming) ∧
    (s.reactor = .blocked true → s.phase = .notified →
      (∀ notifier ∈ s.notifiers, notifier.isClaimed = false) →
      s.eventfd = 1 ∧ (step s .report).isSome = true) := by
  have hinv := inv_of_reachable hs
  have htokens := hinv.tokens
  refine ⟨?_, ?_, ?_, ?_, fun hphase a t => notified_kept hphase, ?_⟩
  · split at htokens
    next hphase => exact ⟨fun _ => htokens, fun _ => hphase⟩
    next hphase => exact ⟨fun hnotified => absurd hnotified hphase, fun _ => by omega⟩
  · split at htokens
    next hphase => exact ⟨fun hnot => absurd hphase hnot, fun _ => by omega⟩
    next hphase => exact ⟨fun _ => htokens, fun _ => hphase⟩
  · have hle := hinv.tokens_le
    rw [State.tokens] at hle
    omega
  · intro hwindow a i t hnotify hstep hreturned
    exact notify_effective hinv hwindow hnotify hstep hreturned
  · intro hblocked hphase hwritten
    have hone := hinv.eventfd_eq_one hphase (by rw [hblocked]; rfl) hwritten
    refine ⟨hone, ?_⟩
    simp only [step, reactorStep, hblocked, hone]
    rfl

theorem wake_token_unique_notified :
    ∃ s : State, (s.phase = .notified ∧ s.reactor = .blocked true) ∧
      (s.phase = .notified ↔ s.tokens = 1) := by
  obtain ⟨s, hs, hp⟩ := TransitionSystem.exists_reachable_of_exec (system 2)
    [Action.beginWait, .block, .load 0, .load 1, .exchange 1 false, .exchange 0 false]
    (fun s => decide (s.phase = .notified ∧ s.reactor = .blocked true)) (by decide)
  exact ⟨s, of_decide_eq_true hp, (wake_token_unique hs).1⟩

end WakeToken

end Iocoro
