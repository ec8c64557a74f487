/-
The waits of a stream socket stay apart.  Each `op_state` belongs to the call that has
set `active`, and the registry stores waits of calls that wait, in every run; that a
write and a connect do not meet in one slot holds as long as no `::connect` is left to
wait while a write is under way on its resource.
-/
import Iocoro.StreamWaits

namespace Iocoro

namespace StreamWaits

/-! ### The invariants -/

/-- In every run: the call that is between `try_start` and `finish` is the one that has
set `active`, a connect is only attempted while the socket is not connected, and the
registry stores waits of calls that wait. -/
structure Inv (s : State) : Prop where
  callOk : ∀ (i : Nat) (c : Call), s.calls[i]? = some c → CallOk c
  active : ∀ (i : Nat) (c : Call), s.calls[i]? = some c → c.pc.holds = true →
    (s.shared.ops c.op).active = true
  unique : ∀ (i j : Nat) (c d : Call), s.calls[i]? = some c → s.calls[j]? = some d →
    c.op = d.op → c.pc.holds = true → d.pc.holds = true → i = j
  attempt : ∀ (i : Nat) (c : Call), s.calls[i]? = some c → c.op = .connect →
    c.pc.attempting = true → s.shared.connState ≠ .connected
  stored : ∀ (n : Nat) (kind : FdEventKind) (i : Nat),
    (s.shared.registry.slotAt n kind).op = some i → ∃ (c : Call) (held : Held),
      s.calls[i]? = some c ∧ c.pc = .waiting held ∧ held.res = n ∧ c.op.kind = kind

/-- No connect is about to wait, or waits, on the resource of a write. -/
structure Apart (s : State) : Prop where
  apart : ∀ (i j : Nat) (c d : Call) (n : Nat), s.calls[i]? = some c →
    s.calls[j]? = some d → c.op = .write → d.op = .connect → c.pc.seen = some n →
    d.pc.blocked ≠ some n
  unreplaced : s.shared.replaced = []

theorem Pc.holds_of_blocked {pc : Pc} {n : Nat} (hblocked : pc.blocked = some n) :
    pc.holds = true := by
  cases pc with
  | waitGuard | register | waiting => rfl
  | _ => nomatch hblocked

theorem Pc.attempting_of_blocked {pc : Pc} {n : Nat} (hblocked : pc.blocked = some n) :
    pc.attempting = true := by
  cases pc with
  | waitGuard | register | waiting => rfl
  | _ => nomatch hblocked

theorem Pc.seen_of_blocked {pc : Pc} {n : Nat} (hblocked : pc.blocked = some n) :
    pc.seen = some n := by
  cases pc with
  | waitGuard | register | waiting => exact hblocked
  | _ => nomatch hblocked

/-- What a step leaves of a call that does not take part in it. -/
structure Call.Below (c d : Call) : Prop where
  op : c.op = d.op
  starts : c.starts = d.starts
  holds : c.pc.holds = d.pc.holds
  seen : c.pc.seen = d.pc.seen
  attempting : c.pc.attempting = d.pc.attempting
  blocked : ∀ n, c.pc.blocked = some n → d.pc.blocked = some n
  callOk : CallOk d → CallOk c

theorem Call.Below.refl (c : Call) : c.Below c where
  op := rfl
  starts := rfl
  holds := rfl
  seen := rfl
  attempting := rfl
  blocked := fun _ h => h
  callOk := id

theorem Call.wake_below (c : Call) (ec : ErrorCode) : (c.wake ec).Below c := by
  rw [Call.wake]
  split
  · next held hpc =>
      exact
        { op := rfl
          starts := rfl
          holds := by rw [hpc]; rfl
          seen := by rw [hpc]; rfl
          attempting := by rw [hpc]; rfl
          blocked := nofun
          callOk := fun hc =>
            { count := by rw [hc.count, hpc]; rfl
              once := hc.once
              entering := nofun
              ofConnect := nofun
              refused := nofun } }
  · exact .refl c

variable {s t : State}

theorem calls_wake {op : Option Nat} {ec : ErrorCode} {i : Nat} {c : Call}
    (hcall : (s.wake op ec).calls[i]? = some c) :
    ∃ d, s.calls[i]? = some d ∧ c.Below d := by
  cases op with
  | none => exact ⟨c, hcall, .refl c⟩
  | some j =>
      rw [State.wake, List.getElem?_modify] at hcall
      obtain ⟨d, hd, rfl⟩ := Option.map_eq_some_iff.mp hcall
      refine ⟨d, hd, ?_⟩
      split
      · exact d.wake_below ec
      · exact .refl d

/-- A call other than the woken one stays as it is. -/
theorem calls_wake_ne {op : Option Nat} (ec : ErrorCode) {i : Nat} (hi : op ≠ some i) :
    (s.wake op ec).calls[i]? = s.calls[i]? := by
  cases op with
  | none => rfl
  | some j =>
      have hj : j ≠ i := fun h => hi (congrArg some h)
      rw [State.wake, List.getElem?_modify]
      simp only [hj, ↓reduceIte, id_map']

@[simp] theorem wake_shared (op : Option Nat) (ec : ErrorCode) :
    (s.wake op ec).shared = s.shared := by
  cases op with
  | none => rfl
  | some j => rfl

/-- A wait that is no longer stored is woken. -/
theorem Inv.wake (hs : Inv s) {op : Option Nat} (ec : ErrorCode)
    (hgone : ∀ i n kind, op = some i → (s.shared.registry.slotAt n kind).op ≠ some i) :
    Inv (s.wake op ec) where
  callOk := by
    intro i c hc
    obtain ⟨d, hd, hbelow⟩ := calls_wake hc
    exact hbelow.callOk (hs.callOk i d hd)
  active := by
    intro i c hc hholds
    obtain ⟨d, hd, hbelow⟩ := calls_wake hc
    rw [wake_shared, hbelow.op]
    exact hs.active i d hd (hbelow.holds ▸ hholds)
  unique := by
    intro i j c d hc hd hop hcholds hdholds
    obtain ⟨c', hc', hcbelow⟩ := calls_wake hc
    obtain ⟨d', hd', hdbelow⟩ := calls_wake hd
    exact hs.unique i j c' d' hc' hd' (hcbelow.op ▸ hdbelow.op ▸ hop)
      (hcbelow.holds ▸ hcholds) (hdbelow.holds ▸ hdholds)
  attempt := by
    intro i c hc hop hattempting
    obtain ⟨d, hd, hbelow⟩ := calls_wake hc
    rw [wake_shared]
    exact hs.attempt i d hd (hbelow.op ▸ hop) (hbelow.attempting ▸ hattempting)
  stored := by
    intro n kind i hstored
    rw [wake_shared] at hstored
    obtain ⟨c, held, hc, hwaits⟩ := hs.stored n kind i hstored
    refine ⟨c, held, ?_, hwaits⟩
    rw [calls_wake_ne ec fun hop => hgone i n kind hop hstored]
    exact hc

theorem Apart.wake (hs : Apart s) (op : Option Nat) (ec : ErrorCode) :
    Apart (s.wake op ec) where
  apart := by
    intro i j c d n hc hd hwrite hconnect hseen hblocked
    obtain ⟨c', hc', hcbelow⟩ := calls_wake hc
    obtain ⟨d', hd', hdbelow⟩ := calls_wake hd
    exact hs.apart i j c' d' n hc' hd' (hcbelow.op ▸ hwrite) (hdbelow.op ▸ hconnect)
      (hcbelow.seen ▸ hseen) (hdbelow.blocked n hblocked)
  unreplaced := by
    rw [wake_shared]
    exact hs.unreplaced

/-- A wait is stored in one place. -/
theorem Inv.place (hs : Inv s) {n m : Nat} {kind other : FdEventKind} {i : Nat}
    (hstored : (s.shared.registry.slotAt n kind).op = some i)
    (hother : (s.shared.registry.slotAt m other).op = some i) :
    n = m ∧ kind = other := by
  obtain ⟨c, held, hc, hpc, hres, hkind⟩ := hs.stored n kind i hstored
  obtain ⟨c', held', hc', hpc', hres', hkind'⟩ := hs.stored m other i hother
  rw [hc] at hc'
  cases hc'
  rw [hpc] at hpc'
  cases hpc'
  exact ⟨hres.symm.trans hres', hkind.symm.trans hkind'⟩

section Commit

variable {i : Nat} {c : Call} {may : Nat → Prop} {effect : Effect} {pc : Pc}

theorem calls_commit {j : Nat} {d : Call}
    (hd : (s.commit i c effect pc).calls[j]? = some d) :
    i = j ∧ d = c.move effect pc ∨ i ≠ j ∧ s.calls[j]? = some d := by
  rw [State.commit, List.getElem?_set] at hd
  split at hd
  · next hj =>
      split at hd
      · exact .inl ⟨hj, (Option.some.inj hd).symm⟩
      · nomatch hd
  · next hj => exact .inr ⟨hj, hd⟩

theorem Call.move_quiet (hquiet : effect.quiet = true) :
    c.move effect pc = { c with pc := pc } := by
  cases effect with
  | none | lock | unlock | leave => rfl
  | start | store | register | finish => nomatch hquiet

/-- A step that leaves the counts alone. -/
theorem CallOk.keep (hc : CallOk c) (hholds : pc.holds = c.pc.holds)
    (hentering : pc.entering = true → c.pc.entering = true)
    (hconnect : pc.ofConnect = true → c.op = .connect)
    (hrefused : ∀ result, pc = .returned result → result.refusal = true) :
    CallOk { c with pc := pc } where
  count := by
    rw [hholds]
    exact hc.count
  once := hc.once
  entering := fun h => hc.entering (hentering h)
  ofConnect := hconnect
  refused := fun result _ hpc => hrefused result hpc

theorem CallOk.move (hc : CallOk c) (hstep : CallStep s.shared i c may effect pc) :
    CallOk (c.move effect pc) := by
  cases hstep with
  | walk hquiet hwalk =>
      rw [Call.move_quiet hquiet]
      exact hc.keep hwalk.holds hwalk.entering hwalk.ofConnect hwalk.refused
  | start hpc hidle =>
      have hstarts := hc.entering (by rw [hpc]; rfl)
      have hcount := hc.count
      rw [hpc] at hcount
      simp only [Pc.holds, Bool.toNat_false] at hcount
      exact
        { count := by
            change c.starts + 1 = c.finishes + 1
            omega
          once := by
            change c.starts + 1 ≤ 1
            omega
          entering := nofun
          ofConnect := nofun
          refused := nofun }
  | connecting hpc =>
      have hconnect := hc.ofConnect (by rw [hpc]; rfl)
      exact hc.keep (by rw [hpc]; rfl) nofun (fun _ => hconnect) nofun
  | store hpc => exact hc.keep (by rw [hpc]; rfl) nofun nofun nofun
  | ready hpc hready => exact hc.keep (by rw [hpc]; rfl) nofun nofun nofun
  | register hpc hready => exact hc.keep (by rw [hpc]; rfl) nofun nofun nofun
  | finish hpc =>
      have hcount := hc.count
      rw [hpc] at hcount
      simp only [Pc.holds, Bool.toNat_true] at hcount
      exact
        { count := by
            change c.starts = c.finishes + 1 + 0
            omega
          once := hc.once
          entering := nofun
          ofConnect := nofun
          refused := by
            intro result hstarts
            change c.starts = 0 at hstarts
            omega }

theorem CallStep.holds (hstep : CallStep s.shared i c may effect pc)
    (hstart : effect ≠ .start) (hholds : pc.holds = true) : c.pc.holds = true := by
  cases hstep with
  | walk _ hwalk => exact hwalk.holds ▸ hholds
  | start => exact absurd rfl hstart
  | connecting hpc | store hpc | ready hpc | register hpc =>
      rw [hpc]
      rfl
  | finish => nomatch hholds

theorem Shared.apply_ops (x : Shared) (i : Nat) (c : Call) (hstart : effect ≠ .start)
    (hfinish : effect ≠ .finish) : (x.apply i c effect).ops = x.ops := by
  cases effect with
  | none | lock | unlock | leave | store | register => rfl
  | start => exact absurd rfl hstart
  | finish => exact absurd rfl hfinish

theorem Shared.setActive_active (x : Shared) (op other : Op) (active : Bool) :
    ((x.setActive op active).ops other).active =
      if other = op then active else (x.ops other).active := by
  change (Function.update x.ops op _ other).active = _
  rw [Function.update_apply]
  split
  · rfl
  · rfl

theorem Inv.commit_active (hs : Inv s) (hc : s.calls[i]? = some c)
    (hstep : CallStep s.shared i c may effect pc) (j : Nat) (d : Call)
    (hd : (s.commit i c effect pc).calls[j]? = some d) (hholds : d.pc.holds = true) :
    ((s.shared.apply i c effect).ops d.op).active = true := by
  by_cases hstart : effect = .start
  · subst hstart
    rw [Shared.apply, Shared.setActive_active]
    rcases calls_commit hd with ⟨_, rfl⟩ | ⟨_, hd⟩
    · exact if_pos rfl
    · split
      · rfl
      · exact hs.active j d hd hholds
  · by_cases hfinish : effect = .finish
    · subst hfinish
      rw [Shared.apply, Shared.setActive_active]
      have hcholds : c.pc.holds = true := by
        cases hstep with
        | walk hquiet => nomatch hquiet
        | finish hpc =>
            rw [hpc]
            rfl
      rcases calls_commit hd with ⟨_, rfl⟩ | ⟨hj, hd⟩
      · cases hstep with
        | walk hquiet => nomatch hquiet
        | finish hpc => nomatch hholds
      · rw [if_neg fun hop => hj (hs.unique i j c d hc hd hop.symm hcholds hholds)]
        exact hs.active j d hd hholds
    · rw [Shared.apply_ops _ _ _ hstart hfinish]
      rcases calls_commit hd with ⟨_, rfl⟩ | ⟨_, hd⟩
      · exact hs.active i c hc (hstep.holds hstart hholds)
      · exact hs.active j d hd hholds

/-- A call that comes to hold its operation finds no other one inside. -/
theorem Inv.commit_enters (hs : Inv s) (hc : s.calls[i]? = some c)
    (hstep : CallStep s.shared i c may effect pc) (hholds : pc.holds = true) {j : Nat}
    {d : Call} (hd : s.calls[j]? = some d) (hop : c.op = d.op)
    (hdholds : d.pc.holds = true) : i = j := by
  by_cases hstart : effect = .start
  · subst hstart
    cases hstep with
    | walk hquiet => nomatch hquiet
    | start hpc hidle =>
        rw [hop, hs.active j d hd hdholds] at hidle
        nomatch hidle
  · exact hs.unique i j c d hc hd hop (hstep.holds hstart hholds) hdholds

theorem Inv.commit_unique (hs : Inv s) (hc : s.calls[i]? = some c)
    (hstep : CallStep s.shared i c may effect pc) (j k : Nat) (d e : Call)
    (hd : (s.commit i c effect pc).calls[j]? = some d)
    (he : (s.commit i c effect pc).calls[k]? = some e) (hop : d.op = e.op)
    (hdholds : d.pc.holds = true) (heholds : e.pc.holds = true) : j = k := by
  rcases calls_commit hd with ⟨rfl, rfl⟩ | ⟨_, hd⟩
  · rcases calls_commit he with ⟨rfl, _⟩ | ⟨_, he⟩
    · rfl
    · exact hs.commit_enters hc hstep hdholds he hop heholds
  · rcases calls_commit he with ⟨rfl, rfl⟩ | ⟨_, he⟩
    · exact (hs.commit_enters hc hstep heholds hd hop.symm hdholds).symm
    · exact hs.unique j k d e hd he hop hdholds heholds

theorem Shared.apply_quiet (x : Shared) (i : Nat) (c : Call)
    (hquiet : effect.quiet = true) :
    (x.apply i c effect).connState = x.connState ∧
      (x.apply i c effect).registry = x.registry ∧
      (x.apply i c effect).replaced = x.replaced := by
  cases effect with
  | none | lock | unlock | leave => exact ⟨rfl, rfl, rfl⟩
  | start | store | register | finish => nomatch hquiet

theorem Inv.commit_attempt (hs : Inv s) (hc : s.calls[i]? = some c)
    (hstep : CallStep s.shared i c may effect pc) (j : Nat) (d : Call)
    (hd : (s.commit i c effect pc).calls[j]? = some d) (hop : d.op = .connect)
    (hattempting : d.pc.attempting = true) :
    (s.shared.apply i c effect).connState ≠ .connected := by
  rcases calls_commit hd with ⟨_, rfl⟩ | ⟨hj, hold⟩
  · cases hstep with
    | walk hquiet hwalk =>
        rw [(s.shared.apply_quiet i c hquiet).1]
        exact hs.attempt i c hc hop (hwalk.attempting hop hattempting)
    | connecting => nofun
    | ready hpc | register hpc => exact hs.attempt i c hc hop (by rw [hpc]; rfl)
    | start | store | finish => nomatch hattempting
  · have hkeep := hs.attempt j d hold hop hattempting
    cases hstep with
    | walk hquiet hwalk =>
        rw [(s.shared.apply_quiet i c hquiet).1]
        exact hkeep
    | connecting => nofun
    | store hpc =>
        have hconnect := (hs.callOk i c hc).ofConnect (by rw [hpc]; rfl)
        exact absurd (hs.unique i j c d hc hold (hconnect.trans hop.symm)
          (by rw [hpc]; rfl) (Pc.holds_of_attempting hattempting)) hj
    | start | ready | register | finish => exact hkeep

/-- A wait that was stored is still that of a waiting call. -/
theorem Inv.commit_waits (hs : Inv s) (hc : s.calls[i]? = some c)
    (hawake : ∀ held, c.pc ≠ .waiting held) {n : Nat} {kind : FdEventKind} {j : Nat}
    (hstored : (s.shared.registry.slotAt n kind).op = some j) :
    ∃ (d : Call) (held : Held), (s.commit i c effect pc).calls[j]? = some d ∧
      d.pc = .waiting held ∧ held.res = n ∧ d.op.kind = kind := by
  obtain ⟨d, held, hd, hpc, hwaits⟩ := hs.stored n kind j hstored
  have hj : i ≠ j := by
    rintro rfl
    rw [hc] at hd
    cases hd
    exact hawake held hpc
  refine ⟨d, held, ?_, hpc, hwaits⟩
  rw [State.commit, List.getElem?_set_ne hj]
  exact hd

/-- A call that does not wait is not stored. -/
theorem Inv.not_stores (hs : Inv s) (hc : s.calls[i]? = some c)
    (hawake : ∀ held, c.pc ≠ .waiting held) : ¬ s.shared.registry.Stores i := by
  rintro ⟨n, kind, hstored⟩
  obtain ⟨d, held, hd, hpc, _⟩ := hs.stored n kind i hstored
  rw [hc] at hd
  cases hd
  exact hawake held hpc

theorem Inv.commit_stored (hs : Inv s) (hc : s.calls[i]? = some c)
    (hstep : CallStep s.shared i c may effect pc) (n : Nat) (kind : FdEventKind)
    (j : Nat)
    (hstored : ((s.shared.apply i c effect).registry.slotAt n kind).op = some j) :
    ∃ (d : Call) (held : Held), (s.commit i c effect pc).calls[j]? = some d ∧
      d.pc = .waiting held ∧ held.res = n ∧ d.op.kind = kind := by
  have hregister : ∀ res : Nat,
      ((s.shared.register i c res).1.slotAt n kind).op = some j → j ≠ i →
      (s.shared.registry.slotAt n kind).op = some j := fun res hnew hj =>
    (s.shared.registry.registerImpl_removes (Int.natCast_nonneg _) hj _ hnew).1
  cases hstep with
  | walk hquiet hwalk =>
      rw [(s.shared.apply_quiet i c hquiet).2.1] at hstored
      exact hs.commit_waits hc hwalk.awake hstored
  | ready hpc hready =>
      have hawake : ∀ held, c.pc ≠ .waiting held := by rw [hpc]; nofun
      refine hs.commit_waits hc hawake (hregister _ hstored ?_)
      rintro rfl
      have hlatched := (s.shared.registry.registerImpl_stored (Int.natCast_nonneg _)
        (hs.not_stores hc hawake) _ hstored).2.2.1
      rw [Shared.register,
        s.shared.registry.registerImpl_readyNow (Int.natCast_nonneg _),
        hlatched] at hready
      nomatch hready
  | @register held hpc hready =>
      have hawake : ∀ held, c.pc ≠ .waiting held := by rw [hpc]; nofun
      by_cases hj : j = i
      · subst hj
        obtain ⟨hn, hkind, _⟩ := s.shared.registry.registerImpl_stored
          (Int.natCast_nonneg _) (hs.not_stores hc hawake) _ hstored
        refine ⟨c.move (.register held.res) (.waiting held), held, ?_, rfl, ?_,
          hkind.symm⟩
        · rw [State.commit, List.getElem?_set_self (List.getElem?_eq_some_iff.mp hc).1]
        · rw [hn, Int.toNat_natCast]
      · exact hs.commit_waits hc hawake (hregister held.res hstored hj)
  | connecting hpc | start hpc | store hpc | finish hpc =>
      exact hs.commit_waits hc (by rw [hpc]; nofun) hstored

/-- A call takes a step of its own. -/
theorem Inv.commit (hs : Inv s) (hc : s.calls[i]? = some c)
    (hstep : CallStep s.shared i c may effect pc) : Inv (s.commit i c effect pc) where
  callOk := by
    intro j d hd
    rcases calls_commit hd with ⟨_, rfl⟩ | ⟨_, hd⟩
    · exact (hs.callOk i c hc).move hstep
    · exact hs.callOk j d hd
  active := hs.commit_active hc hstep
  unique := hs.commit_unique hc hstep
  attempt := hs.commit_attempt hc hstep
  stored := hs.commit_stored hc hstep

/-- The wait that a registration replaces is no longer stored. -/
theorem Inv.replaced_gone (hs : Inv s) (hc : s.calls[i]? = some c)
    (hawake : ∀ held, c.pc ≠ .waiting held) (j n : Nat) (kind : FdEventKind)
    (hreplaced : s.replacedBy i c effect = some j) :
    ((s.shared.apply i c effect).registry.slotAt n kind).op ≠ some j := by
  cases effect with
  | none | lock | unlock | leave | start | store | finish => nomatch hreplaced
  | register res =>
      intro hstored
      have hold : (s.shared.registry.slotAt res c.op.kind).ready = false ∧
          (s.shared.registry.slotAt res c.op.kind).op = some j := by
        rw [State.replacedBy, Shared.register,
          s.shared.registry.registerImpl_result (Int.natCast_nonneg _)] at hreplaced
        split at hreplaced
        · nomatch hreplaced
        · next hready => exact ⟨Bool.eq_false_iff.mpr hready, hreplaced⟩
      have hj : j ≠ i := by
        rintro rfl
        exact hs.not_stores hc hawake ⟨_, _, hold.2⟩
      -- it was stored in one place, which now holds the wait of call `i`
      have hplace := (s.shared.registry.registerImpl_removes (Int.natCast_nonneg _) hj _
        hstored).1
      obtain ⟨rfl, rfl⟩ := hs.place hplace hold.2
      have hnew := (s.shared.registry.registerImpl_slotAt (Int.natCast_nonneg n) i _
        hold.1).2
      change ((s.shared.register i c n).1.slotAt n c.op.kind).op = some j at hstored
      rw [Int.toNat_natCast] at hnew
      rw [Shared.register, hnew] at hstored
      exact hj (Option.some.inj hstored).symm


theorem CallStep.awake (hstep : CallStep s.shared i c may effect pc) (held : Held) :
    c.pc ≠ .waiting held := by
  cases hstep with
  | walk _ hwalk => exact hwalk.awake held
  | start hpc | connecting hpc | store hpc | ready hpc | register hpc | finish hpc =>
      rw [hpc]
      nofun

end Commit

/-- A step that leaves the calls alone. -/
theorem Inv.keep (hs : Inv s) (hcalls : t.calls = s.calls)
    (hactive : ∀ op, (t.shared.ops op).active = (s.shared.ops op).active)
    (hattempt : ∀ (i : Nat) (c : Call), s.calls[i]? = some c → c.op = .connect →
      c.pc.attempting = true → t.shared.connState ≠ .connected)
    (hslots : ∀ n kind i, (t.shared.registry.slotAt n kind).op = some i →
      (s.shared.registry.slotAt n kind).op = some i) : Inv t where
  callOk := fun i c hc => hs.callOk i c (hcalls ▸ hc)
  active := fun i c hc hholds =>
    (hactive c.op).trans (hs.active i c (hcalls ▸ hc) hholds)
  unique := fun i j c d hc hd => hs.unique i j c d (hcalls ▸ hc) (hcalls ▸ hd)
  attempt := fun i c hc => hattempt i c (hcalls ▸ hc)
  stored := fun n kind i hstored =>
    hcalls ▸ hs.stored n kind i (hslots n kind i hstored)

theorem Apart.keep (hs : Apart s) (hcalls : t.calls = s.calls)
    (hreplaced : t.shared.replaced = s.shared.replaced) : Apart t where
  apart := fun i j c d n hc hd => hs.apart i j c d n (hcalls ▸ hc) (hcalls ▸ hd)
  unreplaced := hreplaced.trans hs.unreplaced

theorem Apart.keep_registry (hs : Apart s) (registry : FdRegistry Nat) :
    Apart { s with shared := { s.shared with registry := registry } } :=
  hs.keep rfl rfl

theorem calls_begin {new : Call} {i : Nat} {c : Call}
    (hc : (s.calls ++ [new])[i]? = some c) : s.calls[i]? = some c ∨ c = new := by
  rw [List.getElem?_append] at hc
  split at hc
  · exact .inl hc
  · rw [List.getElem?_singleton] at hc
    split at hc
    · exact .inr (Option.some.inj hc).symm
    · nomatch hc

/-- A new call. -/
theorem Inv.begin (hs : Inv s) (op : Op) (empty : Bool) :
    Inv { s with calls := s.calls ++ [{ op, empty }] } where
  callOk := by
    intro i c hc
    rcases calls_begin hc with hc | rfl
    · exact hs.callOk i c hc
    · exact
        { count := rfl
          once := Nat.zero_le 1
          entering := fun _ => rfl
          ofConnect := nofun
          refused := nofun }
  active := by
    intro i c hc hholds
    rcases calls_begin hc with hc | rfl
    · exact hs.active i c hc hholds
    · nomatch hholds
  unique := by
    intro i j c d hc hd hop hcholds hdholds
    rcases calls_begin hc with hc | rfl
    · rcases calls_begin hd with hd | rfl
      · exact hs.unique i j c d hc hd hop hcholds hdholds
      · nomatch hdholds
    · nomatch hcholds
  attempt := by
    intro i c hc hop hattempting
    rcases calls_begin hc with hc | rfl
    · exact hs.attempt i c hc hop hattempting
    · nomatch hattempting
  stored := by
    intro n kind i hstored
    obtain ⟨c, held, hc, hwaits⟩ := hs.stored n kind i hstored
    refine ⟨c, held, ?_, hwaits⟩
    rw [List.getElem?_append_left (List.getElem?_eq_some_iff.mp hc).1]
    exact hc

theorem Apart.begin (hs : Apart s) (op : Op) (empty : Bool) :
    Apart { s with calls := s.calls ++ [{ op, empty }] } where
  apart := by
    intro i j c d n hc hd hwrite hconnect hseen hblocked
    rcases calls_begin hc with hc | rfl
    · rcases calls_begin hd with hd | rfl
      · exact hs.apart i j c d n hc hd hwrite hconnect hseen hblocked
      · nomatch hblocked
    · nomatch hseen
  unreplaced := hs.unreplaced

theorem Inv.renew (hs : Inv s) : Inv { s with shared := s.shared.renew } :=
  hs.keep rfl (fun _ => rfl) hs.attempt fun n kind i hstored => by
    change ((s.shared.registry.track s.shared.made).slotAt n kind).op = _ at hstored
    rw [FdRegistry.track_slotAt] at hstored
    exact hstored

/-- A task only changes an epoch, the flags, the resource or, to `disconnected`, the
state. -/
theorem Shared.task_keeps (x : Shared) (old : Option Nat) (task : Task) :
    (∀ op, ((x.task old task).1.ops op).active = (x.ops op).active) ∧
      ((x.task old task).1.connState = .connected → x.connState = .connected) ∧
      (x.task old task).1.registry = x.registry ∧
      (x.task old task).1.replaced = x.replaced := by
  cases task with
  | cancelOp op =>
      refine ⟨fun other => ?_, id, rfl, rfl⟩
      change (Function.update x.ops op _ other).active = _
      rw [Function.update_apply]
      split
      · next hop => rw [hop]
      · rfl
  | disconnect => exact ⟨fun _ => rfl, nofun, rfl, rfl⟩
  | cancelHandles | clearShutdown | shutdownFd | takeOut | markClosing =>
      exact ⟨fun _ => rfl, id, rfl, rfl⟩

theorem controlStep_task {i : Nat} (hstep : s.controlStep i = some t) :
    t.calls = s.calls ∧ ∃ old task, t.shared = (s.shared.task old task).1 := by
  rw [State.controlStep] at hstep
  split at hstep
  · next task todo old _ =>
      cases hstep
      exact ⟨rfl, old, task, rfl⟩
  · nomatch hstep

theorem Inv.ready (hs : Inv s) (res : Nat) (canRead canWrite : Bool) (ec : ErrorCode)
    (hstep : step s (.ready res canRead canWrite ec) = some t) : Inv t := by
  cases hstep
  have hremoves := (s.shared.registry.takeReady_onlyRemoves res canRead canWrite).1
  have hgone : ∀ (direction kind : FdEventKind) (i n : Nat),
      (s.shared.registry.takeReady res canRead canWrite).2.get direction = some i →
      ((s.shared.registry.takeReady res canRead canWrite).1.slotAt n kind).op ≠
        some i := by
    intro direction kind i n htaken hstored
    rcases s.shared.registry.takeReady_slotAt res canRead canWrite direction with
      ⟨hget, hnone⟩ | ⟨hget, _⟩
    · rw [htaken, Int.toNat_natCast] at hget
      obtain ⟨rfl, rfl⟩ := hs.place (hremoves n kind i hstored).1 hget.symm
      rw [Int.toNat_natCast, hstored] at hnone
      nomatch hnone
    · rw [htaken] at hget
      nomatch hget
  have hregistry : Inv { s with shared := { s.shared with
      registry := (s.shared.registry.takeReady res canRead canWrite).1 } } :=
    hs.keep rfl (fun _ => rfl) hs.attempt fun n kind i hstored =>
      (hremoves n kind i hstored).1
  have hread := hregistry.wake ec fun i n kind hop => hgone .read kind i n hop
  exact hread.wake ec fun i n kind hop => by
    rw [wake_shared]
    exact hgone .write kind i n hop

theorem Inv.cancelHandle (hs : Inv s) (res : Nat) (kind : FdEventKind) (token : Nat)
    (hstep : step s (.cancelHandle res kind token) = some t) : Inv t := by
  cases hstep
  have hremoves := (s.shared.registry.cancel_onlyRemoves res kind token).1
  have hregistry : Inv { s with shared := { s.shared with
      registry := (s.shared.registry.cancel res kind token).1 } } :=
    hs.keep rfl (fun _ => rfl) hs.attempt fun n kind i hstored =>
      (hremoves n kind i hstored).1
  refine hregistry.wake .operationAborted fun i n other hremoved hstored => ?_
  have hold := s.shared.registry.cancel_removed_eq res kind token hremoved
  have hnone := s.shared.registry.cancel_removed res kind token (by rw [hremoved]; rfl)
  obtain ⟨rfl, rfl⟩ := hs.place (hremoves n other i hstored).1 hold
  change ((s.shared.registry.cancel _ _ token).1.slotAt n other).op = some i at hstored
  rw [Int.toNat_natCast, hstored] at hnone
  nomatch hnone

/-- The steps of a call, with what the registration wakes. -/
theorem step_call {i : Nat} (hs : Inv s) (hstep : step s (.call i) = some t) :
    ∃ c effect pc, s.calls[i]? = some c ∧
      CallStep s.shared i c (fun _ => False) effect pc ∧
      t = (s.commit i c effect pc).wake (s.replacedBy i c effect)
        .operationAborted := by
  obtain ⟨c, hc, hstep⟩ := Option.bind_eq_some_iff.mp hstep
  obtain ⟨⟨effect, pc⟩, hcall, rfl⟩ := Option.map_eq_some_iff.mp hstep
  exact ⟨c, effect, pc, hc, callStep_cases (hs.callOk i c hc) hcall, rfl⟩

theorem step_answer {i : Nat} {answer : Answer}
    (hstep : step s (.answer i answer) = some t) :
    ∃ c held, s.calls[i]? = some c ∧ c.pc = .invoke held ∧
      t = s.commit i c .none (c.afterInvoke held answer) := by
  obtain ⟨c, hc, hstep⟩ := Option.bind_eq_some_iff.mp hstep
  split at hstep
  · next held hpc =>
      cases hstep
      exact ⟨c, held, hc, hpc, rfl⟩
  · nomatch hstep

theorem step_soError {i errno : Nat} (hstep : step s (.soError i errno) = some t) :
    ∃ c held, s.calls[i]? = some c ∧ c.pc = .soError held ∧
      t = s.commit i c .none (afterSoError held errno) := by
  obtain ⟨c, hc, hstep⟩ := Option.bind_eq_some_iff.mp hstep
  split at hstep
  · next held hpc =>
      cases hstep
      exact ⟨c, held, hc, hpc, rfl⟩
  · nomatch hstep

/-- No call is under way when the socket is assigned another descriptor. -/
theorem State.unused_attempting (hunused : s.unused = true) {i : Nat} {c : Call}
    (hc : s.calls[i]? = some c) : c.pc.attempting = false := by
  simp only [State.unused, Bool.and_eq_true, List.all_eq_true] at hunused
  have hended := hunused.1.1 c (List.mem_of_getElem? hc)
  cases hpc : c.pc with
  | returned => rfl
  | _ =>
      rw [hpc] at hended
      nomatch hended

theorem Inv.preserved {a : Action} (hs : Inv s) (hstep : step s a = some t) :
    Inv t := by
  cases a with
  | «open» =>
      simp only [step] at hstep
      split at hstep
      · nomatch hstep
      · cases hstep
        exact hs.renew
  | assign =>
      simp only [step] at hstep
      split at hstep
      · next hunused =>
          cases hstep
          refine hs.renew.keep rfl (fun _ => rfl) (fun i c hc _ hattempting => ?_)
            fun _ _ _ => id
          rw [State.unused_attempting hunused hc] at hattempting
          nomatch hattempting
      · nomatch hstep
  | setShutdown read write =>
      cases hstep
      exact hs.keep rfl (fun _ => rfl) hs.attempt fun _ _ _ => id
  | begin op empty =>
      cases hstep
      exact hs.begin op empty
  | call i =>
      obtain ⟨c, effect, pc, hc, hcases, rfl⟩ := step_call hs hstep
      exact (hs.commit hc hcases).wake _ fun j n kind hreplaced =>
        hs.replaced_gone hc hcases.awake j n kind hreplaced
  | answer i answer =>
      obtain ⟨c, held, hc, hpc, rfl⟩ := step_answer hstep
      exact hs.commit hc (.walk rfl (.ofAnswer hpc answer))
  | soError i errno =>
      obtain ⟨c, held, hc, hpc, rfl⟩ := step_soError hstep
      have hwalk : Walk s.shared c (fun _ => False) (afterSoError held errno) :=
        .ofSoError (hs.callOk i c hc) hpc errno
      exact hs.commit hc (.walk rfl hwalk)
  | request request =>
      cases hstep
      exact hs.keep rfl (fun _ => rfl) hs.attempt fun _ _ _ => id
  | control i =>
      obtain ⟨hcalls, old, task, hshared⟩ := controlStep_task hstep
      obtain ⟨hactive, hstate, hregistry, _⟩ := s.shared.task_keeps old task
      rw [← hshared] at hactive hstate hregistry
      exact hs.keep hcalls hactive
        (fun i c hc hop hattempting h => hs.attempt i c hc hop hattempting (hstate h))
        fun n kind i hstored => hregistry ▸ hstored
  | ready res canRead canWrite ec => exact hs.ready res canRead canWrite ec hstep
  | cancelHandle res kind token => exact hs.cancelHandle res kind token hstep

/-! ### Runs without a connect that waits while a write is under way -/

/-- Two calls that wait, or are about to, for one resource and direction are one
call. -/
theorem Apart.same (ha : Apart s) (hs : Inv s) {i j n : Nat} {c d : Call}
    (hc : s.calls[i]? = some c) (hd : s.calls[j]? = some d)
    (hcblocked : c.pc.blocked = some n) (hdblocked : d.pc.blocked = some n)
    (hkind : c.op.kind = d.op.kind) : i = j := by
  have hop : c.op = d.op → i = j := fun h =>
    hs.unique i j c d hc hd h (Pc.holds_of_blocked hcblocked)
      (Pc.holds_of_blocked hdblocked)
  cases hcop : c.op with
  | read =>
      cases hdop : d.op with
      | read => exact hop (hcop.trans hdop.symm)
      | write | connect =>
          rw [hcop, hdop] at hkind
          nomatch hkind
  | write =>
      cases hdop : d.op with
      | read =>
          rw [hcop, hdop] at hkind
          nomatch hkind
      | write => exact hop (hcop.trans hdop.symm)
      | connect =>
          exact absurd hdblocked
            (ha.apart i j c d n hc hd hcop hdop (Pc.seen_of_blocked hcblocked))
  | connect =>
      cases hdop : d.op with
      | read =>
          rw [hcop, hdop] at hkind
          nomatch hkind
      | write =>
          exact absurd hcblocked
            (ha.apart j i d c n hd hc hdop hcop (Pc.seen_of_blocked hdblocked))
      | connect => exact hop (hcop.trans hdop.symm)

/-- A registration finds its slot empty. -/
theorem Apart.register (ha : Apart s) (hs : Inv s) {i : Nat} {c : Call} {held : Held}
    (hc : s.calls[i]? = some c) (hpc : c.pc = .register held) :
    (s.shared.register i c held.res).2.replaced = none := by
  rw [Shared.register, s.shared.registry.registerImpl_result (Int.natCast_nonneg _)]
  split
  · rfl
  · rw [Int.toNat_natCast]
    by_contra hsome
    obtain ⟨j, hj⟩ := Option.ne_none_iff_exists'.mp hsome
    obtain ⟨d, held', hd, hdpc, hres, hkind⟩ := hs.stored _ _ _ hj
    obtain rfl := ha.same hs hd hc (by rw [hdpc]; exact congrArg some hres)
      (by rw [hpc]; rfl) hkind
    rw [hc] at hd
    cases hd
    rw [hpc] at hdpc
    nomatch hdpc

section Commit

variable {i : Nat} {c : Call} {may : Nat → Prop} {effect : Effect} {pc : Pc}

/-- A step after which a write counts the socket as connected. -/
theorem CallStep.seen (hstep : CallStep s.shared i c may effect pc)
    (hwrite : c.op = .write) {n : Nat} (hseen : pc.seen = some n) :
    c.pc.seen = some n ∨ s.shared.connState = .connected := by
  cases hstep with
  | walk _ hwalk => exact hwalk.seen hwrite n hseen
  | start hpc | ready hpc | register hpc =>
      rw [hpc]
      exact .inl hseen
  | connecting | store | finish => nomatch hseen

theorem CallStep.blocked (hstep : CallStep s.shared i c may effect pc) {n : Nat}
    (hblocked : pc.blocked = some n) : c.pc.blocked = some n ∨ may n := by
  cases hstep with
  | walk _ hwalk => exact hwalk.blocked n hblocked
  | register hpc =>
      rw [hpc]
      exact .inl hblocked
  | start | connecting | store | ready | finish => nomatch hblocked

theorem Apart.commit (ha : Apart s) (hs : Inv s) (hc : s.calls[i]? = some c)
    (hstep : CallStep s.shared i c may effect pc)
    (hmay : ∀ n, may n → c.op = .connect → s.writing n = false) :
    Apart (s.commit i c effect pc) where
  apart := by
    intro j k d e n hd he hwrite hconnect hseen hblocked
    rcases calls_commit hd with ⟨_, rfl⟩ | ⟨_, hd⟩
    · rcases calls_commit he with ⟨_, rfl⟩ | ⟨_, he⟩
      · cases hwrite.symm.trans hconnect
      · rcases hstep.seen hwrite hseen with hold | hstate
        · exact ha.apart i k c e n hc he hwrite hconnect hold hblocked
        · exact hs.attempt k e he hconnect (Pc.attempting_of_blocked hblocked) hstate
    · rcases calls_commit he with ⟨_, rfl⟩ | ⟨_, he⟩
      · rcases hstep.blocked hblocked with hold | hnew
        · exact ha.apart j i d c n hd hc hwrite hconnect hseen hold
        · have hnone := hmay n hnew hconnect
          rw [State.writing, List.any_eq_false] at hnone
          refine hnone d (List.mem_of_getElem? hd) ?_
          rw [hwrite, hseen]
          simp only [beq_self_eq_true, Bool.and_self]
      · exact ha.apart j k d e n hd he hwrite hconnect hseen hblocked
  unreplaced := by
    change (s.shared.apply i c effect).replaced = []
    cases hstep with
    | walk hquiet hwalk =>
        rw [(s.shared.apply_quiet i c hquiet).2.2]
        exact ha.unreplaced
    | ready hpc | register hpc =>
        rw [Shared.apply, ha.register hs hc hpc, Option.toList_none, List.append_nil]
        exact ha.unreplaced
    | start | connecting | store | finish => exact ha.unreplaced

end Commit

theorem Apart.preserved {a : Action} (ha : Apart s) (hs : Inv s)
    (hcalm : calm s a = true) (hstep : step s a = some t) : Apart t := by
  cases a with
  | «open» =>
      simp only [step] at hstep
      split at hstep
      · nomatch hstep
      · cases hstep
        exact ha.keep rfl rfl
  | assign =>
      simp only [step] at hstep
      split at hstep
      · cases hstep
        exact ha.keep rfl rfl
      · nomatch hstep
  | setShutdown read write =>
      cases hstep
      exact ha.keep rfl rfl
  | begin op empty =>
      cases hstep
      exact ha.begin op empty
  | call i =>
      obtain ⟨c, effect, pc, hc, hcases, rfl⟩ := step_call hs hstep
      exact (ha.commit hs hc hcases nofun).wake _ _
  | answer i answer =>
      obtain ⟨c, held, hc, hpc, rfl⟩ := step_answer hstep
      refine ha.commit hs hc (.walk rfl (.ofAnswer hpc answer)) ?_
      rintro n ⟨rfl, rfl⟩ hconnect
      obtain ⟨op, empty, pc, starts, finishes⟩ := c
      simp only at hpc hconnect
      subst hpc hconnect
      simp only [calm, hc, Bool.not_eq_eq_eq_not, Bool.not_true] at hcalm
      exact hcalm
  | soError i errno =>
      obtain ⟨c, held, hc, hpc, rfl⟩ := step_soError hstep
      have hwalk : Walk s.shared c (fun _ => False) (afterSoError held errno) :=
        .ofSoError (hs.callOk i c hc) hpc errno
      exact ha.commit hs hc (.walk rfl hwalk) nofun
  | request request =>
      cases hstep
      exact ha.keep rfl rfl
  | control i =>
      obtain ⟨hcalls, old, task, hshared⟩ := controlStep_task hstep
      refine ha.keep hcalls ?_
      rw [hshared, (s.shared.task_keeps old task).2.2.2]
  | ready res canRead canWrite ec =>
      cases hstep
      exact ((ha.keep_registry _).wake _ ec).wake _ ec
  | cancelHandle res kind token =>
      cases hstep
      exact (ha.keep_registry _).wake _ _

/-! ### What holds in every run, and in every calm run -/

theorem calls_start (i : Nat) (c : Call) : system.start.calls[i]? ≠ some c := by
  change ([] : List Call)[i]? ≠ some c
  rw [List.getElem?_nil]
  nofun

theorem Inv.start : Inv system.start where
  callOk := fun i c hc => absurd hc (calls_start i c)
  active := fun i c hc => absurd hc (calls_start i c)
  unique := fun i _ c _ hc => absurd hc (calls_start i c)
  attempt := fun i c hc => absurd hc (calls_start i c)
  stored := by
    intro n kind i hstored
    cases kind with
    | read | write => nomatch hstored

theorem Apart.start : Apart system.start where
  apart := fun i _ c _ _ hc => absurd hc (calls_start i c)
  unreplaced := rfl

theorem CallOk.inside {c : Call} (hc : CallOk c) (hinside : c.inside = true) :
    c.pc.holds = true := by
  have hcount := hc.count
  rw [Call.inside, decide_eq_true_iff] at hinside
  cases hholds : c.pc.holds with
  | true => rfl
  | false =>
      rw [hholds, Bool.toNat_false] at hcount
      omega

theorem Inv.balanced (hs : Inv s) : Balanced s where
  single := by
    intro i j c d hc hd hop hcinside hdinside
    exact hs.unique i j c d hc hd hop ((hs.callOk i c hc).inside hcinside)
      ((hs.callOk j d hd).inside hdinside)
  finished := by
    intro i c hc
    have hok := hs.callOk i c hc
    have hcount := hok.count
    refine ⟨hok.once, by omega, fun hended => ?_⟩
    cases hpc : c.pc with
    | returned result =>
        rw [hpc] at hcount
        exact hcount.symm
    | _ =>
        rw [hpc] at hended
        nomatch hended

/-- A call that has not been started is turned away or comes nearer to its
`try_start`. -/
theorem CallStep.unstarted {i : Nat} {c : Call} {may : Nat → Prop} {effect : Effect}
    {pc : Pc} (hstep : CallStep s.shared i c may effect pc) (hc : CallOk c)
    (hstarts : (c.move effect pc).starts = 0) : effect.quiet = true := by
  have hzero : c.starts = 0 := by
    simp only [Call.move] at hstarts
    omega
  have hcount := hc.count
  cases hstep with
  | walk hquiet => exact hquiet
  | start => simp [Call.move] at hstarts
  | connecting hpc | store hpc | ready hpc | register hpc | finish hpc =>
      rw [hpc] at hcount
      simp only [Pc.holds, Bool.toNat_true] at hcount
      omega

theorem getElem?_commit {i : Nat} {c : Call} (hc : s.calls[i]? = some c)
    (effect : Effect) (pc : Pc) :
    (s.commit i c effect pc).calls[i]? = some (c.move effect pc) := by
  rw [State.commit, List.getElem?_set_self (List.getElem?_eq_some_iff.mp hc).1]

theorem Inv.turnsAway_unchanged (hs : Inv s) (i : Nat) (c : Call)
    (hstep : step s (.call i) = some t) (hc : t.calls[i]? = some c)
    (hstarts : c.starts = 0) :
    t.shared.connState = s.shared.connState ∧ t.shared.ops = s.shared.ops ∧
      t.shared.registry = s.shared.registry := by
  obtain ⟨before, effect, pc, hbefore, hcases, rfl⟩ := step_call hs hstep
  obtain ⟨after, hafter, hbelow⟩ := calls_wake hc
  rw [getElem?_commit hbefore] at hafter
  cases hafter
  have hquiet := hcases.unstarted (hs.callOk i before hbefore) (hbelow.starts ▸ hstarts)
  obtain ⟨hstate, hregistry, _⟩ := s.shared.apply_quiet i before hquiet
  rw [wake_shared]
  refine ⟨hstate, s.shared.apply_ops i before ?_ ?_, hregistry⟩
  · rintro rfl
    nomatch hquiet
  · rintro rfl
    nomatch hquiet

theorem Inv.turnsAway_busy (hs : Inv s) (i j res : Nat) (c d : Call)
    (hc : s.calls[i]? = some c) (hpc : c.pc = .tryStart res) (hd : s.calls[j]? = some d)
    (hop : d.op = c.op) (hinside : d.inside = true)
    (hstep : step s (.call i) = some t) :
    t.calls[i]? = some { c with pc := .returned (.failed .busy) } := by
  have hactive := hs.active j d hd ((hs.callOk j d hd).inside hinside)
  rw [hop] at hactive
  obtain ⟨before, hbefore, hstep⟩ := Option.bind_eq_some_iff.mp hstep
  cases hc.symm.trans hbefore
  obtain ⟨⟨effect, pc⟩, hcall, rfl⟩ := Option.map_eq_some_iff.mp hstep
  simp only [callStep, hpc, hactive, ↓reduceIte] at hcall
  obtain ⟨heffect, rfl⟩ := Prod.mk.inj (Option.some.inj hcall)
  split at heffect
  · subst heffect
    exact getElem?_commit hc .unlock _
  · subst heffect
    exact getElem?_commit hc .none _

theorem Inv.turnsAway (hs : Inv s) : TurnsAway s where
  unchanged := fun i _ c => hs.turnsAway_unchanged i c
  refused := fun i c result hc hstarts hpc =>
    (hs.callOk i c hc).refused result hstarts hpc
  busy := fun i j res c d _ => hs.turnsAway_busy i j res c d

theorem Apart.oneWait (ha : Apart s) (hs : Inv s) : OneWait s where
  single := by
    intro i j c d held held' hc hd hcpc hdpc hres hkind
    exact ha.same hs hc hd (n := held.res) (by rw [hcpc]; rfl)
      (by rw [hdpc, hres]; rfl) hkind
  unreplaced := ha.unreplaced

theorem Inv.reachable (hs : system.Reachable s) : Inv s := by
  have hstart : Inv system.start := .start
  exact hs.invariant hstart fun _ _ _ hinv hstep => hinv.preserved hstep

/-- What holds in every calm run. -/
structure CalmInv (s : State) : Prop where
  inv : Inv s
  apart : Apart s

theorem CalmInv.reachable (hs : system.ReachableUnder (fun s a => calm s a = true) s) :
    CalmInv s := by
  have hstart : CalmInv system.start := ⟨.start, .start⟩
  exact hs.invariant hstart fun _ _ _ hinv hcalm hstep =>
    ⟨hinv.inv.preserved hstep, hinv.apart.preserved hinv.inv hcalm hstep⟩

/-- In every run each `op_state` lets one call at a time in, finishes each as often as
it was started and turns the others away; where no `::connect` is left to wait while a
write is under way on its resource, no two calls wait for one resource and direction. -/
theorem waits_apart (s : State) :
    (system.Reachable s → Balanced s ∧ TurnsAway s) ∧
      (system.ReachableUnder (fun s a => calm s a = true) s → OneWait s) := by
  refine ⟨fun hs => ?_, fun hs => ?_⟩
  · have hinv := Inv.reachable hs
    exact ⟨hinv.balanced, hinv.turnsAway⟩
  · have hinv := CalmInv.reachable hs
    exact hinv.apart.oneWait hinv.inv

/-- A connect, and a write that waits. -/
def writeWaits : List Action :=
  [.open, .begin .connect false] ++ List.replicate 11 (.call 0) ++
    [.answer 0 (.done 0), .call 0, .call 0, .begin .write false] ++
    List.replicate 8 (.call 1) ++ [.answer 1 .wouldBlock, .call 1, .call 1]

/-- The write waits, and is the only one whose wait is stored. -/
def oneWrite (s : State) : Bool :=
  decide (s.calls.map Call.inside = [false, true]) &&
    decide ((s.shared.registry.slotAt 0 .write).op = some 1)

theorem waits_apart_writeWaits :
    (∃ s, oneWrite s = true ∧ Balanced s ∧ TurnsAway s) ∧
      ∃ s, oneWrite s = true ∧ OneWait s := by
  obtain ⟨s, hs, hend⟩ :=
    TransitionSystem.exists_reachable_of_exec system writeWaits oneWrite (by decide)
  obtain ⟨t, ht, htend⟩ := TransitionSystem.exists_reachableUnder_of_execUnder system
    (fun s a => calm s a = true) writeWaits oneWrite (by decide)
  exact ⟨⟨s, hend, (waits_apart s).1 hs⟩, ⟨t, htend, (waits_apart t).2 ht⟩⟩

/-- While it waits, `close()` stores `disconnected`; a connect that starts before the
resource is taken away finds the backlog of the listener full, and waits. -/
def connectReplaces : List Action :=
  writeWaits ++ [.request .close] ++ List.replicate 4 (.control 0) ++
    [.begin .connect false] ++ List.replicate 11 (.call 2) ++
    [.answer 2 .wouldBlock, .call 2, .call 2]

theorem not_oneWait_connectReplaces :
    ¬ ∀ s, system.Reachable s → Balanced s ∧ TurnsAway s ∧ OneWait s := by
  intro hall
  obtain ⟨s, hs, hend⟩ := TransitionSystem.exists_reachable_of_exec system
    connectReplaces (fun s => s.shared.replaced == [1]) (by decide)
  have hone := (hall s hs).2.2.unreplaced
  rw [beq_iff_eq, hone] at hend
  nomatch hend

end StreamWaits

end Iocoro
