/-
What an acceptor keeps to in every run: one accept at a time, whose wait nothing
replaces, and every connection in one place.
-/
import Iocoro.Acceptor
import Iocoro.Inventory

namespace Iocoro

namespace Acceptor

/-! ### The invariant -/

/-- What a call says about itself. -/
structure CallOk (c : Call) : Prop where
  count : c.starts = c.finishes + c.pc.holds.toNat
  once : c.starts ≤ 1
  entering : c.pc.entering = true → c.starts = 0
  refused : ∀ result, c.starts = 0 → c.pc = .returned result → result.refusal = true

def Call.turn (c : Call) : List Unit := if c.pc.holds then [()] else []

def Call.waits (c : Call) : Option (Nat × FdEventKind) := c.pc.waits

def Call.hand (c : Call) : List Connection := c.pc.hand.toList

structure Inv (s : State) : Prop where
  callOk : ∀ (i : Nat) (c : Call), s.calls[i]? = some c → CallOk c
  turns : Inventory.held Call.turn s.calls () = s.shared.acceptOp.active.toNat
  recorded : s.shared.registry.Records Call.waits s.calls
  unreplaced : s.shared.replaced = []
  delivery : Delivery s
  before : ∀ first ∈ s.shared.delivered.map Prod.snd, ∀ (i : Nat) (c : Call)
    (later : Connection), s.calls[i]? = some c → c.pc.hand = some later →
      first.listener = later.listener → first.number < later.number

variable {s t : State}

theorem Call.mem_turn {c : Call} (hholds : c.pc.holds = true) : () ∈ c.turn := by
  rw [Call.turn, if_pos hholds]
  exact List.mem_singleton_self ()

/-- The flag has been set by one call. -/
theorem Inv.same (hs : Inv s) {i j : Nat} {c d : Call} (hc : s.calls[i]? = some c)
    (hd : s.calls[j]? = some d) (hcholds : c.pc.holds = true)
    (hdholds : d.pc.holds = true) : i = j := by
  by_contra hij
  have htwo := Inventory.two_le_held Call.turn hij hc hd (Call.mem_turn hcholds)
    (Call.mem_turn hdholds)
  rw [hs.turns] at htwo
  have hone := Bool.toNat_le s.shared.acceptOp.active
  omega

theorem Inv.active (hs : Inv s) {i : Nat} {c : Call} (hc : s.calls[i]? = some c)
    (hholds : c.pc.holds = true) : s.shared.acceptOp.active = true := by
  have hpos := Inventory.held_pos Call.turn hc (Call.mem_turn hholds)
  rw [hs.turns] at hpos
  cases hactive : s.shared.acceptOp.active with
  | true => rfl
  | false =>
      rw [hactive] at hpos
      exact absurd hpos (Nat.lt_irrefl 0)

/-- A connection that has been given out was accepted before those still to come. -/
theorem Inv.delivered_lt (hs : Inv s) {connection : Connection}
    (hgiven : connection ∈ s.shared.delivered.map Prod.snd) :
    connection.number < s.shared.taken connection.listener := by
  have honce := hs.delivery.once connection
  have hpos := List.count_pos_iff.mpr hgiven
  by_contra hnot
  rw [if_neg hnot] at honce
  omega

/-! ### The steps of a call -/

section Commit

variable {i : Nat} {c : Call} {effect : Effect} {pc : Pc}

theorem calls_commit {j : Nat} {d : Call}
    (hd : (s.commit i c effect pc).calls[j]? = some d) :
    i = j ∧ d = c.move effect pc ∨ i ≠ j ∧ s.calls[j]? = some d := by
  rw [State.commit, List.getElem?_set] at hd
  split at hd
  · next hj =>
      split at hd
      · exact .inl ⟨hj, (Option.some.inj hd).symm⟩
      · cases hd
  · next hj => exact .inr ⟨hj, hd⟩

@[simp] theorem Call.move_pc (c : Call) (effect : Effect) (pc : Pc) :
    (c.move effect pc).pc = pc := by
  cases effect with
  | none | lock | unlock | start | take | drop | register | finish => rfl

theorem Call.move_quiet (hquiet : effect.quiet = true) :
    c.move effect pc = { c with pc := pc } := by
  cases effect with
  | none | lock | unlock => rfl
  | start | take | drop | register | finish => cases hquiet

/-- A step that leaves the counts alone. -/
theorem CallOk.keep (hc : CallOk c) (hholds : pc.holds = c.pc.holds)
    (hentering : pc.entering = true → c.pc.entering = true)
    (hrefused : ∀ result, pc = .returned result → result.refusal = true) :
    CallOk { c with pc := pc } where
  count := by
    rw [hholds]
    exact hc.count
  once := hc.once
  entering := fun h => hc.entering (hentering h)
  refused := fun result _ hpc => hrefused result hpc

/-- A step of a call that stays between `try_start` and `finish`. -/
theorem CallOk.stay (hc : CallOk c) (hbefore : c.pc.holds = true)
    (hafter : pc.holds = true) : CallOk { c with pc := pc } :=
  hc.keep (hafter.trans hbefore.symm)
    (fun h => by cases h.symm.trans (Pc.entering_of_holds hafter))
    (by rintro result rfl; cases hafter)

theorem Pc.holds_of_invokes {held : StreamWaits.Held} (hpc : pc.invokes = some held) :
    pc.holds = true := by
  cases pc with
  | accept4 | accept => rfl
  | _ => cases hpc

theorem Pc.hand_of_invokes {held : StreamWaits.Held} (hpc : pc.invokes = some held) :
    pc.hand = none := by
  cases pc with
  | accept4 | accept => rfl
  | _ => cases hpc

theorem Pc.waits_of_invokes {held : StreamWaits.Held} (hpc : pc.invokes = some held) :
    pc.waits = none := by
  cases pc with
  | accept4 | accept => rfl
  | _ => cases hpc

theorem CallStep.holds (hstep : CallStep s.shared i c effect pc)
    (hstart : effect ≠ .start) (hholds : pc.holds = true) : c.pc.holds = true := by
  cases hstep with
  | walk _ hwalk => exact hwalk.holds ▸ hholds
  | start => exact absurd rfl hstart
  | take hpc => exact Pc.holds_of_invokes hpc
  | drop hpc | ready hpc | register hpc | finish hpc =>
      rw [hpc]
      rfl

theorem CallStep.awake (hstep : CallStep s.shared i c effect pc) :
    c.pc.waits = none := by
  cases hstep with
  | walk _ hwalk => exact hwalk.awake
  | take hpc => exact Pc.waits_of_invokes hpc
  | start hpc | drop hpc | ready hpc | register hpc | finish hpc =>
      rw [hpc]
      rfl

theorem CallStep.ungiven (hstep : CallStep s.shared i c effect pc) :
    c.pc.given = none := by
  cases hstep with
  | walk _ hwalk => exact hwalk.unended
  | take hpc => exact Pc.given_of_holds (Pc.holds_of_invokes hpc)
  | start hpc | drop hpc | ready hpc | register hpc | finish hpc =>
      rw [hpc]
      rfl

/-- After a taken connection its number is in the hands of the call. -/
theorem hand_of_take {held : StreamWaits.Held} {connection : Connection}
    (hnew : pc = .checkEpoch held (.keep connection) ∨ pc = .setCloexec held connection) :
    pc.hand = some connection ∧ pc.holds = true ∧ pc.waits = none := by
  rcases hnew with rfl | rfl
  · exact ⟨rfl, rfl, rfl⟩
  · exact ⟨rfl, rfl, rfl⟩

theorem CallOk.move (hc : CallOk c) (hstep : CallStep s.shared i c effect pc) :
    CallOk (c.move effect pc) := by
  cases hstep with
  | walk hquiet hwalk =>
      rw [Call.move_quiet hquiet]
      exact hc.keep hwalk.holds hwalk.entering hwalk.refused
  | start hpc =>
      have hstarts := hc.entering (by rw [hpc]; rfl)
      have hcount := hc.count
      rw [hpc] at hcount
      simp only [Pc.holds, Bool.toNat_false] at hcount
      exact
        { count := by
            change c.starts + 1 = c.finishes + 1
            omega
          once := by
            change c.starts + 1 ≤ 1
            omega
          entering := by
            intro h
            cases h
          refused := by
            intro result _ h
            cases h }
  | take hpc _ hnew => exact hc.stay (Pc.holds_of_invokes hpc) (hand_of_take hnew).2.1
  | drop hpc | ready hpc | register hpc => exact hc.stay (by rw [hpc]; rfl) rfl
  | finish hpc =>
      have hcount := hc.count
      rw [hpc] at hcount
      simp only [Pc.holds, Bool.toNat_true] at hcount
      exact
        { count := by
            change c.starts = c.finishes + 1 + 0
            omega
          once := hc.once
          entering := by
            intro h
            cases h
          refused := by
            intro result hstarts
            change c.starts = 0 at hstarts
            omega }

theorem Call.turn_congr {d : Call} (hholds : d.pc.holds = c.pc.holds) :
    d.turn = c.turn := by
  rw [Call.turn, Call.turn, hholds]

/-- What the steps leave alone. -/
theorem Shared.apply_quiet (x : Shared) (i : Nat) (hquiet : effect.quiet = true) :
    { x.apply i effect with mtx := none } = { x with mtx := none } := by
  cases effect with
  | none | lock | unlock => rfl
  | start | take | drop | register | finish => cases hquiet

theorem Shared.apply_acceptOp (x : Shared) (i : Nat) (hstart : effect ≠ .start)
    (hfinish : ∀ result, effect ≠ .finish result) :
    (x.apply i effect).acceptOp = x.acceptOp := by
  cases effect with
  | none | lock | unlock | take | drop | register => rfl
  | start => exact absurd rfl hstart
  | finish result => exact absurd rfl (hfinish result)

theorem Inv.commit_turns (hs : Inv s) (hc : s.calls[i]? = some c)
    (hstep : CallStep s.shared i c effect pc) :
    Inventory.held Call.turn (s.commit i c effect pc).calls () =
      (s.shared.apply i effect).acceptOp.active.toNat := by
  have hheld := Inventory.held_set_of_getElem? Call.turn hc (c.move effect pc) ()
  change Inventory.held Call.turn (s.calls.set i (c.move effect pc)) () = _
  have hturns := hs.turns
  have hstay : ∀ (hbefore : c.pc.holds = true) (hafter : pc.holds = true),
      Inventory.held Call.turn (s.calls.set i (c.move effect pc)) () =
        s.shared.acceptOp.active.toNat := by
    intro hbefore hafter
    have hsame : (c.move effect pc).turn = c.turn :=
      Call.turn_congr (by rw [Call.move_pc, hafter, hbefore])
    rw [hsame] at hheld
    omega
  cases hstep with
  | walk hquiet hwalk =>
      have hsame : (c.move effect pc).turn = c.turn :=
        Call.turn_congr (by rw [Call.move_pc, hwalk.holds])
      rw [hsame] at hheld
      rw [s.shared.apply_acceptOp i (by rintro rfl; cases hquiet)
        (by rintro result rfl; cases hquiet)]
      omega
  | start hpc hidle =>
      have hold : c.turn = [] := by rw [Call.turn, hpc]; rfl
      rw [hold, hturns, hidle] at hheld
      exact hheld
  | take hpc _ hnew => exact hstay (Pc.holds_of_invokes hpc) (hand_of_take hnew).2.1
  | drop hpc | ready hpc | register hpc => exact hstay (by rw [hpc]; rfl) rfl
  | finish hpc =>
      have hholds : c.pc.holds = true := by rw [hpc]; rfl
      have hold : c.turn = [()] := by rw [Call.turn, if_pos hholds]
      rw [hold, hturns, hs.active hc hholds] at hheld
      change Inventory.held Call.turn _ () = 0
      change Inventory.held Call.turn _ () + 1 = 1 + 0 at hheld
      omega

/-- A registration finds its slot empty. -/
theorem Inv.slot_empty (hs : Inv s) {held : StreamWaits.Held}
    (hc : s.calls[i]? = some c) (hpc : c.pc = .register held) :
    (s.shared.registry.slotAt held.res .read).op = none := by
  cases hop : (s.shared.registry.slotAt held.res .read).op with
  | none => rfl
  | some j =>
      obtain ⟨d, hd, hwaits⟩ := Option.bind_eq_some_iff.mp
        ((hs.recorded j held.res .read).mp hop)
      obtain rfl := hs.same hc hd (by rw [hpc]; rfl) (Pc.holds_of_waits hwaits)
      obtain rfl := Option.some.inj (hc.symm.trans hd)
      rw [Call.waits, hpc] at hwaits
      cases hwaits

theorem Inv.replacedBy (hs : Inv s) (hc : s.calls[i]? = some c)
    (hstep : CallStep s.shared i c effect pc) : s.replacedBy i effect = none := by
  cases hstep with
  | walk hquiet =>
      cases effect with
      | none | lock | unlock => rfl
      | start | take | drop | register | finish => cases hquiet
  | start | take | drop | finish => rfl
  | ready hpc | register hpc =>
      exact s.shared.registry.registerImpl_replaced _ i .read (hs.slot_empty hc hpc)

theorem Inv.commit_unreplaced (hs : Inv s) (hc : s.calls[i]? = some c)
    (hstep : CallStep s.shared i c effect pc) :
    (s.shared.apply i effect).replaced = [] := by
  have hreplaced := hs.replacedBy hc hstep
  cases effect with
  | none | lock | unlock | start | take | drop | finish => exact hs.unreplaced
  | register res =>
      change (s.shared.registry.registerImpl res (some i) .read).2.replaced = _
        at hreplaced
      simp only [Shared.apply, hreplaced, Option.toList_none, List.append_nil]
      exact hs.unreplaced

theorem Inv.commit_recorded (hs : Inv s) (hc : s.calls[i]? = some c)
    (hstep : CallStep s.shared i c effect pc) :
    (s.shared.apply i effect).registry.Records Call.waits
      (s.commit i c effect pc).calls := by
  have hawake : c.waits = none := hstep.awake
  have hcongr : (c.move effect pc).waits = none →
      s.shared.registry.Records Call.waits (s.calls.set i (c.move effect pc)) := by
    intro hasleep
    refine hs.recorded.congr fun j => ?_
    rw [FdRegistry.place_set hc]
    split
    · next hj =>
        subst hj
        rw [FdRegistry.place_of_getElem? hc, hawake, hasleep]
    · rfl
  have hnew : (c.move effect pc).waits = pc.waits := by rw [Call.waits, Call.move_pc]
  cases hstep with
  | walk hquiet hwalk =>
      have hsame := congrArg Shared.registry (s.shared.apply_quiet i hquiet)
      change (s.shared.apply i effect).registry = s.shared.registry at hsame
      rw [hsame]
      exact hcongr (hnew.trans hwalk.asleep)
  | start | drop | finish => exact hcongr rfl
  | take _ _ htake => exact hcongr (hnew.trans (hand_of_take htake).2.2)
  | ready hpc hready => exact hs.recorded.registerReady hc hawake rfl hready
  | register hpc hready =>
      exact hs.recorded.register hc hawake rfl (hs.slot_empty hc hpc) hready

/-! ### Connections -/

theorem Inv.commit_arrived (hs : Inv s) (hstep : CallStep s.shared i c effect pc)
    (listener : Nat) : (s.shared.apply i effect).taken listener ≤
      (s.shared.apply i effect).arrived listener := by
  have harrived := hs.delivery.arrived listener
  cases effect with
  | none | lock | unlock | start | drop | register | finish => exact harrived
  | take res =>
      change Function.update s.shared.taken res _ listener ≤ s.shared.arrived listener
      rw [Function.update_apply]
      split
      · next hres =>
          subst hres
          cases hstep with
          | walk hquiet => cases hquiet
          | take _ hbacklog => exact hbacklog
      · exact harrived

/-- How the connections in hand change with those of one call. -/
theorem held_hand (hc : s.calls[i]? = some c) (effect : Effect) (pc : Pc)
    (connection : Connection) :
    Inventory.held Call.hand (s.commit i c effect pc).calls connection +
        c.pc.hand.toList.count connection =
      Inventory.held Call.hand s.calls connection +
        pc.hand.toList.count connection := by
  have hheld := Inventory.held_set_of_getElem? Call.hand hc (c.move effect pc) connection
  rwa [Call.hand, Call.hand, Call.move_pc] at hheld

theorem Inv.commit_take (hs : Inv s) {held : StreamWaits.Held}
    (hc : s.calls[i]? = some c) (hpc : c.pc.invokes = some held)
    (hnew : pc.hand = some ⟨held.res, s.shared.taken held.res⟩)
    (connection : Connection) :
    (s.shared.delivered.map Prod.snd).count connection +
        s.shared.dropped.count connection +
        Inventory.held Call.hand (s.commit i c (.take held.res) pc).calls connection =
      if connection.number < Function.update s.shared.taken held.res
          (s.shared.taken held.res + 1) connection.listener then 1
      else 0 := by
  have honce := hs.delivery.once connection
  change _ + _ + Inventory.held Call.hand s.calls connection = _ at honce
  have hheld := held_hand hc (.take held.res) pc connection
  rw [Pc.hand_of_invokes hpc, hnew, Option.toList_none, List.count_nil, Nat.add_zero,
    Option.toList_some] at hheld
  rw [hheld, ← Nat.add_assoc, honce]
  by_cases hmine : connection = ⟨held.res, s.shared.taken held.res⟩
  · subst hmine
    simp
  · have hzero : [(⟨held.res, s.shared.taken held.res⟩ : Connection)].count connection =
        0 := List.count_eq_zero.mpr fun hmem => hmine (List.mem_singleton.mp hmem)
    have hiff : connection.number < Function.update s.shared.taken held.res
        (s.shared.taken held.res + 1) connection.listener ↔
          connection.number < s.shared.taken connection.listener := by
      rw [Function.update_apply]
      split
      · next hres =>
          have hne : connection.number ≠ s.shared.taken held.res := by
            intro hnumber
            exact hmine (by rw [← hnumber, ← hres])
          rw [hres]
          omega
      · exact Iff.rfl
    rw [hzero, Nat.add_zero]
    exact if_congr hiff.symm rfl rfl

theorem Inv.commit_once (hs : Inv s) (hc : s.calls[i]? = some c)
    (hstep : CallStep s.shared i c effect pc) (connection : Connection) :
    ((s.shared.apply i effect).delivered.map Prod.snd).count connection +
        (s.shared.apply i effect).dropped.count connection +
        Inventory.held Call.hand (s.commit i c effect pc).calls connection =
      if connection.number < (s.shared.apply i effect).taken connection.listener then 1
      else 0 := by
  have honce := hs.delivery.once connection
  change _ + _ + Inventory.held Call.hand s.calls connection = _ at honce
  have hheld := held_hand hc effect pc connection
  have hkeep : pc.hand = c.pc.hand →
      (s.shared.delivered.map Prod.snd).count connection +
        s.shared.dropped.count connection +
        Inventory.held Call.hand (s.commit i c effect pc).calls connection =
      if connection.number < s.shared.taken connection.listener then 1 else 0 := by
    intro hhand
    rw [hhand] at hheld
    rw [Nat.add_right_cancel hheld]
    exact honce
  cases hstep with
  | walk hquiet hwalk =>
      cases effect with
      | none | lock | unlock => exact hkeep hwalk.hand
      | start | take | drop | register | finish => cases hquiet
  | start hpc | ready hpc | register hpc => exact hkeep (by rw [hpc]; rfl)
  | take hpc hbacklog htake => exact hs.commit_take hc hpc (hand_of_take htake).1 connection
  | @drop closed error hpc =>
      rw [hpc] at hheld
      change _ + [closed].count connection = _ + 0 at hheld
      change _ + (s.shared.dropped ++ [closed]).count connection + _ = _
      rw [List.count_append]
      refine Eq.trans ?_ honce
      simp only [Shared.apply]
      omega
  | @finish result hpc =>
      rw [hpc] at hheld
      change _ + result.connection.toList.count connection = _ + 0 at hheld
      have hgiven : ((s.shared.delivered ++
          result.connection.toList.map ((i, ·))).map Prod.snd) =
            s.shared.delivered.map Prod.snd ++ result.connection.toList := by
        rw [List.map_append, List.map_map]
        exact congrArg _ (List.map_id _)
      change ((s.shared.delivered ++ _).map Prod.snd).count connection + _ + _ = _
      rw [hgiven, List.count_append]
      refine Eq.trans ?_ honce
      simp only [Shared.apply, Shared.setActive]
      omega

/-- Only a call that finishes gives a connection to its caller. -/
theorem Shared.apply_delivered (x : Shared) (i : Nat)
    (hfinish : ∀ result, effect ≠ .finish result) :
    (x.apply i effect).delivered = x.delivered := by
  cases effect with
  | none | lock | unlock | start | take | drop | register => rfl
  | finish result => exact absurd rfl (hfinish result)

theorem CallStep.given (hstep : CallStep s.shared i c effect pc)
    (hfinish : ∀ result, effect ≠ .finish result) : pc.given = none := by
  cases hstep with
  | walk _ hwalk => exact hwalk.given
  | take _ _ hnew => exact Pc.given_of_holds (hand_of_take hnew).2.1
  | start | drop | ready | register => rfl
  | finish => exact absurd rfl (hfinish _)

theorem given_commit (hc : s.calls[i]? = some c) (j : Nat) :
    ((s.commit i c effect pc).calls[j]?.bind fun d => d.pc.given) =
      if i = j then pc.given else s.calls[j]?.bind fun d => d.pc.given := by
  rw [State.commit, List.getElem?_set]
  split
  · rw [if_pos (List.getElem?_eq_some_iff.mp hc).1, Option.bind_some, Call.move_pc]
  · rfl

theorem Inv.commit_returned (hs : Inv s) (hc : s.calls[i]? = some c)
    (hstep : CallStep s.shared i c effect pc) (j : Nat) :
    ((s.shared.apply i effect).delivered.filter fun given => given.1 = j).map Prod.snd =
      ((s.commit i c effect pc).calls[j]?.bind fun d => d.pc.given).toList := by
  have hold := hs.delivery.returned j
  rw [given_commit hc]
  by_cases hfinish : ∃ result, effect = .finish result
  · obtain ⟨result, rfl⟩ := hfinish
    cases hstep with
    | walk hquiet => cases hquiet
    | finish hpc =>
        change ((s.shared.delivered ++ result.connection.toList.map ((i, ·))).filter
          _).map _ = _
        rw [List.filter_append, List.map_append, hold]
        by_cases hj : i = j
        · subst hj
          rw [if_pos rfl, hc, Option.bind_some, hpc]
          cases result with
          | accepted connection => simp [Result.connection, Pc.given]
          | failed error => rfl
        · rw [if_neg hj]
          cases result with
          | accepted connection => simp [Result.connection, hj]
          | failed error => simp [Result.connection]
  · rw [not_exists] at hfinish
    rw [Shared.apply_delivered _ _ hfinish, hold]
    split
    · next hj =>
        subst hj
        rw [hc, hstep.given hfinish, Option.bind_some, hstep.ungiven]
    · rfl

theorem Inv.commit_before (hs : Inv s) (hc : s.calls[i]? = some c)
    (hstep : CallStep s.shared i c effect pc) (first : Connection)
    (hfirst : first ∈ (s.shared.apply i effect).delivered.map Prod.snd) (j : Nat)
    (d : Call) (later : Connection)
    (hd : (s.commit i c effect pc).calls[j]? = some d) (hhand : d.pc.hand = some later)
    (hlistener : first.listener = later.listener) : first.number < later.number := by
  rcases calls_commit hd with ⟨rfl, rfl⟩ | ⟨hj, hother⟩
  · rw [Call.move_pc] at hhand
    have hkeep : c.pc.hand = some later → first ∈ s.shared.delivered.map Prod.snd →
        first.number < later.number := fun hold hfirst =>
      hs.before first hfirst i c later hc hold hlistener
    cases hstep with
    | walk hquiet hwalk =>
        cases effect with
        | none | lock | unlock => exact hkeep (hwalk.hand ▸ hhand) hfirst
        | start | take | drop | register | finish => cases hquiet
    | take hpc _ hnew =>
        rw [(hand_of_take hnew).1] at hhand
        obtain rfl := Option.some.inj hhand
        have hlt := hs.delivered_lt hfirst
        rw [hlistener] at hlt
        exact hlt
    | start | drop | ready | register | finish => cases hhand
  · by_cases hfinish : ∃ result, effect = .finish result
    · obtain ⟨result, rfl⟩ := hfinish
      have hholds : c.pc.holds = true := by
        cases hstep with
        | walk hquiet => cases hquiet
        | finish hpc =>
            rw [hpc]
            rfl
      exact absurd (hs.same hc hother hholds (Pc.holds_of_hand hhand)) hj
    · rw [not_exists] at hfinish
      rw [Shared.apply_delivered _ _ hfinish] at hfirst
      exact hs.before first hfirst j d later hother hhand hlistener

theorem Inv.commit_ordered (hs : Inv s) (hc : s.calls[i]? = some c)
    (hstep : CallStep s.shared i c effect pc) :
    ((s.shared.apply i effect).delivered.map Prod.snd).Pairwise fun first later =>
      first.listener = later.listener → first.number < later.number := by
  by_cases hfinish : ∃ connection, effect = .finish (.accepted connection)
  · obtain ⟨connection, rfl⟩ := hfinish
    cases hstep with
    | walk hquiet => cases hquiet
    | finish hpc =>
        change ((s.shared.delivered ++ [(i, connection)]).map Prod.snd).Pairwise _
        rw [List.map_append, List.pairwise_append]
        refine ⟨hs.delivery.ordered, List.pairwise_singleton _ _, ?_⟩
        intro first hfirst later hlater hlistener
        obtain rfl := List.mem_singleton.mp hlater
        exact hs.before first hfirst i c _ hc (by rw [hpc]; rfl) hlistener
  · have hsame : (s.shared.apply i effect).delivered = s.shared.delivered := by
      cases effect with
      | none | lock | unlock | start | take | drop | register => rfl
      | finish result =>
          cases result with
          | accepted connection => exact absurd ⟨connection, rfl⟩ hfinish
          | failed error => exact List.append_nil _
    rw [hsame]
    exact hs.delivery.ordered

/-- A call takes a step of its own. -/
theorem Inv.commit (hs : Inv s) (hc : s.calls[i]? = some c)
    (hstep : CallStep s.shared i c effect pc) : Inv (s.commit i c effect pc) where
  callOk := by
    intro j d hd
    rcases calls_commit hd with ⟨_, rfl⟩ | ⟨_, hd⟩
    · exact (hs.callOk i c hc).move hstep
    · exact hs.callOk j d hd
  turns := hs.commit_turns hc hstep
  recorded := hs.commit_recorded hc hstep
  unreplaced := hs.commit_unreplaced hc hstep
  delivery :=
    { arrived := hs.commit_arrived hstep
      once := hs.commit_once hc hstep
      returned := hs.commit_returned hc hstep
      ordered := hs.commit_ordered hc hstep }
  before := hs.commit_before hc hstep

end Commit

/-! ### The other steps -/

theorem Call.wake_cases (ec : ErrorCode) (c : Call) : c.wake ec = c ∨
    ∃ held, c.pc = .waiting held ∧ c.wake ec = { c with pc := .woken held ec } := by
  rw [Call.wake]
  split
  · next held hpc => exact .inr ⟨held, hpc, rfl⟩
  · exact .inl rfl

theorem Call.wake_waits (ec : ErrorCode) (c : Call) : (c.wake ec).waits = none := by
  rw [Call.wake]
  split
  · rfl
  · next hawake =>
      cases hpc : c.pc with
      | waiting held => exact absurd hpc (hawake held)
      | _ => rw [Call.waits, hpc]; rfl

theorem Call.wake_turn (ec : ErrorCode) (c : Call) : (c.wake ec).turn = c.turn := by
  rcases c.wake_cases ec with hsame | ⟨held, hpc, hwoken⟩
  · rw [hsame]
  · rw [hwoken, Call.turn, Call.turn, hpc]
    rfl

theorem Call.wake_hand (ec : ErrorCode) (c : Call) :
    (c.wake ec).pc.hand = c.pc.hand := by
  rcases c.wake_cases ec with hsame | ⟨held, hpc, hwoken⟩
  · rw [hsame]
  · rw [hwoken, hpc]
    rfl

theorem Call.wake_given (ec : ErrorCode) (c : Call) :
    (c.wake ec).pc.given = c.pc.given := by
  rcases c.wake_cases ec with hsame | ⟨held, hpc, hwoken⟩
  · rw [hsame]
  · rw [hwoken, hpc]
    rfl

theorem CallOk.wake {c : Call} (hc : CallOk c) (ec : ErrorCode) :
    CallOk (c.wake ec) := by
  rcases c.wake_cases ec with hsame | ⟨held, hpc, hwoken⟩
  · rwa [hsame]
  · rw [hwoken]
    exact hc.stay (by rw [hpc]; rfl) rfl

theorem calls_wake {calls : List Call} {op : Option Nat} {ec : ErrorCode} {i : Nat}
    {c : Call} (hc : (FdRegistry.wake (Call.wake ec) op calls)[i]? = some c) :
    ∃ d, calls[i]? = some d ∧ (c = d ∨ c = d.wake ec) := by
  cases op with
  | none => exact ⟨c, hc, .inl rfl⟩
  | some j =>
      rw [FdRegistry.wake, List.getElem?_modify] at hc
      obtain ⟨d, hd, rfl⟩ := Option.map_eq_some_iff.mp hc
      refine ⟨d, hd, ?_⟩
      split
      · exact .inr rfl
      · exact .inl rfl

theorem held_wake {β : Type} [DecidableEq β] {g : Call → List β} {ec : ErrorCode}
    (hg : ∀ c, g (c.wake ec) = g c) (op : Option Nat) (calls : List Call) (x : β) :
    Inventory.held g (FdRegistry.wake (Call.wake ec) op calls) x =
      Inventory.held g calls x := by
  cases op with
  | none => rfl
  | some j =>
      rw [FdRegistry.wake, Inventory.held, Inventory.held, List.flatMap_def,
        List.flatMap_def, Inventory.map_modify_of_eq hg]

theorem given_wake (op : Option Nat) (ec : ErrorCode) (calls : List Call) (i : Nat) :
    ((FdRegistry.wake (Call.wake ec) op calls)[i]?.bind fun c => c.pc.given) =
      calls[i]?.bind fun c => c.pc.given := by
  cases op with
  | none => rfl
  | some j =>
      rw [FdRegistry.wake, List.getElem?_modify]
      cases calls[i]? with
      | none => rfl
      | some c =>
          change (if j = i then c.wake ec else c).pc.given = c.pc.given
          split
          · exact c.wake_given ec
          · rfl

/-- Nothing but the waits of some calls has changed. -/
structure Woken (before after : List Call) : Prop where
  callOk : (∀ (i : Nat) (c : Call), before[i]? = some c → CallOk c) →
    ∀ (i : Nat) (c : Call), after[i]? = some c → CallOk c
  turn : Inventory.held Call.turn after () = Inventory.held Call.turn before ()
  hand : ∀ connection, Inventory.held Call.hand after connection =
    Inventory.held Call.hand before connection
  holders : ∀ (i : Nat) (c : Call) (connection : Connection), after[i]? = some c →
    c.pc.hand = some connection → ∃ d, before[i]? = some d ∧ d.pc.hand = some connection
  given : ∀ i : Nat, (after[i]?.bind fun c : Call => c.pc.given) =
    before[i]?.bind fun c : Call => c.pc.given

theorem Woken.refl (calls : List Call) : Woken calls calls where
  callOk := id
  turn := rfl
  hand := fun _ => rfl
  holders := fun _ c _ hc hhand => ⟨c, hc, hhand⟩
  given := fun _ => rfl

theorem Woken.wake {before after : List Call} (hwoken : Woken before after)
    (op : Option Nat) (ec : ErrorCode) :
    Woken before (FdRegistry.wake (Call.wake ec) op after) where
  callOk := by
    intro hbefore i c hc
    obtain ⟨d, hd, rfl | rfl⟩ := calls_wake hc
    · exact hwoken.callOk hbefore i c hd
    · exact (hwoken.callOk hbefore i d hd).wake ec
  turn := (held_wake (Call.wake_turn ec) op after ()).trans hwoken.turn
  hand := by
    intro connection
    have hhand : ∀ c : Call, (c.wake ec).hand = c.hand :=
      fun c => congrArg Option.toList (c.wake_hand ec)
    exact (held_wake hhand op after connection).trans (hwoken.hand connection)
  holders := by
    intro i c connection hc hhand
    obtain ⟨d, hd, rfl | rfl⟩ := calls_wake hc
    · exact hwoken.holders i c connection hd hhand
    · rw [d.wake_hand] at hhand
      exact hwoken.holders i d connection hd hhand
  given := fun i => (given_wake op ec after i).trans (hwoken.given i)

/-- A step that leaves the connections alone, and of the calls changes the waits. -/
theorem Inv.keep (hs : Inv s) (hcalls : Woken s.calls t.calls)
    (hactive : t.shared.acceptOp.active = s.shared.acceptOp.active)
    (hrecorded : t.shared.registry.Records Call.waits t.calls)
    (hreplaced : t.shared.replaced = s.shared.replaced)
    (harrived : ∀ listener, s.shared.arrived listener ≤ t.shared.arrived listener)
    (htaken : t.shared.taken = s.shared.taken)
    (hdelivered : t.shared.delivered = s.shared.delivered)
    (hdropped : t.shared.dropped = s.shared.dropped) : Inv t where
  callOk := hcalls.callOk hs.callOk
  turns := by rw [hcalls.turn, hactive, hs.turns]
  recorded := hrecorded
  unreplaced := hreplaced.trans hs.unreplaced
  delivery :=
    { arrived := fun listener => htaken ▸
        (hs.delivery.arrived listener).trans (harrived listener)
      once := by
        intro connection
        have hheld := hcalls.hand connection
        rw [hdelivered, hdropped, htaken]
        exact (congrArg (_ + ·) hheld).trans (hs.delivery.once connection)
      returned := by
        intro i
        rw [hdelivered, hcalls.given]
        exact hs.delivery.returned i
      ordered := by
        rw [hdelivered]
        exact hs.delivery.ordered }
  before := by
    intro first hfirst i c later hc hhand
    rw [hdelivered] at hfirst
    obtain ⟨d, hd, hold⟩ := hcalls.holders i c later hc hhand
    exact hs.before first hfirst i d later hd hold

theorem calls_begin {i : Nat} {c : Call} (hc : (s.calls ++ [({} : Call)])[i]? = some c) :
    s.calls[i]? = some c ∨ c = {} := by
  rw [List.getElem?_append] at hc
  split at hc
  · exact .inl hc
  · rw [List.getElem?_singleton] at hc
    split at hc
    · exact .inr (Option.some.inj hc).symm
    · cases hc

theorem place_given_begin (calls : List Call) (i : Nat) :
    FdRegistry.place (fun c : Call => c.pc.given) (calls ++ [({} : Call)]) i =
      FdRegistry.place (fun c : Call => c.pc.given) calls i :=
  FdRegistry.place_append rfl i

/-- A new call. -/
theorem Inv.begin (hs : Inv s) : Inv { s with calls := s.calls ++ [{}] } where
  callOk := by
    intro i c hc
    rcases calls_begin hc with hc | rfl
    · exact hs.callOk i c hc
    · exact
        { count := rfl
          once := Nat.zero_le 1
          entering := fun _ => rfl
          refused := by
            intro result _ h
            cases h }
  turns := by
    rw [Inventory.held_append, hs.turns]
    rfl
  recorded := hs.recorded.congr fun i => FdRegistry.place_append rfl i
  unreplaced := hs.unreplaced
  delivery :=
    { arrived := hs.delivery.arrived
      once := by
        intro connection
        rw [Inventory.held_append]
        exact hs.delivery.once connection
      returned := by
        intro i
        have hsame := place_given_begin s.calls i
        exact (hs.delivery.returned i).trans (congrArg Option.toList hsame.symm)
      ordered := hs.delivery.ordered }
  before := by
    intro first hfirst i c later hc hhand
    rcases calls_begin hc with hc | rfl
    · exact hs.before first hfirst i c later hc hhand
    · cases hhand

/-- A task leaves the flag, the waits and the connections alone. -/
theorem Inv.task (hs : Inv s) {i : Nat} {ok : Bool}
    (hstep : s.controlStep i ok = some t) : Inv t := by
  rw [State.controlStep] at hstep
  split at hstep
  · next task todo old _ =>
      obtain ⟨⟨shared, old', goesOn⟩, htask, rfl⟩ := Option.map_eq_some_iff.mp hstep
      have hkeep : shared.acceptOp.active = s.shared.acceptOp.active →
          shared.registry.Records Call.waits s.calls →
          shared.replaced = s.shared.replaced → shared.arrived = s.shared.arrived →
          shared.taken = s.shared.taken → shared.delivered = s.shared.delivered →
          shared.dropped = s.shared.dropped → Inv { s with
            shared
            controls := s.controls.set i
              { todo := if goesOn then todo else [], old := old' } } :=
        fun hactive hrecorded hreplaced harrived =>
          hs.keep (t := { s with
            shared
            controls := s.controls.set i
              { todo := if goesOn then todo else [], old := old' } })
            (.refl _) hactive hrecorded hreplaced fun _ => harrived ▸ Nat.le_refl _
      have hrecorded := hs.recorded
      cases task with
      | openBase =>
          simp only [Shared.task] at htask
          split at htask
          · cases htask
            exact hkeep rfl (hrecorded.track _) rfl rfl rfl rfl rfl
          · cases htask
            exact hkeep rfl hrecorded rfl rfl rfl rfl rfl
      | lock =>
          simp only [Shared.task] at htask
          split at htask
          · cases htask
            exact hkeep rfl hrecorded rfl rfl rfl rfl rfl
          · cases htask
      | acquire | checkClosing | listenFd | setListening | cancelOp | unlock | takeOut
      | markClosing | cancelHandles =>
          cases htask
          exact hkeep rfl hrecorded rfl rfl rfl rfl rfl
  · cases hstep

/-- The steps of a call, in which no wait is replaced. -/
theorem Inv.moves (hs : Inv s) {i : Nat} {f : Call → Option (Effect × Pc)}
    (hcases : ∀ c effect pc, f c = some (effect, pc) → CallStep s.shared i c effect pc)
    (hstep : s.moves i f = some t) : Inv t := by
  obtain ⟨c, effect, pc, hc, hmove, rfl⟩ := moves_cases hcases hstep
  rw [hs.replacedBy hc hmove]
  exact hs.commit hc hmove

theorem Inv.preserved {a : Action} (hs : Inv s) (hstep : step s a = some t) :
    Inv t := by
  cases a with
  | arrive listener =>
      cases hstep
      refine hs.keep (.refl _) rfl hs.recorded rfl (fun other => ?_) rfl rfl rfl
      change _ ≤ Function.update s.shared.arrived listener _ other
      rw [Function.update_apply]
      split
      · next hother =>
          rw [hother]
          omega
      · exact Nat.le_refl _
  | begin =>
      cases hstep
      exact hs.begin
  | call i => exact hs.moves (fun _ _ _ => callStep_cases) hstep
  | accept i errno => exact hs.moves (fun _ _ _ => acceptStep_cases) hstep
  | setup i errno => exact hs.moves (fun _ _ _ => setupStep_cases) hstep
  | request request =>
      cases hstep
      exact hs.keep (.refl _) rfl hs.recorded rfl (fun _ => Nat.le_refl _) rfl rfl rfl
  | control i ok => exact hs.task hstep
  | ready res canRead canWrite ec =>
      cases hstep
      exact hs.keep (((Woken.refl _).wake _ ec).wake _ ec) rfl
        (hs.recorded.takeReady (Call.wake_waits ec) res canRead canWrite) rfl
        (fun _ => Nat.le_refl _) rfl rfl rfl
  | cancelHandle res token =>
      cases hstep
      exact hs.keep ((Woken.refl _).wake _ .operationAborted) rfl
        (hs.recorded.cancel (Call.wake_waits .operationAborted) res .read token) rfl
        (fun _ => Nat.le_refl _) rfl rfl rfl

theorem Inv.start : Inv system.start where
  callOk := by
    intro i c hc
    cases hc
  turns := rfl
  recorded := FdRegistry.records_empty
  unreplaced := rfl
  delivery :=
    { arrived := fun _ => Nat.le_refl 0
      once := fun _ => rfl
      returned := fun _ => rfl
      ordered := List.Pairwise.nil }
  before := by
    intro first hfirst
    cases hfirst

theorem Inv.reachable (hs : system.Reachable s) : Inv s := by
  have hstart : Inv system.start := .start
  exact hs.invariant hstart fun _ _ _ hinv hstep => hinv.preserved hstep

/-! ### What holds in every run -/

theorem CallOk.inside {c : Call} (hc : CallOk c) (hinside : c.inside = true) :
    c.pc.holds = true := by
  have hcount := hc.count
  rw [Call.inside, decide_eq_true_iff] at hinside
  cases hholds : c.pc.holds with
  | true => rfl
  | false =>
      rw [hholds, Bool.toNat_false] at hcount
      omega

theorem Inv.turnsTaken (hs : Inv s) : Turns s where
  single := by
    intro i j c d hc hd hcinside hdinside
    exact hs.same hc hd ((hs.callOk i c hc).inside hcinside)
      ((hs.callOk j d hd).inside hdinside)
  finished := by
    intro i c hc
    have hok := hs.callOk i c hc
    have hcount := hok.count
    refine ⟨hok.once, by omega, fun hended => ?_⟩
    cases hpc : c.pc with
    | returned result =>
        rw [hpc] at hcount
        exact hcount.symm
    | _ =>
        rw [hpc] at hended
        cases hended

/-- A call that has not been started is turned away or comes nearer to its
`try_start`. -/
theorem CallStep.unstarted {i : Nat} {c : Call} {effect : Effect} {pc : Pc}
    (hstep : CallStep s.shared i c effect pc) (hc : CallOk c)
    (hstarts : (c.move effect pc).starts = 0) : effect.quiet = true := by
  have hcount := hc.count
  have hinside : c.pc.holds = true → c.starts ≠ 0 := by
    intro hholds
    rw [hholds, Bool.toNat_true] at hcount
    omega
  cases hstep with
  | walk hquiet => exact hquiet
  | start => cases hstarts
  | take hpc => exact absurd hstarts (hinside (Pc.holds_of_invokes hpc))
  | drop hpc | ready hpc | register hpc | finish hpc =>
      exact absurd hstarts (hinside (by rw [hpc]; rfl))

theorem Inv.turnsAway (hs : Inv s) : TurnsAway s where
  unchanged := by
    intro i t c hstep hc hstarts
    obtain ⟨before, effect, pc, hbefore, hmove, rfl⟩ :=
      moves_cases (fun _ _ _ => callStep_cases) hstep
    rw [hs.replacedBy hbefore hmove] at hc
    rcases calls_commit hc with ⟨-, rfl⟩ | ⟨hne, -⟩
    · exact s.shared.apply_quiet i (hmove.unstarted (hs.callOk i before hbefore) hstarts)
    · exact absurd rfl hne
  refused := fun i c result hc hstarts hpc =>
    (hs.callOk i c hc).refused result hstarts hpc
  busy := by
    intro i j res c d t hc hpc hd hinside hstep
    have hactive := hs.active hd ((hs.callOk j d hd).inside hinside)
    obtain ⟨before, hbefore, hstep⟩ := Option.bind_eq_some_iff.mp hstep
    obtain rfl := Option.some.inj (hc.symm.trans hbefore)
    obtain ⟨⟨effect, pc⟩, hmove, rfl⟩ := Option.map_eq_some_iff.mp hstep
    simp only [callStep, hpc, hactive, ↓reduceIte] at hmove
    cases hmove
    exact List.getElem?_set_self (List.getElem?_eq_some_iff.mp hc).1

theorem Inv.waits (hs : Inv s) : Waits s where
  stored := by
    intro i n kind
    rw [hs.recorded i n kind]
    constructor
    · intro hplace
      obtain ⟨c, hc, hwaits⟩ := Option.bind_eq_some_iff.mp hplace
      cases hpc : c.pc with
      | waiting held =>
          rw [Call.waits, hpc] at hwaits
          cases hwaits
          exact ⟨c, held, hc, hpc, rfl, rfl⟩
      | _ =>
          rw [Call.waits, hpc] at hwaits
          cases hwaits
    · rintro ⟨c, held, hc, hpc, rfl, rfl⟩
      rw [FdRegistry.place_of_getElem? hc, Call.waits, hpc]
      rfl
  single := by
    intro i j c d hc hd hcwaits hdwaits
    obtain ⟨_, hcwaits⟩ := Option.isSome_iff_exists.mp hcwaits
    obtain ⟨_, hdwaits⟩ := Option.isSome_iff_exists.mp hdwaits
    exact hs.same hc hd (Pc.holds_of_waits hcwaits) (Pc.holds_of_waits hdwaits)
  unreplaced := hs.unreplaced

/-- In every run one accept at a time is under way, the others are turned away, and the
registry stores the wait of the one that waits, which no registration replaces. -/
theorem accepts_take_turns (s : State) (hs : system.Reachable s) :
    Turns s ∧ TurnsAway s ∧ Waits s := by
  have hinv := Inv.reachable hs
  exact ⟨hinv.turnsTaken, hinv.turnsAway, hinv.waits⟩

def calls (i n : Nat) : List Action := List.replicate n (.call i)

def controls (i n : Nat) : List Action := List.replicate n (.control i true)

/-- An accept that waits, and one that comes meanwhile; then a connection comes. -/
def waitThenAccept : List Action :=
  List.flatten [[.request .open], controls 0 4, [.request .listen], controls 1 6,
    [.begin], calls 0 9, [.accept 0 (some eagain)], calls 0 4, [.begin], calls 1 5,
    [.arrive 0, .ready 0 true false .none], calls 0 5, [.accept 0 none], calls 0 3]

/-- The first call has the connection, and the second was turned away. -/
def firstServed (s : State) : Bool :=
  decide (s.calls.map Call.pc =
      [.returned (.accepted ⟨0, 0⟩), .returned (.failed .busy)]) &&
    decide (s.shared.delivered = [(0, ⟨0, 0⟩)])

theorem accepts_take_turns_waitThenAccept :
    ∃ s, firstServed s = true ∧ Turns s ∧ TurnsAway s ∧ Waits s := by
  obtain ⟨s, hs, hend⟩ := TransitionSystem.exists_reachable_of_exec system
    waitThenAccept firstServed (by decide)
  exact ⟨s, hend, accepts_take_turns s hs⟩

/-- In every run each connection that was accepted is in one place, and the callers get
the connections of a listening socket in the order in which they came. -/
theorem accepts_deliver (s : State) (hs : system.Reachable s) : Delivery s :=
  (Inv.reachable hs).delivery

theorem accepts_deliver_waitThenAccept : ∃ s, firstServed s = true ∧ Delivery s := by
  obtain ⟨s, hs, hend⟩ := TransitionSystem.exists_reachable_of_exec system
    waitThenAccept firstServed (by decide)
  exact ⟨s, hend, accepts_deliver s hs⟩

/-! ### Closing -/

theorem Pc.lapsed_mono {closing closing' : List Nat} {pc : Pc}
    (hsub : ∀ res ∈ closing, res ∈ closing') (hlapsed : pc.lapsed closing = true) :
    pc.lapsed closing' = true := by
  rw [Pc.lapsed, Bool.or_eq_true] at hlapsed ⊢
  rcases hlapsed with hfails | huses
  · exact .inl hfails
  · obtain ⟨res, hres, hmem⟩ := (Option.any_eq_true _ _).mp huses
    exact .inr ((Option.any_eq_true _ _).mpr
      ⟨res, hres, decide_eq_true (hsub res (of_decide_eq_true hmem))⟩)

theorem Call.wake_lapsed {closing : List Nat} (ec : ErrorCode) (c : Call) :
    (c.wake ec).pc.lapsed closing = c.pc.lapsed closing := by
  rcases c.wake_cases ec with hsame | ⟨held, hpc, hwoken⟩
  · rw [hsame]
  · rw [hwoken, hpc]
    rfl

theorem CallStep.lapsed {i : Nat} {c : Call} {effect : Effect} {pc : Pc}
    (hstep : CallStep s.shared i c effect pc)
    (hlapsed : c.pc.lapsed s.shared.closing = true) :
    pc.lapsed s.shared.closing = true := by
  cases hstep with
  | walk _ hwalk => exact hwalk.lapsed hlapsed
  | take hpc _ hnew =>
      have hsame : c.pc.lapsed s.shared.closing = pc.lapsed s.shared.closing := by
        rcases hnew with rfl | rfl
        all_goals
          cases hbefore : c.pc with
          | accept4 | accept =>
              rw [hbefore] at hpc
              cases hpc
              rfl
          | _ =>
              rw [hbefore] at hpc
              cases hpc
      rwa [hsame] at hlapsed
  | start hpc | ready hpc | register hpc =>
      rw [hpc] at hlapsed
      exact hlapsed
  | drop => rfl
  | @finish result hpc =>
      rw [hpc] at hlapsed
      cases result with
      | accepted => cases hlapsed
      | failed => rfl

theorem Shared.apply_closing (x : Shared) (i : Nat) (effect : Effect) :
    (x.apply i effect).closing = x.closing := by
  cases effect with
  | none | lock | unlock | start | take | drop | register | finish => rfl

theorem Shared.task_closing {x y : Shared} {i : Nat} {old old' : Option Nat}
    {ok goesOn : Bool} {task : Task} (htask : x.task i old ok task = some (y, old', goesOn))
    (res : Nat) (hres : res ∈ x.closing) : res ∈ y.closing := by
  cases task with
  | openBase =>
      simp only [Shared.task] at htask
      split at htask
      · cases htask
        exact hres
      · cases htask
        exact hres
  | lock =>
      simp only [Shared.task] at htask
      split at htask
      · cases htask
        exact hres
      · cases htask
  | markClosing =>
      cases htask
      exact List.mem_append_right _ hres
  | acquire | checkClosing | listenFd | setListening | cancelOp | unlock | takeOut
  | cancelHandles =>
      cases htask
      exact hres

/-- The call gives an error, whatever comes. -/
def Lapsed (i : Nat) (s : State) : Prop :=
  ∃ c, s.calls[i]? = some c ∧ c.pc.lapsed s.shared.closing = true

theorem Lapsed.keep {i : Nat} (hs : Lapsed i s) (hcalls : t.calls[i]? = s.calls[i]?)
    (hclosing : ∀ res ∈ s.shared.closing, res ∈ t.shared.closing) : Lapsed i t := by
  obtain ⟨c, hc, hlapsed⟩ := hs
  exact ⟨c, hcalls.trans hc, Pc.lapsed_mono hclosing hlapsed⟩

theorem Lapsed.wake {i : Nat} (hs : Lapsed i s) (op : Option Nat) (ec : ErrorCode) :
    Lapsed i (s.wake op ec) := by
  obtain ⟨c, hc, hlapsed⟩ := hs
  cases op with
  | none => exact ⟨c, hc, hlapsed⟩
  | some j =>
      refine ⟨if j = i then c.wake ec else c, ?_, ?_⟩
      · rw [State.wake, FdRegistry.wake, List.getElem?_modify, hc]
        rfl
      · split
        · rw [c.wake_lapsed]
          exact hlapsed
        · exact hlapsed

theorem Lapsed.moves {i j : Nat} (hs : Lapsed i s) {f : Call → Option (Effect × Pc)}
    (hcases : ∀ c effect pc, f c = some (effect, pc) → CallStep s.shared j c effect pc)
    (hstep : s.moves j f = some t) : Lapsed i t := by
  obtain ⟨c, effect, pc, hc, hmove, rfl⟩ := moves_cases hcases hstep
  refine Lapsed.wake ?_ _ _
  obtain ⟨d, hd, hlapsed⟩ := hs
  have hclosing := s.shared.apply_closing j effect
  by_cases hj : j = i
  · subst hj
    obtain rfl := Option.some.inj (hc.symm.trans hd)
    refine ⟨c.move effect pc, List.getElem?_set_self (List.getElem?_eq_some_iff.mp hc).1,
      ?_⟩
    rw [Call.move_pc]
    change pc.lapsed (s.shared.apply j effect).closing = true
    rw [hclosing]
    exact hmove.lapsed hlapsed
  · refine ⟨d, (List.getElem?_set_ne hj).trans hd, ?_⟩
    change d.pc.lapsed (s.shared.apply j effect).closing = true
    rw [hclosing]
    exact hlapsed

theorem Lapsed.preserved {i : Nat} {a : Action} (hs : Lapsed i s)
    (hstep : step s a = some t) : Lapsed i t := by
  cases a with
  | arrive listener =>
      cases hstep
      exact hs.keep rfl fun _ => id
  | begin =>
      cases hstep
      refine hs.keep (List.getElem?_append_left ?_) fun _ => id
      obtain ⟨c, hc, -⟩ := hs
      exact (List.getElem?_eq_some_iff.mp hc).1
  | call j => exact hs.moves (fun _ _ _ => callStep_cases) hstep
  | accept j errno => exact hs.moves (fun _ _ _ => acceptStep_cases) hstep
  | setup j errno => exact hs.moves (fun _ _ _ => setupStep_cases) hstep
  | request request =>
      cases hstep
      exact hs.keep rfl fun _ => id
  | control j ok =>
      simp only [step, State.controlStep] at hstep
      split at hstep
      · obtain ⟨⟨shared, old, goesOn⟩, htask, rfl⟩ := Option.map_eq_some_iff.mp hstep
        exact hs.keep rfl (Shared.task_closing htask)
      · cases hstep
  | ready res canRead canWrite ec =>
      cases hstep
      have hkeep : Lapsed i { s with shared := { s.shared with
          registry := (s.shared.registry.takeReady res canRead canWrite).1 } } :=
        hs.keep rfl fun _ => id
      exact (hkeep.wake _ ec).wake _ ec
  | cancelHandle res token =>
      cases hstep
      have hkeep : Lapsed i { s with shared := { s.shared with
          registry := (s.shared.registry.cancel res .read token).1 } } :=
        hs.keep rfl fun _ => id
      exact hkeep.wake _ _

end Acceptor

end Iocoro
