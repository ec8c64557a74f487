/-
Races for a flag.  Parties come to a flag, each with a value; the one that finds it clear
writes its value to a cell and publishes the cell, and the others leave.  The cell is
written once and published once, and never written after it was published.
-/
import Mathlib.Data.List.Basic
import Mathlib.Logic.Function.Basic
import Iocoro.TransitionSystem

universe u v

namespace Race

/-- How far a party has come: it may start, exchanges the flag, writes, publishes, or has
come to its end; `out` is a party that will not take part, or no longer does. -/
inductive Stage (α : Type u) where
  | idle
  | exchange (value : α)
  | write (value : α)
  | publish
  | ended
  | out
deriving DecidableEq, Repr

@[ext] structure State (ι : Type v) (α : Type u) where
  flag : Bool := false
  winner : Option ι := none
  cell : α
  writes : List α := []
  posts : Nat := 0
  taken : Option α := none
  stage : ι → Stage α := fun _ => .idle

/-- `take` is the reader that was told of the published cell. -/
inductive Action (ι : Type v) (α : Type u) where
  | start (i : ι) (value : α)
  | leave (i : ι)
  | advance (i : ι)
  | take

variable {ι : Type v} {α : Type u}

section Step

variable [DecidableEq ι]

def State.move (s : State ι α) (i : ι) (stage : Stage α) : State ι α :=
  { s with stage := Function.update s.stage i stage }

def State.advance (s : State ι α) (i : ι) : Option (State ι α) :=
  match s.stage i with
  | .exchange value =>
      if s.flag then some (s.move i .ended)
      else some { s.move i (.write value) with flag := true, winner := some i }
  | .write value =>
      some { s.move i .publish with cell := value, writes := s.writes ++ [value] }
  | .publish => some { s.move i .ended with posts := s.posts + 1 }
  | .idle | .ended | .out => none

theorem advance_lost {s : State ι α} {i : ι} {value : α}
    (hi : s.stage i = .exchange value) (hflag : s.flag = true) :
    s.advance i = some (s.move i .ended) := by
  simp only [State.advance, hi, hflag, ↓reduceIte]

theorem advance_won {s : State ι α} {i : ι} {value : α}
    (hi : s.stage i = .exchange value) (hflag : s.flag = false) :
    s.advance i =
      some { s.move i (.write value) with flag := true, winner := some i } := by
  simp only [State.advance, hi, hflag, Bool.false_eq_true, ↓reduceIte]

theorem advance_write {s : State ι α} {i : ι} {value : α}
    (hi : s.stage i = .write value) : s.advance i =
      some { s.move i .publish with cell := value, writes := s.writes ++ [value] } := by
  simp only [State.advance, hi]

theorem advance_publish {s : State ι α} {i : ι} (hi : s.stage i = .publish) :
    s.advance i = some { s.move i .ended with posts := s.posts + 1 } := by
  simp only [State.advance, hi]

def step (s : State ι α) : Action ι α → Option (State ι α)
  | .start i value =>
      match s.stage i with
      | .idle => some (s.move i (.exchange value))
      | _ => none
  | .leave i =>
      match s.stage i with
      | .idle | .ended => some (s.move i .out)
      | _ => none
  | .advance i => s.advance i
  | .take =>
      if 0 < s.posts ∧ s.taken.isNone then some { s with taken := some s.cell } else none

theorem step_start {s : State ι α} {i : ι} (hi : s.stage i = .idle) (value : α) :
    step s (.start i value) = some (s.move i (.exchange value)) := by
  simp only [step, hi]

theorem step_leave {s : State ι α} {i : ι} (hi : s.stage i = .idle ∨ s.stage i = .ended) :
    step s (.leave i) = some (s.move i .out) := by
  rcases hi with hi | hi
  · simp only [step, hi]
  · simp only [step, hi]

def system (ι : Type v) [DecidableEq ι] (cell : α) :
    TransitionSystem (State ι α) (Action ι α) where
  start := { cell }
  step := step

end Step

/-- The parties start with values of their own. -/
def Allowed (Writes : ι → α → Prop) (_ : State ι α) : Action ι α → Prop
  | .start i value => Writes i value
  | _ => True

/-- How many writes and posts there have been when the winner has come this far. -/
def Stage.made : Stage α → Option (Nat × Nat)
  | .idle | .exchange _ => none
  | .write _ => some (0, 0)
  | .publish => some (1, 0)
  | .ended | .out => some (1, 1)

/-- The value that a party is still to write. -/
def Stage.value : Stage α → Option α
  | .exchange value | .write value => some value
  | _ => none

/-- The party has won, and not come to its end. -/
def Stage.won : Stage α → Bool
  | .write _ | .publish => true
  | _ => false

structure Inv (Writes : ι → α → Prop) (s : State ι α) : Prop where
  flag : s.flag = s.winner.isSome
  won : ∀ i, (s.stage i).won = true → s.winner = some i
  ended : ∀ i, s.stage i = .ended → s.winner.isSome = true
  unwon : s.winner = none → s.writes = [] ∧ s.posts = 0
  made : ∀ i, s.winner = some i → (s.stage i).made = some (s.writes.length, s.posts)
  value : ∀ i value, (s.stage i).value = some value → Writes i value
  writes : ∀ value ∈ s.writes, value = s.cell ∧ ∃ i, s.winner = some i ∧ Writes i value
  taken : ∀ value, s.taken = some value → 0 < s.posts ∧ value = s.cell

variable {Writes : ι → α → Prop} {s t : State ι α}

theorem Inv.start (cell : α) : Inv Writes ({ cell } : State ι α) where
  flag := rfl
  won := by
    intro i hwon
    cases hwon
  ended := by
    intro i hended
    cases hended
  unwon := fun _ => ⟨rfl, rfl⟩
  made := by
    intro i hi
    cases hi
  value := by
    intro i value hvalue
    cases hvalue
  writes := by
    intro value hmem
    cases hmem
  taken := by
    intro value htaken
    cases htaken

section Step

variable [DecidableEq ι] {i : ι}

theorem move_stage (s : State ι α) (i : ι) (stage : Stage α) (j : ι) :
    (s.move i stage).stage j = if j = i then stage else s.stage j :=
  Function.update_apply _ _ _ _

/-- A party moves without writing or publishing. -/
theorem Inv.move (hs : Inv Writes s) {stage : Stage α} (hwon : stage.won = false)
    (hended : stage = .ended → s.winner.isSome = true)
    (hmade : s.winner = some i → stage.made = some (s.writes.length, s.posts))
    (hvalue : ∀ value, stage.value = some value → Writes i value) :
    Inv Writes (s.move i stage) where
  flag := hs.flag
  won := by
    intro j hj
    rw [move_stage] at hj
    split at hj
    · cases hwon.symm.trans hj
    · exact hs.won j hj
  ended := by
    intro j hj
    rw [move_stage] at hj
    split at hj
    · exact hended hj
    · exact hs.ended j hj
  unwon := hs.unwon
  made := by
    intro j hj
    rw [move_stage]
    split
    · next h => exact hmade (h ▸ hj)
    · exact hs.made j hj
  value := by
    intro j value hj
    rw [move_stage] at hj
    split at hj
    · next h => exact h ▸ hvalue value hj
    · exact hs.value j value hj
  writes := hs.writes
  taken := hs.taken

/-- The flag was clear. -/
theorem Inv.win (hs : Inv Writes s) {value : α} (hi : s.stage i = .exchange value)
    (hflag : s.flag = false) :
    Inv Writes { s.move i (.write value) with flag := true, winner := some i } where
  flag := rfl
  won := by
    intro j hj
    change ((s.move i _).stage j).won = true at hj
    rw [move_stage] at hj
    split at hj
    · next h => rw [h]
    · have hwinner := hs.won j hj
      rw [hs.flag, hwinner] at hflag
      cases hflag
  ended := fun _ _ => rfl
  unwon := by
    intro h
    cases h
  made := by
    intro j hj
    obtain rfl := Option.some.inj hj
    have hnone : s.winner = none := by
      rw [hs.flag] at hflag
      exact Option.not_isSome_iff_eq_none.mp (Bool.eq_false_iff.mp hflag)
    obtain ⟨hwrites, hposts⟩ := hs.unwon hnone
    change ((s.move i _).stage i).made = some (s.writes.length, s.posts)
    rw [move_stage, if_pos rfl, hwrites, hposts]
    rfl
  value := by
    intro j other hj
    change ((s.move i _).stage j).value = some other at hj
    rw [move_stage] at hj
    split at hj
    · next h =>
        obtain rfl := Option.some.inj hj
        exact h ▸ hs.value i value (hi ▸ rfl)
    · exact hs.value j other hj
  writes := by
    intro other hmem
    have hnone : s.winner = none := by
      rw [hs.flag] at hflag
      exact Option.not_isSome_iff_eq_none.mp (Bool.eq_false_iff.mp hflag)
    change other ∈ s.writes at hmem
    rw [(hs.unwon hnone).1] at hmem
    cases hmem
  taken := hs.taken

omit [DecidableEq ι] in
/-- What is known of a party that has won. -/
theorem Inv.of_won (hs : Inv Writes s) {stage : Stage α} (hi : s.stage i = stage)
    (hwon : stage.won = true) :
    s.winner = some i ∧ stage.made = some (s.writes.length, s.posts) := by
  subst hi
  have hwinner := hs.won i hwon
  exact ⟨hwinner, hs.made i hwinner⟩

theorem Inv.write (hs : Inv Writes s) {value : α} (hi : s.stage i = .write value) :
    Inv Writes { s.move i .publish with cell := value, writes := s.writes ++ [value] } := by
  obtain ⟨hwinner, hmade⟩ := hs.of_won hi rfl
  obtain ⟨hwrites, hposts⟩ := Prod.mk.inj (Option.some.inj hmade)
  have hnil : s.writes = [] := List.length_eq_zero_iff.mp hwrites.symm
  exact
    { flag := hs.flag
      won := by
        intro j hj
        change ((s.move i _).stage j).won = true at hj
        rw [move_stage] at hj
        split at hj
        · next h => exact h ▸ hwinner
        · exact hs.won j hj
      ended := by
        intro j hj
        change (s.move i _).stage j = .ended at hj
        rw [move_stage] at hj
        split at hj
        · cases hj
        · exact hs.ended j hj
      unwon := by
        intro h
        cases h.symm.trans hwinner
      made := by
        intro j hj
        obtain rfl := Option.some.inj (hwinner.symm.trans hj)
        change ((s.move i _).stage i).made = some ((s.writes ++ [value]).length, s.posts)
        rw [move_stage, if_pos rfl, hnil, ← hposts]
        rfl
      value := by
        intro j other hj
        change ((s.move i _).stage j).value = some other at hj
        rw [move_stage] at hj
        split at hj
        · cases hj
        · exact hs.value j other hj
      writes := by
        intro other hmem
        change other ∈ s.writes ++ [value] at hmem
        rw [hnil] at hmem
        obtain rfl := List.mem_singleton.mp hmem
        exact ⟨rfl, i, hwinner, hs.value i other (hi ▸ rfl)⟩
      taken := by
        intro other htaken
        have hpos := (hs.taken other htaken).1
        omega }

theorem Inv.publish (hs : Inv Writes s) (hi : s.stage i = .publish) :
    Inv Writes { s.move i .ended with posts := s.posts + 1 } := by
  obtain ⟨hwinner, hmade⟩ := hs.of_won hi rfl
  obtain ⟨hwrites, hposts⟩ := Prod.mk.inj (Option.some.inj hmade)
  exact
    { flag := hs.flag
      won := by
        intro j hj
        change ((s.move i _).stage j).won = true at hj
        rw [move_stage] at hj
        split at hj
        · cases hj
        · exact hs.won j hj
      ended := fun _ _ => by
        change s.winner.isSome = true
        rw [hwinner]
        rfl
      unwon := by
        intro h
        cases h.symm.trans hwinner
      made := by
        intro j hj
        obtain rfl := Option.some.inj (hwinner.symm.trans hj)
        change ((s.move i _).stage i).made = some (s.writes.length, s.posts + 1)
        rw [move_stage, if_pos rfl, ← hwrites, ← hposts]
        rfl
      value := by
        intro j other hj
        change ((s.move i _).stage j).value = some other at hj
        rw [move_stage] at hj
        split at hj
        · cases hj
        · exact hs.value j other hj
      writes := hs.writes
      taken := by
        intro other htaken
        exact ⟨Nat.succ_pos _, (hs.taken other htaken).2⟩ }

theorem Inv.advance (hs : Inv Writes s) (hstep : s.advance i = some t) :
    Inv Writes t := by
  rw [State.advance] at hstep
  split at hstep
  next value hi =>
    split at hstep
    · next hflag =>
        cases hstep
        have hsome : s.winner.isSome = true := hs.flag ▸ hflag
        refine hs.move rfl (fun _ => hsome) (fun hwinner => ?_) fun other hother => ?_
        · have hmade := hs.made i hwinner
          rw [hi] at hmade
          cases hmade
        · cases hother
    · next hflag =>
        cases hstep
        exact hs.win hi (Bool.eq_false_iff.mpr hflag)
  next value hi =>
    cases hstep
    exact hs.write hi
  next hi =>
    cases hstep
    exact hs.publish hi
  all_goals cases hstep

theorem Inv.preserved {a : Action ι α} (hs : Inv Writes s) (hallowed : Allowed Writes s a)
    (hstep : step s a = some t) : Inv Writes t := by
  cases a with
  | start i value =>
      simp only [step] at hstep
      split at hstep
      · next hi =>
          cases hstep
          refine hs.move rfl (fun h => ?_) (fun hwinner => ?_) fun other hother => ?_
          · cases h
          · have hmade := hs.made i hwinner
            rw [hi] at hmade
            cases hmade
          · obtain rfl := Option.some.inj hother
            exact hallowed
      · cases hstep
  | leave i =>
      simp only [step] at hstep
      split at hstep
      · next hi =>
          cases hstep
          refine hs.move rfl (fun h => ?_) (fun hwinner => ?_) fun other hother => ?_
          · cases h
          · have hmade := hs.made i hwinner
            rw [hi] at hmade
            cases hmade
          · cases hother
      · next hi =>
          cases hstep
          refine hs.move rfl (fun h => ?_) (fun hwinner => ?_) fun other hother => ?_
          · cases h
          · have hmade := hs.made i hwinner
            rw [hi] at hmade
            exact hmade
          · cases hother
      · cases hstep
  | advance i => exact hs.advance hstep
  | take =>
      simp only [step] at hstep
      split at hstep
      · next hready =>
          cases hstep
          exact
            { flag := hs.flag
              won := hs.won
              ended := hs.ended
              unwon := hs.unwon
              made := hs.made
              value := hs.value
              writes := hs.writes
              taken := by
                rintro value ⟨⟩
                exact ⟨hready.1, rfl⟩ }
      · cases hstep

end Step

theorem Inv.reachable [DecidableEq ι] {cell : α}
    (hs : (system ι cell).ReachableUnder (Allowed Writes) s) : Inv Writes s := by
  have hstart : Inv Writes (system ι cell).start := .start cell
  exact hs.invariant hstart fun _ _ _ hinv hallowed hstep =>
    hinv.preserved hallowed hstep

/-- What was published is the value of one party, written before. -/
theorem Inv.published (hs : Inv Writes s) :
    s.posts ≤ 1 ∧ (s.posts = 1 → ∃ i value, s.winner = some i ∧ Writes i value ∧
      s.writes = [value] ∧ s.cell = value) := by
  cases hwinner : s.winner with
  | none =>
      have hposts := (hs.unwon hwinner).2
      omega
  | some i =>
      have hmade := hs.made i hwinner
      have hfew : ∀ stage : Stage α, stage.made = some (s.writes.length, s.posts) →
          s.writes.length ≤ 1 ∧ s.posts ≤ s.writes.length := by
        intro stage hstage
        cases stage with
        | idle | exchange => cases hstage
        | write | publish | ended | out =>
            obtain ⟨hwrites, hposts⟩ := Prod.mk.inj (Option.some.inj hstage)
            omega
      obtain ⟨hwrites, hposts⟩ := hfew _ hmade
      refine ⟨by omega, fun hone => ?_⟩
      obtain ⟨value, hvalue⟩ := List.length_eq_one_iff.mp (by omega : s.writes.length = 1)
      obtain ⟨hcell, j, hj, hwrite⟩ :=
        hs.writes value (by rw [hvalue]; exact List.mem_singleton_self value)
      exact ⟨i, value, rfl, Option.some.inj (hwinner.symm.trans hj) ▸ hwrite, hvalue,
        hcell.symm⟩

/-- Once a party has ended, the winner publishes or has published. -/
theorem Inv.settles (hs : Inv Writes s) {i : ι} (hi : s.stage i = .ended) :
    s.posts = 1 ∨ ∃ j, s.winner = some j ∧ (s.stage j).won = true := by
  obtain ⟨j, hj⟩ := Option.isSome_iff_exists.mp (hs.ended i hi)
  have hmade := hs.made j hj
  cases hstage : s.stage j with
  | idle | exchange =>
      rw [hstage] at hmade
      cases hmade
  | write | publish => exact .inr ⟨j, hj, by rw [hstage]; rfl⟩
  | ended | out =>
      rw [hstage] at hmade
      exact .inl (Prod.mk.inj (Option.some.inj hmade)).2.symm

end Race
