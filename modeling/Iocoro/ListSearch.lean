/-
The first occurrence of a pattern in a list, and what of a list has to be searched
again after it has grown at its end.
-/
import Mathlib.Data.List.Infix

universe u

namespace ListSearch

variable {α : Type u} [DecidableEq α]

/-- The first position at which the pattern occurs. -/
def search (pattern : List α) : List α → Option Nat
  | [] => if pattern = [] then some 0 else none
  | a :: rest =>
      if pattern <+: a :: rest then some 0
      else (search pattern rest).map (· + 1)

def OccursAt (pattern data : List α) (k : Nat) : Prop :=
  pattern <+: data.drop k

/-- The pattern occurs here and nowhere before. -/
structure FirstAt (pattern data : List α) (k : Nat) : Prop where
  occurs : OccursAt pattern data k
  first : ∀ j < k, ¬ OccursAt pattern data j

omit [DecidableEq α] in
theorem FirstAt.unique {pattern data : List α} {j k : Nat}
    (hj : FirstAt pattern data j) (hk : FirstAt pattern data k) : j = k := by
  rcases Nat.lt_trichotomy j k with hlt | heq | hgt
  · exact absurd hj.occurs (hk.first j hlt)
  · exact heq
  · exact absurd hk.occurs (hj.first k hgt)

theorem search_eq_some_iff {pattern data : List α} {k : Nat} :
    search pattern data = some k ↔ FirstAt pattern data k := by
  induction data generalizing k with
  | nil =>
      constructor
      · intro hsearch
        rw [search] at hsearch
        split at hsearch
        next hempty =>
          obtain rfl := Option.some.inj hsearch
          exact ⟨by rw [OccursAt, hempty]; exact List.nil_prefix, nofun⟩
        next => nomatch hsearch
      · intro hfirst
        have hempty : pattern = [] := by simpa [OccursAt] using hfirst.occurs
        have hzero : FirstAt pattern [] 0 :=
          ⟨by rw [OccursAt, hempty]; exact List.nil_prefix, nofun⟩
        rw [search, if_pos hempty, hzero.unique hfirst]
  | cons a rest ih =>
      rw [search]
      split
      next hhere =>
        have hzero : FirstAt pattern (a :: rest) 0 := ⟨hhere, nofun⟩
        constructor
        · rintro ⟨⟩
          exact hzero
        · intro hfirst
          rw [hzero.unique hfirst]
      next hhere =>
        constructor
        · intro hsearch
          obtain ⟨j, hj, rfl⟩ := Option.map_eq_some_iff.mp hsearch
          have hrest := ih.mp hj
          refine ⟨hrest.occurs, fun i hi => ?_⟩
          cases i with
          | zero => exact hhere
          | succ i => exact hrest.first i (by omega)
        · intro hfirst
          cases k with
          | zero => exact absurd hfirst.occurs hhere
          | succ k =>
              have hrest : FirstAt pattern rest k :=
                ⟨hfirst.occurs, fun j hj => hfirst.first (j + 1) (by omega)⟩
              rw [ih.mpr hrest]
              rfl

theorem search_eq_none_iff {pattern data : List α} :
    search pattern data = none ↔ ∀ k, ¬ OccursAt pattern data k := by
  constructor
  · intro hnone k
    induction k using Nat.strongRecOn with
    | _ k ih =>
        intro hoccurs
        have hsome := search_eq_some_iff.mpr ⟨hoccurs, ih⟩
        rw [hnone] at hsome
        nomatch hsome
  · intro hnone
    cases hsearch : search pattern data with
    | none => rfl
    | some k => exact absurd (search_eq_some_iff.mp hsearch).occurs (hnone k)

omit [DecidableEq α] in
theorem OccursAt.le_length {pattern data : List α} {k : Nat} (hpattern : pattern ≠ [])
    (hoccurs : OccursAt pattern data k) : k + pattern.length ≤ data.length := by
  have hlength := hoccurs.length_le
  rw [List.length_drop] at hlength
  have hpos := List.length_pos_iff.mpr hpattern
  omega

omit [DecidableEq α] in
/-- An occurrence within a beginning of the data is one in the data. -/
theorem occursAt_append_iff {pattern data more : List α} {k : Nat}
    (hk : k + pattern.length ≤ data.length) :
    OccursAt pattern (data ++ more) k ↔ OccursAt pattern data k := by
  rw [OccursAt, OccursAt, List.drop_append_of_le_length (by omega)]
  refine ⟨fun hwithin => ?_, fun hwithin => hwithin.trans (List.prefix_append _ _)⟩
  refine List.prefix_of_prefix_length_le hwithin (List.prefix_append _ _) ?_
  rw [List.length_drop]
  omega

omit [DecidableEq α] in
/-- The first occurrence stays the first when the data grows. -/
theorem FirstAt.append {pattern data : List α} {k : Nat} (hpattern : pattern ≠ [])
    (hfirst : FirstAt pattern data k) (more : List α) :
    FirstAt pattern (data ++ more) k := by
  have hk := hfirst.occurs.le_length hpattern
  refine ⟨(occursAt_append_iff hk).mpr hfirst.occurs, fun j hj hoccurs => ?_⟩
  exact hfirst.first j hj ((occursAt_append_iff (by omega)).mp hoccurs)

/-- Positions before `skip` are known not to be occurrences. -/
theorem search_drop {pattern data : List α} {skip : Nat}
    (hskip : ∀ j < skip, ¬ OccursAt pattern data j) :
    search pattern data = (search pattern (data.drop skip)).map (skip + ·) := by
  have hshift : ∀ k, OccursAt pattern (data.drop skip) k ↔
      OccursAt pattern data (skip + k) := by
    intro k
    rw [OccursAt, OccursAt, List.drop_drop]
  cases hsearch : search pattern (data.drop skip) with
  | none =>
      rw [search_eq_none_iff] at hsearch
      refine search_eq_none_iff.mpr fun k hoccurs => ?_
      rcases Nat.lt_or_ge k skip with hlt | hge
      · exact hskip k hlt hoccurs
      · obtain ⟨j, rfl⟩ := Nat.exists_eq_add_of_le hge
        exact hsearch j ((hshift j).mpr hoccurs)
  | some j =>
      have hfirst := search_eq_some_iff.mp hsearch
      refine search_eq_some_iff.mpr ⟨(hshift j).mp hfirst.occurs, fun i hi => ?_⟩
      rcases Nat.lt_or_ge i skip with hlt | hge
      · exact hskip i hlt
      · obtain ⟨d, rfl⟩ := Nat.exists_eq_add_of_le hge
        rw [← hshift]
        exact hfirst.first d (by
          have hi' : skip + d < skip + j := hi
          omega)

/-- After a vain search only an occurrence that crosses the old end can be new, so
the search may start `pattern.length - 1` elements before it. -/
theorem search_append {pattern data : List α}
    (hnone : search pattern data = none) (more : List α) :
    search pattern (data ++ more) =
      (search pattern ((data ++ more).drop (data.length - (pattern.length - 1)))).map
        (data.length - (pattern.length - 1) + ·) := by
  refine search_drop fun j hj hoccurs => ?_
  have hold := (occursAt_append_iff (by omega)).mp hoccurs
  exact search_eq_none_iff.mp hnone j hold

end ListSearch
