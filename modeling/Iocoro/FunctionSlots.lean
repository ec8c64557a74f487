/-
What a `unique_function` holds: the object in its own storage, or a block that it alone
owns.  So it takes the steps of a slot, and each callable has one owner until it is
destroyed.
-/
import Iocoro.UniqueFunction

universe u v w

namespace Iocoro

namespace UniqueFunction

variable {V : Type u} {Args : Type v} {R : Type w}

/-- A pointer to the own storage, where the type fits, or to a block. -/
inductive Holds (m : Memory V) (w : Nat) : Wrapper → Option (Callable V) → Prop
  | empty (hstorage : m.cells (.storage w) = none) : Holds m w {} none
  | inline {f : FunctorType} {value : V} {n : Nat} (hfits : f.fitsInline = true)
      (hcell : m.cells (.storage w) = some (n, ⟨f, value⟩)) :
      Holds m w { ptr := some (.storage w), vtable := some f, isInline := true }
        (some ⟨f, value⟩)
  | heap {b : Nat} {f : FunctorType} {value : V} {n : Nat}
      (hstorage : m.cells (.storage w) = none)
      (hcell : m.cells (.heap b) = some (n, ⟨f, value⟩)) :
      Holds m w { ptr := some (.heap b), vtable := some f, isInline := false }
        (some ⟨f, value⟩)

def State.ptrOf (s : State V R) (w : Nat) : Option Address := (s.wrappers w).bind Wrapper.ptr

/-- The wrapper `w` points to the callable with the number `n`, in its own storage or in a
block. -/
def State.Owns (s : State V R) (w n : Nat) : Prop :=
  ∃ x object callable, s.wrappers w = some x ∧ x.ptr = some object ∧
    s.memory.cells object = some (n, callable) ∧ x.vtable = some callable.type ∧
    (object = .storage w ∧ x.isInline = true ∧ callable.type.fitsInline = true ∨
      ∃ b, object = .heap b ∧ x.isInline = false)

/-- The wrappers stand for the slots; every block has one owner. -/
structure Rep (s : State V R) (slots : Nat → Option (Option (Callable V))) : Prop where
  once : s.memory.Once
  dead : ∀ w, slots w = none → s.wrappers w = none ∧ s.memory.cells (.storage w) = none
  holds : ∀ w content, slots w = some content →
    ∃ x, s.wrappers w = some x ∧ Holds s.memory w x content
  owner : ∀ b cell, s.memory.cells (.heap b) = some cell →
    ∃ w, s.ptrOf w = some (.heap b) ∧ ∀ w', s.ptrOf w' = some (.heap b) → w' = w
  newWrapper : ∀ w, s.nextWrapper ≤ w → slots w = none
  newBlock : ∀ b, s.nextBlock ≤ b → s.memory.cells (.heap b) = none

variable {s t : State V R} {slots : Nat → Option (Option (Callable V))} {m m' : Memory V}
  {w w' : Nat} {x : Wrapper} {content : Option (Callable V)}

theorem Holds.read (hx : Holds m w x content) : x.ptr.bind m.read = content := by
  cases hx with
  | empty => rfl
  | inline _ hcell | heap _ hcell =>
      change (m.cells _).map Prod.snd = _
      rw [hcell]
      rfl

theorem Holds.congr (hx : Holds m w x content)
    (hstorage : m'.cells (.storage w) = m.cells (.storage w))
    (hheap : ∀ b, x.ptr = some (.heap b) → m'.cells (.heap b) = m.cells (.heap b)) :
    Holds m' w x content := by
  cases hx with
  | empty hnone => exact .empty (hstorage.trans hnone)
  | inline hfits hcell => exact .inline hfits (hstorage.trans hcell)
  | heap hnone hcell => exact .heap (hstorage.trans hnone) ((hheap _ rfl).trans hcell)

theorem Holds.block (hx : Holds m w x content) {b : Nat} (hptr : x.ptr = some (.heap b)) :
    ∃ cell, m.cells (.heap b) = some cell := by
  cases hx with
  | empty => cases hptr
  | inline => cases hptr
  | heap _ hcell =>
      cases hptr
      exact ⟨_, hcell⟩

theorem Rep.contents (hs : Rep s slots) :
    s.contents = { slots, next := s.nextWrapper, results := s.results } := by
  have hslots : s.contents.slots = slots := by
    funext w
    change (s.wrappers w).map (fun x => x.ptr.bind s.memory.read) = slots w
    cases hslot : slots w with
    | none => rw [(hs.dead w hslot).1, Option.map_none]
    | some content =>
        obtain ⟨x, hx, hholds⟩ := hs.holds w content hslot
        rw [hx, Option.map_some, hholds.read]
  rw [← hslots]
  rfl

theorem Rep.wrapper_isSome (hs : Rep s slots) (hx : s.wrappers w = some x) :
    ∃ content, slots w = some content ∧ Holds s.memory w x content := by
  cases hslot : slots w with
  | none => cases (hs.dead w hslot).1.symm.trans hx
  | some content =>
      obtain ⟨x', hx', hholds⟩ := hs.holds w content hslot
      obtain rfl := Option.some.inj (hx.symm.trans hx')
      exact ⟨content, rfl, hholds⟩

/-- No two wrappers own one block. -/
theorem Rep.ptr_inj (hs : Rep s slots) {b : Nat} (hw : s.ptrOf w = some (.heap b))
    (hw' : s.ptrOf w' = some (.heap b)) : w = w' := by
  obtain ⟨x, hx, hptr⟩ := Option.bind_eq_some_iff.mp hw
  obtain ⟨content, _, hholds⟩ := hs.wrapper_isSome hx
  obtain ⟨cell, hcell⟩ := hholds.block hptr
  obtain ⟨owner, _, hunique⟩ := hs.owner b cell hcell
  exact (hunique w hw).trans (hunique w' hw').symm

theorem ptrOf_of_wrapper (hx : s.wrappers w = some x) : s.ptrOf w = x.ptr := by
  rw [State.ptrOf, hx]
  rfl

theorem ptrOf_setWrapper (x : Option Wrapper) (w' : Nat) :
    (s.setWrapper w x).ptrOf w' = if w' = w then x.bind Wrapper.ptr else s.ptrOf w' := by
  change (Function.update s.wrappers w x w').bind Wrapper.ptr = _
  rw [Function.update_apply]
  split
  · rfl
  · rfl

/-- One wrapper changes, and its storage or its block with it. -/
theorem Rep.change (hs : Rep s slots) (hw : s.wrappers w = some x) {new : Wrapper}
    {content' : Option (Callable V)} (honce : m'.Once)
    (hstorage : ∀ w' ≠ w, m'.cells (.storage w') = s.memory.cells (.storage w'))
    (hheap : ∀ b, x.ptr ≠ some (.heap b) → m'.cells (.heap b) = s.memory.cells (.heap b))
    (hself : Holds m' w new content')
    (hkept : ∀ b cell, x.ptr = some (.heap b) → m'.cells (.heap b) = some cell →
      new.ptr = some (.heap b))
    (hptr : ∀ b, new.ptr = some (.heap b) → x.ptr = some (.heap b)) :
    Rep ({ s with memory := m' }.setWrapper w (some new))
      (Function.update slots w (some content')) := by
  have hmine := ptrOf_of_wrapper hw
  have hptrOf : ∀ w' b, ({ s with memory := m' }.setWrapper w (some new)).ptrOf w' =
      some (.heap b) → s.ptrOf w' = some (.heap b) := by
    intro w' b hfound
    rw [ptrOf_setWrapper] at hfound
    split at hfound
    · next heq => rw [heq, hmine, hptr b hfound]
    · exact hfound
  refine ⟨honce, fun w' hdead => ?_, fun w' content hslot => ?_, fun b cell hcell => ?_,
    fun w' hw' => ?_, fun b hb => ?_⟩
  · by_cases heq : w' = w
    · subst heq
      rw [Function.update_self] at hdead
      cases hdead
    · rw [Function.update_of_ne heq] at hdead
      obtain ⟨hwrapper, hnone⟩ := hs.dead w' hdead
      exact ⟨(Function.update_of_ne heq _ _).trans hwrapper, (hstorage w' heq).trans hnone⟩
  · by_cases heq : w' = w
    · subst heq
      rw [Function.update_self] at hslot
      obtain rfl := Option.some.inj hslot
      exact ⟨new, Function.update_self .., hself⟩
    · rw [Function.update_of_ne heq] at hslot
      obtain ⟨x', hx', hholds⟩ := hs.holds w' content hslot
      refine ⟨x', (Function.update_of_ne heq _ _).trans hx', ?_⟩
      refine hholds.congr (hstorage w' heq) fun b hb => hheap b fun hb' => heq ?_
      exact hs.ptr_inj ((ptrOf_of_wrapper hx').trans hb) (hmine.trans hb')
  · by_cases hb : x.ptr = some (.heap b)
    · refine ⟨w, ?_, fun w' hw' => hs.ptr_inj (hptrOf w' b hw') (hmine.trans hb)⟩
      rw [ptrOf_setWrapper, if_pos rfl]
      exact hkept b cell hb hcell
    · obtain ⟨owner, howner, hunique⟩ := hs.owner b cell ((hheap b hb).symm.trans hcell)
      refine ⟨owner, ?_, fun w' hw' => hunique w' (hptrOf w' b hw')⟩
      have hne : owner ≠ w := by
        rintro rfl
        exact hb (hmine.symm.trans howner)
      rw [ptrOf_setWrapper, if_neg hne]
      exact howner
  · have hne : w' ≠ w := by
      rintro rfl
      cases (hs.dead w' (hs.newWrapper w' hw')).1.symm.trans hw
    rw [Function.update_of_ne hne]
    exact hs.newWrapper w' hw'
  · have hne : x.ptr ≠ some (.heap b) := by
      intro hb'
      obtain ⟨content, _, hholds⟩ := hs.wrapper_isSome hw
      obtain ⟨cell, hcell⟩ := hholds.block hb'
      cases (hs.newBlock b hb).symm.trans hcell
    exact (hheap b hne).trans (hs.newBlock b hb)

theorem cast_of_cell {object : Address} {n : Nat} {f : FunctorType} {value : V}
    (hcell : m.cells object = some (n, ⟨f, value⟩)) : cast m f object = some value := by
  simp only [cast, ObjectMemory.read, hcell, Option.map_some, ↓reduceIte]

theorem Rep.update_self (hs : Rep s slots) {slot : Option (Option (Callable V))}
    (hslot : slots w = slot) : Rep s (Function.update slots w slot) := by
  rw [← hslot, Function.update_eq_self]
  exact hs

/-- `reset` destroys what the wrapper holds. -/
theorem Rep.reset (hs : Rep s slots) (hslot : slots w = some content) :
    ∃ t, s.reset w = some t ∧ Rep t (Function.update slots w (some none)) ∧
      t.nextWrapper = s.nextWrapper ∧ t.results = s.results := by
  obtain ⟨x, hx, hholds⟩ := hs.holds w content hslot
  cases hholds with
  | empty =>
      refine ⟨s, ?_, hs.update_self hslot, rfl, rfl⟩
      simp only [State.reset, hx, Option.bind_some]
  | inline _ hcell =>
      obtain ⟨m', hm', honce, hcells⟩ := hs.once.destroy_spec hcell
      have hself : m'.cells (.storage w) = none := by
        rw [hcells, Function.update_self]
      refine ⟨_, ?_, hs.change hx honce ?_ ?_ (.empty hself) ?_ ?_, rfl, rfl⟩
      · simp only [State.reset, hx, Option.bind_some, destroyImpl, cast_of_cell hcell,
          Address.isStorage, ↓reduceIte, hm', Option.map_some]
      · intro w' hw'
        rw [hcells, Function.update_of_ne fun h => hw' (Address.storage.inj h)]
      · intro b _
        rw [hcells, Function.update_of_ne (heap_ne_storage b w)]
      · intro b cell hb
        cases hb
      · intro b hb
        cases hb
  | @heap b f value n hnone hcell =>
      obtain ⟨m', hm', honce, hcells⟩ := hs.once.destroy_spec hcell
      have hstorage : ∀ w', m'.cells (.storage w') = s.memory.cells (.storage w') := by
        intro w'
        rw [hcells, Function.update_of_ne (heap_ne_storage b w').symm]
      refine ⟨_, ?_, hs.change hx honce (fun w' _ => hstorage w') ?_
        (.empty ((hstorage w).trans hnone)) ?_ ?_, rfl, rfl⟩
      · simp only [State.reset, hx, Option.bind_some, destroyImpl, cast_of_cell hcell,
          Address.isStorage, ↓reduceIte, hm', Option.map_some]
      · intro b' hb'
        rw [hcells, Function.update_of_ne fun h => hb' (congrArg some h.symm)]
      · intro b' cell hb hfound
        rw [hcells, ← Option.some.inj hb] at hfound
        exact absurd rfl (Function.ne_of_update_none hfound)
      · intro b hb
        cases hb

/-- A callable that is constructed in the storage of an empty wrapper. -/
theorem Rep.fill (hs : Rep s slots) (hw : slots w = some none) {f : FunctorType}
    (hfits : f.fitsInline = true) (value : V) :
    ∃ m', s.memory.construct (.storage w) ⟨f, value⟩ = some m' ∧
      m'.cells = Function.update s.memory.cells (.storage w)
        (some (s.memory.made, ⟨f, value⟩)) ∧
      Rep ({ s with memory := m' }.setWrapper w
          (some { ptr := some (.storage w), vtable := some f, isInline := true }))
        (Function.update slots w (some (some ⟨f, value⟩))) := by
  obtain ⟨x, hx, hholds⟩ := hs.holds w none hw
  cases hholds with
  | empty hnone =>
      obtain ⟨m', hm', honce, hcells⟩ := hs.once.construct_spec hnone ⟨f, value⟩
      have hself : m'.cells (.storage w) = some (s.memory.made, ⟨f, value⟩) := by
        rw [hcells]
        exact Function.update_self ..
      refine ⟨m', hm', hcells, hs.change hx honce ?_ ?_ (.inline hfits hself) ?_ ?_⟩
      · intro w' hw'
        rw [hcells]
        exact Function.update_of_ne (fun h => hw' (Address.storage.inj h)) _ _
      · intro b _
        rw [hcells]
        exact Function.update_of_ne (heap_ne_storage b w) _ _
      · intro b cell hb
        cases hb
      · intro b hb
        cases hb

/-- A block goes from one wrapper to another. -/
theorem Rep.hand (hs : Rep s slots) {other b : Nat} (hw : slots w = some none)
    (hne : w ≠ other) (hother : slots other = some content) {f : FunctorType}
    (hx : s.wrappers other = some
      { ptr := some (.heap b), vtable := some f, isInline := false })
    (hholds : Holds s.memory other
      { ptr := some (.heap b), vtable := some f, isInline := false } content) :
    Rep ((s.setWrapper w
        (some { ptr := some (.heap b), vtable := some f, isInline := false })).setWrapper other
        (some {}))
      (Function.update (Function.update slots w (some content)) other (some none)) := by
  obtain ⟨x, hxw, hempty⟩ := hs.holds w none hw
  have hptrOther : s.ptrOf other = some (.heap b) := ptrOf_of_wrapper hx
  have hptrW : s.ptrOf w = none := by
    cases hempty with
    | empty => exact ptrOf_of_wrapper hxw
  have hstorageW : s.memory.cells (.storage w) = none := by
    cases hempty with
    | empty hnone => exact hnone
  have hptrOf : ∀ w', ((s.setWrapper w
      (some { ptr := some (.heap b), vtable := some f, isInline := false })).setWrapper other
      (some {})).ptrOf w' =
        if w' = other then none else if w' = w then some (.heap b) else s.ptrOf w' := by
    intro w'
    rw [ptrOf_setWrapper, ptrOf_setWrapper]
    rfl
  refine ⟨hs.once, fun w' hdead => ?_, fun w' content' hslot => ?_,
    fun b' cell hcell => ?_, fun w' hw' => ?_, hs.newBlock⟩
  · have hotherNe : w' ≠ other := by
      rintro rfl
      rw [Function.update_self] at hdead
      cases hdead
    have hwNe : w' ≠ w := by
      rintro rfl
      rw [Function.update_of_ne hotherNe, Function.update_self] at hdead
      cases hdead
    rw [Function.update_of_ne hotherNe, Function.update_of_ne hwNe] at hdead
    obtain ⟨hwrapper, hnone⟩ := hs.dead w' hdead
    exact ⟨(Function.update_of_ne hotherNe _ _).trans
      ((Function.update_of_ne hwNe _ _).trans hwrapper), hnone⟩
  · by_cases hotherEq : w' = other
    · subst hotherEq
      rw [Function.update_self] at hslot
      obtain rfl := Option.some.inj hslot
      refine ⟨{}, Function.update_self .., .empty ?_⟩
      cases hholds with
      | heap hnone => exact hnone
    · rw [Function.update_of_ne hotherEq] at hslot
      by_cases hwEq : w' = w
      · subst hwEq
        rw [Function.update_self] at hslot
        obtain rfl := Option.some.inj hslot
        refine ⟨_, (Function.update_of_ne hotherEq _ _).trans (Function.update_self ..), ?_⟩
        cases hholds with
        | heap _ hcell => exact .heap hstorageW hcell
      · rw [Function.update_of_ne hwEq] at hslot
        obtain ⟨x', hx', hholds'⟩ := hs.holds w' content' hslot
        exact ⟨x', (Function.update_of_ne hotherEq _ _).trans
          ((Function.update_of_ne hwEq _ _).trans hx'), hholds'⟩
  · obtain ⟨owner, howner, hunique⟩ := hs.owner b' cell hcell
    by_cases hb : b' = b
    · subst hb
      have hmine : other = owner := hunique other hptrOther
      refine ⟨w, ?_, fun w' hw' => ?_⟩
      · rw [hptrOf, if_neg hne, if_pos rfl]
      · rw [hptrOf] at hw'
        split at hw'
        · cases hw'
        · next hotherNe =>
            split at hw'
            · next heq => exact heq
            · exact absurd ((hunique w' hw').trans hmine.symm) hotherNe
    · have hownerNe : owner ≠ other := by
        rintro rfl
        exact hb (Address.heap.inj (Option.some.inj (howner.symm.trans hptrOther)))
      have hownerNe' : owner ≠ w := by
        rintro rfl
        cases hptrW.symm.trans howner
      refine ⟨owner, ?_, fun w' hw' => ?_⟩
      · rw [hptrOf, if_neg hownerNe, if_neg hownerNe']
        exact howner
      · rw [hptrOf] at hw'
        split at hw'
        · cases hw'
        · split at hw'
          · exact absurd (Address.heap.inj (Option.some.inj hw')).symm hb
          · exact hunique w' hw'
  · have hnone := hs.newWrapper w' hw'
    have hotherNe : w' ≠ other := by
      rintro rfl
      cases hnone.symm.trans hother
    have hwNe : w' ≠ w := by
      rintro rfl
      cases hnone.symm.trans hw
    rw [Function.update_of_ne hotherNe, Function.update_of_ne hwNe]
    exact hnone

/-- `move_from` into an empty wrapper takes what the other one holds. -/
theorem Rep.moveFrom (hs : Rep s slots) {other : Nat} (hw : slots w = some none)
    (hother : slots other = some content) (hne : w ≠ other) :
    ∃ t, s.moveFrom w other = some t ∧
      Rep t (Function.update (Function.update slots w (some content)) other (some none)) ∧
      t.nextWrapper = s.nextWrapper ∧ t.results = s.results := by
  obtain ⟨x, hx, hholds⟩ := hs.holds other content hother
  cases hholds with
  | empty =>
      obtain ⟨y, hy, hempty⟩ := hs.holds w none hw
      cases hempty with
      | empty =>
          refine ⟨s.setWrapper w (some {}), ?_, ?_, rfl, rfl⟩
          · simp only [State.moveFrom, hx, Option.bind_some]
          · rw [← hy, State.setWrapper, Function.update_eq_self]
            refine Rep.update_self (hs.update_self hw) ?_
            rw [Function.update_of_ne hne.symm]
            exact hother
  | @inline f value n hfits hcell =>
      obtain ⟨m₁, hm₁, hcells₁, hfilled⟩ := hs.fill hw hfits value
      have hcell₁ : m₁.cells (.storage other) = some (n, ⟨f, value⟩) := by
        rw [hcells₁, Function.update_of_ne fun h => hne (Address.storage.inj h).symm]
        exact hcell
      have hslot : Function.update slots w (some (some ⟨f, value⟩)) other =
          some (some ⟨f, value⟩) := (Function.update_of_ne hne.symm _ _).trans hother
      obtain ⟨t, ht, hrep, hnext, hresults⟩ := hfilled.reset hslot
      refine ⟨t, ?_, hrep, hnext, hresults⟩
      rw [← ht]
      have hother' : Function.update s.wrappers w
          (some { ptr := some (.storage w), vtable := some f, isInline := true }) other =
            some { ptr := some (.storage other), vtable := some f, isInline := true } :=
        (Function.update_of_ne hne.symm _ _).trans hx
      simp only [State.moveFrom, hx, Option.bind_some, moveInlineImpl, cast_of_cell hcell,
        hfits, hm₁, State.reset, State.setWrapper, hother', destroyImpl,
        cast_of_cell hcell₁, Address.isStorage, ↓reduceIte]
  | heap hnone hcell =>
      refine ⟨_, ?_, hs.hand hw hne hother hx (.heap hnone hcell), rfl, rfl⟩
      simp only [State.moveFrom, hx, Option.bind_some, Bool.false_eq_true, ↓reduceIte]

/-- The end of an empty wrapper. -/
theorem Rep.drop (hs : Rep s slots) (hw : slots w = some none) :
    Rep (s.setWrapper w none) (Function.update slots w none) := by
  obtain ⟨x, hx, hempty⟩ := hs.holds w none hw
  cases hempty with
  | empty hnone =>
      have hptrOf : (s.setWrapper w none).ptrOf = s.ptrOf := by
        funext w'
        rw [ptrOf_setWrapper]
        split
        · next heq => rw [heq, ptrOf_of_wrapper hx]; rfl
        · rfl
      refine ⟨hs.once, fun w' hdead => ?_, fun w' content hslot => ?_,
        fun b cell hcell => ?_, fun w' hw' => ?_, hs.newBlock⟩
      · by_cases heq : w' = w
        · subst heq
          exact ⟨Function.update_self .., hnone⟩
        · rw [Function.update_of_ne heq] at hdead
          obtain ⟨hwrapper, hdead⟩ := hs.dead w' hdead
          exact ⟨(Function.update_of_ne heq _ _).trans hwrapper, hdead⟩
      · have hne := Function.ne_of_update_none hslot
        rw [Function.update_of_ne hne] at hslot
        obtain ⟨y, hy, hholds⟩ := hs.holds w' content hslot
        exact ⟨y, (Function.update_of_ne hne _ _).trans hy, hholds⟩
      · rw [hptrOf]
        exact hs.owner b cell hcell
      · by_cases heq : w' = w
        · subst heq
          exact Function.update_self ..
        · rw [Function.update_of_ne heq]
          exact hs.newWrapper w' hw'

theorem Rep.congr (hs : Rep s slots) (hmemory : t.memory = s.memory)
    (hwrappers : t.wrappers = s.wrappers) (hnext : t.nextWrapper = s.nextWrapper)
    (hblock : t.nextBlock = s.nextBlock) : Rep t slots := by
  have hptrOf : t.ptrOf = s.ptrOf := by
    funext w
    rw [State.ptrOf, hwrappers]
    rfl
  refine ⟨?_, ?_, ?_, ?_, ?_, ?_⟩
  · rw [hmemory]
    exact hs.once
  · rw [hwrappers, hmemory]
    exact hs.dead
  · rw [hwrappers, hmemory]
    exact hs.holds
  · rw [hptrOf, hmemory]
    exact hs.owner
  · rw [hnext]
    exact hs.newWrapper
  · rw [hblock, hmemory]
    exact hs.newBlock

/-- A new wrapper that holds nothing. -/
theorem Rep.add (hs : Rep s slots) :
    Rep (s.add {}) (Function.update slots s.nextWrapper (some none)) := by
  have hfresh := hs.dead _ (hs.newWrapper s.nextWrapper (Nat.le_refl _))
  have hptrOf : (s.add {}).ptrOf = s.ptrOf := by
    funext w
    change (s.setWrapper s.nextWrapper (some {})).ptrOf w = _
    rw [ptrOf_setWrapper]
    split
    · next heq => rw [heq, State.ptrOf, hfresh.1]; rfl
    · rfl
  refine ⟨hs.once, fun w hdead => ?_, fun w content hslot => ?_, fun b cell hcell => ?_,
    fun w hw => ?_, hs.newBlock⟩
  · have hne : w ≠ s.nextWrapper := by
      rintro rfl
      rw [Function.update_self] at hdead
      cases hdead
    rw [Function.update_of_ne hne] at hdead
    obtain ⟨hwrapper, hnone⟩ := hs.dead w hdead
    exact ⟨(Function.update_of_ne hne _ _).trans hwrapper, hnone⟩
  · by_cases heq : w = s.nextWrapper
    · subst heq
      rw [Function.update_self] at hslot
      obtain rfl := Option.some.inj hslot
      exact ⟨{}, Function.update_self .., .empty hfresh.2⟩
    · rw [Function.update_of_ne heq] at hslot
      obtain ⟨x, hx, hholds⟩ := hs.holds w content hslot
      exact ⟨x, (Function.update_of_ne heq _ _).trans hx, hholds⟩
  · rw [hptrOf]
    exact hs.owner b cell hcell
  · have hne : w ≠ s.nextWrapper := fun heq => Nat.not_succ_le_self _ (heq ▸ hw)
    rw [Function.update_of_ne hne]
    exact hs.newWrapper w (Nat.le_of_succ_le hw)

/-- A callable that is constructed in a new block for an empty wrapper. -/
theorem Rep.alloc (hs : Rep s slots) (hw : slots w = some none) (f : FunctorType)
    (value : V) :
    ∃ m', s.memory.construct (.heap s.nextBlock) ⟨f, value⟩ = some m' ∧
      Rep ({ s with memory := m', nextBlock := s.nextBlock + 1 }.setWrapper w
          (some { ptr := some (.heap s.nextBlock), vtable := some f, isInline := false }))
        (Function.update slots w (some (some ⟨f, value⟩))) := by
  obtain ⟨x, hx, hempty⟩ := hs.holds w none hw
  cases hempty with
  | empty hnone =>
      have hfresh := hs.newBlock s.nextBlock (Nat.le_refl _)
      obtain ⟨m', hm', honce, hcells⟩ := hs.once.construct_spec hfresh ⟨f, value⟩
      have hstorage : ∀ w', m'.cells (.storage w') = s.memory.cells (.storage w') := by
        intro w'
        rw [hcells, Function.update_of_ne (heap_ne_storage s.nextBlock w').symm]
      have hheap : ∀ b ≠ s.nextBlock, m'.cells (.heap b) = s.memory.cells (.heap b) := by
        intro b hb
        rw [hcells, Function.update_of_ne fun h => hb (Address.heap.inj h)]
      have hself : m'.cells (.heap s.nextBlock) = some (s.memory.made, ⟨f, value⟩) := by
        rw [hcells, Function.update_self]
      have hunowned : ∀ w', s.ptrOf w' ≠ some (.heap s.nextBlock) := by
        intro w' hptr
        obtain ⟨y, hy, hptr⟩ := Option.bind_eq_some_iff.mp hptr
        obtain ⟨_, _, hholds⟩ := hs.wrapper_isSome hy
        obtain ⟨cell, hcell⟩ := hholds.block hptr
        cases hfresh.symm.trans hcell
      have hptrW : s.ptrOf w = none := ptrOf_of_wrapper hx
      refine ⟨m', hm', honce, fun w' hdead => ?_, fun w' content hslot => ?_,
        fun b cell hcell => ?_, fun w' hw' => ?_, fun b hb => ?_⟩
      · have hne : w' ≠ w := by
          rintro rfl
          rw [Function.update_self] at hdead
          cases hdead
        rw [Function.update_of_ne hne] at hdead
        obtain ⟨hwrapper, hdead⟩ := hs.dead w' hdead
        exact ⟨(Function.update_of_ne hne _ _).trans hwrapper, (hstorage w').trans hdead⟩
      · by_cases heq : w' = w
        · subst heq
          rw [Function.update_self] at hslot
          obtain rfl := Option.some.inj hslot
          exact ⟨_, Function.update_self .., .heap ((hstorage w').trans hnone) hself⟩
        · rw [Function.update_of_ne heq] at hslot
          obtain ⟨y, hy, hholds⟩ := hs.holds w' content hslot
          refine ⟨y, (Function.update_of_ne heq _ _).trans hy,
            hholds.congr (hstorage w') fun b hb => hheap b ?_⟩
          rintro rfl
          exact hunowned w' ((ptrOf_of_wrapper hy).trans hb)
      · by_cases hb : b = s.nextBlock
        · subst hb
          refine ⟨w, ?_, fun w' hw' => ?_⟩
          · rw [ptrOf_setWrapper, if_pos rfl]
            rfl
          · rw [ptrOf_setWrapper] at hw'
            split at hw'
            · next heq => exact heq
            · exact absurd hw' (hunowned w')
        · obtain ⟨owner, howner, hunique⟩ := hs.owner b cell ((hheap b hb).symm.trans hcell)
          have hownerNe : owner ≠ w := by
            rintro rfl
            cases hptrW.symm.trans howner
          refine ⟨owner, ?_, fun w' hw' => ?_⟩
          · rw [ptrOf_setWrapper, if_neg hownerNe]
            exact howner
          · rw [ptrOf_setWrapper] at hw'
            split at hw'
            · exact absurd (Address.heap.inj (Option.some.inj hw')).symm hb
            · exact hunique w' hw'
      · have hne : w' ≠ w := by
          rintro rfl
          cases (hs.newWrapper w' hw').symm.trans hw
        rw [Function.update_of_ne hne]
        exact hs.newWrapper w' hw'
      · exact (hheap b (Nat.ne_of_gt hb)).trans (hs.newBlock b (Nat.le_of_succ_le hb))

/-! ### The operations -/

theorem Rep.createFrom (hs : Rep s slots) (isNull : V → Bool) (callable : Callable V) :
    ∃ t, s.createFrom isNull callable = some t ∧
      Rep t (Function.update slots s.nextWrapper
        (some (if isNullCallable isNull callable = true then none else some callable))) ∧
      t.nextWrapper = s.nextWrapper + 1 ∧ t.results = s.results := by
  have hadd := hs.add
  have hslot : Function.update slots s.nextWrapper (some none) s.nextWrapper = some none :=
    Function.update_self ..
  rw [State.createFrom]
  split
  · exact ⟨_, rfl, hadd, rfl, rfl⟩
  · split
    · next hfits =>
        obtain ⟨m', hm', _, hrep⟩ := hadd.fill hslot hfits callable.value
        rw [Function.update_idem] at hrep
        refine ⟨_, congrArg (Option.map _) hm', hrep.congr rfl ?_ rfl rfl, rfl, rfl⟩
        exact (Function.update_idem ..).symm
    · obtain ⟨m', hm', hrep⟩ := hadd.alloc hslot callable.type callable.value
      rw [Function.update_idem] at hrep
      refine ⟨_, congrArg (Option.map _) hm', hrep.congr rfl ?_ rfl rfl, rfl, rfl⟩
      exact (Function.update_idem ..).symm

/-- A call changes the callable where it is. -/
theorem Rep.call (hs : Rep s slots) (invoke : FunctorType → V → Args → V × R)
    {callable : Callable V} (hslot : slots w = some (some callable)) (args : Args) :
    ∃ t, s.call invoke w args = some t ∧
      Rep t (Function.update slots w
        (some (some { callable with value := (invoke callable.type callable.value args).1 }))) ∧
      t.nextWrapper = s.nextWrapper ∧
      t.results = s.results ++ [(invoke callable.type callable.value args).2] := by
  obtain ⟨x, hx, hholds⟩ := hs.holds w _ hslot
  have hsame : ∀ m', (({ s with memory := m' } : State V R).setWrapper w (some x)).wrappers =
      s.wrappers := by
    intro m'
    change Function.update s.wrappers w (some x) = _
    rw [← hx, Function.update_eq_self]
  cases hholds with
  | @inline f value n hfits hcell =>
      obtain ⟨m', hm', honce, hcells⟩ :=
        hs.once.write_spec hcell ⟨f, (invoke f value args).1⟩
      have hself : m'.cells (.storage w) = some (n, ⟨f, (invoke f value args).1⟩) := by
        rw [hcells, Function.update_self]
      have hrep := hs.change hx honce (fun w' hw' => by
          rw [hcells, Function.update_of_ne fun h => hw' (Address.storage.inj h)])
        (fun b _ => by rw [hcells, Function.update_of_ne (heap_ne_storage b w)])
        (.inline hfits hself) (fun b cell hb => by cases hb) (fun b hb => by cases hb)
      refine ⟨{ s with memory := m', results := s.results ++ [(invoke f value args).2] }, ?_,
        hrep.congr rfl (hsame m').symm rfl rfl, rfl, rfl⟩
      simp only [State.call, hx, Option.bind_some, cast_of_cell hcell, hm', Option.map_some]
  | @heap b f value n hnone hcell =>
      obtain ⟨m', hm', honce, hcells⟩ :=
        hs.once.write_spec hcell ⟨f, (invoke f value args).1⟩
      have hself : m'.cells (.heap b) = some (n, ⟨f, (invoke f value args).1⟩) := by
        rw [hcells, Function.update_self]
      have hstorage : ∀ w', m'.cells (.storage w') = s.memory.cells (.storage w') := by
        intro w'
        rw [hcells, Function.update_of_ne (heap_ne_storage b w').symm]
      have hrep := hs.change hx honce (fun w' _ => hstorage w')
        (fun b' hb' => by
          rw [hcells, Function.update_of_ne fun h => hb' (congrArg some h.symm)])
        (.heap ((hstorage w).trans hnone) hself) (fun b' cell hb' _ => hb')
        (fun b' hb' => hb')
      refine ⟨{ s with memory := m', results := s.results ++ [(invoke f value args).2] }, ?_,
        hrep.congr rfl (hsame m').symm rfl rfl, rfl, rfl⟩
      simp only [State.call, hx, Option.bind_some, cast_of_cell hcell, hm', Option.map_some]

theorem Rep.call_none (hs : Rep s slots) (invoke : FunctorType → V → Args → V × R)
    (hslot : slots w = some none) (args : Args) : s.call invoke w args = none := by
  obtain ⟨x, hx, hempty⟩ := hs.holds w none hslot
  cases hempty with
  | empty => simp only [State.call, hx, Option.bind_some]

theorem Rep.start : Rep ({} : State V R) fun _ => none where
  once := ObjectMemory.once_empty
  dead := fun _ _ => ⟨rfl, rfl⟩
  holds := by
    intro w content hslot
    cases hslot
  owner := by
    intro b cell hcell
    cases hcell
  newWrapper := fun _ _ => rfl
  newBlock := fun _ _ => rfl

/-- A step of the wrappers is the step of the slots, or both are undefined. -/
theorem Rep.step (hs : Rep s slots) (invoke : FunctorType → V → Args → V × R)
    (isNull : V → Bool) (op : Op V Args) :
    (∃ t slots', UniqueFunction.step invoke isNull s op = some t ∧ Rep t slots' ∧
      Slots.step invoke isNull s.contents op = some t.contents) ∨
      UniqueFunction.step invoke isNull s op = none ∧
        Slots.step invoke isNull s.contents op = none := by
  have hdead : ∀ {w}, slots w = none → s.wrappers w = none := fun hslot =>
    (hs.dead _ hslot).1
  rw [hs.contents]
  cases op with
  | create =>
      refine .inl ⟨_, _, rfl, hs.add, ?_⟩
      rw [hs.add.contents]
      rfl
  | createFrom callable =>
      obtain ⟨t, ht, hrep, hnext, hresults⟩ := hs.createFrom isNull callable
      refine .inl ⟨t, _, ht, hrep, ?_⟩
      rw [hrep.contents, hnext, hresults]
      rfl
  | moveConstruct other =>
      cases hother : slots other with
      | none =>
          refine .inr ⟨?_, ?_⟩
          · simp only [UniqueFunction.step, hdead hother, Option.bind_none]
          · simp only [Slots.step, hother, Option.map_none]
      | some content =>
          obtain ⟨x, hx, _⟩ := hs.holds other content hother
          have hne : s.nextWrapper ≠ other := by
            rintro rfl
            cases (hs.newWrapper _ (Nat.le_refl _)).symm.trans hother
          obtain ⟨t, ht, hrep, hnext, hresults⟩ := hs.add.moveFrom (Function.update_self ..)
            ((Function.update_of_ne hne.symm _ _).trans hother) hne
          rw [Function.update_idem] at hrep
          refine .inl ⟨t, _, ?_, hrep, ?_⟩
          · simp only [UniqueFunction.step, hx, Option.bind_some, ht]
          · rw [hrep.contents, hnext, hresults]
            simp only [Slots.step, hother, Option.map_some]
            rfl
  | moveAssign target other =>
      cases hslot : slots target with
      | none =>
          refine .inr ⟨?_, ?_⟩
          · by_cases heq : target = other
            · subst heq
              simp only [UniqueFunction.step, ↓reduceIte, hdead hslot, Option.map_none]
            · simp only [UniqueFunction.step, if_neg heq, State.reset, hdead hslot,
                Option.bind_none]
          · simp only [Slots.step, hslot, Option.bind_none]
      | some old =>
          cases hother : slots other with
          | none =>
              have heq : target ≠ other := by
                rintro rfl
                cases hslot.symm.trans hother
              obtain ⟨t, ht, hrep, -, -⟩ := hs.reset hslot
              have hgone := (hrep.dead other
                ((Function.update_of_ne heq.symm _ _).trans hother)).1
              refine .inr ⟨?_, ?_⟩
              · simp only [UniqueFunction.step, if_neg heq, ht, Option.bind_some,
                  State.moveFrom, hgone, Option.bind_none]
              · simp only [Slots.step, hslot, hother, Option.bind_some, Option.map_none]
          | some content =>
              by_cases heq : target = other
              · subst heq
                obtain ⟨x, hx, _⟩ := hs.holds target old hslot
                refine .inl ⟨s, slots, ?_, hs, ?_⟩
                · simp only [UniqueFunction.step, ↓reduceIte, hx, Option.map_some]
                · simp only [Slots.step, hslot, Option.bind_some, Option.map_some,
                    ↓reduceIte, hs.contents]
              · obtain ⟨t, ht, hrep, hnext, hresults⟩ := hs.reset hslot
                obtain ⟨u, hu, hrep', hnext', hresults'⟩ := hrep.moveFrom
                  (Function.update_self ..)
                  ((Function.update_of_ne (Ne.symm heq) _ _).trans hother) heq
                rw [Function.update_idem] at hrep'
                refine .inl ⟨u, _, ?_, hrep', ?_⟩
                · simp only [UniqueFunction.step, if_neg heq, ht, Option.bind_some, hu]
                · rw [hrep'.contents, hnext', hresults', hnext, hresults]
                  simp only [Slots.step, hslot, hother, Option.bind_some, Option.map_some,
                    if_neg heq]
                  rfl
  | assignNull target =>
      cases hslot : slots target with
      | none =>
          refine .inr ⟨?_, ?_⟩
          · simp only [UniqueFunction.step, State.reset, hdead hslot, Option.bind_none]
          · simp only [Slots.step, hslot, Option.map_none]
      | some content =>
          obtain ⟨t, ht, hrep, hnext, hresults⟩ := hs.reset hslot
          refine .inl ⟨t, _, ht, hrep, ?_⟩
          rw [hrep.contents, hnext, hresults]
          simp only [Slots.step, hslot, Option.map_some]
          rfl
  | destroy target =>
      cases hslot : slots target with
      | none =>
          refine .inr ⟨?_, ?_⟩
          · simp only [UniqueFunction.step, State.reset, hdead hslot, Option.bind_none,
              Option.map_none]
          · simp only [Slots.step, hslot, Option.map_none]
      | some content =>
          obtain ⟨t, ht, hrep, hnext, hresults⟩ := hs.reset hslot
          have hgone := hrep.drop (Function.update_self ..)
          rw [Function.update_idem] at hgone
          refine .inl ⟨t.setWrapper target none, _, ?_, hgone, ?_⟩
          · simp only [UniqueFunction.step, ht, Option.map_some]
          · rw [hgone.contents]
            simp only [Slots.step, hslot, Option.map_some]
            rw [← hnext, ← hresults]
            rfl
  | call target args =>
      cases hslot : slots target with
      | none =>
          refine .inr ⟨?_, ?_⟩
          · simp only [UniqueFunction.step, State.call, hdead hslot, Option.bind_none]
          · simp only [Slots.step, hslot, Option.bind_none]
      | some content =>
          cases content with
          | none =>
              refine .inr ⟨hs.call_none invoke hslot args, ?_⟩
              simp only [Slots.step, hslot, Option.bind_some, Option.map_none]
          | some callable =>
              obtain ⟨t, ht, hrep, hnext, hresults⟩ := hs.call invoke hslot args
              refine .inl ⟨t, _, ht, hrep, ?_⟩
              rw [hrep.contents, hnext, hresults]
              simp only [Slots.step, hslot, Option.bind_some, Option.map_some]
              rfl

def State.Represented (s : State V R) : Prop := ∃ slots, Rep s slots

theorem Rep.owns_of_cell (hs : Rep s slots) {object : Address} {n : Nat}
    {callable : Callable V} (hcell : s.memory.cells object = some (n, callable)) :
    ∃ w, s.Owns w n := by
  cases object with
  | storage w =>
      cases hslot : slots w with
      | none => cases (hs.dead w hslot).2.symm.trans hcell
      | some content =>
          obtain ⟨x, hx, hholds⟩ := hs.holds w content hslot
          cases hholds with
          | empty hnone => cases hnone.symm.trans hcell
          | inline hfits hcell' =>
              obtain ⟨rfl, rfl⟩ := Prod.mk.inj (Option.some.inj (hcell'.symm.trans hcell))
              exact ⟨w, _, _, _, hx, rfl, hcell, rfl, .inl ⟨rfl, rfl, hfits⟩⟩
          | heap hnone => cases hnone.symm.trans hcell
  | heap b =>
      obtain ⟨w, hptr, _⟩ := hs.owner b _ hcell
      obtain ⟨x, hx, hptr⟩ := Option.bind_eq_some_iff.mp hptr
      obtain ⟨content, _, hholds⟩ := hs.wrapper_isSome hx
      cases hholds with
      | empty => cases hptr
      | inline => cases hptr
      | heap _ hcell' =>
          cases hptr
          obtain ⟨rfl, rfl⟩ := Prod.mk.inj (Option.some.inj (hcell'.symm.trans hcell))
          exact ⟨w, _, _, _, hx, rfl, hcell, rfl, .inr ⟨b, rfl, rfl⟩⟩

theorem Rep.owns_unique (hs : Rep s slots) {n : Nat} (hw : s.Owns w n)
    (hw' : s.Owns w' n) : w' = w := by
  obtain ⟨x, object, callable, hx, hptr, hcell, _, hplace⟩ := hw
  obtain ⟨x', object', callable', hx', hptr', hcell', _, hplace'⟩ := hw'
  obtain rfl := hs.once.apart object object' n _ _ hcell hcell'
  rcases hplace with ⟨rfl, _⟩ | ⟨b, rfl, _⟩
  · rcases hplace' with ⟨hobject, _⟩ | ⟨b, hobject, _⟩
    · exact (Address.storage.inj hobject).symm
    · cases hobject
  · exact hs.ptr_inj ((ptrOf_of_wrapper hx').trans hptr') ((ptrOf_of_wrapper hx).trans hptr)

theorem Rep.step_contents (hs : Rep s slots) (invoke : FunctorType → V → Args → V × R)
    (isNull : V → Bool) (op : Op V Args) :
    (UniqueFunction.step invoke isNull s op).map State.contents =
        Slots.step invoke isNull s.contents op ∧
      ∀ t, UniqueFunction.step invoke isNull s op = some t → t.Represented := by
  rcases hs.step invoke isNull op with ⟨t, slots', ht, hrep, hslots⟩ | ⟨hnone, hslots⟩
  · refine ⟨?_, fun t' ht' => ?_⟩
    · rw [ht, hslots, Option.map_some]
    · obtain rfl := Option.some.inj (ht.symm.trans ht')
      exact ⟨slots', hrep⟩
  · refine ⟨?_, fun t' ht' => ?_⟩
    · rw [hnone, hslots, Option.map_none]
    · cases hnone.symm.trans ht'

theorem rep_of_reachable {invoke : FunctorType → V → Args → V × R} {isNull : V → Bool}
    (hs : (system invoke isNull).Reachable s) : s.Represented := by
  refine hs.invariant ?_ ?_
  · exact ⟨_, Rep.start⟩
  · rintro s op t ⟨slots, hrep⟩ hstep
    exact (hrep.step_contents invoke isNull op).2 t hstep

/-- Any sequence of operations does to the wrappers what it does to the slots, the results
of the calls included, and is undefined where it is undefined there. -/
theorem wrappers_are_slots (invoke : FunctorType → V → Args → V × R) (isNull : V → Bool)
    (word : List (Op V Args)) :
    ((system invoke isNull).exec {} word).map State.contents =
      (slotSystem invoke isNull).exec {} word :=
  TransitionSystem.exec_map State.contents State.Represented
    (fun _ op hinv => hinv.elim fun _ hrep => hrep.step_contents invoke isNull op)
    ⟨_, Rep.start⟩ word

/-- Whatever the operations, every callable that was constructed was destroyed once and has
no owner, or was not destroyed and has one. -/
theorem callables_have_one_owner (invoke : FunctorType → V → Args → V × R)
    (isNull : V → Bool) {s : State V R} (hs : (system invoke isNull).Reachable s) :
    s.memory.destroyed.Nodup ∧ ∀ n < s.memory.made,
      (n ∈ s.memory.destroyed ∧ ∀ w, ¬s.Owns w n) ∨
        (n ∉ s.memory.destroyed ∧ ∃ w, s.Owns w n ∧ ∀ w', s.Owns w' n → w' = w) := by
  obtain ⟨slots, hrep⟩ := rep_of_reachable hs
  refine ⟨hrep.once.nodup, fun n hn => ?_⟩
  rcases hrep.once.kept n hn with hmem | ⟨object, callable, hcell⟩
  · refine .inl ⟨hmem, fun w howns => ?_⟩
    obtain ⟨x, object, callable, _, _, hcell, _⟩ := howns
    exact (hrep.once.live object n callable hcell).2 hmem
  · obtain ⟨w, howns⟩ := hrep.owns_of_cell hcell
    exact .inr ⟨(hrep.once.live object n callable hcell).2, w, howns,
      fun w' howns' => hrep.owns_unique howns howns'⟩

/-- A small callable and a large one; each moves, and the large one is replaced. -/
def moves : List (Op Nat Nat) :=
  [.createFrom ⟨⟨0, 8, 8, true, false⟩, 5⟩, .createFrom ⟨⟨1, 64, 8, true, false⟩, 6⟩,
    .moveConstruct 0, .call 1 4, .moveAssign 1 2, .call 1 3]

/-- A call adds up its arguments. -/
def addUp (_ : FunctorType) (value args : Nat) : Nat × Nat := (value + args, value + args)

theorem callables_have_one_owner_moves :
    ∃ s : State Nat Nat, (s.memory.destroyed == [0, 1, 2] && s.memory.made == 4) = true ∧
      s.memory.destroyed.Nodup ∧ ∀ n < s.memory.made,
        (n ∈ s.memory.destroyed ∧ ∀ w, ¬s.Owns w n) ∨
          (n ∉ s.memory.destroyed ∧ ∃ w, s.Owns w n ∧ ∀ w', s.Owns w' n → w' = w) := by
  obtain ⟨s, hs, hend⟩ := TransitionSystem.exists_reachable_of_exec
    (system addUp fun _ => false) moves
    (fun s => s.memory.destroyed == [0, 1, 2] && s.memory.made == 4) (by decide)
  exact ⟨s, hend, callables_have_one_owner addUp (fun _ => false) hs⟩

example : ((system addUp fun _ => false).exec {} moves).map (·.results) = some [10, 8] := by
  decide

end UniqueFunction

end Iocoro
