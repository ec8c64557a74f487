/-
Procedures that call one another: what they mean in direct style, and a machine that
keeps the callers on a stack.  A run of the machine from a statement to its result is a
derivation of that result with the same labels, and the other way round.
-/
import Mathlib.Data.List.Basic

universe u v w x

namespace CallStack

/-- What the code does at a position: it returns, calls, goes on, goes on with a label,
or goes on with an answer from outside. -/
inductive Stmt (S : Type u) (R : Type v) (A : Type w) (L : Type x) where
  | ret (result : R)
  | call (callee : S) (after : R → S)
  | skip (next : S)
  | tell (label : L) (next : S)
  | ask (next : A → L × S)

variable {S : Type u} {R : Type v} {A : Type w} {L : Type x}

/-- The meaning in direct style, with the labels in their order. -/
inductive Evaluates (code : S → Stmt S R A L) : Stmt S R A L → List L → R → Prop
  | ret (result : R) : Evaluates code (.ret result) [] result
  | call {callee : S} {after : R → S} {first second : List L} {middle result : R}
      (hcallee : Evaluates code (code callee) first middle)
      (hafter : Evaluates code (code (after middle)) second result) :
      Evaluates code (.call callee after) (first ++ second) result
  | skip {next : S} {labels : List L} {result : R}
      (hnext : Evaluates code (code next) labels result) :
      Evaluates code (.skip next) labels result
  | tell {label : L} {next : S} {labels : List L} {result : R}
      (hnext : Evaluates code (code next) labels result) :
      Evaluates code (.tell label next) (label :: labels) result
  | ask {next : A → L × S} {labels : List L} {result : R} (answer : A)
      (hnext : Evaluates code (code (next answer).2) labels result) :
      Evaluates code (.ask next) ((next answer).1 :: labels) result

/-- A statement and the callers that wait for its result, the innermost first. -/
structure Config (S : Type u) (R : Type v) (A : Type w) (L : Type x) where
  stmt : Stmt S R A L
  stack : List (R → S)

inductive Step (code : S → Stmt S R A L) : Config S R A L → List L → Config S R A L → Prop
  | ret (result : R) (after : R → S) (stack : List (R → S)) :
      Step code ⟨.ret result, after :: stack⟩ [] ⟨code (after result), stack⟩
  | call (callee : S) (after : R → S) (stack : List (R → S)) :
      Step code ⟨.call callee after, stack⟩ [] ⟨code callee, after :: stack⟩
  | skip (next : S) (stack : List (R → S)) :
      Step code ⟨.skip next, stack⟩ [] ⟨code next, stack⟩
  | tell (label : L) (next : S) (stack : List (R → S)) :
      Step code ⟨.tell label next, stack⟩ [label] ⟨code next, stack⟩
  | ask (next : A → L × S) (answer : A) (stack : List (R → S)) :
      Step code ⟨.ask next, stack⟩ [(next answer).1] ⟨code (next answer).2, stack⟩

/-- The runs of the machine, with the labels in their order. -/
inductive Run (code : S → Stmt S R A L) (start : Config S R A L) :
    List L → Config S R A L → Prop
  | refl : Run code start [] start
  | step {labels new : List L} {c d : Config S R A L} (hrun : Run code start labels c)
      (hstep : Step code c new d) : Run code start (labels ++ new) d

variable {code : S → Stmt S R A L} {c d e : Config S R A L}

theorem Run.single {new : List L} (hstep : Step code c new d) : Run code c new d :=
  Run.step .refl hstep

theorem Run.trans {first second : List L} (hfirst : Run code c first d)
    (hsecond : Run code d second e) : Run code c (first ++ second) e := by
  induction hsecond with
  | refl =>
      rw [List.append_nil]
      exact hfirst
  | step _ hstep ih =>
      rw [← List.append_assoc]
      exact .step ih hstep

/-- A run stops where it is, or it starts with a step. -/
theorem Run.head {labels : List L} (hrun : Run code c labels d) :
    (labels = [] ∧ d = c) ∨ ∃ new rest mid, labels = new ++ rest ∧ Step code c new mid ∧
      Run code mid rest d := by
  induction hrun with
  | refl => exact .inl ⟨rfl, rfl⟩
  | step hrun hstep ih =>
      rcases ih with ⟨rfl, rfl⟩ | ⟨new, rest, mid, rfl, hfirst, hrest⟩
      · exact .inr ⟨_, [], _, (List.append_nil _).symm, hstep, .refl⟩
      · exact .inr ⟨new, _, mid, List.append_assoc .., hfirst, .step hrest hstep⟩

/-- What every step keeps holds at the end of a run, and the labels are those that the
steps allow. -/
theorem Run.invariant {Inv : Config S R A L → Prop} {Allowed : L → Prop}
    (hkeep : ∀ c new d, Inv c → Step code c new d → Inv d ∧ ∀ label ∈ new, Allowed label)
    (hstart : Inv c) {labels : List L} (hrun : Run code c labels d) :
    Inv d ∧ ∀ label ∈ labels, Allowed label := by
  induction hrun with
  | refl => exact ⟨hstart, fun _ hmem => absurd hmem List.not_mem_nil⟩
  | step _ hstep ih =>
      obtain ⟨hinv, hnew⟩ := hkeep _ _ _ ih.1 hstep
      refine ⟨hinv, fun label hmem => ?_⟩
      rcases List.mem_append.mp hmem with hold | hmem
      · exact ih.2 label hold
      · exact hnew label hmem

/-! ### The machine and the meaning -/

/-- A derivation is a run, whoever waits for the result. -/
theorem Evaluates.run {stmt : Stmt S R A L} {labels : List L} {result : R}
    (heval : Evaluates code stmt labels result) (stack : List (R → S)) :
    Run code ⟨stmt, stack⟩ labels ⟨.ret result, stack⟩ := by
  induction heval generalizing stack with
  | ret result => exact .refl
  | @call callee after first second middle result _ _ ihcallee ihafter =>
      have hcall : Run code _ [] _ := .single (.call callee after stack)
      have hback : Run code _ [] _ := .single (.ret middle after stack)
      have hmiddle := (hcall.trans (ihcallee (after :: stack))).trans hback
      rw [List.nil_append, List.append_nil] at hmiddle
      exact hmiddle.trans (ihafter stack)
  | skip _ ih => exact (Run.single (.skip _ stack)).trans (ih stack)
  | tell _ ih => exact (Run.single (.tell _ _ stack)).trans (ih stack)
  | ask answer _ ih => exact (Run.single (.ask _ answer stack)).trans (ih stack)

/-- The statement returns, and then each caller in turn. -/
inductive Finishes (code : S → Stmt S R A L) : Config S R A L → List L → R → Prop
  | last {stmt : Stmt S R A L} {labels : List L} {result : R}
      (heval : Evaluates code stmt labels result) : Finishes code ⟨stmt, []⟩ labels result
  | caller {stmt : Stmt S R A L} {after : R → S} {stack : List (R → S)}
      {first second : List L} {middle result : R} (heval : Evaluates code stmt first middle)
      (hrest : Finishes code ⟨code (after middle), stack⟩ second result) :
      Finishes code ⟨stmt, after :: stack⟩ (first ++ second) result

/-- A step of the same statement does not concern the callers. -/
theorem Finishes.prepend {stmt new : Stmt S R A L} {stack : List (R → S)}
    {before labels : List L} {result : R} (hfinish : Finishes code ⟨new, stack⟩ labels result)
    (heval : ∀ labels result, Evaluates code new labels result →
      Evaluates code stmt (before ++ labels) result) :
    Finishes code ⟨stmt, stack⟩ (before ++ labels) result := by
  cases hfinish with
  | last hnew => exact .last (heval _ _ hnew)
  | caller hnew hrest =>
      rw [← List.append_assoc]
      exact .caller (heval _ _ hnew) hrest

theorem Step.finishes {new labels : List L} {result : R} (hstep : Step code c new d)
    (hfinish : Finishes code d labels result) : Finishes code c (new ++ labels) result := by
  cases hstep with
  | ret middle after stack => exact .caller (.ret middle) hfinish
  | call callee after stack =>
      rw [List.nil_append]
      cases hfinish with
      | caller hcallee hrest =>
          cases hrest with
          | last hafter => exact .last (.call hcallee hafter)
          | caller hafter hrest =>
              rw [← List.append_assoc]
              exact .caller (.call hcallee hafter) hrest
  | skip next stack => exact hfinish.prepend fun _ _ => .skip
  | tell label next stack => exact hfinish.prepend fun _ _ => .tell
  | ask next answer stack => exact hfinish.prepend fun _ _ => .ask answer

theorem Run.finishes {labels rest : List L} {result : R} (hrun : Run code c labels d)
    (hfinish : Finishes code d rest result) :
    Finishes code c (labels ++ rest) result := by
  induction hrun generalizing rest with
  | refl => exact hfinish
  | step _ hstep ih =>
      rw [List.append_assoc]
      exact ih (hstep.finishes hfinish)

/-- A run to the result is a derivation. -/
theorem Run.evaluates {stmt : Stmt S R A L} {labels : List L} {result : R}
    (hrun : Run code ⟨stmt, []⟩ labels ⟨.ret result, []⟩) :
    Evaluates code stmt labels result := by
  have hfinish := hrun.finishes (.last (.ret result))
  rw [List.append_nil] at hfinish
  cases hfinish with
  | last heval => exact heval

/-- A run stays above the callers that wait at its start, or it returns to the innermost
of them. -/
theorem Run.split {stmt : Stmt S R A L} {upper base : List (R → S)} {labels : List L}
    (hrun : Run code ⟨stmt, upper ++ base⟩ labels d) :
    (∃ now, d.stack = now ++ base ∧ Run code ⟨stmt, upper⟩ labels ⟨d.stmt, now⟩) ∨
      ∃ first second result after rest, labels = first ++ second ∧ base = after :: rest ∧
        Run code ⟨stmt, upper⟩ first ⟨.ret result, []⟩ ∧
        Run code ⟨code (after result), rest⟩ second d := by
  induction hrun with
  | refl => exact .inl ⟨upper, rfl, .refl⟩
  | step hrun hstep ih =>
      rcases ih with ⟨now, hnow, hupper⟩ |
        ⟨first, second, result, after, rest, rfl, rfl, hfirst, hsecond⟩
      · cases hstep with
        | ret result after stack =>
            cases now with
            | nil => exact .inr ⟨_, [], result, after, stack, rfl, hnow.symm, hupper, .refl⟩
            | cons top now =>
                obtain ⟨rfl, rfl⟩ := List.cons.inj hnow
                exact .inl ⟨now, rfl, .step hupper (.ret result after now)⟩
        | call callee after stack =>
            exact .inl ⟨after :: now, congrArg (after :: ·) hnow,
              .step hupper (.call callee after now)⟩
        | skip next stack => exact .inl ⟨now, hnow, .step hupper (.skip next now)⟩
        | tell label next stack =>
            exact .inl ⟨now, hnow, .step hupper (.tell label next now)⟩
        | ask next answer stack =>
            exact .inl ⟨now, hnow, .step hupper (.ask next answer now)⟩
      · exact .inr ⟨first, _, result, after, rest, List.append_assoc .., rfl, hfirst,
          .step hsecond hstep⟩

/-- A run from a call is at the call, in the callee, or after its return. -/
theorem Run.call_cases {callee : S} {after : R → S} {labels : List L}
    (hrun : Run code ⟨.call callee after, []⟩ labels d) :
    (labels = [] ∧ d = ⟨.call callee after, []⟩) ∨
      (∃ now, d.stack = now ++ [after] ∧
        Run code ⟨code callee, []⟩ labels ⟨d.stmt, now⟩) ∨
      ∃ first second result, labels = first ++ second ∧
        Run code ⟨code callee, []⟩ first ⟨.ret result, []⟩ ∧
        Run code ⟨code (after result), []⟩ second d := by
  rcases hrun.head with hhere | ⟨new, rest, mid, rfl, hstep, hrest⟩
  · exact .inl hhere
  · cases hstep with
    | call =>
        have hcallee : Run code ⟨code callee, [] ++ [after]⟩ rest d := hrest
        rcases hcallee.split with hinside |
          ⟨first, second, result, after', stack, rfl, hbase, hfirst, hsecond⟩
        · exact .inr (.inl hinside)
        · obtain ⟨rfl, rfl⟩ := List.cons.inj hbase
          exact .inr (.inr ⟨first, second, result, rfl, hfirst, hsecond⟩)

end CallStack
