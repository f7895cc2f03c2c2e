import Imperative.Proofs.BigSteps
import Imperative.Proofs.Derivation

/-!
# Laws of loops

The `while` loop is enough: a `do` loop is its body and a `while` loop, and a `for` loop is its
first part and a `while` loop whose body ends with the step.  Two statements are *equivalent* when
they come to the same end with the same call stack, or when neither comes to an end
(`Stmt.Equivalent`).

## Jumps

The laws move the body to a place where jumps mean something else.  In front of the `while` loop the
body of a `do` loop has no loop around it that would catch its jumps, and in a `while` loop `continue`
leads past the step.  A body may not have such jumps *free*, that is, outside of the loops and the
procedures in it (`Stmt.hasFree`): a statement ends with a jump only if it has that jump free
(`Machine.hasFree_of_halts`).

* `Stmt.doWhile_equivalent`: the law of `do` loops.
* `Loop.pass_while_iff`: a round of a `for` loop is a round of its `while` loop, so the two go
  through the same rounds, whether these come to an end or not.
* `Stmt.forLoop_equivalent`: the law of `for` loops.
-/

namespace Imperative

/-! ## Free jumps -/

/-- The jumps that loops catch. -/
inductive Jump where
  | breakLoop
  | continueLoop
  deriving DecidableEq

/-- How a jump hands control back. -/
def Jump.flow : Jump → Flow
  | breakLoop => .broke
  | continueLoop => .continued

theorem Jump.flow_ne_completed (jump : Jump) : jump.flow ≠ .completed := by
  cases jump <;> nofun

theorem Jump.flow_ne_returned (jump : Jump) (v : Value) : jump.flow ≠ .returned v := by
  cases jump <;> nofun

mutual

/-- The statement has the jump outside of the loops and the procedures in it. -/
def Stmt.hasFree (jump : Jump) : Stmt → Bool
  | .compound body _ => Stmt.anyHasFree jump body
  | .conditional _ body otherwise _ => body.hasFree jump || Stmt.hasFree? jump otherwise
  | .breakLoop _ => jump == .breakLoop
  | .continueLoop _ => jump == .continueLoop
  | .declaration .. | .assign .. | .call .. | .whileLoop .. | .doWhile .. | .forLoop .. | .giveBack ..
  | .pass _ | .procedure .. => false

/-- One of the statements has the jump outside of the loops and the procedures in it. -/
def Stmt.anyHasFree (jump : Jump) : List Stmt → Bool
  | [] => false
  | s :: ss => s.hasFree jump || Stmt.anyHasFree jump ss

/-- A statement that may be absent has the jump outside of the loops and the procedures in it. -/
def Stmt.hasFree? (jump : Jump) : Option Stmt → Bool
  | none => false
  | some s => s.hasFree jump

end

theorem Flow.ne_completed_of_leaves {f g : Flow} (h : f.leaves = some g) : f ≠ .completed := by
  rintro rfl
  cases h

/-- What a loop hands back is no jump. -/
theorem Jump.flow_ne_of_leaves (jump : Jump) {f g : Flow} (h : f.leaves = some g) :
    jump.flow ≠ g := by
  cases f <;> cases h
  · exact jump.flow_ne_returned _
  · exact jump.flow_ne_completed

section Loops

variable {table : ProcedureTable} {loop : Loop} {stack t : CallStack} {o : Outcome}

theorem Loop.Pass.ne_jump (h : loop.Pass table stack (some o) t) (jump : Jump) :
    o ≠ .flow jump.flow := by
  cases h with
  | failed => nofun
  | left _ hleaves =>
    rintro ⟨⟩
    exact jump.flow_ne_of_leaves hleaves rfl
  | stepFailed => nofun

theorem Loop.Rounds.ne_jump (h : loop.Rounds table stack o t) (jump : Jump) :
    o ≠ .flow jump.flow := by
  induction h with
  | failed => nofun
  | finished => exact fun h => jump.flow_ne_completed (Outcome.flow.inj h).symm
  | last _ _ hpass => exact hpass.ne_jump jump
  | again _ _ _ _ ih => exact ih

theorem Loop.Turns.ne_jump (h : loop.Turns table stack o t) (jump : Jump) :
    o ≠ .flow jump.flow := by
  rcases h with hpass | ⟨u, -, hrest⟩
  · exact hpass.ne_jump jump
  · exact hrest.ne_jump jump

end Loops

namespace Machine

variable {table : ProcedureTable} {stack t u : CallStack} {o : Outcome} {f : Flow}

/-! ## How statements end -/

theorem flow_of_ends_update {change : Record → Record} {f' : Flow} {site : Span}
    (h : Ends table (.flow f) t (update change f' site .done stack)) : f = f' := by
  rw [update] at h
  split at h
  · exact Outcome.flow.inj (halts_flow_done_iff.mp h).1
  · cases h.1

/-- Simple statements run to their end. -/
theorem completed_of_isSimple {s : Stmt} (h : Halts table ⟨.exec s .done, stack⟩ (.flow f) t)
    (hs : s.IsSimple) : f = .completed := by
  cases s with
  | declaration name type site => exact flow_of_ends_update (halts_iff_ends.mp h)
  | assign name value site =>
    rw [halts_iff_of_next rfl, halts_eval_iff] at h
    rcases h with ⟨_, -, ⟨⟩⟩ | ⟨v, u, -, h⟩
    exact flow_of_ends_update (halts_iff_ends.mp h)
  | call name args resolved site =>
    rw [halts_call_iff, halts_eval_iff] at h
    rcases h with ⟨_, -, ⟨⟩⟩ | ⟨v, u, -, h⟩
    rw [halts_iff_of_next rfl, halts_flow_done_iff] at h
    exact Outcome.flow.inj h.1
  | pass site =>
    rw [halts_iff_of_next rfl, halts_flow_done_iff] at h
    exact Outcome.flow.inj h.1
  | _ => exact hs.elim

mutual

/-- A statement ends with a jump only if it has that jump free. -/
theorem hasFree_of_halts {jump : Jump} {stack t : CallStack} (s : Stmt)
    (h : Halts table ⟨.exec s .done, stack⟩ (.flow jump.flow) t) : s.hasFree jump = true := by
  match s with
  | .declaration .. | .assign .. | .call .. | .pass _ =>
    exact (jump.flow_ne_completed (completed_of_isSimple h trivial)).elim
  | .compound body _ => exact anyHasFree_of_halts body (halts_compound_iff.mp h)
  | .conditional test body otherwise _ =>
    rw [Stmt.hasFree, Bool.or_eq_true]
    rw [halts_iff_of_next rfl, halts_eval_iff] at h
    rcases h with ⟨_, -, ⟨⟩⟩ | ⟨v, u, -, h⟩
    simp only [halts_iff_ends, step, stepValue] at h
    split at h
    · exact .inl (hasFree_of_halts body h)
    · match otherwise with
      | some s => exact .inr (hasFree_of_halts s h)
      | none => exact (jump.flow_ne_completed (Outcome.flow.inj (halts_flow_done_iff.mp h).1)).elim
  | .whileLoop .. => exact ((halts_whileLoop_iff.mp h).ne_jump jump rfl).elim
  | .doWhile .. => exact ((halts_doWhile_iff.mp h).ne_jump jump rfl).elim
  | .forLoop .. =>
    rcases halts_forLoop_iff.mp h with ⟨_, -, ⟨⟩⟩ | ⟨g, u, -, h⟩
    exact (h.ne_jump jump rfl).elim
  | .giveBack value site =>
    rw [halts_iff_of_next rfl, halts_eval_iff] at h
    rcases h with ⟨_, -, ⟨⟩⟩ | ⟨v, u, -, h⟩
    exact (jump.flow_ne_returned v (flow_of_ends_update (halts_iff_ends.mp h))).elim
  | .breakLoop _ =>
    rw [halts_iff_of_next rfl, halts_flow_done_iff] at h
    cases jump with
    | breakLoop => rfl
    | continueLoop => exact nomatch h.1
  | .continueLoop _ =>
    rw [halts_iff_of_next rfl, halts_flow_done_iff] at h
    cases jump with
    | breakLoop => exact nomatch h.1
    | continueLoop => rfl
  | .procedure .. =>
    rw [halts_iff_of_next rfl, halts_flow_done_iff] at h
    exact (jump.flow_ne_completed (Outcome.flow.inj h.1)).elim

theorem anyHasFree_of_halts {jump : Jump} {stack t : CallStack} (ss : List Stmt)
    (h : Halts table ⟨.flow .completed (.sequence ss .done), stack⟩ (.flow jump.flow) t) :
    Stmt.anyHasFree jump ss = true := by
  match ss with
  | [] => exact (jump.flow_ne_completed (Outcome.flow.inj (halts_sequence_nil.mp h).1)).elim
  | s :: ss =>
    rw [Stmt.anyHasFree, Bool.or_eq_true]
    rcases halts_sequence_cons.mp h with ⟨_, -, ⟨⟩⟩ | ⟨f, u, hs, hss⟩
    by_cases hf : f = .completed
    · subst hf
      exact .inr (anyHasFree_of_halts ss hss)
    · obtain ⟨⟨⟩, -⟩ := (halts_sequence_of_ne hf ss).mp hss
      exact .inl (hasFree_of_halts s hs)

end

/-! ## Two statements in a row -/

theorem halts_sequence_singleton {s : Stmt} :
    Halts table ⟨.flow .completed (.sequence [s] .done), stack⟩ o t ↔
      Halts table ⟨.exec s .done, stack⟩ o t := by
  rw [halts_sequence_cons]
  constructor
  · rintro (⟨error, hs, rfl⟩ | ⟨f, u, hs, hnil⟩)
    · exact hs
    · obtain ⟨rfl, rfl⟩ := halts_sequence_nil.mp hnil
      exact hs
  · intro h
    cases o with
    | failure error => exact .inl ⟨error, h, rfl⟩
    | value v => exact (not_halts_exec_value h).elim
    | flow f => exact .inr ⟨f, t, h, halts_sequence_nil.mpr ⟨rfl, rfl⟩⟩

/-- The second of two statements is executed if the first one runs to its end. -/
theorem halts_pair_iff {a b : Stmt} {span : Span} :
    Halts table ⟨.exec (.compound [a, b] span) .done, stack⟩ o t ↔
      (∃ error, Halts table ⟨.exec a .done, stack⟩ (.failure error) t ∧ o = .failure error) ∨
      (∃ f, Halts table ⟨.exec a .done, stack⟩ (.flow f) t ∧ f ≠ .completed ∧ o = .flow f) ∨
      ∃ u, Halts table ⟨.exec a .done, stack⟩ (.flow .completed) u ∧
        Halts table ⟨.exec b .done, u⟩ o t := by
  rw [halts_compound_iff, halts_sequence_cons]
  refine or_congr_right ?_
  constructor
  · rintro ⟨f, u, ha, hb⟩
    by_cases hf : f = .completed
    · subst hf
      exact .inr ⟨u, ha, halts_sequence_singleton.mp hb⟩
    · obtain ⟨rfl, rfl⟩ := (halts_sequence_of_ne hf [b]).mp hb
      exact .inl ⟨f, ha, hf, rfl⟩
  · rintro (⟨f, ha, hf, rfl⟩ | ⟨u, ha, hb⟩)
    · exact ⟨f, t, ha, (halts_sequence_of_ne hf [b]).mpr ⟨rfl, rfl⟩⟩
    · exact ⟨.completed, u, ha, halts_sequence_singleton.mpr hb⟩

/-! ## Bodies without free jumps -/

theorem not_halts_jump {body : Stmt} {jump : Jump} (hbody : body.hasFree jump = false) :
    ¬ Halts table ⟨.exec body .done, stack⟩ (.flow jump.flow) t := by
  intro h
  rw [hasFree_of_halts body h] at hbody
  cases hbody

/-- A body without a free `continue` that does not leave the loop ran to its end. -/
theorem completed_of_stays {body : Stmt} (hcontinue : body.hasFree .continueLoop = false)
    (h : Halts table ⟨.exec body .done, stack⟩ (.flow f) t) (hf : f.leaves = none) :
    f = .completed := by
  cases f with
  | completed => rfl
  | continued => exact (not_halts_jump hcontinue h).elim
  | returned v => cases hf
  | broke => cases hf

/-- A body without a free `break` leaves the loop with its own flow. -/
theorem eq_of_leaves {body : Stmt} {g : Flow} (hbreak : body.hasFree .breakLoop = false)
    (h : Halts table ⟨.exec body .done, stack⟩ (.flow f) t) (hf : f.leaves = some g) : g = f := by
  cases f with
  | returned v => exact (Option.some.inj hf).symm
  | broke => exact (not_halts_jump hbreak h).elim
  | completed => cases hf
  | continued => cases hf

end Machine

/-! ## The laws -/

section Laws

open Machine

variable {table : ProcedureTable} {test : Expr} {body after init : Stmt} {stack t : CallStack}
  {o : Outcome} {span span₁ span₂ span₃ : Span}

/-- Two statements do the same: with whatever procedures and on whatever stack, they come to the same
end with the same stack, or neither comes to an end. -/
def Stmt.Equivalent (s s' : Stmt) : Prop :=
  ∀ (table : ProcedureTable) (stack : CallStack) (o : Outcome) (t : CallStack),
    Halts table ⟨.exec s .done, stack⟩ o t ↔ Halts table ⟨.exec s' .done, stack⟩ o t

/-- A `do` loop is its body, and then a `while` loop. -/
theorem Stmt.doWhile_equivalent (hbreak : body.hasFree .breakLoop = false)
    (hcontinue : body.hasFree .continueLoop = false) :
    (Stmt.doWhile test body span).Equivalent
      (.compound [body, .whileLoop test body span₁] span₂) := by
  intro table stack o t
  rw [halts_doWhile_iff, halts_pair_iff]
  constructor
  · rintro (hpass | ⟨u, hpass, hrest⟩)
    · cases hpass with
      | failed hbody => exact .inl ⟨_, hbody, rfl⟩
      | left hbody hleaves =>
        obtain rfl := eq_of_leaves hbreak hbody hleaves
        exact .inr (.inl ⟨_, hbody, Flow.ne_completed_of_leaves hleaves, rfl⟩)
      | stepFailed _ _ hafter => exact nomatch (halts_pass_iff.mp hafter).1
    · cases hpass with
      | stepped hbody hstays hafter =>
        obtain rfl := completed_of_stays hcontinue hbody hstays
        obtain ⟨-, rfl⟩ := halts_pass_iff.mp hafter
        exact .inr (.inr ⟨_, hbody, halts_whileLoop_iff.mpr hrest⟩)
  · rintro (⟨error, hbody, rfl⟩ | ⟨f, hbody, hf, rfl⟩ | ⟨u, hbody, hrest⟩)
    · exact .inl (.failed hbody)
    · cases hleaves : f.leaves with
      | none => exact (hf (completed_of_stays hcontinue hbody hleaves)).elim
      | some g =>
        obtain rfl := eq_of_leaves hbreak hbody hleaves
        exact .inl (.left hbody hleaves)
    · refine .inr ⟨u, .stepped hbody rfl (halts_pass_iff.mpr ⟨rfl, rfl⟩), ?_⟩
      exact halts_whileLoop_iff.mp hrest

/-- A round of a `for` loop is a round of the `while` loop whose body ends with the step. -/
theorem Loop.pass_while_iff (hafter : after.IsSimple)
    (hcontinue : body.hasFree .continueLoop = false) {r : Option Outcome} :
    Loop.Pass table ⟨test, .compound [body, after] span, none⟩ stack r t ↔
      Loop.Pass table ⟨test, body, some after⟩ stack r t := by
  constructor
  · intro h
    cases h with
    | failed hpair =>
      rcases halts_pair_iff.mp hpair with ⟨_, hbody, ⟨⟩⟩ | ⟨f, -, -, ⟨⟩⟩ | ⟨u, hbody, hstep⟩
      · exact .failed hbody
      · exact .stepFailed hbody rfl hstep
    | left hpair hleaves =>
      rcases halts_pair_iff.mp hpair with ⟨_, -, ⟨⟩⟩ | ⟨f, hbody, -, ⟨⟩⟩ | ⟨u, hbody, hstep⟩
      · exact .left hbody hleaves
      · obtain rfl := completed_of_isSimple hstep hafter
        cases hleaves
    | stepFailed _ _ hnothing => exact nomatch (halts_pass_iff.mp hnothing).1
    | stepped hpair hstays hnothing =>
      obtain ⟨-, rfl⟩ := halts_pass_iff.mp hnothing
      rcases halts_pair_iff.mp hpair with ⟨_, -, ⟨⟩⟩ | ⟨f, hbody, hf, ⟨⟩⟩ | ⟨u, hbody, hstep⟩
      · exact (hf (completed_of_stays hcontinue hbody hstays)).elim
      · exact .stepped hbody rfl hstep
  · intro h
    cases h with
    | failed hbody => exact .failed (halts_pair_iff.mpr (.inl ⟨_, hbody, rfl⟩))
    | left hbody hleaves =>
      refine .left (halts_pair_iff.mpr (.inr (.inl ⟨_, hbody, ?_, rfl⟩))) hleaves
      exact Flow.ne_completed_of_leaves hleaves
    | stepFailed hbody hstays hstep =>
      obtain rfl := completed_of_stays hcontinue hbody hstays
      exact .failed (halts_pair_iff.mpr (.inr (.inr ⟨_, hbody, hstep⟩)))
    | stepped hbody hstays hstep =>
      obtain rfl := completed_of_stays hcontinue hbody hstays
      obtain rfl := completed_of_isSimple hstep hafter
      exact .stepped (halts_pair_iff.mpr (.inr (.inr ⟨_, hbody, hstep⟩))) rfl
        (halts_pass_iff.mpr ⟨rfl, rfl⟩)

/-- Loops with the same test that go through the same rounds come to the same end. -/
theorem Loop.Rounds.congr {loop loop' : Loop} (htest : loop'.test = loop.test)
    (hpass : ∀ stack r t, loop.Pass table stack r t → loop'.Pass table stack r t)
    (h : loop.Rounds table stack o t) : loop'.Rounds table stack o t := by
  induction h with
  | failed test => exact .failed (htest ▸ test)
  | finished test no => exact .finished (htest ▸ test) no
  | last test yes pass => exact .last (htest ▸ test) yes (hpass _ _ _ pass)
  | again test yes pass _ ih => exact .again (htest ▸ test) yes (hpass _ _ _ pass) ih

/-- A `for` loop is its first part, and then a `while` loop whose body ends with the step. -/
theorem Stmt.forLoop_equivalent (hinit : init.IsSimple) (hafter : after.IsSimple)
    (hcontinue : body.hasFree .continueLoop = false) :
    (Stmt.forLoop init test after body span).Equivalent
      (.compound [init, .whileLoop test (.compound [body, after] span₁) span₂] span₃) := by
  intro table stack o t
  have hrounds : ∀ u, Loop.Rounds table ⟨test, body, some after⟩ u o t ↔
      Halts table ⟨.exec (.whileLoop test (.compound [body, after] span₁) span₂) .done, u⟩ o t := by
    intro u
    rw [halts_whileLoop_iff]
    exact ⟨.congr rfl fun _ _ _ => (Loop.pass_while_iff hafter hcontinue).mpr,
      .congr rfl fun _ _ _ => (Loop.pass_while_iff hafter hcontinue).mp⟩
  rw [halts_forLoop_iff, halts_pair_iff]
  refine or_congr_right ?_
  constructor
  · rintro ⟨f, u, hfirst, hrest⟩
    obtain rfl := completed_of_isSimple hfirst hinit
    exact .inr ⟨u, hfirst, (hrounds u).mp hrest⟩
  · rintro (⟨f, hfirst, hf, -⟩ | ⟨u, hfirst, hrest⟩)
    · exact (hf (completed_of_isSimple hfirst hinit)).elim
    · exact ⟨.completed, u, hfirst, (hrounds u).mpr hrest⟩

/-- **Laws of loops.**  A `do` loop whose body has no free `break` and no free `continue` is
equivalent to its body followed by a `while` loop.  A `for` loop whose body has no free `continue` and
whose head holds simple statements is equivalent to its first part followed by a `while` loop whose
body ends with the step.  A statement may break out of the rounds, return, fail or go on for ever; its
equivalent does the same, on the same stack. -/
theorem Stmt.loop_laws (test : Expr) (body : Stmt) (span span₁ span₂ span₃ : Span) :
    (body.hasFree .breakLoop = false → body.hasFree .continueLoop = false →
      (Stmt.doWhile test body span).Equivalent
        (.compound [body, .whileLoop test body span₁] span₂))
    ∧ ∀ init after : Stmt, init.IsSimple → after.IsSimple → body.hasFree .continueLoop = false →
      (Stmt.forLoop init test after body span).Equivalent
        (.compound [init, .whileLoop test (.compound [body, after] span₁) span₂] span₃) :=
  ⟨Stmt.doWhile_equivalent, fun _ _ => Stmt.forLoop_equivalent⟩

/-- Two bodies that count `x` down from 5, where `x` is 5 to begin with.  The first loop breaks at 2,
and the `continue` in it is not free; the second one has no jump.  Both come to the ends of their
equivalents. -/
theorem Stmt.loop_laws_countdown :
    ∃ (x : Expr) (down leaving : Stmt) (stack t u : CallStack),
      x = .var "x" {} ∧ down = .assign "x" (.binary .sub x (.number 1 {}) {}) {}
      ∧ leaving = .compound [.doWhile (.number 0 {}) (.continueLoop {}) {},
          .conditional (.binary .sub x (.number 2 {}) {}) (.pass {}) (some (.breakLoop {})) {}] {}
      ∧ leaving.hasFree .breakLoop = true ∧ leaving.hasFree .continueLoop = false
      ∧ down.hasFree .breakLoop = false ∧ down.hasFree .continueLoop = false
      ∧ stack.top?.bind (·.get? "x") = some (.int 5)
      ∧ t.top?.bind (·.get? "x") = some (.int 2) ∧ u.top?.bind (·.get? "x") = some (.int 0)
      ∧ Halts {} ⟨.exec (.compound [.pass {}, .whileLoop x (.compound [leaving, down] {}) {}] {})
          .done, stack⟩ (.flow .completed) t
      ∧ Halts {} ⟨.exec (.compound [down, .whileLoop x down {}] {}) .done, stack⟩
          (.flow .completed) u := by
  let x : Expr := .var "x" {}
  let down : Stmt := .assign "x" (.binary .sub x (.number 1 {}) {}) {}
  let leaving : Stmt := .compound [.doWhile (.number 0 {}) (.continueLoop {}) {},
    .conditional (.binary .sub x (.number 2 {}) {}) (.pass {}) (some (.breakLoop {})) {}] {}
  let program : Record := { name := "program", kind := .program, level := 1 }
  let stack : CallStack := { records := [program.set "x" (.int 5)], limit := 8 }
  obtain ⟨t, ht, hx⟩ : ∃ t, HaltsWithin {} 200
      ⟨.exec (.forLoop (.pass {}) x down leaving {}) .done, stack⟩ (.flow .completed) t
        ∧ t.top?.bind (·.get? "x") = some (.int 2) := ⟨_, rfl, rfl⟩
  obtain ⟨u, hu, hx'⟩ : ∃ u, HaltsWithin {} 200 ⟨.exec (.doWhile x down {}) .done, stack⟩
      (.flow .completed) u ∧ u.top?.bind (·.get? "x") = some (.int 0) := ⟨_, rfl, rfl⟩
  refine ⟨x, down, leaving, stack, t, u, rfl, rfl, rfl, rfl, rfl, rfl, rfl, rfl, hx, hx', ?_, ?_⟩
  · have hfor := (Stmt.loop_laws x leaving {} {} {} {}).2 (.pass {}) down trivial trivial rfl
    exact (hfor {} stack (.flow .completed) t).mp ht.halts
  · have hdo := (Stmt.loop_laws x down {} {} {} {}).1 rfl rfl
    exact (hdo {} stack (.flow .completed) u).mp hu.halts

end Laws

end Imperative
