import Imperative.Analysis.Placement

/-!
# Jumps in their places

`Stmt.Placed` says where jumps may stand, by recursion on the tree and without a stack of
surroundings: inside a loop or not, inside a procedure or not.  A walk of the checker that
comes through has seen jumps in their places only (`Stmt.checkJumps_ok`), and leaves the
surroundings as it found them.
-/

namespace Imperative

mutual

/-- Every jump in the statement is in its place, when the statement stands inside a loop of
its procedure or not, and inside a procedure or not. -/
def Stmt.Placed (inLoop inProcedure : Bool) : Stmt → Prop
  | .compound body _ => Stmt.AllPlaced inLoop inProcedure body
  | .conditional _ body otherwise _ =>
    body.Placed inLoop inProcedure ∧ Stmt.Placed? inLoop inProcedure otherwise
  | .whileLoop _ body _ | .doWhile _ body _ => body.Placed true inProcedure
  | .forLoop init _ step body _ =>
    init.Placed inLoop inProcedure ∧ step.Placed true inProcedure ∧ body.Placed true inProcedure
  | .procedure _ _ _ _ body _ => Stmt.AllPlaced false true body
  | .breakLoop _ | .continueLoop _ => inLoop = true
  | .giveBack .. => inProcedure = true
  | .declaration .. | .assign .. | .call .. | .pass _ => True

/-- Every jump in the statements is in its place. -/
def Stmt.AllPlaced (inLoop inProcedure : Bool) : List Stmt → Prop
  | [] => True
  | s :: ss => s.Placed inLoop inProcedure ∧ Stmt.AllPlaced inLoop inProcedure ss

/-- Every jump in a statement that may be absent is in its place. -/
def Stmt.Placed? (inLoop inProcedure : Bool) : Option Stmt → Prop
  | none => True
  | some s => s.Placed inLoop inProcedure

end

namespace Placement

/-- Two checks in a row that come through have both come through. -/
theorem of_bind {x : Placement Unit} {f : Unit → Placement Unit} {c c' : PlacementChecker}
    (h : (x >>= f).run.run c = (.ok (), c')) :
    ∃ c₁, x.run.run c = (.ok (), c₁) ∧ (f ()).run.run c₁ = (.ok (), c') := by
  rw [ExceptT.run_bind, StateT.run_bind] at h
  rcases hx : x.run.run c with ⟨e | _, c₁⟩
  · rw [hx] at h
    cases h
  · rw [hx] at h
    exact ⟨c₁, rfl, h⟩

theorem require_run (test : PlacementChecker → Bool) (cause : AnalysisCause) (site : Span)
    (c : PlacementChecker) :
    (require test cause site).run.run c =
      (if test c then .ok () else .error ⟨cause, site⟩, c) := by
  rw [require]
  show (ExceptT.run (if test c then pure () else (throw ⟨cause, site⟩ : Placement Unit))).run c
    = _
  cases test c <;> rfl

theorem of_require {test : PlacementChecker → Bool} {cause : AnalysisCause} {site : Span}
    {c c' : PlacementChecker} (h : (require test cause site).run.run c = (.ok (), c')) :
    c' = c ∧ test c = true := by
  rw [require_run] at h
  cases ht : test c with
  | true =>
    rw [ht] at h
    cases h
    exact ⟨rfl, rfl⟩
  | false =>
    rw [ht] at h
    cases h

/-- A check inside a construct: it runs with the construct around it and leaves it at the
end. -/
theorem of_inside {surrounding : Surrounding} {x : Placement Unit} {c c' : PlacementChecker}
    (h : (do push surrounding; x; pop).run.run c = (.ok (), c')) :
    ∃ c₁, x.run.run ⟨surrounding :: c.context⟩ = (.ok (), c₁) ∧ c' = ⟨c₁.context.tail⟩ := by
  obtain ⟨c₁, hx, hpop⟩ := of_bind (x := x) (f := fun _ => pop) (c := ⟨surrounding :: c.context⟩) h
  refine ⟨c₁, hx, ?_⟩
  cases hpop
  rfl

end Placement

open Placement

mutual

/-- A check of a statement that comes through leaves the surroundings as they were, and has
found every jump in its place. -/
theorem Stmt.checkJumps_ok {c c' : PlacementChecker} :
    ∀ {s : Stmt}, s.checkJumps.run.run c = (.ok (), c') →
      c' = c ∧ s.Placed c.insideLoop c.insideProcedure
  | .compound body _, h => Stmt.checkAllJumps_ok h
  | .conditional _ body otherwise _, h => by
    rw [Stmt.checkJumps] at h
    obtain ⟨c₁, hbody, hother⟩ := of_bind h
    obtain ⟨rfl, hb⟩ := Stmt.checkJumps_ok hbody
    obtain ⟨rfl, ho⟩ := Stmt.checkJumps?_ok hother
    exact ⟨rfl, hb, ho⟩
  | .whileLoop _ body _, h | .doWhile _ body _, h => by
    rw [Stmt.checkJumps] at h
    obtain ⟨c₁, hbody, rfl⟩ := of_inside h
    obtain ⟨rfl, hb⟩ := Stmt.checkJumps_ok hbody
    exact ⟨rfl, hb⟩
  | .forLoop init _ step body _, h => by
    rw [Stmt.checkJumps] at h
    obtain ⟨c₁, hinit, hloop⟩ := of_bind h
    obtain ⟨rfl, hi⟩ := Stmt.checkJumps_ok hinit
    obtain ⟨c₂, hpush, hround⟩ := of_bind hloop
    cases hpush
    obtain ⟨c₃, hstep, hrest⟩ := of_bind hround
    obtain ⟨rfl, hs⟩ := Stmt.checkJumps_ok hstep
    obtain ⟨c₄, hbody, hpop⟩ := of_bind hrest
    obtain ⟨rfl, hb⟩ := Stmt.checkJumps_ok hbody
    cases hpop
    exact ⟨rfl, hi, hs, hb⟩
  | .procedure _ _ _ _ body _, h => by
    rw [Stmt.checkJumps] at h
    obtain ⟨c₁, hbody, rfl⟩ := of_inside h
    obtain ⟨rfl, hb⟩ := Stmt.checkAllJumps_ok hbody
    exact ⟨rfl, hb⟩
  | .breakLoop _, h | .continueLoop _, h => of_require h
  | .giveBack .., h => of_require h
  | .declaration .., h | .assign .., h | .call .., h | .pass _, h => by
    cases h
    exact ⟨rfl, trivial⟩

theorem Stmt.checkAllJumps_ok {c c' : PlacementChecker} :
    ∀ {ss : List Stmt}, (Stmt.checkAllJumps ss).run.run c = (.ok (), c') →
      c' = c ∧ Stmt.AllPlaced c.insideLoop c.insideProcedure ss
  | [], h => by
    cases h
    exact ⟨rfl, trivial⟩
  | s :: ss, h => by
    rw [Stmt.checkAllJumps] at h
    obtain ⟨c₁, hs, hss⟩ := of_bind h
    obtain ⟨rfl, hp⟩ := Stmt.checkJumps_ok hs
    obtain ⟨rfl, hps⟩ := Stmt.checkAllJumps_ok hss
    exact ⟨rfl, hp, hps⟩

theorem Stmt.checkJumps?_ok {c c' : PlacementChecker} :
    ∀ {s : Option Stmt}, (Stmt.checkJumps? s).run.run c = (.ok (), c') →
      c' = c ∧ Stmt.Placed? c.insideLoop c.insideProcedure s
  | none, h => by
    cases h
    exact ⟨rfl, trivial⟩
  | some s, h => Stmt.checkJumps_ok (s := s) h

end

end Imperative
