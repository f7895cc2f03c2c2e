import Imperative.Analysis.Error
import Imperative.Tree

/-!
# Placing jumps

A `break` or a `continue` must stand inside a loop of its own procedure, and a `return`
inside a procedure.  The walk that checks this keeps the constructs around it as a stack,
innermost first.

The body of a loop and the step in its head are inside it; its test and the first part of
its head are not.  A loop around a procedure does not count for the jumps in the
procedure's body.  A walk that fails leaves its stack as it stands, and a later walk with
the same checker starts from there.
-/

namespace Imperative

/-- What a jump can refer to. -/
inductive Surrounding where
  | loop | procedure
  deriving DecidableEq, Repr

/-- Checks jumps against the constructs around them, innermost first. -/
structure PlacementChecker where
  context : List Surrounding := []
  deriving DecidableEq, Repr, Inhabited

/-- A check that may fail, and then keeps the context of the failure. -/
abbrev Placement := ExceptT AnalysisError (StateM PlacementChecker)

namespace PlacementChecker

/-- Whether a loop is around, within the innermost procedure. -/
def insideLoop (c : PlacementChecker) : Bool :=
  (c.context.takeWhile (· != .procedure)).any (· == .loop)

/-- Whether a procedure is around. -/
def insideProcedure (c : PlacementChecker) : Bool :=
  c.context.any (· == .procedure)

end PlacementChecker

namespace Placement

/-- Enters a construct. -/
def push (s : Surrounding) : Placement Unit :=
  modify fun c => ⟨s :: c.context⟩

/-- Leaves the innermost construct. -/
def pop : Placement Unit :=
  modify fun c => ⟨c.context.tail⟩

/-- Fails with the given cause unless the context passes the test. -/
def require (test : PlacementChecker → Bool) (cause : AnalysisCause) (site : Span) :
    Placement Unit := do
  unless test (← get) do throw ⟨cause, site⟩

end Placement

open Placement

mutual

/-- Checks the jumps in a statement. -/
def Stmt.checkJumps : Stmt → Placement Unit
  | .compound body _ => Stmt.checkAllJumps body
  | .conditional _ body otherwise _ => do
    body.checkJumps
    Stmt.checkJumps? otherwise
  | .whileLoop _ body _ | .doWhile _ body _ => do
    push .loop
    body.checkJumps
    pop
  | .forLoop init _ step body _ => do
    init.checkJumps
    push .loop
    step.checkJumps
    body.checkJumps
    pop
  | .procedure _ _ _ _ body _ => do
    push .procedure
    Stmt.checkAllJumps body
    pop
  | .breakLoop span => require (·.insideLoop) .breakOutsideLoop span
  | .continueLoop span => require (·.insideLoop) .continueOutsideLoop span
  | .giveBack _ span => require (·.insideProcedure) .returnOutsideProcedure span
  | .declaration .. | .assign .. | .call .. | .pass _ => return ()

/-- Checks the jumps in a list of statements. -/
def Stmt.checkAllJumps : List Stmt → Placement Unit
  | [] => return ()
  | s :: ss => do
    s.checkJumps
    Stmt.checkAllJumps ss

/-- Checks the jumps in a statement that may be absent. -/
def Stmt.checkJumps? : Option Stmt → Placement Unit
  | none => return ()
  | some s => s.checkJumps

end

/-- Checks the jumps in a module, starting from what the checker holds. -/
def PlacementChecker.check (c : PlacementChecker) (m : Module) :
    Except AnalysisError Unit × PlacementChecker :=
  (Stmt.checkAllJumps m.body).run c

end Imperative
