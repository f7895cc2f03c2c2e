import Imperative.Tree

/-!
# The procedures of a module

Calls name a procedure by its number, so execution needs a table from numbers to
definitions.  Definitions are found wherever statements are: at the top of a module, in
compound statements, in branches, in the bodies of loops and in the bodies of procedures.
The head of a loop holds simple statements only and is not searched.
-/

namespace Imperative

/-- The definition of a procedure. -/
structure Procedure where
  id : ProcedureId
  name : String
  params : List Param
  returnType : Option DataType
  body : List Stmt

mutual

/-- The procedures defined in a statement, each before those defined inside it. -/
def Stmt.procedures : Stmt → List Procedure
  | .procedure id name params returnType body _ =>
    ⟨id, name, params, returnType, body⟩ :: Stmt.allProcedures body
  | .compound body _ => Stmt.allProcedures body
  | .conditional _ body otherwise _ => body.procedures ++ Stmt.procedures? otherwise
  | .whileLoop _ body _ | .doWhile _ body _ | .forLoop _ _ _ body _ => body.procedures
  | .declaration .. | .assign .. | .call .. | .giveBack .. | .breakLoop _ | .continueLoop _
  | .pass _ => []

/-- The procedures defined in a list of statements. -/
def Stmt.allProcedures : List Stmt → List Procedure
  | [] => []
  | s :: ss => s.procedures ++ Stmt.allProcedures ss

/-- The procedures defined in a statement that may be absent. -/
def Stmt.procedures? : Option Stmt → List Procedure
  | none => []
  | some s => s.procedures

end

/-- Definitions by number, the latest first. -/
structure ProcedureTable where
  entries : List Procedure := []

namespace ProcedureTable

/-- The table of all procedures of a module. -/
def ofModule (m : Module) : ProcedureTable :=
  ⟨(Stmt.allProcedures m.body).reverse⟩

/-- The latest definition with a number. -/
def find? (t : ProcedureTable) (id : ProcedureId) : Option Procedure :=
  t.entries.find? (·.id == id)

end ProcedureTable

end Imperative
