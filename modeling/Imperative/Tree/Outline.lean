import Imperative.Text.Outline
import Imperative.Tree

/-!
# Outlines of trees

The indented text of a whole tree.  It shows everything a tree holds: the spans, the
numbers of procedures, and what analysis has written at the calls.
-/

namespace Imperative

open Text (Outline)

/-- The outline of a span. -/
def Span.outline (s : Span) : Outline :=
  .record "Span" [
    .labelled "start" (.number s.start),
    .labelled "end" (.number s.stop),
    .labelled "line" (.number s.line),
    .labelled "column" (.number s.column)]

/-- The outline of a type. -/
def DataType.outline : DataType → Outline
  | integer => .leaf "Integer"
  | float => .leaf "Float"
  | universal => .leaf "Universal"

/-- The outline of a procedure's number. -/
def ProcedureId.outline (id : ProcedureId) : Outline :=
  .apply "ProcId" [.number id.index]

/-- The outline of a variable as a symbol. -/
def VariableSymbol.outline (v : VariableSymbol) : Outline :=
  .record "VarSymbol" [
    .labelled "name" (.quoted v.name),
    .labelled "ty" v.type.outline,
    .labelled "scope_level" (.number v.level)]

/-- The outline of a procedure as a symbol. -/
def ProcedureSymbol.outline (p : ProcedureSymbol) : Outline :=
  .record "ProcedureSymbol" [
    .labelled "id" p.id.outline,
    .labelled "name" (.quoted p.name),
    .labelled "params" (.list (p.params.map VariableSymbol.outline)),
    .labelled "return_type" (.optional (p.returnType.map DataType.outline)),
    .labelled "scope_level" (.number p.level)]

/-- The outline of a sign. -/
def UnaryOp.outline : UnaryOp → Outline
  | plus => .leaf "Plus"
  | minus => .leaf "Minus"

/-- The outline of an operator. -/
def BinaryOp.outline : BinaryOp → Outline
  | add => .leaf "Add"
  | sub => .leaf "Sub"
  | mul => .leaf "Mul"
  | div => .leaf "Div"

/-- The outline of a call, given those of its arguments. -/
def callOutline (name : String) (args : List Outline) (resolved : Option ProcedureSymbol) :
    Outline :=
  .apply "Call" [.record "Call" [
    .labelled "name" (.quoted name),
    .labelled "args" (.list args),
    .labelled "resolved" (.optional (resolved.map ProcedureSymbol.outline))]]

/-- The outline of a node of the given type, given that of what it is and its span. -/
def nodeOutline (type : String) (kind : Outline) (span : Span) : Outline :=
  .record type [.labelled "kind" kind, .labelled "span" span.outline]

mutual

/-- The outline of an expression. -/
def Expr.outline : Expr → Outline
  | .number value span =>
    nodeOutline "Expr" (.apply "Number" [.leaf (toString value.toInt)]) span
  | .var name span => nodeOutline "Expr" (.apply "Name" [.quoted name]) span
  | .unary op operand span =>
    nodeOutline "Expr" (.apply "Unary" [op.outline, operand.outline]) span
  | .binary op lhs rhs span =>
    nodeOutline "Expr" (.apply "Binary" [op.outline, lhs.outline, rhs.outline]) span
  | .call name args resolved span =>
    nodeOutline "Expr" (callOutline name (Expr.outlines args) resolved) span

/-- The outlines of expressions. -/
def Expr.outlines : List Expr → List Outline
  | [] => []
  | e :: es => e.outline :: Expr.outlines es

end

/-- The outline of a parameter. -/
def Param.outline (p : Param) : Outline :=
  .record "Param" [
    .labelled "name" (.quoted p.name),
    .labelled "ty" p.type.outline,
    .labelled "span" p.span.outline]

mutual

/-- The outline of a statement. -/
def Stmt.outline : Stmt → Outline
  | .compound body span =>
    nodeOutline "Stmt" (.apply "Compound" [.list (Stmt.outlines body)]) span
  | .declaration name type span =>
    nodeOutline "Stmt" (.record "Declaration" [
      .labelled "name" (.quoted name),
      .labelled "ty" type.outline]) span
  | .assign name value span =>
    nodeOutline "Stmt" (.record "Assign" [
      .labelled "name" (.quoted name),
      .labelled "value" value.outline]) span
  | .call name args resolved span =>
    nodeOutline "Stmt" (callOutline name (Expr.outlines args) resolved) span
  | .conditional test body otherwise span =>
    nodeOutline "Stmt" (.record "If" [
      .labelled "test" test.outline,
      .labelled "body" body.outline,
      .labelled "else_body" (.optional (Stmt.outline? otherwise))]) span
  | .whileLoop test body span =>
    nodeOutline "Stmt" (.record "While" [
      .labelled "test" test.outline,
      .labelled "body" body.outline]) span
  | .doWhile test body span =>
    nodeOutline "Stmt" (.record "DoWhile" [
      .labelled "test" test.outline,
      .labelled "body" body.outline]) span
  | .forLoop init test step body span =>
    nodeOutline "Stmt" (.record "For" [
      .labelled "init" init.outline,
      .labelled "test" test.outline,
      .labelled "step" step.outline,
      .labelled "body" body.outline]) span
  | .giveBack value span => nodeOutline "Stmt" (.apply "Return" [value.outline]) span
  | .breakLoop span => nodeOutline "Stmt" (.leaf "Break") span
  | .continueLoop span => nodeOutline "Stmt" (.leaf "Continue") span
  | .pass span => nodeOutline "Stmt" (.leaf "Pass") span
  | .procedure id name params returnType body span =>
    nodeOutline "Stmt" (.apply "FunctionDef" [.record "FunctionDef" [
      .labelled "id" id.outline,
      .labelled "name" (.quoted name),
      .labelled "params" (.list (params.map Param.outline)),
      .labelled "return_type" (.optional (returnType.map DataType.outline)),
      .labelled "body" (.list (Stmt.outlines body))]]) span

/-- The outlines of statements. -/
def Stmt.outlines : List Stmt → List Outline
  | [] => []
  | s :: ss => s.outline :: Stmt.outlines ss

/-- The outline of a statement that may be absent. -/
def Stmt.outline? : Option Stmt → Option Outline
  | none => none
  | some s => some s.outline

end

/-- The outline of a module. -/
def Module.outline (m : Module) : Outline :=
  .record "Module" [.labelled "body" (.list (Stmt.outlines m.body))]

end Imperative
