import Imperative.Span
import Imperative.Symbol

/-!
# Trees

The trees that parsing builds and execution walks.  Every node carries its span.  A call
carries the procedure it refers to once analysis has found it; parsing leaves that empty,
and nothing else in a tree ever changes after parsing.
-/

namespace Imperative

/-- The signs. -/
inductive UnaryOp where
  | plus | minus
  deriving DecidableEq, Repr, Inhabited

/-- The operators between two operands. -/
inductive BinaryOp where
  | add | sub | mul | div
  deriving DecidableEq, Repr, Inhabited

/-- The sign as it is written. -/
def UnaryOp.text : UnaryOp → String
  | plus => "+"
  | minus => "-"

/-- The operator as it is written. -/
def BinaryOp.text : BinaryOp → String
  | add => "+"
  | sub => "-"
  | mul => "*"
  | div => "/"

/-- Expressions. -/
inductive Expr where
  | number (value : Int64) (span : Span)
  | var (name : String) (span : Span)
  | unary (op : UnaryOp) (operand : Expr) (span : Span)
  | binary (op : BinaryOp) (lhs rhs : Expr) (span : Span)
  | call (name : String) (args : List Expr) (resolved : Option ProcedureSymbol) (span : Span)
  deriving Repr, Inhabited

/-- The span of an expression.  Parentheses around an expression are not part of it. -/
def Expr.span : Expr → Span
  | number _ s | var _ s | unary _ _ s | binary _ _ _ s | call _ _ _ s => s

/-- A formal parameter. -/
structure Param where
  name : String
  type : DataType
  span : Span
  deriving DecidableEq, Repr

/-- Statements. -/
inductive Stmt where
  | compound (body : List Stmt) (span : Span)
  | declaration (name : String) (type : DataType) (span : Span)
  | assign (name : String) (value : Expr) (span : Span)
  | call (name : String) (args : List Expr) (resolved : Option ProcedureSymbol) (span : Span)
  | conditional (test : Expr) (body : Stmt) (otherwise : Option Stmt) (span : Span)
  | whileLoop (test : Expr) (body : Stmt) (span : Span)
  | doWhile (test : Expr) (body : Stmt) (span : Span)
  | forLoop (init : Stmt) (test : Expr) (step body : Stmt) (span : Span)
  | giveBack (value : Expr) (span : Span)
  | breakLoop (span : Span)
  | continueLoop (span : Span)
  | pass (span : Span)
  | procedure (id : ProcedureId) (name : String) (params : List Param)
      (returnType : Option DataType) (body : List Stmt) (span : Span)
  deriving Repr, Inhabited

/-- The span of a statement.  The semicolon that ends a simple statement is not part of it. -/
def Stmt.span : Stmt → Span
  | compound _ s | declaration _ _ s | assign _ _ s | call _ _ _ s | conditional _ _ _ s
  | whileLoop _ _ s | doWhile _ _ s | forLoop _ _ _ _ s | giveBack _ s | breakLoop s
  | continueLoop s | pass s | procedure _ _ _ _ _ s => s

/-- A whole program. -/
structure Module where
  body : List Stmt := []
  deriving Repr, Inhabited

/-- The module without the procedures that are defined at its top level. -/
def Module.withoutProcedures (m : Module) : Module where
  body := m.body.filter fun
    | .procedure .. => false
    | _ => true

end Imperative
