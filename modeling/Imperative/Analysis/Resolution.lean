import Imperative.Analysis.Error
import Imperative.Event
import Imperative.Scope
import Imperative.Tree

/-!
# Resolving names

One walk over a module finds out what every name stands for.  The module and each
procedure open a scope; compound statements open none.  A declaration, a parameter or a
procedure must be new in its scope.  A name that is read or assigned must stand for a
variable, and a called name for a procedure with as many parameters as there are
arguments.

## The order of the walk

The walk goes through a tree from left to right, with these choices: the target of an
assignment comes before its value, the callee before the arguments, the parameters of a
procedure before its body, and the test of a loop before its body wherever it is written.
A procedure is known in the scope around it once its parameters are, so its body may call
it.

## What the walk leaves behind

A call is marked with the procedure it refers to when its arguments have been walked.  The
walk stops at the first failure, but what it has marked until then stays: every visit
gives back a node, whatever its verdict, and a node that was not reached is given back
untouched (`Verdict.andThen`).
-/

namespace Imperative

/-- Names are resolved against a chain of scopes, and everything done to it is logged.
The log has the latest event first. -/
structure Resolver where
  scopes : ScopeChain := {}
  log : List Event := []

/-- A check that may fail. -/
abbrev Resolve := ExceptT AnalysisError (StateM Resolver)

/-- Whether a walk came through, or where it stopped. -/
abbrev Verdict := Except AnalysisError Unit

/-- Visits a node if all went well so far; else the node stays as it is. -/
def Verdict.andThen {α : Type} (verdict : Verdict) (node : α)
    (visit : StateM Resolver (α × Verdict)) : StateM Resolver (α × Verdict) :=
  match verdict with
  | .ok () => visit
  | .error failure => return (node, .error failure)

namespace Resolve

/-- Logs an event. -/
def note (event : Event) : StateM Resolver Unit :=
  modify fun r => { r with log := event :: r.log }

/-- Looks a name up in the current scope only, or from there outwards. -/
def lookup (name : String) (currentOnly : Bool) : StateM Resolver (Option Symbol) := do
  note (.lookup name currentOnly)
  return (← get).scopes.lookup name currentOnly

/-- Opens a scope.  It takes the built-in types in before it is entered. -/
def openScope (name : String) : StateM Resolver Unit := do
  Scope.builtins.forM fun symbol => note (.define name symbol)
  modify fun r => { r with scopes := r.scopes.push name }
  note (.enterScope name (← get).scopes.level)

/-- Leaves the current scope. -/
def closeScope : StateM Resolver Unit := do
  match (← get).scopes.pop? with
  | none => return ()
  | some (scope, rest) =>
    modify fun r => { r with scopes := rest }
    note (.leaveScope scope.name scope.level)

/-- Takes a symbol into the current scope. -/
def define (symbol : Symbol) : StateM Resolver Unit := do
  let r ← get
  match r.scopes.current?, r.scopes.define? symbol with
  | some scope, some scopes =>
    note (.define scope.name symbol)
    modify fun r => { r with scopes }
  | _, _ => return ()

/-- Takes a symbol into the scope around the current one. -/
def defineEnclosing (symbol : Symbol) : StateM Resolver Unit := do
  let r ← get
  match r.scopes.enclosing?, r.scopes.defineEnclosing? symbol with
  | some scope, some scopes =>
    note (.define scope.name symbol)
    modify fun r => { r with scopes }
  | _, _ => return ()

/-- Fails at a place. -/
def fail {α : Type} (site : Span) (cause : AnalysisCause) : Resolve α :=
  throw ⟨cause, site⟩

/-- The type that the name of a type stands for. -/
def dataType (type : DataType) (site : Span) : Resolve DataType := do
  match ← lookup type.name false with
  | some (.type found _) => return found
  | _ => fail site (.identifierNotFound type.name)

/-- Checks that a name stands for a variable. -/
def variableNamed (name : String) (site : Span) : Resolve Unit := do
  match ← lookup name false with
  | some (.var _) => return ()
  | some _ => fail site (.notAVariable name)
  | none => fail site (.identifierNotFound name)

/-- The procedure that a called name stands for, which must take `count` arguments. -/
def procedureNamed (name : String) (count : Nat) (site : Span) : Resolve ProcedureSymbol := do
  match ← lookup name false with
  | some (.procedure symbol) =>
    if symbol.params.length ≠ count then
      fail site (.wrongParameterCount name symbol.params.length count)
    return symbol
  | some _ => fail site (.notAProcedure name)
  | none => fail site (.identifierNotFound name)

/-- Checks that a name is new in the current scope. -/
def fresh (name : String) (site : Span) : Resolve Unit := do
  if (← lookup name true).isSome then fail site (.duplicateIdentifier name)

/-- Introduces a variable in the current scope. -/
def declare (name : String) (type : DataType) (site : Span) : Resolve VariableSymbol := do
  let type ← dataType type site
  fresh name site
  let symbol : VariableSymbol := { name, type, level := (← get).scopes.level }
  define (.var symbol)
  return symbol

/-- Introduces the parameters of a procedure. -/
def declareAll : List Param → Resolve (List VariableSymbol)
  | [] => return []
  | p :: rest => do
    let symbol ← declare p.name p.type p.span
    return symbol :: (← declareAll rest)

/-- Introduces a procedure and opens the scope of its body: first its name must be new,
then its parameters come in, then the procedure itself in the scope around. -/
def openProcedure (id : ProcedureId) (name : String) (params : List Param)
    (returnType : Option DataType) (site : Span) : Resolve Unit := do
  fresh name site
  openScope name
  let params ← declareAll params
  defineEnclosing (.procedure { id, name, params, returnType })

end Resolve

open Resolve

mutual

/-- Resolves the names in an expression. -/
def Expr.resolve : Expr → StateM Resolver (Expr × Verdict)
  | .number value span => return (.number value span, .ok ())
  | .var name span => do
    let verdict ← (variableNamed name span).run
    return (.var name span, verdict)
  | .unary op operand span => do
    let (operand, verdict) ← operand.resolve
    return (.unary op operand span, verdict)
  | .binary op lhs rhs span => do
    let (lhs, verdict) ← lhs.resolve
    let (rhs, verdict) ← verdict.andThen rhs rhs.resolve
    return (.binary op lhs rhs span, verdict)
  | .call name args resolved span => do
    match ← (procedureNamed name args.length span).run with
    | .error failure => return (.call name args resolved span, .error failure)
    | .ok symbol =>
      match ← Expr.resolveAll args with
      | (args, .error failure) => return (.call name args resolved span, .error failure)
      | (args, .ok ()) => return (.call name args (some symbol) span, .ok ())

/-- Resolves the names in a list of expressions. -/
def Expr.resolveAll : List Expr → StateM Resolver (List Expr × Verdict)
  | [] => return ([], .ok ())
  | e :: es => do
    let (e, verdict) ← e.resolve
    let (es, verdict) ← verdict.andThen es (Expr.resolveAll es)
    return (e :: es, verdict)

end

mutual

/-- Resolves the names in a statement. -/
def Stmt.resolve : Stmt → StateM Resolver (Stmt × Verdict)
  | .compound body span => do
    let (body, verdict) ← Stmt.resolveAll body
    return (.compound body span, verdict)
  | .declaration name type span => do
    let outcome ← (declare name type span).run
    return (.declaration name type span, outcome.map fun _ => ())
  | .assign name value span => do
    let verdict ← (variableNamed name span).run
    let (value, verdict) ← Verdict.andThen verdict value value.resolve
    return (.assign name value span, verdict)
  | .call name args resolved span => do
    match ← (procedureNamed name args.length span).run with
    | .error failure => return (.call name args resolved span, .error failure)
    | .ok symbol =>
      match ← Expr.resolveAll args with
      | (args, .error failure) => return (.call name args resolved span, .error failure)
      | (args, .ok ()) => return (.call name args (some symbol) span, .ok ())
  | .conditional test body otherwise span => do
    let (test, verdict) ← test.resolve
    let (body, verdict) ← verdict.andThen body body.resolve
    let (otherwise, verdict) ← verdict.andThen otherwise (Stmt.resolve? otherwise)
    return (.conditional test body otherwise span, verdict)
  | .whileLoop test body span => do
    let (test, verdict) ← test.resolve
    let (body, verdict) ← verdict.andThen body body.resolve
    return (.whileLoop test body span, verdict)
  | .doWhile test body span => do
    let (test, verdict) ← test.resolve
    let (body, verdict) ← verdict.andThen body body.resolve
    return (.doWhile test body span, verdict)
  | .forLoop init test step body span => do
    let (init, verdict) ← init.resolve
    let (test, verdict) ← verdict.andThen test test.resolve
    let (step, verdict) ← verdict.andThen step step.resolve
    let (body, verdict) ← verdict.andThen body body.resolve
    return (.forLoop init test step body span, verdict)
  | .giveBack value span => do
    let (value, verdict) ← value.resolve
    return (.giveBack value span, verdict)
  | .breakLoop span => return (.breakLoop span, .ok ())
  | .continueLoop span => return (.continueLoop span, .ok ())
  | .pass span => return (.pass span, .ok ())
  | .procedure id name params returnType body span => do
    let verdict ← (openProcedure id name params returnType span).run
    let (body, verdict) ← Verdict.andThen verdict body (Stmt.resolveAll body)
    match verdict with
    | .error failure =>
      return (.procedure id name params returnType body span, .error failure)
    | .ok () =>
      closeScope
      return (.procedure id name params returnType body span, .ok ())

/-- Resolves the names in a list of statements. -/
def Stmt.resolveAll : List Stmt → StateM Resolver (List Stmt × Verdict)
  | [] => return ([], .ok ())
  | s :: ss => do
    let (s, verdict) ← s.resolve
    let (ss, verdict) ← verdict.andThen ss (Stmt.resolveAll ss)
    return (s :: ss, verdict)

/-- Resolves the names in a statement that may be absent. -/
def Stmt.resolve? : Option Stmt → StateM Resolver (Option Stmt × Verdict)
  | none => return (none, .ok ())
  | some s => do
    let (s, verdict) ← s.resolve
    return (some s, verdict)

end

/-- Resolves the names in a module, from an empty chain of scopes whatever the resolver has
done before.  The module comes back with its calls marked as far as the walk came. -/
def Resolver.resolve (r : Resolver) (m : Module) : (Module × Verdict) × Resolver :=
  let walk : StateM Resolver (Module × Verdict) := do
    openScope "global"
    let (body, verdict) ← Stmt.resolveAll m.body
    match verdict with
    | .error failure => return (⟨body⟩, .error failure)
    | .ok () =>
      closeScope
      return (⟨body⟩, .ok ())
  walk.run { r with scopes := {} }

end Imperative
