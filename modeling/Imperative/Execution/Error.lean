import Imperative.Diagnostic

/-!
# Why a run stops early

A failure of a run is a cause together with the span of the place it is charged to: the
expression for an operator, the call for everything about a procedure.
-/

namespace Imperative

/-- What went wrong. -/
inductive RuntimeCause where
  /-- A procedure without a return type returned a value. -/
  | unexpectedReturn (name : String)
  /-- A procedure with a return type ended without returning. -/
  | missingReturn (name : String)
  /-- The call stack had no room for the record of the called procedure. -/
  | stackExhausted (name : String) (limit : Nat)
  | divisionByZero
  | integerOverflow (operator : String)
  /-- An operand has no value. -/
  | missingValue (operator : String)
  /-- A name has no binding in the innermost record. -/
  | unboundName (name record : String)
  /-- A call that analysis has not marked, or marked with an unknown procedure. -/
  | unresolvedCall (name : String)
  | emptyCallStack
  deriving DecidableEq, Repr

/-- A cause and the place it is charged to. -/
structure RuntimeError where
  cause : RuntimeCause
  span : Span
  deriving DecidableEq, Repr

namespace RuntimeCause

/-- The code of a cause. -/
def code : RuntimeCause → String
  | unexpectedReturn _ => "runtime::unexpected_return"
  | missingReturn _ => "runtime::missing_return"
  | stackExhausted .. => "runtime::stack_exhausted"
  | divisionByZero => "runtime::division_by_zero"
  | integerOverflow _ => "runtime::integer_overflow"
  | missingValue _ => "runtime::missing_value"
  | unboundName .. => "runtime::unbound_name"
  | unresolvedCall _ => "runtime::unresolved_call"
  | emptyCallStack => "runtime::empty_call_stack"

/-- The message of a cause, up to the place. -/
def message : RuntimeCause → String
  | unexpectedReturn name =>
    "Procedure '" ++ name ++ "' has no return type but returned a value, called"
  | missingReturn name =>
    "Procedure '" ++ name ++ "' declares a return type but finished without returning, called"
  | stackExhausted name limit =>
    "Stack exhausted: call depth exceeded " ++ toString limit ++ " calling '" ++ name ++ "'"
  | divisionByZero => "Division by zero"
  | integerOverflow operator => "Integer overflow evaluating '" ++ operator ++ "'"
  | missingValue operator => "Operand of '" ++ operator ++ "' has no value"
  | unboundName name record =>
    "'" ++ name ++ "' has no binding in activation record '" ++ record ++ "'"
  | unresolvedCall name => "Call to '" ++ name ++ "' was never resolved"
  | emptyCallStack => "No activation record is active"

/-- The text of the label of a cause. -/
def labelText? : RuntimeCause → Option String
  | unexpectedReturn _ | missingReturn _ => some "called here"
  | _ => none

/-- The advice that goes with a cause. -/
def help? : RuntimeCause → Option String
  | stackExhausted .. => some "raise the limit with --max-depth if the recursion is intended"
  | unresolvedCall _ => some "run semantic analysis before interpreting"
  | _ => none

end RuntimeCause

/-- How a failure of a run is reported. -/
def RuntimeError.diagnostic (e : RuntimeError) : Diagnostic where
  code := e.cause.code
  message := e.cause.message ++ " at " ++ e.span.place
  label := e.span.label e.cause.labelText?
  help := e.cause.help?

end Imperative
