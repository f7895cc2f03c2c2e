import Imperative.Diagnostic

/-!
# Why a program is not well formed

Analysis stops at the first place where a name or a jump does not fit.  A failure is a
cause together with the span of that place.
-/

namespace Imperative

/-- What does not fit. -/
inductive AnalysisCause where
  | identifierNotFound (name : String)
  | duplicateIdentifier (name : String)
  | wrongParameterCount (name : String) (expected got : Nat)
  | notAProcedure (name : String)
  | notAVariable (name : String)
  | breakOutsideLoop
  | continueOutsideLoop
  | returnOutsideProcedure
  deriving DecidableEq, Repr

/-- A cause and the place where it was found. -/
structure AnalysisError where
  cause : AnalysisCause
  span : Span
  deriving DecidableEq, Repr

namespace AnalysisCause

/-- The code of a cause. -/
def code : AnalysisCause → String
  | identifierNotFound _ => "sema::identifier_not_found"
  | duplicateIdentifier _ => "sema::duplicate_identifier"
  | wrongParameterCount .. => "sema::wrong_parameter_count"
  | notAProcedure _ => "sema::not_a_procedure"
  | notAVariable _ => "sema::not_a_variable"
  | breakOutsideLoop => "sema::break_outside_loop"
  | continueOutsideLoop => "sema::continue_outside_loop"
  | returnOutsideProcedure => "sema::return_outside_procedure"

/-- The message of a cause, up to the place. -/
def message : AnalysisCause → String
  | identifierNotFound name => "Identifier not found: '" ++ name ++ "'"
  | duplicateIdentifier name => "Duplicate identifier found: '" ++ name ++ "'"
  | wrongParameterCount name expected got =>
    "Wrong number of parameters: '" ++ name ++ "' takes " ++ toString expected
      ++ ", got " ++ toString got
  | notAProcedure name => "'" ++ name ++ "' is not a procedure"
  | notAVariable name => "'" ++ name ++ "' is not a variable"
  | breakOutsideLoop => "'break' outside of a loop"
  | continueOutsideLoop => "'continue' outside of a loop"
  | returnOutsideProcedure => "'return' outside of a procedure"

/-- The text of the label of a cause. -/
def labelText? : AnalysisCause → Option String
  | duplicateIdentifier _ => some "already defined in this scope"
  | _ => none

end AnalysisCause

/-- How a failure of analysis is reported. -/
def AnalysisError.diagnostic (e : AnalysisError) : Diagnostic where
  code := e.cause.code
  message := e.cause.message ++ " at " ++ e.span.place
  label := e.span.label e.cause.labelText?

end Imperative
