import Imperative.Analysis
import Imperative.Execution.Interpreter
import Imperative.Parsing.Statement

/-!
# From text to result

The stages in a row: a text is parsed, the module is analysed, and the analysed module is
run.  The first stage that fails decides the failure.
-/

namespace Imperative

/-- A failure of any stage. -/
inductive Failure where
  | lexical (fault : Fault)
  | parse (error : ParseError)
  | analysis (error : AnalysisError)
  | runtime (error : RuntimeError)
  deriving DecidableEq, Repr

/-- How a failure is reported. -/
def Failure.diagnostic : Failure → Diagnostic
  | lexical e => e.diagnostic
  | parse e => e.diagnostic
  | analysis e => e.diagnostic
  | runtime e => e.diagnostic

/-- The tokens of a text, or its first fault. -/
def lex (text : String) : Except Fault (List Token) :=
  (Lexer.ofString text).tokens.1

/-- Runs a text under a limit on the call stack, for at most `fuel` steps of execution.  An
observer sees the events of analysis and of execution, and its last word comes with the
result. -/
def execute {σ : Type} (observe : σ → Event → σ) (seen : σ) (fuel limit : Nat)
    (text : String) : Option (σ × Except Failure Record) :=
  match Module.parse text with
  | .error e => some (seen, .error (.parse e))
  | .ok module =>
    let analysis := module.analyze
    let seen := analysis.events.foldl observe seen
    match analysis.verdict with
    | .error e => some (seen, .error (.analysis e))
    | .ok () =>
      match (Interpreter.new limit).interpret observe seen fuel analysis.module with
      | none => none
      | some run => some (run.seen, run.result.mapError .runtime)

/-- Runs a text, and gives the record of the program at its end. -/
def run (fuel limit : Nat) (text : String) : Option (Except Failure Record) :=
  (execute (fun _ _ => ()) () fuel limit text).map (·.2)

/-- Runs a text, and gives the events as well, in the order in which they happened. -/
def trace (fuel limit : Nat) (text : String) : Option (List Event × Except Failure Record) :=
  (execute (fun log event => event :: log) [] fuel limit text).map fun (log, result) =>
    (log.reverse, result)

end Imperative
