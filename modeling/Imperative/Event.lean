import Imperative.CallStack
import Imperative.Symbol

/-!
# Events

What analysis and execution do to scopes and to the call stack, as a log records it.  An
event holds what happened; its severity, its message and its fields are derived from that,
so nothing is put into words unless somebody reads the log.
-/

namespace Imperative

/-- How much detail a reader of the log must ask for to see an event. -/
inductive Severity where
  | debug | trace
  deriving DecidableEq, Repr

/-- The severity as it is printed. -/
def Severity.text : Severity → String
  | debug => "DEBUG"
  | trace => "TRACE"

/-- Something that happened during analysis or execution. -/
inductive Event where
  /-- A scope took a symbol in. -/
  | define (scope : String) (symbol : Symbol)
  | enterScope (scope : String) (level : Nat)
  | leaveScope (scope : String) (level : Nat)
  /-- A name was looked up, in the current scope only or in all enclosing ones too. -/
  | lookup (name : String) (currentOnly : Bool)
  /-- A procedure is about to be called, at the given depth. -/
  | call (procedure : String) (depth : Nat)
  /-- The stack refused a record. -/
  | stackFull (record : String) (limit : Nat)
  /-- The stack took a record and is now `depth` records deep. -/
  | push (record : String) (level depth : Nat)
  /-- A record was taken off the stack, which is now `depth` records deep. -/
  | pop (record : String) (depth : Nat)
  /-- The whole stack, after a call was pushed. -/
  | stack (stack : CallStack)
  | finished (bindings : Nat)

namespace Event

/-- The severity of an event. -/
def severity : Event → Severity
  | enterScope .. | leaveScope .. | call .. | stackFull .. | finished .. => .debug
  | define .. | lookup .. | push .. | pop .. | stack .. => .trace

/-- The message of an event. -/
def message : Event → String
  | define _ symbol => "define " ++ symbol.display
  | enterScope .. => "enter scope"
  | leaveScope .. => "leave scope"
  | lookup .. => "lookup"
  | call .. => "call"
  | stackFull .. => "call stack full"
  | push .. => "push activation record"
  | pop .. => "pop activation record"
  | stack s => s.display
  | finished .. => "program finished"

/-- The fields of an event beside its message, every value as text. -/
def fields : Event → List (String × String)
  | define scope _ => [("scope", scope)]
  | enterScope scope level | leaveScope scope level =>
    [("scope", scope), ("level", toString level)]
  | lookup name currentOnly =>
    [("symbol", name), ("current_scope_only", if currentOnly then "true" else "false")]
  | call procedure depth => [("procedure", procedure), ("depth", toString depth)]
  | stackFull record limit => [("record", record), ("max_depth", toString limit)]
  | push record level depth =>
    [("record", record), ("level", toString level), ("depth", toString depth)]
  | pop record depth => [("record", record), ("depth", toString depth)]
  | stack _ => []
  | finished bindings => [("bindings", toString bindings)]

end Event

end Imperative
