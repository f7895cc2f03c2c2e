import Imperative.Execution.Machine

/-!
# Interpreters

An *interpreter* runs modules, one after the other, on one call stack.  It empties the
stack and gathers the procedures of the module first, and it leaves the stack empty when
it is done, after a failure too, so a run depends on nothing that happened before it.

The program itself has a record, which counts like any other: with a limit of 0 no program
runs.  A run that succeeds gives this record back.
-/

namespace Imperative

/-- How many records the call stack takes unless somebody says otherwise. -/
def defaultLimit : Nat := 256

/-- A call stack and the procedures of the module that was run last. -/
structure Interpreter where
  stack : CallStack
  table : ProcedureTable := {}

/-- A finished run: its result, what the observer has seen, and the interpreter as it is
afterwards. -/
structure Run (σ : Type) where
  result : Except RuntimeError Record
  seen : σ
  interpreter : Interpreter

namespace Interpreter

/-- An interpreter that has run nothing. -/
def new (limit : Nat) : Interpreter :=
  { stack := .empty limit }

/-- The events of taking every record off a stack, innermost first. -/
def clearEvents (stack : CallStack) : List Event :=
  stack.records.mapIdx fun i record => .pop record.name (stack.depth - (i + 1))

/-- The record of a program that starts. -/
def programRecord : Record :=
  { name := "program", kind := .program, level := 1 }

/-- The place to which the start of a program is charged. -/
def programSite : Span :=
  Span.between .start .start

/-- Ends a program: its record comes off the stack and is the result, whatever the flow
with which its body ended. -/
def conclude (outcome : Outcome) (stack : CallStack) :
    Except RuntimeError Record × List Event × CallStack :=
  match outcome with
  | .failure e => (.error e, [], stack)
  | .value _ | .flow _ =>
    match stack.pop? with
    | none => (.error ⟨.emptyCallStack, programSite⟩, [], stack)
    | some (record, rest) =>
      (.ok record, [.pop record.name rest.depth, .finished record.bindings.size], rest)

/-- Runs a module for at most `fuel` steps of the machine. -/
def interpret {σ : Type} (observe : σ → Event → σ) (seen : σ) (fuel : Nat)
    (i : Interpreter) (m : Module) : Option (Run σ) :=
  let seen := (clearEvents i.stack).foldl observe seen
  let stack := i.stack.cleared
  let table := ProcedureTable.ofModule m
  match stack.push? programRecord with
  | none => some {
      result := .error ⟨.stackExhausted programRecord.name stack.limit, programSite⟩
      seen := observe seen (.stackFull programRecord.name stack.limit)
      interpreter := ⟨stack, table⟩ }
  | some pushed =>
    let seen := observe seen (.push programRecord.name programRecord.level pushed.depth)
    let start : MachineState := ⟨.flow .completed (.sequence m.body .done), pushed⟩
    match Machine.run observe table fuel seen start with
    | none => none
    | some (seen, outcome, stack) =>
      let (result, events, stack) := conclude outcome stack
      some {
        result
        seen := (events ++ clearEvents stack).foldl observe seen
        interpreter := ⟨stack.cleared, table⟩ }

end Interpreter

end Imperative
