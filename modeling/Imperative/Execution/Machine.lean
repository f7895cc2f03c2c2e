import Imperative.Event
import Imperative.Execution.Error
import Imperative.Execution.Procedure

/-!
# The machine

Execution is a machine that makes one small step after another.  A state of the machine
is a *control*, which says what is being done, and the call stack.  The control carries
the rest of the work as a *continuation*, so nested calls of the program use no stack of
whatever runs the machine, and a run can be as deep as the call stack allows.

## Two kinds of continuations

Expressions give values and statements give flows, so there are two kinds of
continuations: those that wait for a value (`ValueCont`) and those that wait for a flow
(`FlowCont`).  They are two types, each mentioning the other, and so a state in which a
continuation gets what it cannot use cannot be written down.  Every state makes a step or
halts; none is stuck.

## Loops

The three loops of the language are one `Loop` that is entered at different points: before
the test, before the body, or behind the first part of its head.  What a step or a first
part gives is not looked at, only that it ended.

## Calls

The arguments of a call are evaluated one after the other into the record of the call,
while the caller's record is still on top of the stack.  Only then is the record pushed,
which fails when the stack is full, and the body run.
-/

namespace Imperative

/-- How a statement hands control back. -/
inductive Flow where
  | completed
  | returned (value : Value)
  | broke
  | continued

/-- A loop: what is tested before a round, what a round does, and what follows a round. -/
structure Loop where
  test : Expr
  body : Stmt
  step : Option Stmt

/-- A call that is going on: the procedure as the caller sees it, what it does, and where
it was called. -/
structure Invocation where
  symbol : ProcedureSymbol
  body : List Stmt
  site : Span

mutual

/-- What is to be done with a value. -/
inductive ValueCont where
  /-- Nothing is left to do. -/
  | done
  /-- Bind it to a name. -/
  | assign (name : String) (site : Span) (next : FlowCont)
  /-- Forget it: a call stands as a statement. -/
  | discard (next : FlowCont)
  /-- Choose a branch by it. -/
  | choose (body : Stmt) (otherwise : Option Stmt) (next : FlowCont)
  /-- Make another round of a loop, or leave the loop. -/
  | test (loop : Loop) (next : FlowCont)
  /-- Return it. -/
  | giveBack (site : Span) (next : FlowCont)
  /-- Apply a sign to it. -/
  | unary (op : UnaryOp) (site : Span) (next : ValueCont)
  /-- Keep it as the left operand and evaluate the right one. -/
  | leftOperand (op : BinaryOp) (rhs : Expr) (site : Span) (next : ValueCont)
  /-- Take it as the right operand. -/
  | rightOperand (op : BinaryOp) (lhs : Value) (site : Span) (next : ValueCont)
  /-- Bind it to a parameter, and go on with the arguments that are left. -/
  | argument (invocation : Invocation) (record : Record) (param : String)
      (pending : List (String × Expr)) (next : ValueCont)

/-- What is to be done with a flow. -/
inductive FlowCont where
  /-- Nothing is left to do. -/
  | done
  /-- Go on with the rest of a list of statements, unless control was handed back early. -/
  | sequence (rest : List Stmt) (next : FlowCont)
  /-- Go on behind the body of a loop. -/
  | round (loop : Loop) (next : FlowCont)
  /-- Go on with the test of a loop. -/
  | again (loop : Loop) (next : FlowCont)
  /-- Go on behind the body of a procedure. -/
  | invoked (invocation : Invocation) (next : ValueCont)

end

/-- What the machine is doing, and what is left to do. -/
inductive Control where
  | eval (expr : Expr) (next : ValueCont)
  | exec (stmt : Stmt) (next : FlowCont)
  | value (value : Value) (next : ValueCont)
  | flow (flow : Flow) (next : FlowCont)

/-- A state of the machine. -/
structure MachineState where
  control : Control
  stack : CallStack

/-- How a run of the machine ends. -/
inductive Outcome where
  | value (value : Value)
  | flow (flow : Flow)
  | failure (error : RuntimeError)

/-- One step of the machine: what happened, and the next state or the end.  The stack at
the end is the one at the moment of halting; a failure does not unwind it. -/
inductive Transition where
  | next (events : List Event) (state : MachineState)
  | halt (events : List Event) (outcome : Outcome) (stack : CallStack)

namespace Machine

/-- Goes on, without anything for the log. -/
def go (control : Control) (stack : CallStack) : Transition :=
  .next [] ⟨control, stack⟩

/-- Halts with a failure. -/
def fail (cause : RuntimeCause) (site : Span) (stack : CallStack) : Transition :=
  .halt [] (.failure ⟨cause, site⟩) stack

/-- The cause of a failure of an operator. -/
def operatorCause (operator : String) : ValueError → RuntimeCause
  | .divisionByZero => .divisionByZero
  | .overflow => .integerOverflow operator
  | .missing => .missingValue operator

/-- Goes on with the result of an operator, or halts with its failure. -/
def operate (result : Except ValueError Value) (operator : String) (site : Span)
    (next : ValueCont) (stack : CallStack) : Transition :=
  match result with
  | .ok v => go (.value v next) stack
  | .error e => fail (operatorCause operator e) site stack

/-- Changes the innermost record and hands back a flow. -/
def update (change : Record → Record) (flow : Flow) (site : Span) (next : FlowCont)
    (stack : CallStack) : Transition :=
  match stack.modifyTop? change with
  | some stack => go (.flow flow next) stack
  | none => fail .emptyCallStack site stack

/-- Reads a name in the innermost record. -/
def readName (name : String) (site : Span) (next : ValueCont) (stack : CallStack) :
    Transition :=
  match stack.top? with
  | none => fail .emptyCallStack site stack
  | some record =>
    match record.get? name with
    | some v => go (.value v next) stack
    | none => fail (.unboundName name record.name) site stack

/-- Pushes the finished record of a call and enters the body of the procedure. -/
def enterBody (invocation : Invocation) (record : Record) (next : ValueCont)
    (stack : CallStack) : Transition :=
  let called := Event.call record.name (stack.depth + 1)
  match stack.push? record with
  | none =>
    .halt [called, .stackFull record.name stack.limit]
      (.failure ⟨.stackExhausted record.name stack.limit, invocation.site⟩) stack
  | some pushed =>
    .next [called, .push record.name record.level pushed.depth, .stack pushed]
      ⟨.flow .completed (.sequence invocation.body (.invoked invocation next)), pushed⟩

/-- Evaluates the next argument of a call, or enters the body when none is left. -/
def supply (invocation : Invocation) (record : Record) (pending : List (String × Expr))
    (next : ValueCont) (stack : CallStack) : Transition :=
  match pending with
  | (param, arg) :: rest => go (.eval arg (.argument invocation record param rest next)) stack
  | [] => enterBody invocation record next stack

/-- Begins a call: finds the procedure and starts with its arguments. -/
def beginCall (table : ProcedureTable) (name : String) (args : List Expr)
    (resolved : Option ProcedureSymbol) (site : Span) (next : ValueCont) (stack : CallStack) :
    Transition :=
  match resolved with
  | none => fail (.unresolvedCall name) site stack
  | some symbol =>
    match table.find? symbol.id with
    | none => fail (.unresolvedCall name) site stack
    | some procedure =>
      supply ⟨symbol, procedure.body, site⟩
        { name := symbol.name, kind := .procedure, level := symbol.level + 1 }
        ((symbol.params.map VariableSymbol.name).zip args) next stack

/-- Takes the innermost record off, with the event for it. -/
def dropRecord (stack : CallStack) : List Event × CallStack :=
  match stack.pop? with
  | none => ([], stack)
  | some (record, rest) => ([.pop record.name rest.depth], rest)

/-- Ends a call: the record goes, and what the body did must fit the return type. -/
def endCall (invocation : Invocation) (flow : Flow) (next : ValueCont) (stack : CallStack) :
    Transition :=
  let (events, stack) := dropRecord stack
  match flow, invocation.symbol.returnType with
  | .returned v, some _ => .next events ⟨.value v next, stack⟩
  | .returned _, none =>
    .halt events (.failure ⟨.unexpectedReturn invocation.symbol.name, invocation.site⟩) stack
  | _, some _ =>
    .halt events (.failure ⟨.missingReturn invocation.symbol.name, invocation.site⟩) stack
  | _, none => .next events ⟨.value .none next, stack⟩

/-- Starts to evaluate an expression. -/
def stepEval (table : ProcedureTable) (next : ValueCont) (stack : CallStack) :
    Expr → Transition
  | .number n _ => go (.value (.int n) next) stack
  | .var name site => readName name site next stack
  | .unary op operand site => go (.eval operand (.unary op site next)) stack
  | .binary op lhs rhs site => go (.eval lhs (.leftOperand op rhs site next)) stack
  | .call name args resolved site => beginCall table name args resolved site next stack

/-- Starts to execute a statement. -/
def stepExec (table : ProcedureTable) (next : FlowCont) (stack : CallStack) :
    Stmt → Transition
  | .compound body _ => go (.flow .completed (.sequence body next)) stack
  | .declaration name type site => update (·.set name (.zero type)) .completed site next stack
  | .assign name value site => go (.eval value (.assign name site next)) stack
  | .call name args resolved site =>
    beginCall table name args resolved site (.discard next) stack
  | .conditional test body otherwise _ =>
    go (.eval test (.choose body otherwise next)) stack
  | .whileLoop test body _ => go (.eval test (.test ⟨test, body, none⟩ next)) stack
  | .doWhile test body _ => go (.exec body (.round ⟨test, body, none⟩ next)) stack
  | .forLoop init test step body _ =>
    go (.exec init (.again ⟨test, body, some step⟩ next)) stack
  | .giveBack value site => go (.eval value (.giveBack site next)) stack
  | .breakLoop _ => go (.flow .broke next) stack
  | .continueLoop _ => go (.flow .continued next) stack
  | .pass _ | .procedure .. => go (.flow .completed next) stack

/-- Hands a value to what waits for it. -/
def stepValue (v : Value) (stack : CallStack) : ValueCont → Transition
  | .done => .halt [] (.value v) stack
  | .assign name site next => update (·.set name v) .completed site next stack
  | .discard next => go (.flow .completed next) stack
  | .choose body otherwise next =>
    if v.isTruthy then go (.exec body next) stack
    else
      match otherwise with
      | some stmt => go (.exec stmt next) stack
      | none => go (.flow .completed next) stack
  | .test loop next =>
    if v.isTruthy then go (.exec loop.body (.round loop next)) stack
    else go (.flow .completed next) stack
  | .giveBack site next =>
    update (fun r => { r with returned := some v }) (.returned v) site next stack
  | .unary op site next => operate (Value.unary op v) op.text site next stack
  | .leftOperand op rhs site next => go (.eval rhs (.rightOperand op v site next)) stack
  | .rightOperand op lhs site next => operate (Value.binary op lhs v) op.text site next stack
  | .argument invocation record param pending next =>
    supply invocation (record.set param v) pending next stack

/-- Hands a flow to what waits for it. -/
def stepFlow (f : Flow) (stack : CallStack) : FlowCont → Transition
  | .done => .halt [] (.flow f) stack
  | .sequence rest next =>
    match f, rest with
    | .completed, stmt :: rest => go (.exec stmt (.sequence rest next)) stack
    | f, _ => go (.flow f next) stack
  | .round loop next =>
    match f with
    | .broke => go (.flow .completed next) stack
    | .returned v => go (.flow (.returned v) next) stack
    | .completed | .continued =>
      match loop.step with
      | some stmt => go (.exec stmt (.again loop next)) stack
      | none => go (.eval loop.test (.test loop next)) stack
  | .again loop next => go (.eval loop.test (.test loop next)) stack
  | .invoked invocation next => endCall invocation f next stack

/-- One step of the machine. -/
def step (table : ProcedureTable) (s : MachineState) : Transition :=
  match s.control with
  | .eval expr next => stepEval table next s.stack expr
  | .exec stmt next => stepExec table next s.stack stmt
  | .value v next => stepValue v s.stack next
  | .flow f next => stepFlow f s.stack next

/-- Runs the machine until it halts, for at most `fuel` steps; without an end by then there
is no result.  An observer sees every event in the order in which they happen. -/
def run {σ : Type} (observe : σ → Event → σ) (table : ProcedureTable) :
    Nat → σ → MachineState → Option (σ × Outcome × CallStack)
  | 0, _, _ => none
  | fuel + 1, seen, s =>
    match step table s with
    | .next events s => run observe table fuel (events.foldl observe seen) s
    | .halt events outcome stack => some (events.foldl observe seen, outcome, stack)

/-- A run that has come to its end comes to the same end with more fuel. -/
theorem run_of_le {σ : Type} {observe : σ → Event → σ} {table : ProcedureTable} {m n : Nat}
    (h : m ≤ n) {seen : σ} {s : MachineState} {r : σ × Outcome × CallStack}
    (hr : run observe table m seen s = some r) : run observe table n seen s = some r := by
  induction m generalizing n seen s with
  | zero => cases hr
  | succ m ih =>
    obtain ⟨n, rfl⟩ : ∃ k, n = k + 1 := ⟨n - 1, by omega⟩
    unfold run at hr ⊢
    split at hr
    · exact ih (by omega) hr
    · exact hr

end Machine

end Imperative
