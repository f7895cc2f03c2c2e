import Imperative.Execution.Machine

/-!
# What a step does to the stack

A step of the machine looks at its control first, and then does one of seven things to the
call stack, most often nothing.  `Control.action` says which one, without a stack at hand, and
`Action.perform` carries it out; `Machine.step_eq_perform` says that a step is just that.

The control decides what is done, and the stack decides how it ends.  So whatever is to be
proved about controls is proved of `action`, by cases on what the machine is doing, and
whatever is to be proved about the stack is proved of `perform`, by cases on seven actions.

## Calls that are going on

Each call that is going on has left one `invoked` in the continuation (`Control.calls`), and
entering and leaving a body are the only actions that change their number
(`Control.action_during`).
-/

namespace Imperative

/-- What a step does to the stack. -/
inductive Action where
  /-- Go on, and leave the stack alone. -/
  | go (control : Control)
  /-- Stop, and leave the stack alone. -/
  | halt (outcome : Outcome)
  /-- Read a name in the innermost record. -/
  | read (name : String) (site : Span) (next : ValueCont)
  /-- Bind a name in the innermost record. -/
  | bind (name : String) (value : Value) (site : Span) (next : FlowCont)
  /-- Put a value into the return slot of the innermost record. -/
  | giveBack (value : Value) (site : Span) (next : FlowCont)
  /-- Push the record of a call and enter the body. -/
  | enter (invocation : Invocation) (record : Record) (next : ValueCont)
  /-- Take the record of a call off, behind its body. -/
  | leave (invocation : Invocation) (flow : Flow) (next : ValueCont)

namespace Action

/-- Stop with a failure. -/
def fail (cause : RuntimeCause) (site : Span) : Action :=
  .halt (.failure ⟨cause, site⟩)

/-- Go on with the result of an operator, or stop with its failure. -/
def operate (result : Except ValueError Value) (operator : String) (site : Span)
    (next : ValueCont) : Action :=
  match result with
  | .ok v => .go (.value v next)
  | .error e => .fail (Machine.operatorCause operator e) site

/-- Go on with the next argument of a call, or enter the body when none is left. -/
def supply (invocation : Invocation) (record : Record) (pending : List (String × Expr))
    (next : ValueCont) : Action :=
  match pending with
  | (param, arg) :: rest => .go (.eval arg (.argument invocation record param rest next))
  | [] => .enter invocation record next

/-- Begin a call. -/
def beginCall (table : ProcedureTable) (name : String) (args : List Expr)
    (resolved : Option ProcedureSymbol) (site : Span) (next : ValueCont) : Action :=
  match resolved with
  | none => .fail (.unresolvedCall name) site
  | some symbol =>
    match table.find? symbol.id with
    | none => .fail (.unresolvedCall name) site
    | some procedure =>
      .supply ⟨symbol, procedure.body, site⟩
        { name := symbol.name, kind := .procedure, level := symbol.level + 1 }
        ((symbol.params.map VariableSymbol.name).zip args) next

/-- The step that does this to a stack. -/
def perform (stack : CallStack) : Action → Transition
  | go control => Machine.go control stack
  | halt outcome => .halt [] outcome stack
  | read name site next => Machine.readName name site next stack
  | bind name v site next => Machine.update (·.set name v) .completed site next stack
  | giveBack v site next =>
    Machine.update (fun r => { r with returned := some v }) (.returned v) site next stack
  | enter invocation record next => Machine.enterBody invocation record next stack
  | leave invocation flow next => Machine.endCall invocation flow next stack

end Action

/-- What is done when the expression is to be evaluated. -/
def Expr.action (table : ProcedureTable) (next : ValueCont) : Expr → Action
  | .number n _ => .go (.value (.int n) next)
  | .var name site => .read name site next
  | .unary op operand site => .go (.eval operand (.unary op site next))
  | .binary op lhs rhs site => .go (.eval lhs (.leftOperand op rhs site next))
  | .call name args resolved site => .beginCall table name args resolved site next

/-- What is done when the statement is to be executed. -/
def Stmt.action (table : ProcedureTable) (next : FlowCont) : Stmt → Action
  | .compound body _ => .go (.flow .completed (.sequence body next))
  | .declaration name type site => .bind name (.zero type) site next
  | .assign name value site => .go (.eval value (.assign name site next))
  | .call name args resolved site => .beginCall table name args resolved site (.discard next)
  | .conditional test body otherwise _ => .go (.eval test (.choose body otherwise next))
  | .whileLoop test body _ => .go (.eval test (.test ⟨test, body, none⟩ next))
  | .doWhile test body _ => .go (.exec body (.round ⟨test, body, none⟩ next))
  | .forLoop init test step body _ => .go (.exec init (.again ⟨test, body, some step⟩ next))
  | .giveBack value site => .go (.eval value (.giveBack site next))
  | .breakLoop _ => .go (.flow .broke next)
  | .continueLoop _ => .go (.flow .continued next)
  | .pass _ | .procedure .. => .go (.flow .completed next)

/-- What is done with a value. -/
def ValueCont.action (v : Value) : ValueCont → Action
  | .done => .halt (.value v)
  | .assign name site next => .bind name v site next
  | .discard next => .go (.flow .completed next)
  | .choose body otherwise next =>
    if v.isTruthy then .go (.exec body next)
    else
      match otherwise with
      | some stmt => .go (.exec stmt next)
      | none => .go (.flow .completed next)
  | .test loop next =>
    if v.isTruthy then .go (.exec loop.body (.round loop next)) else .go (.flow .completed next)
  | .giveBack site next => .giveBack v site next
  | .unary op site next => .operate (Value.unary op v) op.text site next
  | .leftOperand op rhs site next => .go (.eval rhs (.rightOperand op v site next))
  | .rightOperand op lhs site next => .operate (Value.binary op lhs v) op.text site next
  | .argument invocation record param pending next =>
    .supply invocation (record.set param v) pending next

/-- What is done with a flow. -/
def FlowCont.action (f : Flow) : FlowCont → Action
  | .done => .halt (.flow f)
  | .sequence rest next =>
    match f, rest with
    | .completed, stmt :: rest => .go (.exec stmt (.sequence rest next))
    | f, _ => .go (.flow f next)
  | .round loop next =>
    match f with
    | .broke => .go (.flow .completed next)
    | .returned v => .go (.flow (.returned v) next)
    | .completed | .continued =>
      match loop.step with
      | some stmt => .go (.exec stmt (.again loop next))
      | none => .go (.eval loop.test (.test loop next))
  | .again loop next => .go (.eval loop.test (.test loop next))
  | .invoked invocation next => .leave invocation f next

/-- What the next step does to the stack. -/
def Control.action (table : ProcedureTable) : Control → Action
  | .eval expr next => expr.action table next
  | .exec stmt next => stmt.action table next
  | .value v next => next.action v
  | .flow f next => next.action f

namespace Machine

variable {table : ProcedureTable} {stack : CallStack}

theorem operate_eq_perform (result : Except ValueError Value) (operator : String) (site : Span)
    (next : ValueCont) :
    operate result operator site next stack =
      (Action.operate result operator site next).perform stack := by
  cases result <;> rfl

theorem supply_eq_perform (invocation : Invocation) (record : Record)
    (pending : List (String × Expr)) (next : ValueCont) :
    supply invocation record pending next stack =
      (Action.supply invocation record pending next).perform stack := by
  cases pending <;> rfl

theorem beginCall_eq_perform (name : String) (args : List Expr)
    (resolved : Option ProcedureSymbol) (site : Span) (next : ValueCont) :
    beginCall table name args resolved site next stack =
      (Action.beginCall table name args resolved site next).perform stack := by
  cases resolved with
  | none => rfl
  | some symbol =>
    simp only [beginCall, Action.beginCall]
    cases table.find? symbol.id with
    | none => rfl
    | some procedure => exact supply_eq_perform ..

theorem stepValue_eq_perform (v : Value) (k : ValueCont) :
    stepValue v stack k = (k.action v).perform stack := by
  cases k with
  | choose body otherwise next =>
    cases otherwise <;> rw [stepValue, ValueCont.action] <;> split <;> rfl
  | test loop next =>
    rw [stepValue, ValueCont.action]
    split <;> rfl
  | unary => exact operate_eq_perform ..
  | rightOperand => exact operate_eq_perform ..
  | argument => exact supply_eq_perform ..
  | _ => rfl

theorem stepFlow_eq_perform (f : Flow) (k : FlowCont) :
    stepFlow f stack k = (k.action f).perform stack := by
  cases k with
  | sequence rest next => cases f <;> cases rest <;> rfl
  | round loop next =>
    obtain ⟨test, body, step⟩ := loop
    cases f <;> cases step <;> rfl
  | _ => rfl

/-- A step is what its control says, done to its stack. -/
theorem step_eq_perform (table : ProcedureTable) (s : MachineState) :
    step table s = (s.control.action table).perform s.stack := by
  obtain ⟨control, stack⟩ := s
  cases control with
  | eval e k =>
    cases e with
    | call => exact beginCall_eq_perform ..
    | _ => rfl
  | exec stmt k =>
    cases stmt with
    | call => exact beginCall_eq_perform ..
    | _ => rfl
  | value v k => exact stepValue_eq_perform v k
  | flow f k => exact stepFlow_eq_perform f k

/-- The end of a call takes the record off, and then goes on with a value or fails, which is not
a matter of the stack. -/
theorem endCall_cases (invocation : Invocation) (f : Flow) (next : ValueCont) :
    (∃ v, ∀ stack, endCall invocation f next stack =
        .next (dropRecord stack).1 ⟨.value v next, (dropRecord stack).2⟩)
      ∨ ∃ e, ∀ stack, endCall invocation f next stack =
        .halt (dropRecord stack).1 (.failure e) (dropRecord stack).2 := by
  cases h : invocation.symbol.returnType with
  | none =>
    cases f with
    | returned v => exact .inr ⟨_, fun stack => by rw [endCall, h]⟩
    | completed | broke | continued => exact .inl ⟨.none, fun stack => by rw [endCall, h]⟩
  | some type =>
    cases f with
    | returned v => exact .inl ⟨v, fun stack => by rw [endCall, h]⟩
    | completed | broke | continued => exact .inr ⟨_, fun stack => by rw [endCall, h]⟩

end Machine

/-! ## The limit -/

/-- The stack behind a step. -/
def Transition.stack : Transition → CallStack
  | .next _ s => s.stack
  | .halt _ _ stack => stack

theorem Action.limit_perform (a : Action) (stack : CallStack) :
    (a.perform stack).stack.limit = stack.limit := by
  cases a with
  | go control => rfl
  | halt outcome => rfl
  | read name site next =>
    rw [perform, Machine.readName]
    split
    · rfl
    · split <;> rfl
  | bind name v site next =>
    rw [perform, Machine.update]
    split
    · next h => exact CallStack.limit_of_modifyTop? h
    · rfl
  | giveBack v site next =>
    rw [perform, Machine.update]
    split
    · next h => exact CallStack.limit_of_modifyTop? h
    · rfl
  | enter invocation record next =>
    rw [perform, Machine.enterBody]
    cases h : stack.push? record with
    | none => rfl
    | some pushed => exact (CallStack.records_of_push? h).2
  | leave invocation f next =>
    have hdrop : (Machine.dropRecord stack).2.limit = stack.limit := by
      rw [Machine.dropRecord]
      split
      · rfl
      · next h => exact CallStack.limit_of_pop? h
    rw [perform]
    rcases Machine.endCall_cases invocation f next with ⟨v, hend⟩ | ⟨e, hend⟩
    · rw [hend]
      exact hdrop
    · rw [hend]
      exact hdrop

/-- No step changes how many records the stack takes. -/
theorem Machine.limit_step (table : ProcedureTable) (s : MachineState) :
    (step table s).stack.limit = s.stack.limit := by
  rw [step_eq_perform, Action.limit_perform]

/-! ## Calls that are going on -/

mutual

/-- How many calls are going on until the end of the continuation. -/
def ValueCont.calls : ValueCont → Nat
  | .done => 0
  | .assign _ _ next | .discard next | .choose _ _ next | .test _ next | .giveBack _ next =>
    next.calls
  | .unary _ _ next | .leftOperand _ _ _ next | .rightOperand _ _ _ next
  | .argument _ _ _ _ next => next.calls

/-- How many calls are going on until the end of the continuation. -/
def FlowCont.calls : FlowCont → Nat
  | .done => 0
  | .sequence _ next | .round _ next | .again _ next => next.calls
  | .invoked _ next => next.calls + 1

end

/-- How many calls are going on. -/
def Control.calls : Control → Nat
  | .eval _ next | .value _ next => next.calls
  | .exec _ next | .flow _ next => next.calls

/-- The action is taken while `n` calls are going on.  A value or a flow is handed to nobody
only when there are none; a failure stops the machine wherever it happens. -/
def Action.During (n : Nat) : Action → Prop
  | .go control => control.calls = n
  | .halt (.failure _) => True
  | .halt (.value _) | .halt (.flow _) => n = 0
  | .read _ _ next => next.calls = n
  | .bind _ _ _ next | .giveBack _ _ next => next.calls = n
  | .enter _ _ next => next.calls = n
  | .leave _ _ next => next.calls + 1 = n

namespace Action

theorem operate_during (result : Except ValueError Value) (operator : String) (site : Span)
    (next : ValueCont) : (operate result operator site next).During next.calls := by
  cases result with
  | ok v => exact rfl
  | error e => trivial

theorem supply_during (invocation : Invocation) (record : Record)
    (pending : List (String × Expr)) (next : ValueCont) :
    (supply invocation record pending next).During next.calls := by
  cases pending <;> exact rfl

theorem beginCall_during (table : ProcedureTable) (name : String) (args : List Expr)
    (resolved : Option ProcedureSymbol) (site : Span) (next : ValueCont) :
    (beginCall table name args resolved site next).During next.calls := by
  cases resolved with
  | none => trivial
  | some symbol =>
    simp only [beginCall]
    cases table.find? symbol.id with
    | none => trivial
    | some procedure => exact supply_during ..

end Action

theorem ValueCont.action_during (v : Value) (k : ValueCont) : (k.action v).During k.calls := by
  cases k with
  | choose body otherwise next =>
    cases otherwise <;> rw [ValueCont.action] <;> split <;> exact rfl
  | test loop next =>
    rw [ValueCont.action]
    split <;> exact rfl
  | unary => exact Action.operate_during ..
  | rightOperand => exact Action.operate_during ..
  | argument => exact Action.supply_during ..
  | _ => exact rfl

theorem FlowCont.action_during (f : Flow) (k : FlowCont) : (k.action f).During k.calls := by
  cases k with
  | sequence rest next => cases f <;> cases rest <;> exact rfl
  | round loop next =>
    obtain ⟨test, body, step⟩ := loop
    cases f <;> cases step <;> exact rfl
  | _ => exact rfl

/-- Only entering and leaving a body change how many calls are going on. -/
theorem Control.action_during (table : ProcedureTable) (c : Control) :
    (c.action table).During c.calls := by
  cases c with
  | eval e k =>
    cases e with
    | call => exact Action.beginCall_during ..
    | _ => exact rfl
  | exec s k =>
    cases s with
    | call => exact Action.beginCall_during ..
    | _ => exact rfl
  | value v k => exact k.action_during v
  | flow f k => exact k.action_during f

end Imperative
