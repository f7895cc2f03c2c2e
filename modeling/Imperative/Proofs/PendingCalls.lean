import Imperative.Proofs.Actions

/-!
# The calls that are going on, one by one

`Control.calls` counts the calls that are going on.  Here they are listed, innermost first, each with
what waits for its value.  Entering and leaving a body put one on the list and take one off; no
other action changes it (`Control.action_pending`).
-/

namespace Imperative

mutual

/-- The calls that are going on until the end of the continuation, each with what waits for it. -/
def ValueCont.pending : ValueCont → List (Invocation × ValueCont)
  | .done => []
  | .assign _ _ next | .discard next | .choose _ _ next | .test _ next | .giveBack _ next =>
    next.pending
  | .unary _ _ next | .leftOperand _ _ _ next | .rightOperand _ _ _ next
  | .argument _ _ _ _ next => next.pending

/-- The calls that are going on until the end of the continuation, each with what waits for it. -/
def FlowCont.pending : FlowCont → List (Invocation × ValueCont)
  | .done => []
  | .sequence _ next | .round _ next | .again _ next => next.pending
  | .invoked invocation next => (invocation, next) :: next.pending

end

/-- The calls that are going on, each with what waits for it. -/
def Control.pending : Control → List (Invocation × ValueCont)
  | .eval _ next | .value _ next => next.pending
  | .exec _ next | .flow _ next => next.pending

/-- The calls that are going on, innermost first. -/
def Control.invocations (c : Control) : List Invocation :=
  c.pending.map Prod.fst

/-- The action is taken while the given calls are going on.  Where it halts does not matter. -/
def Action.Pending (calls : List (Invocation × ValueCont)) : Action → Prop
  | .go control => control.pending = calls
  | .halt _ => True
  | .read _ _ next | .enter _ _ next => next.pending = calls
  | .bind _ _ _ next | .giveBack _ _ next => next.pending = calls
  | .leave invocation _ next => (invocation, next) :: next.pending = calls

namespace Action

theorem operate_pending (result : Except ValueError Value) (operator : String) (site : Span)
    (next : ValueCont) : (operate result operator site next).Pending next.pending := by
  cases result with
  | ok v => exact rfl
  | error e => trivial

theorem supply_pending (invocation : Invocation) (record : Record)
    (args : List (String × Expr)) (next : ValueCont) :
    (supply invocation record args next).Pending next.pending := by
  cases args <;> exact rfl

theorem beginCall_pending (table : ProcedureTable) (name : String) (args : List Expr)
    (resolved : Option ProcedureSymbol) (site : Span) (next : ValueCont) :
    (beginCall table name args resolved site next).Pending next.pending := by
  cases resolved with
  | none => trivial
  | some symbol =>
    simp only [beginCall]
    cases table.find? symbol.id with
    | none => trivial
    | some procedure => exact supply_pending ..

end Action

theorem ValueCont.action_pending (v : Value) (k : ValueCont) : (k.action v).Pending k.pending := by
  cases k with
  | done => trivial
  | choose body otherwise next =>
    cases otherwise <;> rw [action] <;> split <;> exact rfl
  | test loop next =>
    rw [action]
    split <;> exact rfl
  | unary => exact Action.operate_pending ..
  | rightOperand => exact Action.operate_pending ..
  | argument => exact Action.supply_pending ..
  | assign | discard | giveBack | leftOperand => exact rfl

theorem FlowCont.action_pending (f : Flow) (k : FlowCont) : (k.action f).Pending k.pending := by
  cases k with
  | done => trivial
  | sequence rest next => cases f <;> cases rest <;> exact rfl
  | round loop next =>
    obtain ⟨test, body, step⟩ := loop
    cases f <;> cases step <;> exact rfl
  | again | invoked => exact rfl

/-- Only entering and leaving a body change which calls are going on. -/
theorem Control.action_pending (table : ProcedureTable) (c : Control) :
    (c.action table).Pending c.pending := by
  cases c with
  | eval e k =>
    cases e with
    | call => exact Action.beginCall_pending ..
    | _ => exact rfl
  | exec s k =>
    cases s with
    | call => exact Action.beginCall_pending ..
    | _ => exact rfl
  | value v k => exact k.action_pending v
  | flow f k => exact k.action_pending f

end Imperative
