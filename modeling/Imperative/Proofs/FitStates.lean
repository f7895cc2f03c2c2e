import Imperative.Execution.Interpreter
import Imperative.Proofs.Fitness

/-!
# States that are fit to go on

The invariant of a run.  A state of the machine is fit when what it is doing is fit and when
its continuation can take whatever that may give: a jump arrives only where there is a loop
to leave, and a value is returned only inside a call.

## What a continuation remembers

The predicates on continuations run along the call stack.  Behind the body of a procedure
(`invoked`) stands one record more than in front of it, and that record binds the parameters
of the call.  At the very bottom stand the rest of the program, the record of the program,
and nothing else.  A fit continuation is indexed by this rest (`todo`), so that a run can be
followed through the statements of the program.

## Jumps

`inLoop` and `inProcedure` say what may arrive at a continuation.  The head of a loop gives
neither a jump nor a return, so `again` is only fit where none can arrive.
-/

namespace Imperative

/-- The record of a program, which has returned nothing. -/
structure Record.IsProgram (r : Record) : Prop where
  name_eq : r.name = "program"
  kind_eq : r.kind = .program
  level_eq : r.level = 1
  returned_eq : r.returned = none

/-- The record binds every one of the names. -/
def Record.Binds (r : Record) (names : List String) : Prop :=
  ∀ x ∈ names, ∃ v, r.get? x = some v

theorem Record.get?_set_self (r : Record) (name : String) (v : Value) :
    (r.set name v).get? name = some v :=
  Bindings.get?_set_self r.bindings name v

/-- What is bound stays bound. -/
theorem Record.exists_get?_set {r : Record} {x : String} (h : ∃ v, r.get? x = some v)
    (name : String) (v : Value) : ∃ w, (r.set name v).get? x = some w := by
  by_cases e : x = name
  · subst e
    exact ⟨v, r.get?_set_self x v⟩
  · obtain ⟨w, hw⟩ := h
    refine ⟨w, ?_⟩
    rw [← hw]
    exact Bindings.get?_set_of_ne r.bindings v e

/-- The flows that may arrive where a statement stands. -/
def Flow.Allowed (inLoop inProcedure : Bool) : Flow → Prop
  | .completed => True
  | .broke | .continued => inLoop = true
  | .returned _ => inProcedure = true

/-- The rounds of the loop can be run.  What follows a round comes from the head of the loop,
which gives no jump. -/
structure Loop.Fit (table : ProcedureTable) (inProcedure : Bool) (loop : Loop) : Prop where
  test : loop.test.Linked table
  body : loop.body.Fit table true inProcedure
  step : Stmt.Fit? table false false loop.step

/-- The bodies of procedures can be run as such. -/
def ProcedureTable.BodiesFit (table : ProcedureTable) : Prop :=
  ∀ id procedure, table.find? id = some procedure →
    Stmt.AllFit table false true procedure.body

/-- The call runs the definition that its symbol leads to, with the same parameters. -/
structure Invocation.Fit (table : ProcedureTable) (invocation : Invocation) : Prop where
  definition : ∃ procedure, table.find? invocation.symbol.id = some procedure
    ∧ invocation.body = procedure.body
    ∧ invocation.symbol.params.map (·.name) = procedure.params.map (·.name)
  body : Stmt.AllFit table false true invocation.body

mutual

/-- The continuation can take a value, above the given records. -/
def ValueCont.Fit (table : ProcedureTable) (todo : List Stmt) (records : List Record) :
    ValueCont → Prop
  | .done => False
  | .assign _ _ next | .discard next => ∃ l p, next.Fit table todo l p records
  | .choose body otherwise next => ∃ l p, body.Fit table l p ∧ Stmt.Fit? table l p otherwise
    ∧ next.Fit table todo l p records
  | .test loop next => ∃ l p, loop.Fit table p ∧ next.Fit table todo l p records
  | .giveBack _ next => ∃ l, next.Fit table todo l true records
  | .unary _ _ next | .rightOperand _ _ _ next => next.Fit table todo records
  | .leftOperand _ rhs _ next => rhs.Linked table ∧ next.Fit table todo records
  | .argument invocation record param pending next => invocation.Fit table
    ∧ (∀ x ∈ invocation.symbol.params.map (·.name),
      x = param ∨ x ∈ pending.map (·.1) ∨ ∃ v, record.get? x = some v)
    ∧ (∀ a ∈ pending, a.2.Linked table) ∧ next.Fit table todo records

/-- The continuation can take a flow that may arrive there, above the given records. -/
def FlowCont.Fit (table : ProcedureTable) (todo : List Stmt) (inLoop inProcedure : Bool)
    (records : List Record) : FlowCont → Prop
  | .done => False
  | .sequence rest next => Stmt.AllFit table inLoop inProcedure rest
    ∧ ((next = .done ∧ rest = todo ∧ inLoop = false ∧ inProcedure = false
        ∧ ∃ r, records = [r] ∧ r.IsProgram)
      ∨ next.Fit table todo inLoop inProcedure records)
  | .round loop next => loop.Fit table inProcedure
    ∧ ∃ l, next.Fit table todo l inProcedure records
  | .again loop next => inLoop = false ∧ inProcedure = false
    ∧ ∃ l p, loop.Fit table p ∧ next.Fit table todo l p records
  | .invoked invocation next => inLoop = false ∧ invocation.Fit table
    ∧ ∃ r rest, records = r :: rest ∧ r.Binds (invocation.symbol.params.map (·.name))
      ∧ next.Fit table todo rest

end

/-- What the machine does is fit, and so is what is left to do. -/
def Control.Fit (table : ProcedureTable) (todo : List Stmt) (records : List Record) :
    Control → Prop
  | .eval e next => e.Linked table ∧ next.Fit table todo records
  | .exec s next => ∃ l p, s.Fit table l p ∧ next.Fit table todo l p records
  | .value _ next => next.Fit table todo records
  | .flow f next => ∃ l p, f.Allowed l p ∧ next.Fit table todo l p records

/-- The program has come to its end. -/
structure MachineState.Finished (s : MachineState) : Prop where
  control_eq : s.control = .flow .completed .done
  records_eq : ∃ r, s.stack.records = [r] ∧ r.IsProgram

/-- The state is fit to go on, and the statements `todo` of the program have not been begun. -/
def MachineState.Fit (table : ProcedureTable) (todo : List Stmt) (s : MachineState) : Prop :=
  s.control.Fit table todo s.stack.records ∨ todo = [] ∧ s.Finished

/-- The failures for which a program that came through analysis is to blame. -/
def RuntimeCause.Benign : RuntimeCause → Prop
  | .unresolvedCall _ | .emptyCallStack => False
  | _ => True

/-- What one step of a fit state may be: it goes on in a fit state, either with the same
statements to do or by beginning the first of them, or it halts at the end of the program or
with a failure of its own. -/
def Transition.Fit (table : ProcedureTable) (todo : List Stmt) : Transition → Prop
  | .next _ s => s.Fit table todo ∨ ∃ stmt rest, todo = stmt :: rest
    ∧ s.control = .exec stmt (.sequence rest .done) ∧ s.Fit table rest
  | .halt _ (.failure e) _ => e.cause.Benign
  | .halt _ (.flow f) stack => todo = [] ∧ f = .completed
    ∧ ∃ r, stack.records = [r] ∧ r.IsProgram
  | .halt _ (.value _) _ => False

/-! ## Continuations and the stack -/

variable {table : ProcedureTable} {todo : List Stmt} {records : List Record}

mutual

/-- Below a fit continuation there is a record. -/
theorem ValueCont.Fit.ne_nil : ∀ {k : ValueCont}, k.Fit table todo records → records ≠ []
  | .assign _ _ next, h | .discard next, h => by
    obtain ⟨_, _, h⟩ := h
    exact FlowCont.Fit.ne_nil (k := next) h
  | .choose _ _ next, h => by
    obtain ⟨_, _, _, _, h⟩ := h
    exact FlowCont.Fit.ne_nil (k := next) h
  | .test _ next, h => by
    obtain ⟨_, _, _, h⟩ := h
    exact FlowCont.Fit.ne_nil (k := next) h
  | .giveBack _ next, h => by
    obtain ⟨_, h⟩ := h
    exact FlowCont.Fit.ne_nil (k := next) h
  | .unary _ _ next, h | .rightOperand _ _ _ next, h => ValueCont.Fit.ne_nil (k := next) h
  | .leftOperand _ _ _ next, h => ValueCont.Fit.ne_nil (k := next) h.2
  | .argument _ _ _ _ next, h => ValueCont.Fit.ne_nil (k := next) h.2.2.2

theorem FlowCont.Fit.ne_nil {l p : Bool} :
    ∀ {k : FlowCont}, k.Fit table todo l p records → records ≠ []
  | .sequence _ next, h => by
    rcases h.2 with ⟨_, _, _, _, r, rfl, _⟩ | h
    · exact List.cons_ne_nil _ _
    · exact FlowCont.Fit.ne_nil (k := next) h
  | .round _ next, h => by
    obtain ⟨_, _, h⟩ := h
    exact FlowCont.Fit.ne_nil (k := next) h
  | .again _ next, h => by
    obtain ⟨_, _, _, _, _, h⟩ := h
    exact FlowCont.Fit.ne_nil (k := next) h
  | .invoked _ _, h => by
    obtain ⟨_, _, r, rest, rfl, _⟩ := h
    exact List.cons_ne_nil _ _

end

/-- Changing the innermost record.  At the bottom it is the record of the program, which must
stay one; but where a value may be returned, the innermost record is that of a call. -/
theorem FlowCont.Fit.replace {r r' : Record} {rest : List Record}
    (hbinds : ∀ x, (∃ v, r.get? x = some v) → ∃ v, r'.get? x = some v) :
    ∀ {k : FlowCont} {l p : Bool}, (p = false → r.IsProgram → r'.IsProgram) →
      k.Fit table todo l p (r :: rest) → k.Fit table todo l p (r' :: rest)
  | .sequence _ next, l, p, hprogram, h => by
    refine ⟨h.1, ?_⟩
    rcases h.2 with ⟨hnext, htodo, hl, hp, r₀, hr, hr₀⟩ | h
    · cases hr
      exact .inl ⟨hnext, htodo, hl, hp, r', rfl, hprogram hp hr₀⟩
    · exact .inr (FlowCont.Fit.replace hbinds (k := next) hprogram h)
  | .round _ next, l, p, hprogram, h => by
    obtain ⟨hloop, l', h⟩ := h
    exact ⟨hloop, l', FlowCont.Fit.replace hbinds (k := next) hprogram h⟩
  | .again _ next, l, p, hprogram, h => by
    obtain ⟨hl, hp, l', p', hloop, h⟩ := h
    exact ⟨hl, hp, l', p', hloop,
      FlowCont.Fit.replace hbinds (k := next) (fun _ => hprogram hp) h⟩
  | .invoked _ _, l, p, _, h => by
    obtain ⟨hl, hinvocation, r₀, rest₀, hr, hbound, h⟩ := h
    cases hr
    exact ⟨hl, hinvocation, r', rest, rfl, fun x hx => hbinds x (hbound x hx), h⟩

end Imperative
