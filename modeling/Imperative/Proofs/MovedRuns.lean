import Imperative.Proofs.Continuations
import Imperative.Proofs.MovedAnalysis

/-!
# Running does not look at places

A machine carries spans along, so that it can say where a run failed, and decides nothing by
them.  Moving every span of a state, and of the table of procedures, commutes with making a step:
the same things happen to the stack and for the log, and a failure has the same cause, in the
place to which its span is moved.

* `Control.action_moved`, `Action.perform_moved`: one step, as `Proofs.Actions` takes it apart.
* `Machine.run_moved`: a whole run, by induction on its fuel.
* `Module.run_moved`: analysis and execution of a module.
-/

namespace Imperative

variable (f : Span → Span)

/-! ## What a machine carries -/

/-- The loop with its spans moved. -/
def Loop.moved (loop : Loop) : Loop :=
  ⟨loop.test.moved f, loop.body.moved f, Stmt.moved? f loop.step⟩

/-- The call with its spans moved. -/
def Invocation.moved (invocation : Invocation) : Invocation :=
  ⟨invocation.symbol, Stmt.allMoved f invocation.body, f invocation.site⟩

/-- The arguments that are left, with their spans moved. -/
def Invocation.pendingMoved (pending : List (String × Expr)) : List (String × Expr) :=
  pending.map fun (param, arg) => (param, arg.moved f)

mutual

/-- The continuation with its spans moved. -/
def ValueCont.moved : ValueCont → ValueCont
  | .done => .done
  | .assign name site next => .assign name (f site) next.moved
  | .discard next => .discard next.moved
  | .choose body otherwise next => .choose (body.moved f) (Stmt.moved? f otherwise) next.moved
  | .test loop next => .test (loop.moved f) next.moved
  | .giveBack site next => .giveBack (f site) next.moved
  | .unary op site next => .unary op (f site) next.moved
  | .leftOperand op rhs site next => .leftOperand op (rhs.moved f) (f site) next.moved
  | .rightOperand op lhs site next => .rightOperand op lhs (f site) next.moved
  | .argument invocation record param pending next =>
    .argument (invocation.moved f) record param (Invocation.pendingMoved f pending) next.moved

/-- The continuation with its spans moved. -/
def FlowCont.moved : FlowCont → FlowCont
  | .done => .done
  | .sequence rest next => .sequence (Stmt.allMoved f rest) next.moved
  | .round loop next => .round (loop.moved f) next.moved
  | .again loop next => .again (loop.moved f) next.moved
  | .invoked invocation next => .invoked (invocation.moved f) next.moved

end

/-- The control with its spans moved. -/
def Control.moved : Control → Control
  | .eval e next => .eval (e.moved f) (next.moved f)
  | .exec s next => .exec (s.moved f) (next.moved f)
  | .value v next => .value v (next.moved f)
  | .flow given next => .flow given (next.moved f)

/-- The outcome in another place, if it is a failure. -/
def Outcome.moved : Outcome → Outcome
  | .value v => .value v
  | .flow given => .flow given
  | .failure e => .failure (e.moved f)

/-- The action with its spans moved. -/
def Action.moved : Action → Action
  | .go control => .go (control.moved f)
  | .halt outcome => .halt (outcome.moved f)
  | .read name site next => .read name (f site) (next.moved f)
  | .bind name v site next => .bind name v (f site) (next.moved f)
  | .giveBack v site next => .giveBack v (f site) (next.moved f)
  | .enter invocation record next => .enter (invocation.moved f) record (next.moved f)
  | .leave invocation flow next => .leave (invocation.moved f) flow (next.moved f)

/-- The state with its spans moved. -/
def MachineState.moved (s : MachineState) : MachineState :=
  ⟨s.control.moved f, s.stack⟩

/-- The step with its spans moved. -/
def Transition.moved : Transition → Transition
  | .next events s => .next events (s.moved f)
  | .halt events outcome stack => .halt events (outcome.moved f) stack

/-- The definition with its spans moved. -/
def Procedure.moved (p : Procedure) : Procedure :=
  { p with params := p.params.map (Param.moved f), body := Stmt.allMoved f p.body }

/-- The table with the spans of its definitions moved. -/
def ProcedureTable.moved (table : ProcedureTable) : ProcedureTable :=
  ⟨table.entries.map (Procedure.moved f)⟩

/-! ## The table of a module -/

mutual

theorem Stmt.procedures_moved : ∀ s : Stmt,
    (s.moved f).procedures = s.procedures.map (Procedure.moved f)
  | .procedure id name params returnType body span => by
    rw [Stmt.moved, Stmt.procedures, Stmt.procedures, Stmt.allProcedures_moved body, List.map_cons]
    rfl
  | .compound body span => Stmt.allProcedures_moved body
  | .conditional test body otherwise span => by
    rw [Stmt.moved, Stmt.procedures, Stmt.procedures, body.procedures_moved,
      Stmt.procedures?_moved otherwise, List.map_append]
  | .whileLoop _ body _ | .doWhile _ body _ | .forLoop _ _ _ body _ => body.procedures_moved
  | .declaration .. | .assign .. | .call .. | .giveBack .. | .breakLoop _ | .continueLoop _
  | .pass _ => rfl

theorem Stmt.allProcedures_moved : ∀ ss : List Stmt,
    Stmt.allProcedures (Stmt.allMoved f ss) = (Stmt.allProcedures ss).map (Procedure.moved f)
  | [] => rfl
  | s :: ss => by
    rw [Stmt.allMoved, Stmt.allProcedures, Stmt.allProcedures, s.procedures_moved,
      Stmt.allProcedures_moved ss, List.map_append]

theorem Stmt.procedures?_moved : ∀ s : Option Stmt,
    Stmt.procedures? (Stmt.moved? f s) = (Stmt.procedures? s).map (Procedure.moved f)
  | none => rfl
  | some s => s.procedures_moved

end

namespace ProcedureTable

theorem ofModule_moved (m : Module) : ofModule (m.moved f) = (ofModule m).moved f := by
  rw [ofModule, Module.moved, Stmt.allProcedures_moved, ← List.map_reverse]
  rfl

theorem find?_moved (table : ProcedureTable) (id : ProcedureId) :
    (table.moved f).find? id = (table.find? id).map (Procedure.moved f) := by
  rw [find?, moved, List.find?_map]
  rfl

end ProcedureTable

/-! ## One step -/

namespace Action

theorem operate_moved (result : Except ValueError Value) (operator : String) (site : Span)
    (next : ValueCont) :
    operate result operator (f site) (next.moved f) =
      (operate result operator site next).moved f := by
  cases result <;> rfl

theorem supply_moved (invocation : Invocation) (record : Record)
    (pending : List (String × Expr)) (next : ValueCont) :
    supply (invocation.moved f) record (Invocation.pendingMoved f pending) (next.moved f) =
      (supply invocation record pending next).moved f := by
  cases pending <;> rfl

theorem beginCall_moved (table : ProcedureTable) (name : String) (args : List Expr)
    (resolved : Option ProcedureSymbol) (site : Span) (next : ValueCont) :
    beginCall (table.moved f) name (Expr.allMoved f args) resolved (f site) (next.moved f) =
      (beginCall table name args resolved site next).moved f := by
  cases resolved with
  | none => rfl
  | some symbol =>
    simp only [beginCall, ProcedureTable.find?_moved]
    cases table.find? symbol.id with
    | none => rfl
    | some procedure =>
      have pending : (symbol.params.map VariableSymbol.name).zip (Expr.allMoved f args) =
          Invocation.pendingMoved f ((symbol.params.map VariableSymbol.name).zip args) := by
        rw [Expr.allMoved_eq_map, List.zip_map_right]
        rfl
      rw [Option.map_some]
      dsimp only
      rw [pending]
      exact supply_moved f ⟨symbol, procedure.body, site⟩ ..

/-- What an action does to the stack does not depend on places. -/
theorem perform_moved (a : Action) (stack : CallStack) :
    (a.moved f).perform stack = (a.perform stack).moved f := by
  cases a with
  | go control => rfl
  | halt outcome => rfl
  | read name site next =>
    simp only [moved, perform, Machine.readName]
    cases stack.top? with
    | none => rfl
    | some record =>
      dsimp only
      cases record.get? name <;> rfl
  | bind name v site next =>
    simp only [moved, perform, Machine.update]
    cases stack.modifyTop? (·.set name v) <;> rfl
  | giveBack v site next =>
    simp only [moved, perform, Machine.update]
    cases stack.modifyTop? (fun r => { r with returned := some v }) <;> rfl
  | enter invocation record next =>
    simp only [moved, perform, Machine.enterBody]
    cases stack.push? record <;> rfl
  | leave invocation flow next =>
    simp only [moved, perform, Machine.endCall, Invocation.moved]
    cases flow <;> cases invocation.symbol.returnType <;> rfl

end Action

theorem ValueCont.action_moved (v : Value) (k : ValueCont) :
    (k.moved f).action v = (k.action v).moved f := by
  cases k with
  | choose body otherwise next =>
    cases otherwise <;> simp only [moved, Stmt.moved?, action] <;> split <;> rfl
  | test loop next =>
    rw [moved, action, action]
    split <;> rfl
  | unary => exact Action.operate_moved ..
  | rightOperand => exact Action.operate_moved ..
  | argument => exact Action.supply_moved ..
  | _ => rfl

theorem FlowCont.action_moved (flow : Flow) (k : FlowCont) :
    (k.moved f).action flow = (k.action flow).moved f := by
  cases k with
  | sequence rest next => cases flow <;> cases rest <;> rfl
  | round loop next =>
    obtain ⟨test, body, step⟩ := loop
    cases flow <;> cases step <;> rfl
  | _ => rfl

/-- What is done next does not depend on places. -/
theorem Control.action_moved (table : ProcedureTable) (c : Control) :
    (c.moved f).action (table.moved f) = (c.action table).moved f := by
  cases c with
  | eval e k =>
    cases e with
    | call => exact Action.beginCall_moved ..
    | _ => rfl
  | exec s k =>
    cases s with
    | call name args resolved site =>
      exact Action.beginCall_moved f table name args resolved site (.discard k)
    | _ => rfl
  | value v k => exact ValueCont.action_moved f v k
  | flow flow k => exact FlowCont.action_moved f flow k

namespace Machine

theorem step_moved (table : ProcedureTable) (s : MachineState) :
    step (table.moved f) (s.moved f) = (step table s).moved f := by
  rw [step_eq_perform, step_eq_perform, MachineState.moved, Control.action_moved,
    Action.perform_moved]

/-- A run with all spans moved comes to the same end as the run, in as many steps. -/
theorem run_moved {σ : Type} (observe : σ → Event → σ) (table : ProcedureTable) (fuel : Nat)
    (seen : σ) (s : MachineState) :
    run observe (table.moved f) fuel seen (s.moved f) =
      (run observe table fuel seen s).map fun (seen, outcome, stack) =>
        (seen, outcome.moved f, stack) := by
  induction fuel generalizing seen s with
  | zero => rfl
  | succ fuel ih =>
    rw [run, run, step_moved]
    cases step table s with
    | next events s' => exact ih _ s'
    | halt events outcome stack => rfl

end Machine

/-! ## A whole module -/

/-- The finished run with its failure moved, and with the table of the module moved. -/
def Run.moved {σ : Type} (run : Run σ) : Run σ where
  result := run.result.mapError (RuntimeError.moved f)
  seen := run.seen
  interpreter := { run.interpreter with table := run.interpreter.table.moved f }

namespace Interpreter

variable (fixed : f programSite = programSite)

include fixed

/-- A failure that is charged to the start of the program stays where it is. -/
theorem failure_moved (cause : RuntimeCause) :
    (Except.error ⟨cause, programSite⟩ : Except RuntimeError Record).mapError
      (RuntimeError.moved f) = .error ⟨cause, programSite⟩ :=
  congrArg (fun site => Except.error (RuntimeError.mk cause site)) fixed

theorem conclude_moved (outcome : Outcome) (stack : CallStack) :
    conclude (outcome.moved f) stack =
      ((conclude outcome stack).1.mapError (RuntimeError.moved f), (conclude outcome stack).2) := by
  cases outcome with
  | failure e => rfl
  | value _ | flow _ =>
    simp only [Outcome.moved, conclude]
    cases stack.pop? with
    | none => rw [failure_moved f fixed]
    | some popped => rfl

/-- Interpreting a module that is moved, if the place to which the start of a program is charged
stays where it is. -/
theorem interpret_moved {σ : Type} (observe : σ → Event → σ) (seen : σ) (fuel : Nat)
    (i : Interpreter) (m : Module) :
    i.interpret observe seen fuel (m.moved f) =
      (i.interpret observe seen fuel m).map (Run.moved f) := by
  simp only [interpret, ProcedureTable.ofModule_moved]
  cases i.stack.cleared.push? programRecord with
  | none => rw [Option.map_some, Run.moved, failure_moved f fixed]
  | some pushed =>
    dsimp only
    rw [show (⟨.flow .completed (.sequence (m.moved f).body .done), pushed⟩ : MachineState) =
      MachineState.moved f ⟨.flow .completed (.sequence m.body .done), pushed⟩ from rfl,
      Machine.run_moved]
    generalize Machine.run observe _ fuel _ _ = ended
    cases ended with
    | none => rfl
    | some ended =>
      obtain ⟨seen, outcome, stack⟩ := ended
      simp only [Option.map_some, conclude_moved f fixed]
      rfl

end Interpreter

/-- Analyses a module and runs it. -/
def Module.run (fuel limit : Nat) (m : Module) : Option (Except Failure Record) :=
  match m.analyze.verdict with
  | .error e => some (.error (.analysis e))
  | .ok () => ((Interpreter.new limit).interpret (fun _ _ => ()) () fuel m.analyze.module).map
    fun run => run.result.mapError .runtime

/-- Running a text is running the module that it parses to. -/
theorem run_eq (fuel limit : Nat) (text : String) :
    run fuel limit text =
      match Module.parse text with
      | .error e => some (.error (.parse e))
      | .ok m => m.run fuel limit := by
  rw [run, execute]
  cases Module.parse text with
  | error e => rfl
  | ok m =>
    dsimp only [Module.run]
    cases m.analyze.verdict with
    | error e => rfl
    | ok _ =>
      dsimp only
      cases (Interpreter.new limit).interpret (fun _ _ => ()) () fuel m.analyze.module <;> rfl

/-- **Running does not look at places.**  The module with its spans moved ends with the same
record, or fails with the same failure, in the place to which it is moved. -/
theorem Module.run_moved (fixed : f Interpreter.programSite = Interpreter.programSite)
    (fuel limit : Nat) (m : Module) :
    (m.moved f).run fuel limit =
      (m.run fuel limit).map (Except.mapError (Failure.moved f)) := by
  rw [Module.run, Module.run, Module.analyze_moved]
  generalize m.analyze = analysis
  obtain ⟨resolved, failure | _, events⟩ := analysis
  · rfl
  · change ((Interpreter.new limit).interpret _ () fuel (resolved.moved f)).map _ = _
    rw [Interpreter.interpret_moved f fixed]
    cases (Interpreter.new limit).interpret (fun _ _ => ()) () fuel resolved with
    | none => rfl
    | some run =>
      obtain ⟨result, seen, interpreter⟩ := run
      cases result <;> rfl

end Imperative
