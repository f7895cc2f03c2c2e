import Imperative.Proofs.DepthLimit
import Imperative.Proofs.Subexpressions

/-!
# Realms of values

Nothing looks at a declared type while a program runs: a value goes through assignments, parameters
and return slots as it is.  So what values can turn up is a matter of where they come from.  They
come from literals, from operators, from declarations, and from calls of procedures that return
nothing.

A *realm* is a set of values that has all integers and that signs do not lead out of, together with
the failures of operators that may happen inside it.  A realm *covers* an expression if the operators
in it do not lead out of the realm either, and if it calls no procedure without a return type, unless
the realm has the missing value; and it covers a statement if what declarations give is in the realm
too.

## The argument

A state stays in the realm if the realm covers all that is left to do and has all values that are
there.  A value may be handed to what waits for it if it is in the realm; only a call that stands as
a statement takes the missing value as well, since it forgets it (`ValueCont.Takes`).  One step stays
in the realm (`Machine.step_staysIn`), so the states that a covered program leads to do
(`Realm.staysIn_of_visits`).

The values of a state are collected in `MachineState.held`: the records on the stack with their return
slots, the records of calls whose arguments are still being evaluated, left operands that wait for the
right one, and what a procedure is returning.
-/

namespace Imperative

/-! ## The values of a state -/

/-- What the record binds, and what is in its return slot. -/
def Record.values (r : Record) : List Value :=
  r.bindings.entries.map Prod.snd ++ r.returned.toList

/-- What a flow carries. -/
def Flow.values : Flow → List Value
  | .returned v => [v]
  | .completed | .broke | .continued => []

mutual

/-- The values that wait in the continuation. -/
def ValueCont.held : ValueCont → List Value
  | .done => []
  | .assign _ _ next | .discard next | .choose _ _ next | .test _ next | .giveBack _ next =>
    next.held
  | .unary _ _ next | .leftOperand _ _ _ next => next.held
  | .rightOperand _ lhs _ next => lhs :: next.held
  | .argument _ record _ _ next => record.values ++ next.held

/-- The values that wait in the continuation. -/
def FlowCont.held : FlowCont → List Value
  | .done => []
  | .sequence _ next | .round _ next | .again _ next => next.held
  | .invoked _ next => next.held

end

/-- The values that wait in the control; what is being handed over is not among them, unless it is
being returned. -/
def Control.held : Control → List Value
  | .eval _ next | .value _ next => next.held
  | .exec _ next => next.held
  | .flow f next => f.values ++ next.held

/-- The values in the records of the state and in what is left to do. -/
def MachineState.held (s : MachineState) : List Value :=
  s.stack.records.flatMap Record.values ++ s.control.held

/-! ## Realms -/

/-- The result is one of the values, or one of the failures. -/
def Answers (Has : Value → Prop) (Fails : ValueError → Prop) : Except ValueError Value → Prop
  | .ok v => Has v
  | .error e => Fails e

/-- A set of values with all integers, and the ways in which operators may fail on them. -/
structure Realm where
  Has : Value → Prop
  Fails : ValueError → Prop
  int : ∀ n, Has (.int n)
  unary : ∀ op v, Has v → Answers Has Fails (Value.unary op v)

namespace Realm

variable (R : Realm)

/-- The operator does not lead out of the realm. -/
def Closed (op : BinaryOp) : Prop :=
  ∀ lhs rhs, R.Has lhs → R.Has rhs → Answers R.Has R.Fails (Value.binary op lhs rhs)

/-- What is at the root of the expression does not lead out of the realm. -/
def Allows : Expr → Prop
  | .binary op _ _ _ => R.Closed op
  | .call _ _ (some symbol) _ => symbol.returnType = none → R.Has .none
  | .number .. | .var .. | .unary .. | .call _ _ none _ => True

/-- Nothing in the expression leads out of the realm. -/
def Covers (e : Expr) : Prop :=
  ∀ x ∈ e.postorder, R.Allows x

/-- All values of the record are in the realm. -/
def Holds (r : Record) : Prop :=
  ∀ v ∈ r.values, R.Has v

variable {R}

theorem Covers.operand {op : UnaryOp} {operand : Expr} {span : Span}
    (h : R.Covers (.unary op operand span)) : R.Covers operand :=
  fun x hx => h x (List.mem_append_left _ hx)

theorem Covers.lhs {op : BinaryOp} {lhs rhs : Expr} {span : Span}
    (h : R.Covers (.binary op lhs rhs span)) : R.Covers lhs :=
  fun x hx => h x (List.mem_append_left _ (List.mem_append_left _ hx))

theorem Covers.rhs {op : BinaryOp} {lhs rhs : Expr} {span : Span}
    (h : R.Covers (.binary op lhs rhs span)) : R.Covers rhs :=
  fun x hx => h x (List.mem_append_left _ (List.mem_append_right _ hx))

theorem Covers.arguments {name : String} {args : List Expr} {mark : Option ProcedureSymbol}
    {span : Span} (h : R.Covers (.call name args mark span)) : ∀ a ∈ args, R.Covers a := by
  intro a ha x hx
  exact h x (List.mem_append_left _ (Expr.mem_allPostorder.mpr ⟨a, ha, hx⟩))

theorem Covers.root {e : Expr} (h : R.Covers e) : R.Allows e :=
  h e e.mem_postorder_self

theorem Holds.set {r : Record} {v : Value} (h : R.Holds r) (hv : R.Has v) (x : String) :
    R.Holds (r.set x v) := by
  intro w hw
  rcases List.mem_append.mp hw with hw | hw
  · obtain ⟨entry, hentry, rfl⟩ := List.mem_map.mp hw
    rcases Bindings.eq_or_mem_of_mem_insertSorted hentry with rfl | hentry
    · exact hv
    · exact h _ (List.mem_append_left _ (List.mem_map_of_mem hentry))
  · exact h w (List.mem_append_right _ hw)

theorem Holds.giveBack {r : Record} {v : Value} (h : R.Holds r) (hv : R.Has v) :
    R.Holds { r with returned := some v } := by
  intro w hw
  rcases List.mem_append.mp hw with hw | hw
  · exact h w (List.mem_append_left _ hw)
  · obtain rfl := List.mem_singleton.mp hw
    exact hv

theorem Holds.get? {r : Record} {x : String} {v : Value} (h : R.Holds r)
    (hv : r.get? x = some v) : R.Has v := by
  obtain ⟨before, after, hentries, -⟩ := List.lookup_eq_some_iff.mp hv
  have hentry : (x, v) ∈ r.bindings.entries := by
    rw [hentries]
    exact List.mem_append_right _ List.mem_cons_self
  exact h v (List.mem_append_left _ (List.mem_map_of_mem hentry))

end Realm

/-! ## Covered statements -/

mutual

/-- Nothing in the statement leads out of the realm, procedures that it defines included. -/
def Stmt.StaysIn (R : Realm) : Stmt → Prop
  | .compound body _ | .procedure _ _ _ _ body _ => Stmt.AllStayIn R body
  | .declaration _ type _ => R.Has (.zero type)
  | .assign _ value _ | .giveBack value _ => R.Covers value
  | .call _ args _ _ => ∀ a ∈ args, R.Covers a
  | .conditional test body otherwise _ =>
    R.Covers test ∧ body.StaysIn R ∧ Stmt.StaysIn? R otherwise
  | .whileLoop test body _ | .doWhile test body _ => R.Covers test ∧ body.StaysIn R
  | .forLoop init test step body _ =>
    init.StaysIn R ∧ R.Covers test ∧ step.StaysIn R ∧ body.StaysIn R
  | .breakLoop _ | .continueLoop _ | .pass _ => True

/-- Nothing in the statements leads out of the realm. -/
def Stmt.AllStayIn (R : Realm) : List Stmt → Prop
  | [] => True
  | s :: ss => s.StaysIn R ∧ Stmt.AllStayIn R ss

/-- Nothing in the statement leads out of the realm, if there is one. -/
def Stmt.StaysIn? (R : Realm) : Option Stmt → Prop
  | none => True
  | some s => s.StaysIn R

end

mutual

/-- The procedures that a covered statement defines are covered. -/
theorem Stmt.StaysIn.procedures {R : Realm} : ∀ {s : Stmt}, s.StaysIn R →
    ∀ q ∈ s.procedures, Stmt.AllStayIn R q.body
  | .procedure .., h => by
    rw [Stmt.procedures, List.forall_mem_cons]
    exact ⟨h, Stmt.AllStayIn.procedures h⟩
  | .compound body _, h => Stmt.AllStayIn.procedures (l := body) h
  | .conditional _ body otherwise _, h => by
    rw [Stmt.procedures, List.forall_mem_append]
    exact ⟨Stmt.StaysIn.procedures h.2.1, Stmt.StaysIn?.procedures h.2.2⟩
  | .whileLoop _ body _, h | .doWhile _ body _, h => Stmt.StaysIn.procedures (s := body) h.2
  | .forLoop _ _ _ body _, h => Stmt.StaysIn.procedures (s := body) h.2.2.2
  | .declaration .., _ | .assign .., _ | .call .., _ | .giveBack .., _ | .breakLoop _, _
  | .continueLoop _, _ | .pass _, _ => by simp [Stmt.procedures]

theorem Stmt.AllStayIn.procedures {R : Realm} : ∀ {l : List Stmt}, Stmt.AllStayIn R l →
    ∀ q ∈ Stmt.allProcedures l, Stmt.AllStayIn R q.body
  | [], _ => by simp [Stmt.allProcedures]
  | _ :: _, h => by
    rw [Stmt.allProcedures, List.forall_mem_append]
    exact ⟨Stmt.StaysIn.procedures h.1, Stmt.AllStayIn.procedures h.2⟩

theorem Stmt.StaysIn?.procedures {R : Realm} : ∀ {s : Option Stmt}, Stmt.StaysIn? R s →
    ∀ q ∈ Stmt.procedures? s, Stmt.AllStayIn R q.body
  | none, _ => by simp [Stmt.procedures?]
  | some s, h => Stmt.StaysIn.procedures (s := s) h

end

/-- Nothing in the loop leads out of the realm. -/
structure Loop.StaysIn (R : Realm) (loop : Loop) : Prop where
  test : R.Covers loop.test
  body : loop.body.StaysIn R
  step : Stmt.StaysIn? R loop.step

/-- The procedures of the table do not lead out of the realm. -/
def ProcedureTable.StaysIn (R : Realm) (table : ProcedureTable) : Prop :=
  ∀ q ∈ table.entries, Stmt.AllStayIn R q.body

/-! ## States in a realm -/

/-- The value may be handed over: it is in the realm, or it is missing and will be forgotten. -/
def ValueCont.Takes (R : Realm) (v : Value) (k : ValueCont) : Prop :=
  R.Has v ∨ v = .none ∧ ∃ next, k = .discard next

/-- What the end of the call hands over may be missing, if the procedure returns nothing. -/
def Invocation.Suits (R : Realm) (invocation : Invocation) (next : ValueCont) : Prop :=
  invocation.symbol.returnType = none → next.Takes R .none

mutual

/-- What is left to do stays in the realm. -/
def ValueCont.StaysIn (R : Realm) : ValueCont → Prop
  | .done => True
  | .assign _ _ next | .discard next | .giveBack _ next => next.StaysIn R
  | .choose body otherwise next =>
    body.StaysIn R ∧ Stmt.StaysIn? R otherwise ∧ next.StaysIn R
  | .test loop next => loop.StaysIn R ∧ next.StaysIn R
  | .unary _ _ next => next.StaysIn R
  | .leftOperand op rhs _ next => R.Closed op ∧ R.Covers rhs ∧ next.StaysIn R
  | .rightOperand op lhs _ next => R.Closed op ∧ R.Has lhs ∧ next.StaysIn R
  | .argument invocation record _ pending next =>
    Stmt.AllStayIn R invocation.body ∧ invocation.Suits R next ∧ R.Holds record
      ∧ (∀ p ∈ pending, R.Covers p.2) ∧ next.StaysIn R

/-- What is left to do stays in the realm. -/
def FlowCont.StaysIn (R : Realm) : FlowCont → Prop
  | .done => True
  | .sequence rest next => Stmt.AllStayIn R rest ∧ next.StaysIn R
  | .round loop next | .again loop next => loop.StaysIn R ∧ next.StaysIn R
  | .invoked invocation next => invocation.Suits R next ∧ next.StaysIn R

end

/-- What is being done and what is left to do stay in the realm. -/
def Control.StaysIn (R : Realm) : Control → Prop
  | .eval e next => R.Covers e ∧ next.StaysIn R
  | .exec s next => s.StaysIn R ∧ next.StaysIn R
  | .value v next => next.Takes R v ∧ next.StaysIn R
  | .flow f next => (∀ v ∈ f.values, R.Has v) ∧ next.StaysIn R

/-- The failure of an operator that is behind a failure of a run. -/
def RuntimeCause.valueError? : RuntimeCause → Option ValueError
  | .divisionByZero => some .divisionByZero
  | .integerOverflow _ => some .overflow
  | .missingValue _ => some .missing
  | .unexpectedReturn _ | .missingReturn _ | .stackExhausted .. | .unboundName ..
  | .unresolvedCall _ | .emptyCallStack => none

theorem RuntimeCause.valueError?_operatorCause (operator : String) (e : ValueError) :
    (Machine.operatorCause operator e).valueError? = some e := by
  cases e <;> rfl

/-- If the run has failed at an operator, then in one of the ways that the realm has. -/
def Outcome.StaysIn (R : Realm) : Outcome → Prop
  | .failure e => ∀ cause, e.cause.valueError? = some cause → R.Fails cause
  | .value _ | .flow _ => True

/-- What the step does and what is left to do stay in the realm. -/
def Action.StaysIn (R : Realm) : Action → Prop
  | .go control => control.StaysIn R
  | .halt outcome => outcome.StaysIn R
  | .read _ _ next => next.StaysIn R
  | .bind _ v _ next | .giveBack v _ next => R.Has v ∧ next.StaysIn R
  | .enter invocation record next =>
    Stmt.AllStayIn R invocation.body ∧ invocation.Suits R next ∧ R.Holds record ∧ next.StaysIn R
  | .leave invocation f next =>
    invocation.Suits R next ∧ (∀ v ∈ f.values, R.Has v) ∧ next.StaysIn R

/-- The control stays in the realm, and the records hold values of the realm. -/
structure MachineState.StaysIn (R : Realm) (s : MachineState) : Prop where
  control : s.control.StaysIn R
  records : ∀ r ∈ s.stack.records, R.Holds r

/-- The step stays in the realm. -/
def Transition.StaysIn (R : Realm) : Transition → Prop
  | .next _ s => s.StaysIn R
  | .halt _ outcome _ => outcome.StaysIn R

section StaysIn

variable {R : Realm} {table : ProcedureTable}

mutual

theorem ValueCont.StaysIn.held : ∀ {k : ValueCont}, k.StaysIn R → ∀ v ∈ k.held, R.Has v
  | .done, _ => by simp [ValueCont.held]
  | .assign _ _ next, h | .discard next, h | .giveBack _ next, h =>
    FlowCont.StaysIn.held (k := next) h
  | .choose _ _ next, h => FlowCont.StaysIn.held (k := next) h.2.2
  | .test _ next, h => FlowCont.StaysIn.held (k := next) h.2
  | .unary _ _ next, h => ValueCont.StaysIn.held (k := next) h
  | .leftOperand _ _ _ next, h => ValueCont.StaysIn.held (k := next) h.2.2
  | .rightOperand _ _ _ _, h => by
    rw [ValueCont.held, List.forall_mem_cons]
    exact ⟨h.2.1, ValueCont.StaysIn.held h.2.2⟩
  | .argument .., h => by
    obtain ⟨-, -, hrecord, -, hnext⟩ := h
    rw [ValueCont.held, List.forall_mem_append]
    exact ⟨hrecord, ValueCont.StaysIn.held hnext⟩

theorem FlowCont.StaysIn.held : ∀ {k : FlowCont}, k.StaysIn R → ∀ v ∈ k.held, R.Has v
  | .done, _ => by simp [FlowCont.held]
  | .sequence _ next, h | .round _ next, h | .again _ next, h =>
    FlowCont.StaysIn.held (k := next) h.2
  | .invoked _ next, h => ValueCont.StaysIn.held (k := next) h.2

end

/-- All values of a state that stays in the realm are in it. -/
theorem MachineState.StaysIn.held {s : MachineState} (h : s.StaysIn R) :
    ∀ v ∈ s.held, R.Has v := by
  obtain ⟨hcontrol, hrecords⟩ := h
  obtain ⟨control, stack⟩ := s
  rw [MachineState.held, List.forall_mem_append]
  constructor
  · intro v hv
    obtain ⟨r, hr, hv⟩ := List.mem_flatMap.mp hv
    exact hrecords r hr v hv
  · cases control with
    | eval e next => exact hcontrol.2.held
    | exec stmt next => exact hcontrol.2.held
    | value v next => exact hcontrol.2.held
    | flow f next =>
      rw [Control.held, List.forall_mem_append]
      exact ⟨hcontrol.1, hcontrol.2.held⟩

/-- Who does not forget a value gets one of the realm. -/
theorem ValueCont.Takes.has {v : Value} {k : ValueCont} (h : k.Takes R v)
    (hk : ∀ next, k ≠ .discard next) : R.Has v := by
  rcases h with h | ⟨-, next, hnext⟩
  · exact h
  · exact (hk next hnext).elim

/-- A flow that carries no value stays in every realm. -/
theorem Control.staysIn_flow {f : Flow} (hf : f.values = []) {next : FlowCont}
    (h : next.StaysIn R) : (Control.flow f next).StaysIn R := by
  refine ⟨?_, h⟩
  rw [hf]
  exact List.forall_mem_nil _

/-- A failure that is none of an operator stays in every realm. -/
theorem Outcome.staysIn_failure {e : RuntimeError} (h : e.cause.valueError? = none) :
    (Outcome.failure e).StaysIn R := by
  intro cause hcause
  rw [h] at hcause
  cases hcause

/-! ### Controls -/

namespace Action

theorem operate_staysIn {next : ValueCont} (h : next.StaysIn R)
    {result : Except ValueError Value} (hresult : Answers R.Has R.Fails result)
    (operator : String) (site : Span) : (operate result operator site next).StaysIn R := by
  cases result with
  | ok v => exact ⟨.inl hresult, h⟩
  | error e =>
    intro cause hcause
    rw [RuntimeCause.valueError?_operatorCause] at hcause
    cases hcause
    exact hresult

theorem supply_staysIn {next : ValueCont} (h : next.StaysIn R) {invocation : Invocation}
    {record : Record} {pending : List (String × Expr)}
    (hbody : Stmt.AllStayIn R invocation.body) (hsuits : invocation.Suits R next)
    (hrecord : R.Holds record) (hpending : ∀ p ∈ pending, R.Covers p.2) :
    (supply invocation record pending next).StaysIn R := by
  cases pending with
  | nil => exact ⟨hbody, hsuits, hrecord, h⟩
  | cons entry rest =>
    obtain ⟨hentry, hrest⟩ := List.forall_mem_cons.mp hpending
    exact ⟨hentry, hbody, hsuits, hrecord, hrest, h⟩

theorem beginCall_staysIn (htable : table.StaysIn R) {next : ValueCont} (h : next.StaysIn R)
    {args : List Expr} (hargs : ∀ a ∈ args, R.Covers a) {resolved : Option ProcedureSymbol}
    (hsuits : ∀ symbol, resolved = some symbol → symbol.returnType = none → next.Takes R .none)
    (name : String) (site : Span) :
    (beginCall table name args resolved site next).StaysIn R := by
  cases resolved with
  | none => exact Outcome.staysIn_failure rfl
  | some symbol =>
    simp only [beginCall]
    cases hfind : table.find? symbol.id with
    | none => exact Outcome.staysIn_failure rfl
    | some procedure =>
      have hbody := htable procedure (List.mem_of_find?_eq_some hfind)
      refine supply_staysIn h hbody (hsuits symbol rfl) (fun v hv => ?_) fun p hp => ?_
      · cases hv
      · exact hargs p.2 (List.of_mem_zip hp).2

end Action

theorem Expr.action_staysIn (htable : table.StaysIn R) {next : ValueCont} (h : next.StaysIn R)
    {e : Expr} (he : R.Covers e) : (e.action table next).StaysIn R := by
  cases e with
  | number n => exact ⟨.inl (R.int n), h⟩
  | var => exact h
  | unary => exact ⟨he.operand, h⟩
  | binary => exact ⟨he.lhs, he.root, he.rhs, h⟩
  | call name args resolved site =>
    refine Action.beginCall_staysIn htable h he.arguments (fun symbol hsymbol hnone => ?_) name site
    subst hsymbol
    exact .inl (he.root hnone)

theorem Stmt.action_staysIn (htable : table.StaysIn R) {next : FlowCont} (h : next.StaysIn R)
    {s : Stmt} (hs : s.StaysIn R) : (s.action table next).StaysIn R := by
  cases s with
  | compound body => exact Control.staysIn_flow rfl ⟨hs, h⟩
  | declaration => exact ⟨hs, h⟩
  | assign => exact ⟨hs, h⟩
  | call name args resolved site =>
    have hdiscard : (ValueCont.discard next).StaysIn R := h
    exact Action.beginCall_staysIn htable hdiscard hs (fun _ _ _ => .inr ⟨rfl, next, rfl⟩) name site
  | conditional => exact ⟨hs.1, hs.2.1, hs.2.2, h⟩
  | whileLoop test body => exact ⟨hs.1, ⟨hs.1, hs.2, trivial⟩, h⟩
  | doWhile test body => exact ⟨hs.2, ⟨hs.1, hs.2, trivial⟩, h⟩
  | forLoop init test step body =>
    obtain ⟨hinit, htest, hstep, hbody⟩ := hs
    exact ⟨hinit, ⟨htest, hbody, hstep⟩, h⟩
  | giveBack => exact ⟨hs, h⟩
  | breakLoop | continueLoop | pass | procedure => exact Control.staysIn_flow rfl h

theorem ValueCont.action_staysIn {k : ValueCont} (h : k.StaysIn R) {v : Value}
    (hv : k.Takes R v) : (k.action v).StaysIn R := by
  rcases hv with hv | ⟨-, next, rfl⟩
  · cases k with
    | done => trivial
    | assign | giveBack => exact ⟨hv, h⟩
    | discard next => exact Control.staysIn_flow rfl h
    | choose body otherwise next =>
      obtain ⟨hbody, hother, h⟩ := h
      cases otherwise with
      | none =>
        rw [action]
        split
        · exact ⟨hbody, h⟩
        · exact Control.staysIn_flow rfl h
      | some stmt =>
        rw [action]
        split
        · exact ⟨hbody, h⟩
        · exact ⟨hother, h⟩
    | test loop next =>
      rw [action]
      split
      · exact ⟨h.1.body, h⟩
      · exact Control.staysIn_flow rfl h.2
    | unary op site next =>
      have hnext : next.StaysIn R := h
      exact Action.operate_staysIn hnext (R.unary op v hv) ..
    | leftOperand => exact ⟨h.2.1, h.1, hv, h.2.2⟩
    | rightOperand op lhs site next =>
      obtain ⟨hop, hlhs, h⟩ := h
      exact Action.operate_staysIn h (hop lhs v hlhs hv) ..
    | argument invocation record param pending next =>
      obtain ⟨hbody, hsuits, hrecord, hpending, h⟩ := h
      exact Action.supply_staysIn h hbody hsuits (hrecord.set hv param) hpending
  · -- a missing value that is to be forgotten
    exact Control.staysIn_flow rfl h

theorem FlowCont.action_staysIn {k : FlowCont} (h : k.StaysIn R) {f : Flow}
    (hf : ∀ v ∈ f.values, R.Has v) : (k.action f).StaysIn R := by
  cases k with
  | done => trivial
  | sequence rest next =>
    cases f with
    | completed =>
      cases rest with
      | nil => exact ⟨hf, h.2⟩
      | cons s rest => exact ⟨h.1.1, h.1.2, h.2⟩
    | _ => exact ⟨hf, h.2⟩
  | round loop next =>
    obtain ⟨test, body, step⟩ := loop
    cases f with
    | completed | continued =>
      cases step with
      | none => exact ⟨h.1.test, h⟩
      | some stmt => exact ⟨h.1.step, h⟩
    | broke => exact Control.staysIn_flow rfl h.2
    | returned => exact ⟨hf, h.2⟩
  | again loop next => exact ⟨h.1.test, h⟩
  | invoked invocation next => exact ⟨h.1, hf, h.2⟩

theorem Control.action_staysIn (htable : table.StaysIn R) {c : Control} (h : c.StaysIn R) :
    (c.action table).StaysIn R := by
  cases c with
  | eval e k => exact Expr.action_staysIn htable h.2 h.1
  | exec s k => exact Stmt.action_staysIn htable h.2 h.1
  | value v k => exact ValueCont.action_staysIn h.2 h.1
  | flow f k => exact FlowCont.action_staysIn h.2 h.1

/-! ### Steps and runs -/

namespace Machine

variable {stack : CallStack}

theorem update_staysIn {next : FlowCont} (hk : next.StaysIn R)
    (h : ∀ r ∈ stack.records, R.Holds r) {change : Record → Record}
    (hchange : ∀ r, R.Holds r → R.Holds (change r)) {f : Flow} (hf : ∀ v ∈ f.values, R.Has v)
    (site : Span) : (update change f site next stack).StaysIn R := by
  rw [update]
  split
  · next t ht =>
    obtain ⟨r, rest, hstack, htop⟩ := CallStack.records_of_modifyTop? ht
    rw [hstack, List.forall_mem_cons] at h
    refine ⟨⟨hf, hk⟩, ?_⟩
    show ∀ r ∈ t.records, R.Holds r
    rw [htop, List.forall_mem_cons]
    exact ⟨hchange r h.1, h.2⟩
  · exact Outcome.staysIn_failure rfl

theorem endCall_staysIn {invocation : Invocation} {next : ValueCont}
    (hsuits : invocation.Suits R next) {f : Flow} (hf : ∀ v ∈ f.values, R.Has v)
    (hk : next.StaysIn R) (h : ∀ r ∈ stack.records, R.Holds r) :
    (endCall invocation f next stack).StaysIn R := by
  have hdrop : ∀ r ∈ (dropRecord stack).2.records, R.Holds r := by
    rw [dropRecord]
    split
    · exact h
    · next r rest hpop =>
      rw [CallStack.records_of_pop? hpop, List.forall_mem_cons] at h
      exact h.2
  rw [endCall]
  cases hreturn : invocation.symbol.returnType with
  | none =>
    cases f with
    | returned v => exact Outcome.staysIn_failure rfl
    | completed | broke | continued => exact ⟨⟨hsuits hreturn, hk⟩, hdrop⟩
  | some type =>
    cases f with
    | returned v => exact ⟨⟨.inl (hf v List.mem_cons_self), hk⟩, hdrop⟩
    | completed | broke | continued => exact Outcome.staysIn_failure rfl

/-- **One action.**  What stays in the realm leads to a state that does. -/
theorem perform_staysIn {a : Action} (ha : a.StaysIn R) (h : ∀ r ∈ stack.records, R.Holds r) :
    (a.perform stack).StaysIn R := by
  cases a with
  | go control => exact ⟨ha, h⟩
  | halt outcome => exact ha
  | read name site next =>
    rw [Action.perform, readName]
    split
    · exact Outcome.staysIn_failure rfl
    · next record hrecord =>
      split
      · next v hv =>
        have hholds := h record (List.mem_of_head? hrecord)
        exact ⟨⟨.inl (hholds.get? hv), ha⟩, h⟩
      · exact Outcome.staysIn_failure rfl
  | bind name v site next =>
    have hf : ∀ v ∈ Flow.completed.values, R.Has v := List.forall_mem_nil _
    exact update_staysIn ha.2 h (fun _ hr => hr.set ha.1 name) hf site
  | giveBack v site next =>
    refine update_staysIn ha.2 h (fun _ hr => hr.giveBack ha.1) (fun w hw => ?_) site
    obtain rfl := List.mem_singleton.mp hw
    exact ha.1
  | enter invocation record next =>
    obtain ⟨hbody, hsuits, hrecord, hk⟩ := ha
    rw [Action.perform, enterBody]
    split
    · exact Outcome.staysIn_failure rfl
    · next pushed hpush =>
      refine ⟨Control.staysIn_flow rfl ⟨hbody, hsuits, hk⟩, ?_⟩
      show ∀ r ∈ pushed.records, R.Holds r
      rw [(CallStack.records_of_push? hpush).1, List.forall_mem_cons]
      exact ⟨hrecord, h⟩
  | leave invocation f next => exact endCall_staysIn ha.1 ha.2.1 ha.2.2 h

/-- **One step.**  A state that stays in the realm leads to one that does, or fails in one of its
ways. -/
theorem step_staysIn (htable : table.StaysIn R) {s : MachineState} (h : s.StaysIn R) :
    (step table s).StaysIn R := by
  rw [step_eq_perform]
  exact perform_staysIn (Control.action_staysIn htable h.control) h.records

theorem staysIn_of_reaches (htable : table.StaysIn R) {s t : MachineState} (h : s.StaysIn R)
    (hr : Reaches table s t) : t.StaysIn R := by
  induction hr with
  | refl => exact h
  | tail _ hstep ih =>
    obtain ⟨events, hstep⟩ := hstep
    have hnext := step_staysIn htable ih
    rw [hstep] at hnext
    exact hnext

end Machine

end StaysIn

/-! ## Programs -/

namespace Realm

variable {R : Realm} {m : Module}

theorem staysIn_ofModule (h : Stmt.AllStayIn R m.body) :
    (ProcedureTable.ofModule m).StaysIn R :=
  fun q hq => h.procedures q (List.mem_reverse.mp hq)

/-- **A run.**  The states that a covered program leads to stay in the realm. -/
theorem staysIn_of_visits (h : Stmt.AllStayIn R m.body) {i : Interpreter} {s : MachineState}
    (hvisits : i.Visits m s) : s.StaysIn R := by
  obtain ⟨pushed, hpush, hreach⟩ := hvisits
  have hstart : MachineState.StaysIn R ⟨.flow .completed (.sequence m.body .done), pushed⟩ := by
    refine ⟨Control.staysIn_flow rfl ⟨h, trivial⟩, fun r hr v hv => ?_⟩
    rw [(CallStack.records_of_push? hpush).1] at hr
    obtain rfl := List.mem_singleton.mp hr
    cases hv
  exact Machine.staysIn_of_reaches (staysIn_ofModule h) hstart hreach

/-- If the run of a covered program fails at an operator, then in one of the ways of the realm. -/
theorem fails_of_interpret (h : Stmt.AllStayIn R m.body) {i : Interpreter} {σ : Type}
    {observe : σ → Event → σ} {seen : σ} {fuel : Nat} {run : Run σ} {e : RuntimeError}
    (hrun : i.interpret observe seen fuel m = some run) (hresult : run.result = .error e)
    {cause : ValueError} (hcause : e.cause.valueError? = some cause) : R.Fails cause := by
  have hfull (name : String) (limit : Nat) : e.cause ≠ .stackExhausted name limit := by
    intro he
    rw [he] at hcause
    cases hcause
  have hempty : e.cause ≠ .emptyCallStack := by
    intro he
    rw [he] at hcause
    cases hcause
  obtain ⟨s, hvisits, events, t, hstep⟩ :=
    Interpreter.exists_fails_of_interpret hrun hresult hfull hempty
  have hfails := Machine.step_staysIn (staysIn_ofModule h) (staysIn_of_visits h hvisits)
  rw [hstep] at hfails
  exact hfails cause hcause

end Realm

end Imperative
