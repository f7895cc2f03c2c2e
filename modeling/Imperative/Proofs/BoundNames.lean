import Imperative.Proofs.Frame
import Imperative.Proofs.PendingCalls
import Imperative.Proofs.SafeRuns

/-!
# Which names a record comes to bind

Execution keeps one flat record for each invocation and consults no scopes: an assignment binds its
target in the innermost record, wherever the variable was declared.  So what a record comes to bind
is a matter of which statements run while it is the innermost one.  These are the statements of its
own invocation, up to the end of the body; whatever a call inside it does happens in other records.

## The invariant

Each call that is going on has its record, and below them lies that of the program (`Housed`).  A
record is *at home* with the parameters of its call and with the names that the body declares or
assigns, and `Control.Keeps` says that everything that is left to do binds names only where they are
at home.

* `Machine.step_keeps`, `Machine.keeps_of_reaches`: a step and a run keep the invariant.
* `Interpreter.Visits.keeps`: so it holds in every state that running a module leads to.
-/

namespace Imperative

/-! ## Records at home -/

/-- Nothing but the given names is bound in the record. -/
def Record.BindsOnly (r : Record) (names : List String) : Prop :=
  ∀ x v, r.get? x = some v → x ∈ names

namespace Record.BindsOnly

variable {r : Record} {names names' : List String}

theorem mono (h : r.BindsOnly names) (hsub : names ⊆ names') : r.BindsOnly names' :=
  fun x v hx => hsub (h x v hx)

theorem set {x : String} (h : r.BindsOnly names) (hx : x ∈ names) (v : Value) :
    (r.set x v).BindsOnly names := by
  intro y w hy
  by_cases e : y = x
  · rw [e]
    exact hx
  · have hkept : (r.set x v).get? y = r.get? y := Bindings.get?_set_of_ne r.bindings v e
    rw [hkept] at hy
    exact h y w hy

end Record.BindsOnly

/-- The names with which the record of a call is at home: the parameters, and what the body itself
declares or assigns. -/
def Invocation.names (invocation : Invocation) : List String :=
  invocation.symbol.params.map (·.name) ++ Stmt.allTargets invocation.body

/-- The names with which the innermost record is at home, when those of the program are `outer`. -/
def home (outer : List String) : List (Invocation × ValueCont) → List String
  | [] => outer
  | call :: _ => call.1.names

/-- Each call that is going on has a record, and below them lies the record of the program; all of
them bind only names with which they are at home. -/
inductive Housed (outer : List String) : List (Invocation × ValueCont) → List Record → Prop
  | program {r : Record} (kind : r.kind = .program) (bound : r.BindsOnly outer) :
      Housed outer [] [r]
  | call {invocation : Invocation} {next : ValueCont} {calls : List (Invocation × ValueCont)}
      {r : Record} {rest : List Record} (kind : r.kind = .procedure)
      (bound : r.BindsOnly invocation.names) (below : Housed outer calls rest) :
      Housed outer ((invocation, next) :: calls) (r :: rest)

namespace Housed

variable {outer : List String} {calls : List (Invocation × ValueCont)} {records : List Record}

theorem ne_nil (h : Housed outer calls records) : records ≠ [] := by
  cases h <;> exact List.cons_ne_nil _ _

/-- The record of the program is the innermost one only while no call is going on. -/
theorem eq_nil_of_program {r : Record} {rest : List Record} (h : Housed outer calls (r :: rest))
    (hkind : r.kind = .program) : calls = [] := by
  cases h with
  | program => rfl
  | call kind =>
    rw [kind] at hkind
    cases hkind

/-- A change of the innermost record that keeps it at home. -/
theorem modify {r : Record} {rest : List Record} (h : Housed outer calls (r :: rest))
    {change : Record → Record} (hkind : (change r).kind = r.kind)
    (hbound : r.BindsOnly (home outer calls) → (change r).BindsOnly (home outer calls)) :
    Housed outer calls (change r :: rest) := by
  cases h with
  | program kind bound => exact .program (hkind.trans kind) (hbound bound)
  | call kind bound below => exact .call (hkind.trans kind) (hbound bound) below

/-- The records of the calls stand in front of that of the program. -/
theorem exists_append (h : Housed outer calls records) :
    ∃ locals program, records = locals ++ [program] ∧ program.kind = .program
      ∧ program.BindsOnly outer
      ∧ List.Forall₂ (fun r invocation => r.kind = .procedure ∧ r.BindsOnly invocation.names)
        locals (calls.map Prod.fst) := by
  induction h with
  | @program r kind bound => exact ⟨[], r, rfl, kind, bound, .nil⟩
  | @call invocation next calls r rest kind bound below ih =>
    obtain ⟨locals, program, rfl, hkind, hbound, hlocals⟩ := ih
    exact ⟨r :: locals, program, rfl, hkind, hbound, .cons ⟨kind, bound⟩ hlocals⟩

end Housed

/-! ## Controls that bind names at home -/

/-- The record of a call that is being prepared binds only parameters, and the names that it is
still to bind are parameters too. -/
structure Invocation.Prepares (invocation : Invocation) (record : Record) (names : List String) :
    Prop where
  kind_eq : record.kind = .procedure
  bound : record.BindsOnly (invocation.symbol.params.map (·.name))
  pending : names ⊆ invocation.symbol.params.map (·.name)

mutual

/-- What is left to do binds names only where they are at home. -/
def ValueCont.Keeps (outer : List String) : ValueCont → Prop
  | .done => True
  | .assign name _ next => name ∈ home outer next.pending ∧ next.Keeps outer
  | .discard next | .giveBack _ next => next.Keeps outer
  | .choose body otherwise next =>
    body.targets ++ Stmt.targets? otherwise ⊆ home outer next.pending ∧ next.Keeps outer
  | .test loop next => loop.targets ⊆ home outer next.pending ∧ next.Keeps outer
  | .unary _ _ next | .leftOperand _ _ _ next | .rightOperand _ _ _ next => next.Keeps outer
  | .argument invocation record param pending next =>
    invocation.Prepares record (param :: pending.map Prod.fst) ∧ next.Keeps outer

/-- What is left to do binds names only where they are at home. -/
def FlowCont.Keeps (outer : List String) : FlowCont → Prop
  | .done => True
  | .sequence rest next =>
    Stmt.allTargets rest ⊆ home outer next.pending ∧ next.Keeps outer
  | .round loop next | .again loop next =>
    loop.targets ⊆ home outer next.pending ∧ next.Keeps outer
  | .invoked _ next => next.Keeps outer

end

/-- The control and what is left to do bind names only where they are at home. -/
def Control.Keeps (outer : List String) : Control → Prop
  | .eval _ next | .value _ next => next.Keeps outer
  | .exec s next => s.targets ⊆ home outer next.pending ∧ next.Keeps outer
  | .flow _ next => next.Keeps outer

/-- The action and what is left to do bind names only where they are at home. -/
def Action.Keeps (outer : List String) : Action → Prop
  | .go control => control.Keeps outer
  | .halt _ => True
  | .read _ _ next | .leave _ _ next => next.Keeps outer
  | .bind name _ _ next => name ∈ home outer next.pending ∧ next.Keeps outer
  | .giveBack _ _ next => next.Keeps outer
  | .enter invocation record next => invocation.Prepares record [] ∧ next.Keeps outer

section Keeps

variable {outer : List String} {table : ProcedureTable}

namespace Action

theorem operate_keeps {next : ValueCont} (h : next.Keeps outer)
    (result : Except ValueError Value) (operator : String) (site : Span) :
    (operate result operator site next).Keeps outer := by
  cases result with
  | ok v => exact h
  | error e => trivial

theorem supply_keeps {next : ValueCont} (h : next.Keeps outer) {invocation : Invocation}
    {record : Record} {pending : List (String × Expr)}
    (hp : invocation.Prepares record (pending.map Prod.fst)) :
    (supply invocation record pending next).Keeps outer := by
  cases pending with
  | nil => exact ⟨hp, h⟩
  | cons entry rest => exact ⟨hp, h⟩

theorem beginCall_keeps {next : ValueCont} (h : next.Keeps outer) (name : String)
    (args : List Expr) (resolved : Option ProcedureSymbol) (site : Span) :
    (beginCall table name args resolved site next).Keeps outer := by
  cases resolved with
  | none => trivial
  | some symbol =>
    simp only [beginCall]
    cases table.find? symbol.id with
    | none => trivial
    | some procedure =>
      refine supply_keeps h ⟨rfl, fun x v hx => ?_, fun x hx => ?_⟩
      · cases hx
      · obtain ⟨entry, hentry, rfl⟩ := List.mem_map.mp hx
        exact (List.of_mem_zip hentry).1

end Action

theorem Expr.action_keeps {next : ValueCont} (h : next.Keeps outer) (e : Expr) :
    (e.action table next).Keeps outer := by
  cases e with
  | call name args resolved site => exact Action.beginCall_keeps h name args resolved site
  | _ => exact h

theorem Stmt.action_keeps {next : FlowCont} (h : next.Keeps outer) {s : Stmt}
    (hs : s.targets ⊆ home outer next.pending) :
    (s.action table next).Keeps outer := by
  cases s with
  | call name args resolved site =>
    have hdiscard : (ValueCont.discard next).Keeps outer := h
    exact Action.beginCall_keeps hdiscard name args resolved site
  | declaration => exact ⟨hs List.mem_cons_self, h⟩
  | assign => exact ⟨hs List.mem_cons_self, h⟩
  | whileLoop test body =>
    refine ⟨List.Subset.trans ?_ hs, h⟩
    simp [Loop.targets, Stmt.targets, Stmt.targets?]
  | doWhile test body =>
    refine ⟨hs, List.Subset.trans ?_ hs, h⟩
    simp [Loop.targets, Stmt.targets, Stmt.targets?]
  | forLoop init test step body =>
    refine ⟨List.Subset.trans ?_ hs, List.Subset.trans ?_ hs, h⟩
    · simp [Stmt.targets]
    · simp [Loop.targets, Stmt.targets, Stmt.targets?]
  | compound | conditional => exact ⟨hs, h⟩
  | giveBack | breakLoop | continueLoop | pass | procedure => exact h

theorem ValueCont.action_keeps {k : ValueCont} (h : k.Keeps outer) (v : Value) :
    (k.action v).Keeps outer := by
  cases k with
  | done => trivial
  | assign => exact h
  | choose body otherwise next =>
    obtain ⟨hs, h⟩ := h
    rw [List.append_subset] at hs
    cases otherwise with
    | none =>
      rw [action]
      split
      · exact ⟨hs.1, h⟩
      · exact h
    | some stmt =>
      rw [action]
      split
      · exact ⟨hs.1, h⟩
      · exact ⟨hs.2, h⟩
  | test loop next =>
    rw [action]
    split
    · exact ⟨(List.append_subset.mp h.1).1, h⟩
    · exact h.2
  | unary _ _ next | rightOperand _ _ _ next =>
    have hnext : next.Keeps outer := h
    exact Action.operate_keeps hnext ..
  | argument invocation record param pending next =>
    obtain ⟨⟨hkind, hbound, hpending⟩, h⟩ := h
    have hparam := hpending List.mem_cons_self
    exact Action.supply_keeps h
      ⟨hkind, hbound.set hparam v, fun x hx => hpending (List.mem_cons_of_mem _ hx)⟩
  | discard | giveBack | leftOperand => exact h

theorem FlowCont.action_keeps {k : FlowCont} (h : k.Keeps outer) (f : Flow) :
    (k.action f).Keeps outer := by
  cases k with
  | done => trivial
  | sequence rest next =>
    cases f with
    | completed =>
      cases rest with
      | nil => exact h.2
      | cons s rest =>
        obtain ⟨hs, hrest⟩ := List.append_subset.mp h.1
        exact ⟨hs, hrest, h.2⟩
    | _ => exact h.2
  | round loop next =>
    obtain ⟨test, body, step⟩ := loop
    cases f with
    | completed | continued =>
      cases step with
      | none => exact h
      | some stmt => exact ⟨(List.append_subset.mp h.1).2, h⟩
    | broke | returned => exact h.2
  | again loop next => exact h
  | invoked invocation next => exact h

theorem Control.action_keeps {c : Control} (h : c.Keeps outer) :
    (c.action table).Keeps outer := by
  cases c with
  | eval e k => exact Expr.action_keeps h e
  | exec s k => exact Stmt.action_keeps h.2 h.1
  | value v k => exact ValueCont.action_keeps h v
  | flow f k => exact FlowCont.action_keeps h f

end Keeps

/-! ## Runs -/

/-- What is left to do binds names only where they are at home, and so did what has been done. -/
structure MachineState.Keeps (outer : List String) (s : MachineState) : Prop where
  control : s.control.Keeps outer
  housed : Housed outer s.control.pending s.stack.records

namespace Machine

variable {outer : List String} {table : ProcedureTable} {stack : CallStack}

theorem update_keeps {next : FlowCont} (hk : next.Keeps outer)
    (h : Housed outer next.pending stack.records) (change : Record → Record)
    (hkind : ∀ r, (change r).kind = r.kind)
    (hbound : ∀ r : Record, r.BindsOnly (home outer next.pending) →
      (change r).BindsOnly (home outer next.pending))
    {f : Flow} {site : Span} {events : List Event} {s : MachineState}
    (hstep : update change f site next stack = .next events s) : s.Keeps outer := by
  obtain ⟨r, rest, hr⟩ := List.exists_cons_of_ne_nil h.ne_nil
  obtain ⟨t, ht, hrecords⟩ := CallStack.modifyTop?_of_cons hr change
  rw [update, ht] at hstep
  cases hstep
  rw [hr] at h
  refine ⟨hk, ?_⟩
  rw [hrecords]
  exact h.modify (hkind r) (hbound r)

/-- **One action.**  What binds names at home keeps the records at home. -/
theorem perform_keeps {a : Action} {calls : List (Invocation × ValueCont)} (ha : a.Keeps outer)
    (hp : a.Pending calls) (h : Housed outer calls stack.records) {events : List Event}
    {s : MachineState} (hstep : a.perform stack = .next events s) : s.Keeps outer := by
  cases a with
  | go control =>
    obtain rfl := hp
    cases hstep
    exact ⟨ha, h⟩
  | halt outcome => cases hstep
  | read name site next =>
    obtain rfl := hp
    rw [Action.perform, readName] at hstep
    split at hstep
    · cases hstep
    · split at hstep
      · cases hstep
        exact ⟨ha, h⟩
      · cases hstep
  | bind name v site next =>
    obtain rfl := hp
    exact update_keeps ha.2 h (·.set name v) (fun _ => rfl) (fun _ hr => hr.set ha.1 v) hstep
  | giveBack v site next =>
    obtain rfl := hp
    exact update_keeps ha h (fun r => { r with returned := some v }) (fun _ => rfl)
      (fun _ hr => hr) hstep
  | enter invocation record next =>
    obtain rfl := hp
    obtain ⟨⟨hkind, hbound, -⟩, hk⟩ := ha
    rw [Action.perform, enterBody] at hstep
    cases hpush : stack.push? record with
    | none =>
      rw [hpush] at hstep
      cases hstep
    | some pushed =>
      rw [hpush] at hstep
      cases hstep
      have hrecords := (CallStack.records_of_push? hpush).1
      refine ⟨⟨List.subset_append_right _ _, hk⟩, ?_⟩
      rw [hrecords]
      exact .call hkind (hbound.mono (List.subset_append_left _ _)) h
  | leave invocation f next =>
    obtain rfl := hp
    cases hrecords : stack.records with
    | nil => exact absurd hrecords h.ne_nil
    | cons r rest =>
      obtain ⟨t, ht, hrest⟩ := CallStack.pop?_of_cons hrecords
      rw [hrecords] at h
      rw [Action.perform] at hstep
      rcases endCall_cases invocation f next with ⟨v, hend⟩ | ⟨e, hend⟩
      · rw [hend, dropRecord, ht] at hstep
        cases hstep
        refine ⟨ha, ?_⟩
        rw [hrest]
        cases h with
        | call _ _ below => exact below
      · rw [hend] at hstep
        cases hstep

theorem step_keeps {s s' : MachineState} (h : s.Keeps outer) {events : List Event}
    (hstep : step table s = .next events s') : s'.Keeps outer := by
  rw [step_eq_perform] at hstep
  exact perform_keeps (Control.action_keeps h.control) (s.control.action_pending table) h.housed
    hstep

theorem keeps_of_reaches {s t : MachineState} (h : s.Keeps outer) (hr : Reaches table s t) :
    t.Keeps outer := by
  induction hr with
  | refl => exact h
  | tail _ hstep ih =>
    obtain ⟨events, hstep⟩ := hstep
    exact step_keeps ih hstep

end Machine

/-- In every state that running a module leads to, names are bound only where they are at home. -/
theorem Interpreter.Visits.keeps {i : Interpreter} {m : Module} {s : MachineState}
    (h : i.Visits m s) : s.Keeps (Stmt.allTargets m.body) := by
  obtain ⟨pushed, hpush, hreach⟩ := h
  have hrecords : pushed.records = [programRecord] := (CallStack.records_of_push? hpush).1
  have hstart : MachineState.Keeps (Stmt.allTargets m.body)
      ⟨.flow .completed (.sequence m.body .done), pushed⟩ := by
    refine ⟨⟨List.Subset.refl _, trivial⟩, ?_⟩
    rw [hrecords]
    exact .program rfl fun _ _ => nofun
  exact Machine.keeps_of_reaches hstart hreach

end Imperative
