import Imperative.Proofs.Frame
import Imperative.Proofs.PendingCalls
import Imperative.Proofs.SafeRuns

/-!
# Reads that may come before a binding

A name is bound when a declaration of it, or an assignment to it, is executed, and not before.  This
file follows one name `x` through the program itself, calls left out, and finds the reads of `x`
that may come while `x` is still unbound: they are *exposed*.

## The transfer functions

* `Stmt.settles`: if the statement runs to its end, `x` is bound behind it.
* `Stmt.jumps`: the statement may end with a jump instead.  Loops catch the jumps of their bodies,
  so the body of a do-while loop settles something for the loop only if it has no jump.
* `Stmt.exposed`: the exposed reads of a statement in front of which `x` is unbound.  Branches of a
  conditional and bodies of other loops may be left out, so they settle nothing.

## The invariant

Either `x` is bound in the record of the program, or what is left to do reads `x` only at the given
places before it binds it (`Control.Exposes`).  While calls are going on this is a matter of what
waits for the outermost of them (`Exposed`), since nothing that happens before can bind or read a
name in the record of the program.

* `Machine.step_exposed`, `Machine.exposed_of_reaches`: a step and a run keep the invariant.
* `Machine.of_unboundName`: the machine stops at an unbound name only where it was to read it.
* `Module.Fit.exposed_of_unboundName`: so a read that finds nothing is exposed.
-/

namespace Imperative

/-! ## The transfer functions -/

mutual

/-- Where the expression reads the name in the record in which it is evaluated. -/
def Expr.reads (x : String) : Expr → List Span
  | .number .. => []
  | .var name span => if name = x then [span] else []
  | .unary _ operand _ => operand.reads x
  | .binary _ lhs rhs _ => lhs.reads x ++ rhs.reads x
  | .call _ args _ _ => Expr.allReads x args

/-- Where the expressions read the name. -/
def Expr.allReads (x : String) : List Expr → List Span
  | [] => []
  | e :: es => e.reads x ++ Expr.allReads x es

end

mutual

/-- The statement may end with a jump. -/
def Stmt.jumps : Stmt → Bool
  | .compound body _ => Stmt.anyJumps body
  | .conditional _ body otherwise _ => body.jumps || Stmt.jumps? otherwise
  | .breakLoop _ | .continueLoop _ => true
  | .declaration .. | .assign .. | .call .. | .whileLoop .. | .doWhile .. | .forLoop .. | .giveBack ..
  | .pass _ | .procedure .. => false

/-- One of the statements may end with a jump. -/
def Stmt.anyJumps : List Stmt → Bool
  | [] => false
  | s :: ss => s.jumps || Stmt.anyJumps ss

/-- A statement that may be absent may end with a jump. -/
def Stmt.jumps? : Option Stmt → Bool
  | none => false
  | some s => s.jumps

end

mutual

/-- If the statement runs to its end, the name is bound behind it. -/
def Stmt.settles (x : String) : Stmt → Bool
  | .compound body _ => Stmt.anySettles x body
  | .declaration name _ _ | .assign name _ _ => name == x
  | .doWhile _ body _ => body.settles x && !body.jumps
  | .forLoop init _ _ _ _ => init.settles x && !init.jumps
  | .call .. | .conditional .. | .whileLoop .. | .giveBack .. | .breakLoop _ | .continueLoop _
  | .pass _ | .procedure .. => false

/-- If the statements run to their end, the name is bound behind them. -/
def Stmt.anySettles (x : String) : List Stmt → Bool
  | [] => false
  | s :: ss => s.settles x || Stmt.anySettles x ss

end

mutual

/-- Where the statement may read the name before binding it. -/
def Stmt.exposed (x : String) : Stmt → List Span
  | .compound body _ => Stmt.allExposed x body
  | .assign _ value _ | .giveBack value _ => value.reads x
  | .call _ args _ _ => Expr.allReads x args
  | .conditional test body otherwise _ =>
    test.reads x ++ body.exposed x ++ Stmt.exposed? x otherwise
  | .whileLoop test body _ | .doWhile test body _ => test.reads x ++ body.exposed x
  | .forLoop init test step body _ =>
    init.exposed x ++ if init.settles x && !init.jumps then []
      else test.reads x ++ body.exposed x ++ step.exposed x
  | .declaration .. | .breakLoop _ | .continueLoop _ | .pass _ | .procedure .. => []

/-- Where the statements may read the name before binding it. -/
def Stmt.allExposed (x : String) : List Stmt → List Span
  | [] => []
  | s :: ss => s.exposed x ++ if s.settles x then [] else Stmt.allExposed x ss

/-- Where a statement that may be absent may read the name before binding it. -/
def Stmt.exposed? (x : String) : Option Stmt → List Span
  | none => []
  | some s => s.exposed x

end

/-- Where the rounds of a loop may read the name before binding it. -/
def Loop.exposed (x : String) (loop : Loop) : List Span :=
  loop.test.reads x ++ loop.body.exposed x ++ Stmt.exposed? x loop.step

/-! ## What is left to do -/

mutual

/-- Handed a value while the name is unbound, the continuation reads the name only at the given
places before it binds it.  No call is going on. -/
def ValueCont.Exposes (x : String) (spans : List Span) : ValueCont → Prop
  | .done | .giveBack .. => True
  | .assign name _ next => name ≠ x → next.Exposes x spans false
  | .discard next => next.Exposes x spans false
  | .choose body otherwise next => body.exposed x ⊆ spans ∧ Stmt.exposed? x otherwise ⊆ spans
    ∧ next.Exposes x spans false
    ∧ (body.jumps || Stmt.jumps? otherwise → next.Exposes x spans true)
  | .test loop next => loop.exposed x ⊆ spans ∧ next.Exposes x spans false
  | .unary _ _ next | .rightOperand _ _ _ next => next.Exposes x spans
  | .leftOperand _ rhs _ next => rhs.reads x ⊆ spans ∧ next.Exposes x spans
  | .argument _ _ _ pending next =>
    Expr.allReads x (pending.map Prod.snd) ⊆ spans ∧ next.Exposes x spans

/-- Handed the end of a statement, or a jump, while the name is unbound, the continuation reads the
name only at the given places before it binds it.  No call is going on. -/
def FlowCont.Exposes (x : String) (spans : List Span) : Bool → FlowCont → Prop
  | _, .done | _, .invoked .. => True
  | false, .sequence rest next => Stmt.allExposed x rest ⊆ spans
    ∧ (Stmt.anySettles x rest = false → next.Exposes x spans false)
    ∧ (Stmt.anyJumps rest → next.Exposes x spans true)
  | true, .sequence _ next => next.Exposes x spans true
  | _, .round loop next | _, .again loop next =>
    loop.exposed x ⊆ spans ∧ next.Exposes x spans false

end

/-- While the name is unbound, the control and what is left to do read it only at the given places
before they bind it.  No call is going on. -/
def Control.Exposes (x : String) (spans : List Span) : Control → Prop
  | .eval e next => e.reads x ⊆ spans ∧ next.Exposes x spans
  | .exec s next => s.exposed x ⊆ spans ∧ (s.settles x = false → next.Exposes x spans false)
    ∧ (s.jumps → next.Exposes x spans true)
  | .value _ next => next.Exposes x spans
  | .flow .completed next => next.Exposes x spans false
  | .flow .broke next | .flow .continued next => next.Exposes x spans true
  | .flow (.returned _) _ => True

/-- The same of an action. -/
def Action.Exposes (x : String) (spans : List Span) : Action → Prop
  | .go control => control.Exposes x spans
  | .halt _ | .giveBack .. | .leave .. => True
  | .read name site next => (name = x → site ∈ spans) ∧ next.Exposes x spans
  | .bind name _ _ next => name ≠ x → next.Exposes x spans false
  | .enter _ _ next => next.Exposes x spans

section Exposes

variable {x : String} {spans : List Span} {table : ProcedureTable}

namespace Action

theorem operate_exposes {next : ValueCont} (h : next.Exposes x spans)
    (result : Except ValueError Value) (operator : String) (site : Span) :
    (operate result operator site next).Exposes x spans := by
  cases result with
  | ok v => exact h
  | error e => trivial

theorem supply_exposes {next : ValueCont} (h : next.Exposes x spans) (invocation : Invocation)
    (record : Record) {pending : List (String × Expr)}
    (hp : Expr.allReads x (pending.map Prod.snd) ⊆ spans) :
    (supply invocation record pending next).Exposes x spans := by
  cases pending with
  | nil => exact h
  | cons entry rest =>
    obtain ⟨harg, hrest⟩ := List.append_subset.mp hp
    exact ⟨harg, hrest, h⟩

theorem allReads_zip_subset (names : List String) (args : List Expr) :
    Expr.allReads x ((names.zip args).map Prod.snd) ⊆ Expr.allReads x args := by
  induction names generalizing args with
  | nil => exact List.nil_subset _
  | cons name names ih =>
    cases args with
    | nil => exact List.nil_subset _
    | cons arg args =>
      refine List.append_subset.mpr ⟨List.subset_append_left _ _, ?_⟩
      exact List.Subset.trans (ih args) (List.subset_append_right _ _)

theorem beginCall_exposes {next : ValueCont} (h : next.Exposes x spans) (name : String)
    {args : List Expr} (hargs : Expr.allReads x args ⊆ spans) (resolved : Option ProcedureSymbol)
    (site : Span) : (beginCall table name args resolved site next).Exposes x spans := by
  cases resolved with
  | none => trivial
  | some symbol =>
    simp only [beginCall]
    cases table.find? symbol.id with
    | none => trivial
    | some procedure =>
      exact supply_exposes h _ _ (List.Subset.trans (allReads_zip_subset _ args) hargs)

end Action

theorem Expr.action_exposes {next : ValueCont} (h : next.Exposes x spans) {e : Expr}
    (he : e.reads x ⊆ spans) : (e.action table next).Exposes x spans := by
  cases e with
  | number => exact h
  | var name site =>
    refine ⟨fun hname => he ?_, h⟩
    rw [Expr.reads, if_pos hname]
    exact List.mem_singleton_self site
  | unary => exact ⟨he, h⟩
  | binary op lhs rhs site =>
    obtain ⟨hl, hr⟩ := List.append_subset.mp he
    exact ⟨hl, hr, h⟩
  | call name args resolved site => exact Action.beginCall_exposes h name he resolved site

theorem Stmt.action_exposes {next : FlowCont} {s : Stmt} (hs : s.exposed x ⊆ spans)
    (hend : s.settles x = false → next.Exposes x spans false)
    (hjump : s.jumps → next.Exposes x spans true) :
    (s.action table next).Exposes x spans := by
  cases s with
  | compound body => exact ⟨hs, hend, hjump⟩
  | declaration name type site => exact fun hname => hend (beq_false_of_ne hname)
  | assign name value site => exact ⟨hs, fun hname => hend (beq_false_of_ne hname)⟩
  | call name args resolved site =>
    have hdiscard : (ValueCont.discard next).Exposes x spans := hend rfl
    exact Action.beginCall_exposes hdiscard name hs resolved site
  | conditional test body otherwise =>
    simp only [Stmt.exposed, List.append_subset] at hs
    exact ⟨hs.1.1, hs.1.2, hs.2, hend rfl, hjump⟩
  | whileLoop test body =>
    have hloop : Loop.exposed x ⟨test, body, none⟩ ⊆ spans := by
      simpa [Loop.exposed, Stmt.exposed, Stmt.exposed?] using hs
    exact ⟨(List.append_subset.mp hs).1, hloop, hend rfl⟩
  | doWhile test body =>
    have hloop : Loop.exposed x ⟨test, body, none⟩ ⊆ spans := by
      simpa [Loop.exposed, Stmt.exposed, Stmt.exposed?] using hs
    -- the loop settles nothing if its body does not, nor if its body may jump
    refine ⟨(List.append_subset.mp hs).2, fun hbody => ⟨hloop, hend ?_⟩,
      fun hbody => ⟨hloop, hend ?_⟩⟩
    · simp [Stmt.settles, hbody]
    · simp [Stmt.settles, hbody]
  | forLoop init test step body =>
    obtain ⟨hinit, hrounds⟩ := List.append_subset.mp hs
    have hagain (hopen : (init.settles x && !init.jumps) = false) :
        Loop.exposed x ⟨test, body, some step⟩ ⊆ spans ∧ next.Exposes x spans false := by
      refine ⟨?_, hend hopen⟩
      rw [hopen] at hrounds
      exact hrounds
    refine ⟨hinit, fun h => hagain ?_, fun h => hagain ?_⟩
    · simp [h]
    · simp [h]
  | giveBack => exact ⟨hs, trivial⟩
  | breakLoop | continueLoop => exact hjump rfl
  | pass | procedure => exact hend rfl

theorem ValueCont.action_exposes {k : ValueCont} (h : k.Exposes x spans) (v : Value) :
    (k.action v).Exposes x spans := by
  cases k with
  | done => trivial
  | giveBack => trivial
  | assign => exact h
  | discard => exact h
  | choose body otherwise next =>
    obtain ⟨hbody, hotherwise, hend, hjump⟩ := h
    cases otherwise with
    | none =>
      rw [action]
      split
      · exact ⟨hbody, fun _ => hend, fun hj => hjump (by simp [hj])⟩
      · exact hend
    | some stmt =>
      rw [action]
      split
      · exact ⟨hbody, fun _ => hend, fun hj => hjump (by simp [hj])⟩
      · exact ⟨hotherwise, fun _ => hend, fun hj => hjump (by simp [Stmt.jumps?, hj])⟩
  | test loop next =>
    have hbody : loop.body.exposed x ⊆ spans :=
      (List.append_subset.mp (List.append_subset.mp h.1).1).2
    rw [action]
    split
    · exact ⟨hbody, fun _ => h, fun _ => h⟩
    · exact h.2
  | unary _ _ next | rightOperand _ _ _ next =>
    have hnext : next.Exposes x spans := h
    exact Action.operate_exposes hnext ..
  | leftOperand => exact h
  | argument _ _ _ _ next => exact Action.supply_exposes h.2 _ _ h.1

theorem Loop.exposes_test {loop : Loop} {next : FlowCont} (hloop : loop.exposed x ⊆ spans)
    (h : next.Exposes x spans false) :
    (Control.eval loop.test (.test loop next)).Exposes x spans :=
  ⟨(List.append_subset.mp (List.append_subset.mp hloop).1).1, hloop, h⟩

/-- A flow other than a return, which the program itself never makes. -/
theorem FlowCont.action_exposes {k : FlowCont} {f : Flow}
    (h : (Control.flow f k).Exposes x spans) (hreturn : ∀ v, f ≠ .returned v) :
    (k.action f).Exposes x spans := by
  cases k with
  | done => trivial
  | invoked => trivial
  | sequence rest next =>
    cases f with
    | completed =>
      obtain ⟨hrest, hend, hjump⟩ := h
      cases rest with
      | nil => exact hend rfl
      | cons s rest =>
        obtain ⟨hs, hlater⟩ := List.append_subset.mp hrest
        refine ⟨hs, fun hopen => ⟨?_, fun h => hend ?_, fun h => hjump ?_⟩, fun h => hjump ?_⟩
        · rwa [hopen] at hlater
        · simp [Stmt.anySettles, hopen, h]
        · simp [Stmt.anyJumps, h]
        · simp [Stmt.anyJumps, h]
    | broke | continued => exact h
    | returned v => exact absurd rfl (hreturn v)
  | round loop next =>
    cases f with
    | broke => exact h.2
    | returned v => exact absurd rfl (hreturn v)
    | completed | continued =>
      obtain ⟨hloop, hnext⟩ := h
      have hagain : (FlowCont.again loop next).Exposes x spans false := ⟨hloop, hnext⟩
      have hstep := (List.append_subset.mp hloop).2
      have htest := Loop.exposes_test hloop hnext
      rw [action]
      cases hs : loop.step with
      | none => exact htest
      | some stmt =>
        rw [hs] at hstep
        exact ⟨hstep, fun _ => hagain, fun _ => hagain⟩
  | again loop next =>
    cases f with
    | returned v => exact absurd rfl (hreturn v)
    | completed | broke | continued => exact Loop.exposes_test h.1 h.2

/-- What the control exposes, its action exposes. -/
theorem Control.action_exposes {c : Control} (h : c.Exposes x spans)
    (hreturn : ∀ v k, c ≠ .flow (.returned v) k) : (c.action table).Exposes x spans := by
  cases c with
  | eval e k => exact Expr.action_exposes h.2 h.1
  | exec s k => exact Stmt.action_exposes h.1 h.2.1 h.2.2
  | value v k => exact ValueCont.action_exposes h v
  | flow f k =>
    refine FlowCont.action_exposes h ?_
    rintro v rfl
    exact hreturn v k rfl

end Exposes

/-! ## Failures of single steps -/

section Causes

variable {table : ProcedureTable} {e : RuntimeError}

/-- What stops the machine without a look at the stack: a call that leads nowhere, or an operator. -/
def RuntimeCause.IsImmediate (cause : RuntimeCause) : Prop :=
  (∃ name, cause = .unresolvedCall name)
    ∨ ∃ operator error, cause = Machine.operatorCause operator error

theorem RuntimeCause.not_isImmediate_unboundName (x name : String) :
    ¬ (RuntimeCause.unboundName x name).IsImmediate := by
  rintro (⟨_, h⟩ | ⟨operator, error, h⟩)
  · cases h
  · cases error <;> cases h

theorem Action.cause_of_operate {result : Except ValueError Value} {operator : String}
    {site : Span} {next : ValueCont}
    (h : operate result operator site next = .halt (.failure e)) : e.cause.IsImmediate := by
  cases result with
  | ok v => cases h
  | error error =>
    cases h
    exact .inr ⟨operator, error, rfl⟩

theorem Action.cause_of_supply {invocation : Invocation} {record : Record}
    {pending : List (String × Expr)} {next : ValueCont}
    (h : supply invocation record pending next = .halt (.failure e)) : e.cause.IsImmediate := by
  cases pending <;> cases h

theorem Action.cause_of_beginCall {name : String} {args : List Expr}
    {resolved : Option ProcedureSymbol} {site : Span} {next : ValueCont}
    (h : beginCall table name args resolved site next = .halt (.failure e)) :
    e.cause.IsImmediate := by
  cases resolved with
  | none =>
    cases h
    exact .inl ⟨name, rfl⟩
  | some symbol =>
    simp only [beginCall] at h
    cases hfind : table.find? symbol.id with
    | none =>
      rw [hfind] at h
      cases h
      exact .inl ⟨name, rfl⟩
    | some procedure =>
      rw [hfind] at h
      exact cause_of_supply h

theorem Control.cause_of_action {c : Control} (h : c.action table = .halt (.failure e)) :
    e.cause.IsImmediate := by
  cases c with
  | eval expr k =>
    cases expr with
    | call => exact Action.cause_of_beginCall h
    | _ => cases h
  | exec s k =>
    cases s with
    | call => exact Action.cause_of_beginCall h
    | _ => cases h
  | value v k =>
    cases k with
    | choose body otherwise next =>
      simp only [Control.action, ValueCont.action] at h
      split at h
      · cases h
      · cases otherwise <;> cases h
    | test loop next =>
      simp only [Control.action, ValueCont.action] at h
      split at h <;> cases h
    | unary | rightOperand => exact Action.cause_of_operate h
    | argument => exact Action.cause_of_supply h
    | _ => cases h
  | flow f k =>
    cases k with
    | sequence rest next => cases f <;> cases rest <;> cases h
    | round loop next =>
      obtain ⟨test, body, step⟩ := loop
      cases f <;> cases step <;> cases h
    | _ => cases h

end Causes

/-- The machine stops at an unbound name only where it was to read the name, in a record that does
not bind it. -/
theorem Machine.of_unboundName {table : ProcedureTable} {s : MachineState} {events : List Event}
    {x name : String} {span : Span} {t : CallStack}
    (h : step table s = .halt events (.failure ⟨.unboundName x name, span⟩) t) :
    ∃ k r rest, s.control.action table = .read x span k ∧ s.stack.records = r :: rest
      ∧ r.get? x = none ∧ t = s.stack := by
  rw [step_eq_perform] at h
  cases ha : s.control.action table with
  | go control =>
    rw [ha] at h
    cases h
  | halt outcome =>
    rw [ha] at h
    cases h
    exact absurd (Control.cause_of_action ha) (RuntimeCause.not_isImmediate_unboundName x name)
  | read y site k =>
    rw [ha, Action.perform, readName] at h
    cases hrecords : s.stack.records with
    | nil =>
      rw [CallStack.top?, hrecords, List.head?_nil] at h
      cases h
    | cons r rest =>
      rw [CallStack.top?_of_cons hrecords] at h
      dsimp only at h
      split at h
      · cases h
      · next hnone =>
        cases h
        exact ⟨k, r, rest, rfl, rfl, hnone, rfl⟩
  | bind y v site k | giveBack v site k =>
    rw [ha, Action.perform, update] at h
    split at h <;> cases h
  | enter invocation record k =>
    rw [ha, Action.perform, enterBody] at h
    split at h <;> cases h
  | leave invocation f k =>
    rw [ha, Action.perform, endCall] at h
    split at h
    split at h <;> cases h

/-! ## Runs -/

/-- While calls are going on, what matters is what waits for the outermost of them; if there is
none, it is the property `now`. -/
def Exposed (x : String) (spans : List Span) : List (Invocation × ValueCont) → Prop → Prop
  | [], now => now
  | (_, next) :: calls, _ => Exposed x spans calls (next.Exposes x spans)

section Exposed

variable {x : String} {spans : List Span} {calls : List (Invocation × ValueCont)} {now now' : Prop}

theorem Exposed.imp (h : Exposed x spans calls now) (himp : now → now') :
    Exposed x spans calls now' := by
  cases calls with
  | nil => exact himp h
  | cons call calls => exact h

theorem Exposed.of_ne_nil (h : Exposed x spans calls now) (hne : calls ≠ []) :
    Exposed x spans calls now' := by
  cases calls with
  | nil => exact absurd rfl hne
  | cons call calls => exact h

end Exposed

/-- If the name is unbound in the record of the program, then the program reads it only at the given
places before it binds it. -/
def MachineState.Exposed (x : String) (spans : List Span) (s : MachineState) : Prop :=
  ∃ r, s.stack.Holds s.control.pending.length r []
    ∧ (r.get? x = none →
      Imperative.Exposed x spans s.control.pending (s.control.Exposes x spans))

/-- Where a value may be returned, a call is going on. -/
theorem FlowCont.Fit.pending_ne_nil {table : ProcedureTable} {todo : List Stmt}
    {records : List Record} {l : Bool} :
    ∀ {k : FlowCont}, k.Fit table todo l true records → k.pending ≠ []
  | .sequence _ next, h => by
    rcases h.2 with ⟨_, _, _, hp, _⟩ | h
    · cases hp
    · exact FlowCont.Fit.pending_ne_nil (k := next) h
  | .round _ next, h => by
    obtain ⟨_, _, h⟩ := h
    exact FlowCont.Fit.pending_ne_nil (k := next) h
  | .again _ _, h => by cases h.2.1
  | .invoked _ _, _ => List.cons_ne_nil _ _

/-- The program itself returns nothing. -/
theorem MachineState.Fit.not_returned {table : ProcedureTable} {todo : List Stmt}
    {s : MachineState} (h : s.Fit table todo) (hcalls : s.control.pending = []) (v : Value)
    (k : FlowCont) : s.control ≠ .flow (.returned v) k := by
  intro hcontrol
  rcases h with h | ⟨_, hend, _⟩
  · rw [hcontrol] at h hcalls
    obtain ⟨l, p, hp, h⟩ := h
    obtain rfl : p = true := hp
    exact h.pending_ne_nil hcalls
  · rw [hcontrol] at hend
    cases hend

namespace Machine

variable {x : String} {spans : List Span} {table : ProcedureTable} {stack : CallStack} {r : Record}

/-- Changing the innermost record: it is the record of a call, or that of the program, in which no
name comes unbound. -/
theorem update_exposed {next : FlowCont} {f : Flow} (change : Record → Record) {now : Prop}
    (hstack : stack.Holds next.pending.length r [])
    (h : r.get? x = none → Exposed x spans next.pending now)
    (hprogram : (change r).get? x = none →
      r.get? x = none ∧ (now → (Control.flow f next).Exposes x spans))
    {site : Span} {events : List Event} {s : MachineState}
    (hstep : update change f site next stack = .next events s) : s.Exposed x spans := by
  obtain ⟨locals, hlength, hrecords⟩ := hstack
  cases locals with
  | nil =>
    obtain ⟨t, ht, hrecords⟩ := CallStack.modifyTop?_of_cons hrecords change
    rw [update, ht] at hstep
    cases hstep
    refine ⟨change r, ⟨[], hlength, hrecords⟩, fun hnone => ?_⟩
    obtain ⟨hnone, himp⟩ := hprogram hnone
    exact (h hnone).imp himp
  | cons first locals =>
    have hne : next.pending ≠ [] := by
      intro hnil
      rw [hnil] at hlength
      cases hlength
    obtain ⟨t, ht, hrecords⟩ := CallStack.modifyTop?_of_cons hrecords change
    rw [update, ht] at hstep
    cases hstep
    exact ⟨r, ⟨change first :: locals, hlength, hrecords⟩, fun hnone => (h hnone).of_ne_nil hne⟩

/-- **One action.**  What the action exposes, the next state exposes. -/
theorem perform_exposed {a : Action} {calls : List (Invocation × ValueCont)}
    (hp : a.Pending calls) (hstack : stack.Holds calls.length r [])
    (h : r.get? x = none → Exposed x spans calls (a.Exposes x spans)) {events : List Event}
    {s : MachineState} (hstep : a.perform stack = .next events s) : s.Exposed x spans := by
  cases a with
  | go control =>
    obtain rfl := hp
    cases hstep
    exact ⟨r, hstack, h⟩
  | halt outcome => cases hstep
  | read name site next =>
    obtain rfl := hp
    rw [Action.perform, readName] at hstep
    split at hstep
    · cases hstep
    · split at hstep
      · cases hstep
        exact ⟨r, hstack, fun hnone => (h hnone).imp And.right⟩
      · cases hstep
  | bind name v site next =>
    obtain rfl := hp
    refine update_exposed (·.set name v) hstack h (fun hnone => ?_) hstep
    by_cases hname : name = x
    · subst hname
      rw [Record.get?_set_self] at hnone
      cases hnone
    · have hkept : (r.set name v).get? x = r.get? x :=
        Bindings.get?_set_of_ne r.bindings v (Ne.symm hname)
      exact ⟨hkept.symm.trans hnone, fun himp => himp hname⟩
  | giveBack v site next =>
    obtain rfl := hp
    have hflow : (Control.flow (.returned v) next).Exposes x spans := trivial
    exact update_exposed (fun r => { r with returned := some v }) hstack h
      (fun hnone => ⟨hnone, fun _ => hflow⟩) hstep
  | enter invocation record next =>
    obtain rfl := hp
    obtain ⟨locals, hlength, hrecords⟩ := hstack
    rw [Action.perform, enterBody] at hstep
    cases hpush : stack.push? record with
    | none =>
      rw [hpush] at hstep
      cases hstep
    | some pushed =>
      rw [hpush] at hstep
      cases hstep
      have htop := (CallStack.records_of_push? hpush).1
      refine ⟨r, ⟨record :: locals, congrArg Nat.succ hlength, ?_⟩, h⟩
      rw [htop, hrecords, List.cons_append]
  | leave invocation f next =>
    obtain rfl := hp
    obtain ⟨locals, hlength, hrecords⟩ := hstack
    obtain ⟨first, locals, rfl⟩ := List.exists_cons_of_length_eq_add_one hlength
    obtain ⟨t, ht, hrest⟩ := CallStack.pop?_of_cons hrecords
    rw [Action.perform] at hstep
    rcases endCall_cases invocation f next with ⟨v, hend⟩ | ⟨e, hend⟩
    · rw [hend, dropRecord, ht] at hstep
      cases hstep
      exact ⟨r, ⟨locals, Nat.succ.inj hlength, hrest⟩, h⟩
    · rw [hend] at hstep
      cases hstep

/-- The action of a fit state exposes what the state exposes. -/
theorem action_exposed {todo : List Stmt} {s : MachineState} (hfit : s.Fit table todo)
    (h : Exposed x spans s.control.pending (s.control.Exposes x spans)) :
    Exposed x spans s.control.pending ((s.control.action table).Exposes x spans) := by
  by_cases hcalls : s.control.pending = []
  · exact h.imp fun h => Control.action_exposes h (hfit.not_returned hcalls)
  · exact h.of_ne_nil hcalls

theorem step_exposed {todo : List Stmt} {s s' : MachineState} (hfit : s.Fit table todo)
    (h : s.Exposed x spans) {events : List Event} (hstep : step table s = .next events s') :
    s'.Exposed x spans := by
  obtain ⟨r, hstack, hexposed⟩ := h
  rw [step_eq_perform] at hstep
  exact perform_exposed (s.control.action_pending table) hstack
    (fun hnone => action_exposed hfit (hexposed hnone)) hstep

theorem exposed_of_reaches (hbodies : table.BodiesFit) {todo : List Stmt} {s t : MachineState}
    (hfit : s.Fit table todo) (h : s.Exposed x spans) (hr : Reaches table s t) :
    t.Exposed x spans := by
  induction hr with
  | refl => exact h
  | tail hreach hstep ih =>
    obtain ⟨events, hstep⟩ := hstep
    obtain ⟨_, hfit'⟩ := fit_of_reaches hbodies hfit hreach
    exact step_exposed hfit' ih hstep

end Machine

/-- **Unbound names in the program itself.**  If running a fit module fails to find a name in the
record of the program, the read is one of those that may come before a binding. -/
theorem Module.Fit.exposed_of_unboundName {m : Module} (h : m.Fit) {i : Interpreter}
    {s : MachineState} (hvisits : i.Visits m s) (hcalls : s.control.pending = [])
    {events : List Event} {x name : String} {span : Span} {t : CallStack}
    (hstep : Machine.step (.ofModule m) s =
      .halt events (.failure ⟨.unboundName x name, span⟩) t) :
    span ∈ Stmt.allExposed x m.body := by
  obtain ⟨pushed, hpush, hreach⟩ := hvisits
  have hfit := h.start rfl hpush
  have hrecords : pushed.records = [Interpreter.programRecord] :=
    (CallStack.records_of_push? hpush).1
  have hstart : MachineState.Exposed x (Stmt.allExposed x m.body)
      ⟨.flow .completed (.sequence m.body .done), pushed⟩ :=
    ⟨Interpreter.programRecord, ⟨[], rfl, hrecords⟩, fun _ =>
      ⟨List.Subset.refl _, fun _ => trivial, fun _ => trivial⟩⟩
  obtain ⟨r, ⟨locals, hlength, hstack⟩, hexposed⟩ :=
    Machine.exposed_of_reaches h.bodies hfit hstart hreach
  obtain ⟨_, hfit'⟩ := Machine.fit_of_reaches h.bodies hfit hreach
  obtain ⟨k, r', rest, haction, hrecords', hnone, -⟩ := Machine.of_unboundName hstep
  -- no call is going on, so the innermost record is that of the program
  rw [hcalls] at hlength
  obtain rfl := List.length_eq_zero_iff.mp hlength
  rw [hrecords'] at hstack
  cases hstack
  have hread := Machine.action_exposed hfit' (hexposed hnone)
  rw [hcalls, haction] at hread
  exact hread.1 rfl

end Imperative
