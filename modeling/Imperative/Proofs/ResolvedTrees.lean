import Imperative.Analysis.Resolution
import Imperative.Proofs.Marks

/-!
# Resolving changes marks only

A walk that resolves names gives every node back with the same unmarked tree, whether it
comes through or stops somewhere.

* `Resolve.callWith_of_ok`, `Stmt.resolve_procedure`: what the walk over a call and over a
  procedure consists of.  The other walks are read off their definitions.
* `Module.unmarked_resolve`: the module differs from the one walked over in marks only.
-/

namespace Imperative

open Resolve

/-- The walk over a call, which is the same for the two kinds of calls. -/
def Resolve.callWith {α : Type} (build : List Expr → Option ProcedureSymbol → α)
    (name : String) (args : List Expr) (resolved : Option ProcedureSymbol) (span : Span) :
    StateM Resolver (α × Verdict) := do
  match ← (procedureNamed name args.length span).run with
  | .error failure => return (build args resolved, .error failure)
  | .ok symbol =>
    match ← Expr.resolveAll args with
    | (args, .error failure) => return (build args resolved, .error failure)
    | (args, .ok ()) => return (build args (some symbol), .ok ())

theorem Expr.resolve_call (name : String) (args : List Expr)
    (resolved : Option ProcedureSymbol) (span : Span) :
    (Expr.call name args resolved span).resolve =
      callWith (Expr.call name · · span) name args resolved span := rfl

theorem Stmt.resolve_call (name : String) (args : List Expr)
    (resolved : Option ProcedureSymbol) (span : Span) :
    (Stmt.call name args resolved span).resolve =
      callWith (Stmt.call name · · span) name args resolved span := rfl

section CallWith

variable {α : Type} (build : List Expr → Option ProcedureSymbol → α) {name : String}
  {args args' : List Expr} {resolved : Option ProcedureSymbol} {span : Span} {r r₁ r₂ : Resolver}

/-- A call whose callee is not found is left as it is. -/
theorem Resolve.callWith_of_error {failure : AnalysisError}
    (h : (procedureNamed name args.length span).run.run r = (.error failure, r₁)) :
    (callWith build name args resolved span).run r =
      ((build args resolved, .error failure), r₁) := by
  rw [callWith, StateT.run_bind, h]
  rfl

/-- A call whose callee is found has its arguments walked, and is marked if they resolve. -/
theorem Resolve.callWith_of_ok {symbol : ProcedureSymbol} {verdict : Verdict}
    (h : (procedureNamed name args.length span).run.run r = (.ok symbol, r₁))
    (hargs : (Expr.resolveAll args).run r₁ = ((args', verdict), r₂)) :
    ∃ mark, (callWith build name args resolved span).run r = ((build args' mark, verdict), r₂)
      ∧ (verdict = .ok () → mark = some symbol) := by
  cases verdict with
  | error failure =>
    refine ⟨resolved, ?_, by rintro ⟨⟩⟩
    rw [callWith, StateT.run_bind, h]
    show (Expr.resolveAll args >>= _).run r₁ = _
    rw [StateT.run_bind, hargs]
    rfl
  | ok _ =>
    refine ⟨some symbol, ?_, fun _ => rfl⟩
    rw [callWith, StateT.run_bind, h]
    show (Expr.resolveAll args >>= _).run r₁ = _
    rw [StateT.run_bind, hargs]
    rfl

end CallWith

/-- A visit that may not take place keeps what the visit itself keeps. -/
theorem Verdict.andThen_keeps {α β : Type} {f : α → β} {node : α}
    {visit : StateM Resolver (α × Verdict)} (h : ∀ r, f (visit.run r).1.1 = f node)
    (verdict : Verdict) (r : Resolver) :
    f ((verdict.andThen node visit).run r).1.1 = f node := by
  cases verdict with
  | ok _ => exact h r
  | error _ => rfl

theorem Resolve.callWith_keeps {α β : Type} {build : List Expr → Option ProcedureSymbol → α}
    {f : α → β} {args : List Expr} {resolved : Option ProcedureSymbol}
    (hargs : ∀ r, Expr.allUnmarked ((Expr.resolveAll args).run r).1.1 = Expr.allUnmarked args)
    (hf : ∀ args' mark, Expr.allUnmarked args' = Expr.allUnmarked args →
      f (build args' mark) = f (build args resolved))
    (name : String) (span : Span) (r : Resolver) :
    f ((callWith build name args resolved span).run r).1.1 = f (build args resolved) := by
  rcases h₁ : (procedureNamed name args.length span).run.run r with ⟨failure | symbol, r₁⟩
  · rw [callWith_of_error build h₁]
  · rcases h₂ : (Expr.resolveAll args).run r₁ with ⟨⟨args', verdict⟩, r₂⟩
    obtain ⟨mark, hrun, _⟩ := callWith_of_ok build h₁ h₂
    have h := hargs r₁
    rw [h₂] at h
    rw [hrun]
    exact hf args' mark h

mutual

/-- Resolving changes nothing in an expression but the marks. -/
theorem Expr.unmarked_resolve : ∀ (e : Expr) (r : Resolver),
    (e.resolve.run r).1.1.unmarked = e.unmarked
  | .number .., _ => rfl
  | .var .., _ => rfl
  | .unary op operand span, r => by
    show Expr.unary op _ span = Expr.unary op _ span
    congr 1
    exact operand.unmarked_resolve r
  | .binary op lhs rhs span, r => by
    show Expr.binary op _ _ span = Expr.binary op _ _ span
    congr 1
    · exact lhs.unmarked_resolve r
    · exact Verdict.andThen_keeps rhs.unmarked_resolve _ _
  | .call name args resolved span, r => by
    rw [Expr.resolve_call]
    refine callWith_keeps (Expr.unmarked_resolveAll args) (fun args' mark h => ?_) name span r
    rw [Expr.unmarked, Expr.unmarked, h]

theorem Expr.unmarked_resolveAll : ∀ (es : List Expr) (r : Resolver),
    Expr.allUnmarked ((Expr.resolveAll es).run r).1.1 = Expr.allUnmarked es
  | [], _ => rfl
  | e :: es, r => by
    show _ :: _ = _ :: _
    congr 1
    · exact e.unmarked_resolve r
    · exact Verdict.andThen_keeps (Expr.unmarked_resolveAll es) _ _

end

/-- The walk over a procedure: its scope is opened, its body is walked, and the scope is
closed again if all went well. -/
theorem Stmt.resolve_procedure (id : ProcedureId) (name : String) (params : List Param)
    (returnType : Option DataType) (body : List Stmt) (span : Span) (r : Resolver) :
    ∃ verdict r₁, (openProcedure id name params returnType span).run.run r = (verdict, r₁)
      ∧ ∃ body' verdict' r₂,
        (Verdict.andThen verdict body (Stmt.resolveAll body)).run r₁ = ((body', verdict'), r₂)
        ∧ ∃ r₃, (Stmt.procedure id name params returnType body span).resolve.run r =
            ((.procedure id name params returnType body' span, verdict'), r₃)
          ∧ (verdict' = .ok () → r₃ = (closeScope.run r₂).2) := by
  rcases h₁ : (openProcedure id name params returnType span).run.run r with ⟨verdict, r₁⟩
  rcases h₂ : (Verdict.andThen verdict body (Stmt.resolveAll body)).run r₁ with
    ⟨⟨body', failure | _⟩, r₂⟩
  · refine ⟨verdict, r₁, rfl, body', .error failure, r₂, h₂, r₂, ?_, fun e => by cases e⟩
    rw [Stmt.resolve, StateT.run_bind, h₁]
    show (Verdict.andThen verdict body (Stmt.resolveAll body) >>= _).run r₁ = _
    rw [StateT.run_bind, h₂]
    rfl
  · refine ⟨verdict, r₁, rfl, body', .ok (), r₂, h₂, (closeScope.run r₂).2, ?_, fun _ => rfl⟩
    rw [Stmt.resolve, StateT.run_bind, h₁]
    show (Verdict.andThen verdict body (Stmt.resolveAll body) >>= _).run r₁ = _
    rw [StateT.run_bind, h₂]
    rfl

mutual

/-- Resolving changes nothing in a statement but the marks. -/
theorem Stmt.unmarked_resolve : ∀ (s : Stmt) (r : Resolver),
    (s.resolve.run r).1.1.unmarked = s.unmarked
  | .compound body span, r => by
    show Stmt.compound _ span = Stmt.compound _ span
    congr 1
    exact Stmt.unmarked_resolveAll body r
  | .declaration .., _ => rfl
  | .assign name value span, r => by
    show Stmt.assign name _ span = Stmt.assign name _ span
    congr 1
    exact Verdict.andThen_keeps value.unmarked_resolve _ _
  | .call name args resolved span, r => by
    rw [Stmt.resolve_call]
    refine callWith_keeps (Expr.unmarked_resolveAll args) (fun args' mark h => ?_) name span r
    rw [Stmt.unmarked, Stmt.unmarked, h]
  | .conditional test body otherwise span, r => by
    show Stmt.conditional _ _ _ span = Stmt.conditional _ _ _ span
    congr 1
    · exact test.unmarked_resolve r
    · exact Verdict.andThen_keeps body.unmarked_resolve _ _
    · exact Verdict.andThen_keeps (Stmt.unmarked_resolve? otherwise) _ _
  | .whileLoop test body span, r => by
    show Stmt.whileLoop _ _ span = Stmt.whileLoop _ _ span
    congr 1
    · exact test.unmarked_resolve r
    · exact Verdict.andThen_keeps body.unmarked_resolve _ _
  | .doWhile test body span, r => by
    show Stmt.doWhile _ _ span = Stmt.doWhile _ _ span
    congr 1
    · exact test.unmarked_resolve r
    · exact Verdict.andThen_keeps body.unmarked_resolve _ _
  | .forLoop init test step body span, r => by
    show Stmt.forLoop _ _ _ _ span = Stmt.forLoop _ _ _ _ span
    congr 1
    · exact init.unmarked_resolve r
    · exact Verdict.andThen_keeps test.unmarked_resolve _ _
    · exact Verdict.andThen_keeps step.unmarked_resolve _ _
    · exact Verdict.andThen_keeps body.unmarked_resolve _ _
  | .giveBack value span, r => by
    show Stmt.giveBack _ span = Stmt.giveBack _ span
    congr 1
    exact value.unmarked_resolve r
  | .breakLoop _, _ | .continueLoop _, _ | .pass _, _ => rfl
  | .procedure id name params returnType body span, r => by
    obtain ⟨verdict, r₁, _, body', verdict', r₂, hbody, r₃, hrun, _⟩ :=
      Stmt.resolve_procedure id name params returnType body span r
    have h := Verdict.andThen_keeps (Stmt.unmarked_resolveAll body) verdict r₁
    rw [hbody] at h
    rw [hrun, Stmt.unmarked, Stmt.unmarked, h]

theorem Stmt.unmarked_resolveAll : ∀ (ss : List Stmt) (r : Resolver),
    Stmt.allUnmarked ((Stmt.resolveAll ss).run r).1.1 = Stmt.allUnmarked ss
  | [], _ => rfl
  | s :: ss, r => by
    show _ :: _ = _ :: _
    congr 1
    · exact s.unmarked_resolve r
    · exact Verdict.andThen_keeps (Stmt.unmarked_resolveAll ss) _ _

theorem Stmt.unmarked_resolve? : ∀ (s : Option Stmt) (r : Resolver),
    Stmt.unmarked? ((Stmt.resolve? s).run r).1.1 = Stmt.unmarked? s
  | none, _ => rfl
  | some s, r => congrArg some (s.unmarked_resolve r)

end

/-- Of two walks the second starts where the first has left the tables. -/
theorem Resolve.run_walks {α β : Type} (x : StateM Resolver α) (f : α → StateM Resolver β)
    (r : Resolver) : (x >>= f).run r = (f (x.run r).1).run (x.run r).2 :=
  rfl

/-- The walk over a module is the walk over its body inside a new scope; closing the scope
at the end changes neither the tree nor the verdict. -/
theorem Resolver.resolve_eq (r : Resolver) (m : Module) :
    let walked :=
      (Stmt.resolveAll m.body).run ((openScope "global").run { r with scopes := {} }).2
    (r.resolve m).1 = (⟨walked.1.1⟩, walked.1.2) := by
  rw [Resolver.resolve, Resolve.run_walks, Resolve.run_walks]
  generalize (Stmt.resolveAll m.body).run _ = walked
  rcases walked with ⟨⟨body, failure | _⟩, r₂⟩ <;> rfl

/-- Resolving changes nothing in a module but the marks. -/
theorem Module.unmarked_resolve (m : Module) (r : Resolver) :
    (r.resolve m).1.1.unmarked = m.unmarked := by
  rw [Resolver.resolve_eq, Module.unmarked, Module.unmarked, Stmt.unmarked_resolveAll]

end Imperative
