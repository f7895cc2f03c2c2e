import Imperative.Proofs.Moving
import Imperative.Proofs.ResolvedTrees

/-!
# Analysis does not look at places

Analysing a tree whose spans are moved is analysing the tree, and moving what comes out: the
marks and the events are the same, and a failure has the same cause, in the place to which its
span is moved.

* `MapsTo`: one walk does what another does, and its outcome is the other's outcome, mapped.
* `Expr.mapsTo_resolve`, `Stmt.mapsTo_resolve`, `Stmt.checksAlike_checkJumps`: the walks over a tree
  and over the tree moved, by induction on the tree.
* `Module.analyze_moved`: the same of a whole analysis.
-/

namespace Imperative

/-- The walk `w'` does what `w` does, and its outcome is that of `w`, mapped. -/
def MapsTo {σ α β : Type} (map : α → β) (w : StateM σ α) (w' : StateM σ β) : Prop :=
  ∀ s, w'.run s = (map (w.run s).1, (w.run s).2)

/-- The outcome of a check, with its failure moved. -/
def Verdict.moved {α : Type} (f : Span → Span) (outcome : Except AnalysisError α) :
    Except AnalysisError α :=
  outcome.mapError (AnalysisError.moved f)

/-- The outcome of a visit, with the node and the failure moved. -/
def Verdict.bothMoved {α : Type} (node : α → α) (f : Span → Span) (outcome : α × Verdict) :
    α × Verdict :=
  (node outcome.1, Verdict.moved f outcome.2)

namespace MapsTo

variable {σ α β γ δ : Type}

theorem bind {map : α → β} {map' : γ → δ} {w : StateM σ α} {w' : StateM σ β}
    {k : α → StateM σ γ} {k' : β → StateM σ δ} (h : MapsTo map w w')
    (hk : ∀ a, MapsTo map' (k a) (k' (map a))) : MapsTo map' (w >>= k) (w' >>= k') := by
  intro s
  change (k' (w'.run s).1).run (w'.run s).2 = _
  rw [h s]
  exact hk _ _

theorem result {map : α → β} (a : α) : MapsTo map (pure a : StateM σ α) (pure (map a)) :=
  fun _ => rfl

theorem same (w : StateM σ α) : MapsTo id w w :=
  fun _ => rfl

end MapsTo

/-! ## Checks

A check that may fail is a walk whose outcome may be a failure. -/

/-- The check `p'` is the check `p` in another place. -/
abbrev ChecksAlike {σ α : Type} (f : Span → Span) (p p' : ExceptT AnalysisError (StateM σ) α) :
    Prop :=
  MapsTo (Verdict.moved f) p.run p'.run

namespace ChecksAlike

variable {σ α β : Type} {f : Span → Span}

theorem bind {p p' : ExceptT AnalysisError (StateM σ) α}
    {k k' : α → ExceptT AnalysisError (StateM σ) β} (h : ChecksAlike f p p')
    (hk : ∀ a, ChecksAlike f (k a) (k' a)) : ChecksAlike f (p >>= k) (p' >>= k') := by
  change MapsTo _ (p.run >>= ExceptT.bindCont k) (p'.run >>= ExceptT.bindCont k')
  refine MapsTo.bind h fun outcome => ?_
  cases outcome with
  | error failure => exact fun _ => rfl
  | ok a => exact hk a

theorem result (a : α) : ChecksAlike f (pure a : ExceptT AnalysisError (StateM σ) α) (pure a) :=
  fun _ => rfl

/-- What cannot fail is the same in every place. -/
theorem lift (w : StateM σ α) :
    ChecksAlike f (liftM w : ExceptT AnalysisError (StateM σ) α) (liftM w) :=
  fun _ => rfl

theorem fail (site : Span) (cause : AnalysisCause) :
    ChecksAlike f (throw ⟨cause, site⟩ : ExceptT AnalysisError (StateM σ) α)
      (throw ⟨cause, f site⟩) :=
  fun _ => rfl

end ChecksAlike

/-! ## Resolving names -/

namespace Resolve

variable (f : Span → Span)

theorem checksAlike_variableNamed (name : String) (site : Span) :
    ChecksAlike f (variableNamed name site) (variableNamed name (f site)) := by
  refine .bind (.lift _) fun found => ?_
  rcases found with _ | _ | _ | _
  · exact .fail site _
  · exact .fail site _
  · exact .result ()
  · exact .fail site _

theorem checksAlike_procedureNamed (name : String) (count : Nat) (site : Span) :
    ChecksAlike f (procedureNamed name count site) (procedureNamed name count (f site)) := by
  refine .bind (.lift _) fun found => ?_
  rcases found with _ | _ | _ | symbol
  · exact .fail site _
  · exact .fail site _
  · exact .fail site _
  · change ChecksAlike f (if _ then _ else _) (if _ then _ else _)
    split
    · exact .bind (.fail site _) fun _ => .result symbol
    · exact .result symbol

theorem checksAlike_dataType (type : DataType) (site : Span) :
    ChecksAlike f (dataType type site) (dataType type (f site)) := by
  refine .bind (.lift _) fun found => ?_
  rcases found with _ | found | _ | _
  · exact .fail site _
  · exact .result found
  · exact .fail site _
  · exact .fail site _

theorem checksAlike_fresh (name : String) (site : Span) :
    ChecksAlike f (fresh name site) (fresh name (f site)) := by
  refine .bind (.lift _) fun found => ?_
  split
  · exact .fail site _
  · exact .result ()

theorem checksAlike_declare (name : String) (type : DataType) (site : Span) :
    ChecksAlike f (declare name type site) (declare name type (f site)) :=
  .bind (checksAlike_dataType f type site) fun _ => .bind (checksAlike_fresh f name site) fun _ =>
    .bind (.lift _) fun _ => .bind (.lift _) fun _ => .result _

theorem checksAlike_declareAll : ∀ params : List Param,
    ChecksAlike f (declareAll params) (declareAll (params.map (Param.moved f)))
  | [] => .result []
  | p :: params => .bind (checksAlike_declare f p.name p.type p.span) fun _ =>
    .bind (checksAlike_declareAll params) fun _ => .result _

theorem checksAlike_openProcedure (id : ProcedureId) (name : String) (params : List Param)
    (returnType : Option DataType) (site : Span) :
    ChecksAlike f (openProcedure id name params returnType site)
      (openProcedure id name (params.map (Param.moved f)) returnType (f site)) :=
  .bind (checksAlike_fresh f name site) fun _ => .bind (.lift _) fun _ =>
    .bind (checksAlike_declareAll f params) fun _ => .lift _

/-- A visit that may not take place. -/
theorem mapsTo_andThen {α : Type} {node : α → α} {visit visit' : StateM Resolver (α × Verdict)}
    (h : MapsTo (Verdict.bothMoved node f) visit visit') (verdict : Verdict) (a : α) :
    MapsTo (Verdict.bothMoved node f) (verdict.andThen a visit)
      (Verdict.andThen (Verdict.moved f verdict) (node a) visit') := by
  cases verdict with
  | ok _ => exact h
  | error failure => exact fun _ => rfl

theorem mapsTo_callWith {α : Type} {node : α → α}
    {build build' : List Expr → Option ProcedureSymbol → α}
    (hbuild : ∀ args mark, node (build args mark) = build' (Expr.allMoved f args) mark)
    {args : List Expr} (hargs : MapsTo (Verdict.bothMoved (Expr.allMoved f) f)
      (Expr.resolveAll args) (Expr.resolveAll (Expr.allMoved f args)))
    (name : String) (mark : Option ProcedureSymbol) (site : Span) :
    MapsTo (Verdict.bothMoved node f) (callWith build name args mark site)
      (callWith build' name (Expr.allMoved f args) mark (f site)) := by
  have callee := checksAlike_procedureNamed f name args.length site
  rw [← Expr.length_allMoved f args] at callee
  rw [callWith, callWith, ← Expr.length_allMoved f args]
  refine MapsTo.bind callee fun outcome => ?_
  cases outcome with
  | error failure => exact fun _ => congrArg (fun a => ((a, _), _)) (hbuild args mark).symm
  | ok symbol =>
    refine hargs.bind fun walked => ?_
    obtain ⟨args', verdict⟩ := walked
    cases verdict with
    | error failure => exact fun _ => congrArg (fun a => ((a, _), _)) (hbuild args' mark).symm
    | ok _ => exact fun _ => congrArg (fun a => ((a, _), _)) (hbuild args' _).symm

end Resolve

open Resolve

variable (f : Span → Span)

mutual

theorem Expr.mapsTo_resolve : ∀ e : Expr,
    MapsTo (Verdict.bothMoved (Expr.moved f) f) e.resolve (e.moved f).resolve
  | .number value span => .result _
  | .var name span => MapsTo.bind (checksAlike_variableNamed f name span) fun _ => .result _
  | .unary op operand span => operand.mapsTo_resolve.bind fun _ => .result _
  | .binary op lhs rhs span => lhs.mapsTo_resolve.bind fun ⟨_, verdict⟩ =>
    (mapsTo_andThen f rhs.mapsTo_resolve verdict rhs).bind fun _ => .result _
  | .call name args resolved span => by
    rw [Expr.moved, Expr.resolve_call, Expr.resolve_call]
    exact mapsTo_callWith f (fun _ _ => rfl) (Expr.mapsTo_resolveAll args) name resolved span

theorem Expr.mapsTo_resolveAll : ∀ es : List Expr,
    MapsTo (Verdict.bothMoved (Expr.allMoved f) f) (Expr.resolveAll es)
      (Expr.resolveAll (Expr.allMoved f es))
  | [] => .result _
  | e :: es => e.mapsTo_resolve.bind fun ⟨_, verdict⟩ =>
    (mapsTo_andThen f (Expr.mapsTo_resolveAll es) verdict es).bind fun _ => .result _

end

/-- The failure of a check is moved whether or not its result is used. -/
theorem Verdict.moved_map {α β : Type} (g : α → β) (outcome : Except AnalysisError α) :
    (Verdict.moved f outcome).map g = Verdict.moved f (outcome.map g) := by
  cases outcome <;> rfl

mutual

theorem Stmt.mapsTo_resolve : ∀ s : Stmt,
    MapsTo (Verdict.bothMoved (Stmt.moved f) f) s.resolve (s.moved f).resolve
  | .compound body span => (Stmt.mapsTo_resolveAll body).bind fun _ => .result _
  | .declaration name type span => by
    refine MapsTo.bind (checksAlike_declare f name type span) fun outcome _ => ?_
    rw [Verdict.moved_map]
    rfl
  | .assign name value span => MapsTo.bind (checksAlike_variableNamed f name span) fun verdict =>
    (mapsTo_andThen f (value.mapsTo_resolve f) verdict value).bind fun _ => .result _
  | .call name args resolved span => by
    rw [Stmt.moved, Stmt.resolve_call, Stmt.resolve_call]
    exact mapsTo_callWith f (fun _ _ => rfl) (Expr.mapsTo_resolveAll f args) name resolved span
  | .conditional test body otherwise span => (test.mapsTo_resolve f).bind fun ⟨_, verdict⟩ =>
    (mapsTo_andThen f body.mapsTo_resolve verdict body).bind fun ⟨_, verdict⟩ =>
    (mapsTo_andThen f (Stmt.mapsTo_resolve? otherwise) verdict otherwise).bind fun _ => .result _
  | .whileLoop test body span | .doWhile test body span =>
    (test.mapsTo_resolve f).bind fun ⟨_, verdict⟩ =>
    (mapsTo_andThen f body.mapsTo_resolve verdict body).bind fun _ => .result _
  | .forLoop init test step body span => init.mapsTo_resolve.bind fun ⟨_, verdict⟩ =>
    (mapsTo_andThen f (test.mapsTo_resolve f) verdict test).bind fun ⟨_, verdict⟩ =>
    (mapsTo_andThen f step.mapsTo_resolve verdict step).bind fun ⟨_, verdict⟩ =>
    (mapsTo_andThen f body.mapsTo_resolve verdict body).bind fun _ => .result _
  | .giveBack value span => (value.mapsTo_resolve f).bind fun _ => .result _
  | .breakLoop _ | .continueLoop _ | .pass _ => .result _
  | .procedure id name params returnType body span => by
    refine MapsTo.bind (checksAlike_openProcedure f id name params returnType span) fun verdict =>
      (mapsTo_andThen f (Stmt.mapsTo_resolveAll body) verdict body).bind fun ⟨body', verdict⟩ => ?_
    cases verdict with
    | error failure => exact .result _
    | ok _ => exact (MapsTo.same closeScope).bind fun _ => .result _

theorem Stmt.mapsTo_resolveAll : ∀ ss : List Stmt,
    MapsTo (Verdict.bothMoved (Stmt.allMoved f) f) (Stmt.resolveAll ss)
      (Stmt.resolveAll (Stmt.allMoved f ss))
  | [] => .result _
  | s :: ss => s.mapsTo_resolve.bind fun ⟨_, verdict⟩ =>
    (mapsTo_andThen f (Stmt.mapsTo_resolveAll ss) verdict ss).bind fun _ => .result _

theorem Stmt.mapsTo_resolve? : ∀ s : Option Stmt,
    MapsTo (Verdict.bothMoved (Stmt.moved? f) f) (Stmt.resolve? s)
      (Stmt.resolve? (Stmt.moved? f s))
  | none => .result _
  | some s => s.mapsTo_resolve.bind fun _ => .result _

end

/-- Resolving the names of a module that is moved. -/
theorem Resolver.resolve_moved (r : Resolver) (m : Module) :
    r.resolve (m.moved f) =
      (Verdict.bothMoved (Module.moved f) f (r.resolve m).1, (r.resolve m).2) := by
  refine (MapsTo.same (openScope "global")).bind (fun _ =>
    (Stmt.mapsTo_resolveAll f m.body).bind fun ⟨body, verdict⟩ => ?_) { r with scopes := {} }
  cases verdict with
  | error failure => exact .result _
  | ok _ => exact (MapsTo.same closeScope).bind fun _ => .result _

/-! ## Placing jumps -/

theorem Placement.checksAlike_require (test : PlacementChecker → Bool) (cause : AnalysisCause)
    (site : Span) : ChecksAlike f (require test cause site) (require test cause (f site)) := by
  refine .bind (.lift _) fun checker => ?_
  split
  · exact .result ()
  · exact .fail site cause

open Placement

mutual

theorem Stmt.checksAlike_checkJumps : ∀ s : Stmt,
    ChecksAlike f s.checkJumps (s.moved f).checkJumps
  | .compound body _ => Stmt.checksAlike_checkAllJumps body
  | .conditional _ body otherwise _ => .bind body.checksAlike_checkJumps fun _ =>
    Stmt.checksAlike_checkJumps? otherwise
  | .whileLoop _ body _ | .doWhile _ body _ => .bind (.lift _) fun _ =>
    .bind body.checksAlike_checkJumps fun _ => .lift _
  | .forLoop init _ step body _ => .bind init.checksAlike_checkJumps fun _ =>
    .bind (.lift _) fun _ => .bind step.checksAlike_checkJumps fun _ =>
    .bind body.checksAlike_checkJumps fun _ => .lift _
  | .procedure _ _ _ _ body _ => .bind (.lift _) fun _ =>
    .bind (Stmt.checksAlike_checkAllJumps body) fun _ => .lift _
  | .breakLoop span | .continueLoop span | .giveBack _ span => checksAlike_require f _ _ span
  | .declaration .. | .assign .. | .call .. | .pass _ => .result ()

theorem Stmt.checksAlike_checkAllJumps : ∀ ss : List Stmt,
    ChecksAlike f (Stmt.checkAllJumps ss) (Stmt.checkAllJumps (Stmt.allMoved f ss))
  | [] => .result ()
  | s :: ss => .bind s.checksAlike_checkJumps fun _ => Stmt.checksAlike_checkAllJumps ss

theorem Stmt.checksAlike_checkJumps? : ∀ s : Option Stmt,
    ChecksAlike f (Stmt.checkJumps? s) (Stmt.checkJumps? (Stmt.moved? f s))
  | none => .result ()
  | some s => s.checksAlike_checkJumps

end

/-- Checking the jumps of a module that is moved. -/
theorem PlacementChecker.check_moved (c : PlacementChecker) (m : Module) :
    c.check (m.moved f) = (Verdict.moved f (c.check m).1, (c.check m).2) :=
  Stmt.checksAlike_checkAllJumps f m.body c

/-! ## A whole analysis -/

/-- What an analysis leaves behind, with the module and the failure moved. -/
def Analysis.moved (a : Analysis) : Analysis where
  module := a.module.moved f
  verdict := Verdict.moved f a.verdict
  events := a.events

/-- **Analysis does not look at places.** -/
theorem Module.analyze_moved (m : Module) : (m.moved f).analyze = m.analyze.moved f := by
  rw [Module.analyze, Module.analyze, Resolver.resolve_moved]
  generalize ({} : Resolver).resolve m = resolved
  obtain ⟨⟨module, failure | _⟩, resolver⟩ := resolved
  · rfl
  · change (⟨module.moved f, (PlacementChecker.check {} (module.moved f)).1,
      resolver.log.reverse⟩ : Analysis) = _
    rw [PlacementChecker.check_moved]
    rfl

end Imperative
