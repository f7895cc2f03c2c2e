import Imperative.Proofs.Fitness
import Imperative.Proofs.RecordBrackets

/-!
# Scopes are opened and closed in brackets

Analysis opens a scope for the program and one for each procedure, and leaves it behind the body.  A
walk that comes through has closed what it opened, so unlike a run it is in balance part by part: the
walk over each tree leaves the chain with the same scopes, and its events are brackets that are properly
nested inside those of the chain (`Resolver.Nests`).  A walk that stops somewhere leaves scopes open, and
nothing is said about it.

The level in the events is that of a scope, and the level of a scope is one more than that of the scope
around it.  That levels count scopes is carried along (`Leveled`).

Together with the records of a run, this is what a trace looks like: `trace_bracketed`.
-/

namespace Imperative

open Resolve

/-- The bracket of an event that enters a scope or leaves one. -/
def Event.scopeMark? : Event → Option Mark
  | .enterScope scope level => some (.opens scope level)
  | .leaveScope scope level => some (.closes scope level)
  | .define .. | .lookup .. | .call .. | .stackFull .. | .push .. | .pop .. | .stack _
  | .finished _ => none

/-- The brackets of the events that enter a scope or leave one. -/
def scopeMarks (events : List Event) : List Mark :=
  events.filterMap Event.scopeMark?

theorem scopeMarks_append (events events' : List Event) :
    scopeMarks (events ++ events') = scopeMarks events ++ scopeMarks events' :=
  List.filterMap_append

/-! ## Chains of scopes -/

/-- The names and the levels of the scopes, the current one first. -/
def Resolver.headers (r : Resolver) : List (String × Nat) :=
  r.scopes.scopes.map fun s => (s.name, s.level)

/-- The level of a scope is the number of scopes up to it. -/
def Leveled : List (String × Nat) → Prop
  | [] => True
  | (_, level) :: rest => level = rest.length + 1 ∧ Leveled rest

/-- Between the two states of a resolver, scopes were opened and closed in balance, and no event was
about a record. -/
structure Resolver.Nests (r r' : Resolver) : Prop where
  headers_eq : r'.headers = r.headers
  log_eq : ∃ events, r'.log = events.reverse ++ r.log
    ∧ Bracketed r.headers.length (scopeMarks events) ∧ recordMarks events = []

namespace Resolver

variable {r r₁ r₂ : Resolver}

theorem level_eq_length (h : Leveled r.headers) : r.scopes.level = r.headers.length := by
  obtain ⟨⟨scopes⟩, log⟩ := r
  cases scopes with
  | nil => rfl
  | cons s rest => exact h.1

namespace Nests

theorem refl (r : Resolver) : r.Nests r :=
  ⟨rfl, [], rfl, .nil, rfl⟩

theorem trans (h : r.Nests r₁) (h' : r₁.Nests r₂) : r.Nests r₂ := by
  obtain ⟨hheaders, events, hlog, hmarks, hnone⟩ := h
  obtain ⟨hheaders', events', hlog', hmarks', hnone'⟩ := h'
  rw [hheaders] at hmarks'
  refine ⟨hheaders'.trans hheaders, events ++ events', ?_, ?_, ?_⟩
  · rw [hlog', hlog, List.reverse_append, List.append_assoc]
  · rw [scopeMarks_append]
    exact hmarks.append hmarks'
  · rw [recordMarks_append, hnone, hnone', List.append_nil]

/-- One event that is no bracket, and scopes with the same names and levels. -/
theorem of_event {event : Event} (hheaders : r₁.headers = r.headers) (hlog : r₁.log = event :: r.log)
    (hscope : event.scopeMark? = none) (hrecord : event.recordMark? = none) : r.Nests r₁ := by
  refine ⟨hheaders, [event], hlog, ?_, ?_⟩
  · rw [scopeMarks, List.filterMap_cons_none hscope]
    exact .nil
  · exact List.filterMap_cons_none hrecord

end Nests

/-- What is logged when a scope is entered: it takes the built-in types in first. -/
def entering (name : String) (level : Nat) : List Event :=
  Scope.builtins.map (.define name) ++ [.enterScope name level]

theorem headers_openScope (name : String) (r : Resolver) :
    ((openScope name).run r).2.headers = (name, r.scopes.level + 1) :: r.headers := rfl

theorem log_openScope (name : String) (r : Resolver) :
    ((openScope name).run r).2.log = (entering name (r.scopes.level + 1)).reverse ++ r.log := rfl

/-- A scope is left with the name and the level with which it was entered. -/
theorem closeScope_of_headers {name : String} {level : Nat} {rest : List (String × Nat)}
    (h : r.headers = (name, level) :: rest) :
    (closeScope.run r).2.headers = rest
      ∧ (closeScope.run r).2.log = .leaveScope name level :: r.log := by
  obtain ⟨⟨scopes⟩, log⟩ := r
  cases scopes with
  | nil => cases h
  | cons s scopes =>
    cases h
    exact ⟨rfl, rfl⟩

theorem nests_define (symbol : Symbol) (r : Resolver) : r.Nests ((define symbol).run r).2 := by
  obtain ⟨⟨scopes⟩, log⟩ := r
  match scopes with
  | [] => exact .refl _
  | s :: rest => exact .of_event rfl rfl rfl rfl

theorem nests_defineEnclosing (symbol : Symbol) (r : Resolver) :
    r.Nests ((defineEnclosing symbol).run r).2 := by
  obtain ⟨⟨scopes⟩, log⟩ := r
  match scopes with
  | [] => exact .refl _
  | [_] => exact .refl _
  | s :: t :: rest => exact .of_event rfl rfl rfl rfl

/-- **A scope** that is entered, walked through and left is one more pair of brackets. -/
theorem Nests.enclose {name : String} (hr : Leveled r.headers) (before : r.Nests r₁)
    (inside : ((openScope name).run r₁).2.Nests r₂) : r.Nests (closeScope.run r₂).2 := by
  obtain ⟨hheaders, events, hlog, hmarks, hnone⟩ := before
  obtain ⟨hinner, events', hlog', hmarks', hnone'⟩ := inside
  have hlevel : r₁.scopes.level = r.headers.length := by
    rw [level_eq_length (hheaders ▸ hr), hheaders]
  rw [headers_openScope, hlevel, hheaders] at hinner hmarks'
  rw [log_openScope, hlevel, hlog] at hlog'
  obtain ⟨hclosed, hlogClosed⟩ := closeScope_of_headers hinner
  let level := r.headers.length + 1
  refine ⟨hclosed, events ++ (entering name level ++ (events' ++ [.leaveScope name level])),
    ?_, ?_, ?_⟩
  · rw [hlogClosed, hlog']
    simp [level]
  · have hpair : Bracketed r.headers.length
        (.opens name level :: (scopeMarks events' ++ [.closes name level])) := .pair hmarks' .nil
    simp only [scopeMarks_append]
    exact hmarks.append hpair
  · simp only [recordMarks_append, hnone, hnone']
    rfl

end Resolver

/-! ## Checks -/

namespace Resolve

/-- The check opens no scope and closes none, whether it comes through or not. -/
def Quiet {α : Type} (x : Resolve α) : Prop :=
  ∀ r : Resolver, r.Nests (x.run.run r).2

namespace Quiet

variable {α β : Type}

theorem pure (a : α) : Quiet (Pure.pure a : Resolve α) :=
  fun r => .refl r

theorem fail (site : Span) (cause : AnalysisCause) : Quiet (Resolve.fail site cause : Resolve α) :=
  fun r => .refl r

theorem lift {x : StateM Resolver α} (h : ∀ r : Resolver, r.Nests (x.run r).2) :
    Quiet (liftM x : Resolve α) :=
  h

theorem bind {x : Resolve α} {f : α → Resolve β} (hx : Quiet x) (hf : ∀ a, Quiet (f a)) :
    Quiet (x >>= f) := by
  intro r
  have hfirst := hx r
  rcases h : x.run.run r with ⟨e | a, r₁⟩
  · rw [h] at hfirst
    rw [run_bind_error h]
    exact hfirst
  · rw [h] at hfirst
    rw [run_bind_ok h]
    exact hfirst.trans (hf a r₁)

theorem lookup (name : String) (currentOnly : Bool) :
    Quiet (liftM (Resolve.lookup name currentOnly) : Resolve (Option Symbol)) :=
  lift fun _ => .of_event rfl rfl rfl rfl

theorem variableNamed (name : String) (site : Span) : Quiet (variableNamed name site) := by
  refine (lookup name false).bind fun found => ?_
  split
  · exact pure ()
  · exact fail site _
  · exact fail site _

theorem procedureNamed (name : String) (count : Nat) (site : Span) :
    Quiet (procedureNamed name count site) := by
  refine (lookup name false).bind fun found => ?_
  split
  · split
    · exact fail site _
    · exact pure _
  · exact fail site _
  · exact fail site _

theorem fresh (name : String) (site : Span) : Quiet (fresh name site) := by
  refine (lookup name true).bind fun found => ?_
  split
  · exact fail site _
  · exact pure ()

theorem declare (name : String) (type : DataType) (site : Span) :
    Quiet (declare name type site) := by
  have htype : Quiet (dataType type site) := by
    refine (lookup type.name false).bind fun found => ?_
    split
    · exact pure _
    · exact fail site _
  refine htype.bind fun type => (fresh name site).bind fun _ => ?_
  refine bind (lift fun r => .refl r) fun r => ?_
  exact (lift (Resolver.nests_define _)).bind fun _ => pure _

theorem declareAll : ∀ params : List Param, Quiet (declareAll params)
  | [] => pure []
  | p :: params =>
    (declare p.name p.type p.span).bind fun _ => (declareAll params).bind fun _ => pure _

end Quiet

/-- A procedure whose header comes through has opened its scope, and nothing else. -/
theorem exists_openScope_of_openProcedure {id : ProcedureId} {name : String} {params : List Param}
    {returnType : Option DataType} {site : Span} {r r₁ : Resolver}
    (h : (openProcedure id name params returnType site).run.run r = (.ok (), r₁)) :
    ∃ r₀, r.Nests r₀ ∧ ((openScope name).run r₀).2.Nests r₁ := by
  rw [openProcedure] at h
  have hfresh := Quiet.fresh name site r
  rcases hrun : (fresh name site).run.run r with ⟨e | _, r₀⟩
  · rw [run_bind_error hrun] at h
    cases h
  · rw [hrun] at hfresh
    have hopen : (liftM (openScope name) : Resolve Unit).run.run r₀ =
        (.ok (), ((openScope name).run r₀).2) := rfl
    rw [run_bind_ok hrun, run_bind_ok hopen] at h
    have hrest := (Quiet.declareAll params).bind
      (fun params => Quiet.lift (Resolver.nests_defineEnclosing
        (.procedure { id, name, params, returnType }))) ((openScope name).run r₀).2
    rw [h] at hrest
    exact ⟨r₀, hfresh, hrest⟩

end Resolve

/-! ## Walks -/

/-- A walk that comes through has closed what it opened. -/
def Balances {α : Type} (x : StateM Resolver (α × Verdict)) : Prop :=
  ∀ r : Resolver, Leveled r.headers → (x.run r).1.2 = .ok () → r.Nests (x.run r).2

/-- Of two walks in a row, the second takes place only where the first came through. -/
theorem Resolver.Nests.andThen {α : Type} {r r₁ : Resolver} {verdict : Verdict} {node : α}
    {visit : StateM Resolver (α × Verdict)} (hr : Leveled r.headers)
    (h : verdict = .ok () → r.Nests r₁) (hvisit : Balances visit)
    (hok : ((verdict.andThen node visit).run r₁).1.2 = .ok ()) :
    r.Nests ((verdict.andThen node visit).run r₁).2 := by
  cases verdict with
  | error e => cases hok
  | ok _ =>
    have hfirst := h rfl
    exact hfirst.trans (hvisit r₁ (hfirst.headers_eq ▸ hr) hok)

theorem Resolve.balances_callWith {α : Type} {build : List Expr → Option ProcedureSymbol → α}
    {args : List Expr} (hargs : Balances (Expr.resolveAll args)) (name : String)
    (resolved : Option ProcedureSymbol) (span : Span) :
    Balances (callWith build name args resolved span) := by
  intro r hr hok
  have hcallee := Quiet.procedureNamed name args.length span r
  rcases h : (procedureNamed name args.length span).run.run r with ⟨e | symbol, r₁⟩
  · rw [callWith_of_error build h] at hok
    cases hok
  · rw [h] at hcallee
    rcases hrun : (Expr.resolveAll args).run r₁ with ⟨⟨args', verdict⟩, r₂⟩
    obtain ⟨mark, hwith, -⟩ : ∃ mark, (callWith build name args resolved span).run r =
        ((build args' mark, verdict), r₂) ∧ _ := callWith_of_ok build h hrun
    rw [hwith] at hok ⊢
    have hrest := hargs r₁ (hcallee.headers_eq ▸ hr)
    rw [hrun] at hrest
    exact hcallee.trans (hrest hok)

mutual

theorem Expr.balances_resolve : ∀ e : Expr, Balances e.resolve
  | .number .., r, _, _ => .refl r
  | .var name span, r, _, _ => Quiet.variableNamed name span r
  | .unary _ operand _, r, hr, hok => operand.balances_resolve r hr hok
  | .binary _ lhs rhs _, r, hr, hok =>
    .andThen hr (lhs.balances_resolve r hr) rhs.balances_resolve hok
  | .call name args resolved span, r, hr, hok => by
    rw [Expr.resolve_call] at hok ⊢
    exact balances_callWith (Expr.balances_resolveAll args) name resolved span r hr hok

theorem Expr.balances_resolveAll : ∀ es : List Expr, Balances (Expr.resolveAll es)
  | [], r, _, _ => .refl r
  | e :: es, r, hr, hok =>
    .andThen hr (e.balances_resolve r hr) (Expr.balances_resolveAll es) hok

end

mutual

theorem Stmt.balances_resolve : ∀ s : Stmt, Balances s.resolve
  | .compound body _, r, hr, hok => Stmt.balances_resolveAll body r hr hok
  | .declaration name type span, r, _, _ => Quiet.declare name type span r
  | .assign name value span, r, hr, hok =>
    .andThen hr (fun _ => Quiet.variableNamed name span r) value.balances_resolve hok
  | .call name args resolved span, r, hr, hok => by
    rw [Stmt.resolve_call] at hok ⊢
    exact balances_callWith (Expr.balances_resolveAll args) name resolved span r hr hok
  | .conditional test body otherwise _, r, hr, hok =>
    .andThen hr (.andThen hr (test.balances_resolve r hr) body.balances_resolve)
      (Stmt.balances_resolve? otherwise) hok
  | .whileLoop test body _, r, hr, hok | .doWhile test body _, r, hr, hok =>
    .andThen hr (test.balances_resolve r hr) body.balances_resolve hok
  | .forLoop init test step body _, r, hr, hok =>
    .andThen hr (.andThen hr (.andThen hr (init.balances_resolve r hr) test.balances_resolve)
      step.balances_resolve) body.balances_resolve hok
  | .giveBack value _, r, hr, hok => value.balances_resolve r hr hok
  | .breakLoop _, r, _, _ | .continueLoop _, r, _, _ | .pass _, r, _, _ => .refl r
  | .procedure id name params returnType body span, r, hr, hok => by
    obtain ⟨verdict, r₁, hopen, body', verdict', r₂, hbody, r₃, hrun, hclose⟩ :=
      Stmt.resolve_procedure id name params returnType body span r
    rw [hrun] at hok ⊢
    obtain rfl : verdict' = .ok () := hok
    rw [hclose rfl]
    -- the body was walked, so the header came through
    cases verdict with
    | error e => cases hbody
    | ok _ =>
      obtain ⟨r₀, hbefore, hheader⟩ := exists_openScope_of_openProcedure hopen
      have hlevel := Resolver.level_eq_length (hbefore.headers_eq ▸ hr)
      have hinner : Leveled r₁.headers := by
        rw [hheader.headers_eq, Resolver.headers_openScope]
        exact ⟨by rw [hlevel], hbefore.headers_eq ▸ hr⟩
      have hwalked := Stmt.balances_resolveAll body r₁ hinner
      rw [show (Stmt.resolveAll body).run r₁ = _ from hbody] at hwalked
      exact .enclose hr hbefore (hheader.trans (hwalked rfl))

theorem Stmt.balances_resolveAll : ∀ ss : List Stmt, Balances (Stmt.resolveAll ss)
  | [], r, _, _ => .refl r
  | s :: ss, r, hr, hok =>
    .andThen hr (s.balances_resolve r hr) (Stmt.balances_resolveAll ss) hok

theorem Stmt.balances_resolve? : ∀ s : Option Stmt, Balances (Stmt.resolve? s)
  | none, r, _, _ => .refl r
  | some s, r, hr, hok => s.balances_resolve r hr hok

end

/-- Names that resolve leave scopes that are opened and closed in balance, from an empty chain to an
empty chain. -/
theorem Module.nests_resolve {m : Module} {r : Resolver} (h : (r.resolve m).1.2 = .ok ()) :
    Resolver.Nests { r with scopes := {} } (r.resolve m).2 := by
  have hbody := Stmt.balances_resolveAll m.body ((openScope "global").run { r with scopes := {} }).2
    ⟨rfl, trivial⟩
  rw [Resolver.resolve, run_walks, run_walks] at h ⊢
  generalize (Stmt.resolveAll m.body).run _ = walked at h hbody ⊢
  rcases walked with ⟨⟨body, failure | _⟩, r₂⟩
  · cases h
  · exact .enclose trivial (.refl _) (hbody rfl)

/-! ## Traces -/

/-- The scopes of an analysis that comes through are in balance, and none of its events is about a
record. -/
theorem Module.bracketed_analyze {m : Module} (h : m.analyze.verdict = .ok ()) :
    Bracketed 0 (scopeMarks m.analyze.events) ∧ recordMarks m.analyze.events = [] := by
  obtain ⟨-, events, hlog, hmarks, hnone⟩ := Module.nests_resolve (Module.of_analyze_ok h).1
  have hevents : m.analyze.events = events := by
    show (({} : Resolver).resolve m).2.log.reverse = events
    rw [hlog]
    simp
  rw [hevents]
  exact ⟨hmarks, hnone⟩

/-- A trace that reaches the run is that of the analysis and then that of the run. -/
theorem exists_run_of_trace {fuel limit : Nat} {text : String} {m : Module} {events : List Event}
    {result : Except Failure Record} (hparse : Module.parse text = .ok m)
    (hverdict : m.analyze.verdict = .ok ()) (h : trace fuel limit text = some (events, result)) :
    ∃ ran, events = m.analyze.events ++ ran ∧ Bracketed 0 (recordMarks ran) := by
  obtain ⟨⟨log, result'⟩, hexecute, hlog⟩ := Option.map_eq_some_iff.mp h
  cases hlog
  rw [execute, hparse] at hexecute
  dsimp only at hexecute
  rw [hverdict] at hexecute
  dsimp only at hexecute
  split at hexecute
  · cases hexecute
  · next run hrun =>
    cases hexecute
    obtain ⟨ran, hseen, hclosing⟩ := Interpreter.exists_closing_of_interpret hrun
    refine ⟨ran, ?_, hclosing⟩
    rw [hseen, List.foldl_flip_cons_eq_append, List.foldl_flip_cons_eq_append]
    simp

/-- **Traces are well bracketed.**  Where a text parses and comes through analysis, and its run comes
to an end, with a result or with a failure, the records are pushed and taken off in brackets that are
properly nested and all closed, and the numbers of records in the events are right.  Where an analysis
comes through, the scopes are entered and left in such brackets too. -/
theorem trace_bracketed :
    (∀ (fuel limit : Nat) (text : String) (m : Module) (events : List Event)
        (result : Except Failure Record), Module.parse text = .ok m →
        m.analyze.verdict = .ok () → trace fuel limit text = some (events, result) →
        Bracketed 0 (events.filterMap Event.recordMark?))
      ∧ ∀ m : Module, m.analyze.verdict = .ok () →
        Bracketed 0 (m.analyze.events.filterMap Event.scopeMark?) := by
  constructor
  · intro fuel limit text m events result hparse hverdict h
    obtain ⟨ran, rfl, hran⟩ := exists_run_of_trace hparse hverdict h
    have hnone := (Module.bracketed_analyze hverdict).2
    show Bracketed 0 (recordMarks (m.analyze.events ++ ran))
    rw [recordMarks_append, hnone]
    exact hran
  · exact fun m hverdict => (Module.bracketed_analyze hverdict).1

/-- A procedure that calls itself until the stack is full: the records are on the stack when the run
fails, and are taken off by the end of it. -/
theorem trace_bracketed_exhausted :
    ∃ text m events e, text = "def f() \x7b f(); \x7d f();" ∧ Module.parse text = .ok m
      ∧ m.analyze.verdict = .ok () ∧ trace 40 3 text = some (events, .error (.runtime e))
      ∧ events.filterMap Event.recordMark? = [.opens "program" 1, .opens "f" 2, .opens "f" 3,
        .closes "f" 3, .closes "f" 2, .closes "program" 1]
      ∧ Bracketed 0 (events.filterMap Event.recordMark?)
      ∧ m.analyze.events.filterMap Event.scopeMark? = [.opens "global" 1, .opens "f" 2,
        .closes "f" 2, .closes "global" 1]
      ∧ Bracketed 0 (m.analyze.events.filterMap Event.scopeMark?) := by
  let m : Module := ⟨[.procedure ⟨0⟩ "f" [] none [.call "f" [] none ⟨10, 13, 1, 11⟩] ⟨0, 16, 1, 1⟩,
    .call "f" [] none ⟨17, 20, 1, 18⟩]⟩
  have hparse : Module.parse "def f() \x7b f(); \x7d f();" = .ok m := by cbv
  have hverdict : m.analyze.verdict = .ok () := rfl
  obtain ⟨events, e, htrace, hmarks⟩ : ∃ events e,
      trace 40 3 "def f() \x7b f(); \x7d f();" = some (events, .error (.runtime e))
      ∧ events.filterMap Event.recordMark? = [.opens "program" 1, .opens "f" 2, .opens "f" 3,
        .closes "f" 3, .closes "f" 2, .closes "program" 1] := by
    rw [trace, execute, hparse]
    exact ⟨_, _, rfl, rfl⟩
  exact ⟨_, m, events, e, rfl, hparse, hverdict, htrace, hmarks,
    trace_bracketed.1 40 3 _ m events _ hparse hverdict htrace, rfl,
    trace_bracketed.2 m hverdict⟩

end Imperative
