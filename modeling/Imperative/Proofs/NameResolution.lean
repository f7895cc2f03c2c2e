import Imperative.Proofs.ResolvedTrees
import Imperative.Proofs.ScopeTracking
import Imperative.Proofs.Verdicts

/-!
# The walk that resolves names

The walk over a tree gives the verdict that its sites deserve, keeps the chain of tables
right, and marks every call with the symbol of the procedure that it refers to.

* `Walked`: how a walk over a part of a tree ends.  `Walked.andThen` puts two walks together,
  the second of which takes place only if the first came through.
* `Walked.variableNamed`, `Walked.declare`, `Walked.openProcedure`, `Walked.callWith`: the
  walks over single sites.
* `Expr.walked_resolve`, `Stmt.walked_resolve`: the walk over a tree, by induction on it.
* `Module.walked_resolve`: the walk over a module.
-/

namespace Imperative

/-! ## One walk -/

/-- The site without the mark that it may carry. -/
def Site.blank (t : Site) : Site :=
  match t.act with
  | .call count _ => { t with act := .call count none }
  | _ => t

/-- A call carries the symbol of the procedure that it refers to. -/
def Site.Marked (earlier : List Site) (t : Site) : Prop :=
  ∀ count mark, t.act = .call count mark → ∃ v id params returnType,
    referent? earlier t.around t.name = some (.introduced v (.procedure id params returnType))
      ∧ params.length = count
      ∧ mark = some (.introduced v.name (v.around.length + 1) id params returnType)

/-- How a walk in the scope `around` ends, which meets the sites `before` and leaves the
sites `after` in their place. -/
structure Walked (earlier : List Site) (around : List Address) (before after : List Site)
    (verdict : Verdict) (r : Resolver) : Prop where
  verdict_eq : verdict = judge earlier before
  tracks : verdict = .ok () → Tracks (earlier ++ before) around r.scopes.scopes
  blank_eq : after.map Site.blank = before.map Site.blank
  marked : verdict = .ok () → ∀ (i : Nat) (t : Site), after[i]? = some t →
    t.Marked (earlier ++ before.take i)

namespace Walked

variable {earlier before after : List Site} {around : List Address} {verdict : Verdict}
  {r : Resolver}

/-- Walking over nothing. -/
theorem nil (h : Tracks earlier around r.scopes.scopes) :
    Walked earlier around [] [] (.ok ()) r where
  verdict_eq := rfl
  tracks _ := by rwa [List.append_nil]
  blank_eq := rfl
  marked _ i t hi := by cases hi

/-- Walking over sites that are no calls. -/
theorem plain (hcall : ∀ t ∈ before, ∀ count mark, t.act ≠ .call count mark)
    (hverdict : verdict = judge earlier before)
    (htracks : verdict = .ok () → Tracks (earlier ++ before) around r.scopes.scopes) :
    Walked earlier around before before verdict r where
  verdict_eq := hverdict
  tracks := htracks
  blank_eq := rfl
  marked _ _ t hi count mark ht := absurd ht (hcall t (List.mem_of_getElem? hi) count mark)

theorem length_eq (h : Walked earlier around before after verdict r) :
    after.length = before.length := by
  have := congrArg List.length h.blank_eq
  rwa [List.length_map, List.length_map] at this

/-- A walk that has failed, over more sites, none of which it meets. -/
theorem fail {e : AnalysisError} (h : Walked earlier around before after (.error e) r)
    (rest : List Site) :
    Walked earlier around (before ++ rest) (after ++ rest) (.error e) r where
  verdict_eq := (judge_append_of_error h.verdict_eq.symm rest).symm
  tracks := by rintro ⟨⟩
  blank_eq := by rw [List.map_append, List.map_append, h.blank_eq]
  marked := by rintro ⟨⟩

/-- Two walks one after the other. -/
theorem append {before' after' : List Site} {around' : List Address} {r' : Resolver}
    (h : Walked earlier around before after (.ok ()) r)
    (h' : Walked (earlier ++ before) around' before' after' verdict r') :
    Walked earlier around' (before ++ before') (after ++ after') verdict r' where
  verdict_eq := by
    rw [judge_append_of_ok h.verdict_eq.symm]
    exact h'.verdict_eq
  tracks hok := by
    rw [← List.append_assoc]
    exact h'.tracks hok
  blank_eq := by rw [List.map_append, List.map_append, h.blank_eq, h'.blank_eq]
  marked hok i t hi := by
    rcases Nat.lt_or_ge i after.length with hlt | hge
    · rw [List.getElem?_append_left hlt] at hi
      have := h.marked rfl i t hi
      rwa [List.take_append_of_le_length (by rw [← h.length_eq]; omega)]
    · rw [List.getElem?_append_right hge] at hi
      have := h'.marked hok _ t hi
      rw [h.length_eq] at this hge
      rwa [List.take_append, List.take_of_length_le hge, ← List.append_assoc]

/-- Two walks, the second of which takes place only if the first came through. -/
theorem andThen {α : Type} (sites : α → List Site) {node : α}
    {visit : StateM Resolver (α × Verdict)} (h : Walked earlier around before after verdict r)
    (hv : ∀ r : Resolver, Tracks (earlier ++ before) around r.scopes.scopes →
      Walked (earlier ++ before) around (sites node) (sites (visit.run r).1.1)
        (visit.run r).1.2 (visit.run r).2) :
    Walked earlier around (before ++ sites node)
      (after ++ sites ((verdict.andThen node visit).run r).1.1)
      ((verdict.andThen node visit).run r).1.2 ((verdict.andThen node visit).run r).2 := by
  cases verdict with
  | error e => exact h.fail (sites node)
  | ok _ => exact h.append (hv r (h.tracks rfl))

end Walked

/-! ## Single checks -/

namespace Resolve

theorem run_bind_ok {α β : Type} {x : Resolve α} {f : α → Resolve β} {r r₁ : Resolver} {a : α}
    (h : x.run.run r = (.ok a, r₁)) : (x >>= f).run.run r = (f a).run.run r₁ := by
  rw [ExceptT.run_bind, StateT.run_bind, h]
  rfl

theorem run_bind_error {α β : Type} {x : Resolve α} {f : α → Resolve β} {r r₁ : Resolver}
    {e : AnalysisError} (h : x.run.run r = (.error e, r₁)) :
    (x >>= f).run.run r = (.error e, r₁) := by
  rw [ExceptT.run_bind, StateT.run_bind, h]
  rfl

/-- A name is looked up from the current scope outwards, and the search is noted. -/
theorem lookup_run (name : String) (r : Resolver) :
    (liftM (lookup name false) : Resolve (Option Symbol)).run.run r =
      (.ok (r.scopes.find? name), { r with log := .lookup name false :: r.log }) :=
  rfl

theorem variableNamed_run (name : String) (site : Span) (r : Resolver) :
    (variableNamed name site).run.run r =
      (match r.scopes.find? name with
        | some (.var _) => .ok ()
        | some _ => .error ⟨.notAVariable name, site⟩
        | none => .error ⟨.identifierNotFound name, site⟩,
        { r with log := .lookup name false :: r.log }) := by
  rw [variableNamed, run_bind_ok (lookup_run name r)]
  rcases r.scopes.find? name with _ | ⟨_ | _ | _⟩ <;> rfl

theorem procedureNamed_run (name : String) (count : Nat) (site : Span) (r : Resolver) :
    (procedureNamed name count site).run.run r =
      (match r.scopes.find? name with
        | some (.procedure symbol) =>
          if symbol.params.length ≠ count then
            .error ⟨.wrongParameterCount name symbol.params.length count, site⟩
          else .ok symbol
        | some _ => .error ⟨.notAProcedure name, site⟩
        | none => .error ⟨.identifierNotFound name, site⟩,
        { r with log := .lookup name false :: r.log }) := by
  rw [procedureNamed, run_bind_ok (lookup_run name r)]
  rcases r.scopes.find? name with _ | ⟨_ | _ | symbol⟩
  · rfl
  · rfl
  · rfl
  · by_cases hcount : symbol.params.length ≠ count
    · simp only [if_pos hcount]
      rfl
    · simp only [if_neg hcount]
      rfl

variable {earlier : List Site} {around : List Address} {r : Resolver} {s : Scope}
  {rest : List Scope}

/-- Looking a callee up either reports what is wrong with the call, or finds the symbol that
the call is to be marked with. -/
theorem procedureNamed_cases (h : Tracks earlier around r.scopes.scopes) (name : String)
    (count : Nat) (mark : Option ProcedureSymbol) (span : Span) :
    (∃ e r₁, (procedureNamed name count span).run.run r = (.error e, r₁)
        ∧ judge earlier [⟨around, name, .call count mark, span⟩] = .error e)
      ∨ ∃ symbol r₁, (procedureNamed name count span).run.run r = (.ok symbol, r₁)
        ∧ judge earlier [⟨around, name, .call count mark, span⟩] = .ok ()
        ∧ r₁.scopes = r.scopes
        ∧ Site.Marked earlier ⟨around, name, .call count (some symbol), span⟩ := by
  obtain ⟨level, hfind, hlevel⟩ := h.find?_eq name
  rw [procedureNamed_run, ScopeChain.find?, hfind, judge_singleton, Site.complaint?]
  -- The callee is unknown, a type, a variable, or a procedure; only the last may do.
  rcases href : referent? earlier around name with
    _ | (_ | ⟨v, (_ | ⟨id, params, returnType⟩)⟩)
  · exact .inl ⟨_, _, rfl, rfl⟩
  · exact .inl ⟨_, _, rfl, rfl⟩
  · exact .inl ⟨_, _, rfl, rfl⟩
  · have hlength : (ProcedureSymbol.introduced v.name level id params returnType).params.length
        = params.length := List.length_map ..
    by_cases hcount : params.length = count
    · refine .inr ⟨.introduced v.name level id params returnType,
        { r with log := .lookup name false :: r.log }, ?_, ?_, rfl, ?_⟩
      · simp [Referent.symbol, Introduced.symbol, hlength, hcount]
      · simp [hcount]
      · rintro _ _ ⟨rfl⟩
        exact ⟨v, id, params, returnType, href, hcount, by rw [hlevel v _ href]⟩
    · refine .inl ⟨⟨.wrongParameterCount name params.length count, span⟩,
        { r with log := .lookup name false :: r.log }, ?_, ?_⟩
      · simp [Referent.symbol, Introduced.symbol, hlength, hcount]
      · simp [hcount]

/-- The name of a type stands for the type in every scope. -/
theorem dataType_run (hr : r.scopes.scopes = s :: rest) (hs : s.Holds earlier around)
    (type : DataType) (site : Span) :
    (dataType type site).run.run r =
      (.ok type, { r with log := .lookup type.name false :: r.log }) := by
  have hfind : r.scopes.find? type.name = some (.type type s.level) := by
    rw [ScopeChain.find?, hr, List.findSome?_cons, hs.find?_eq]
    cases type <;> rfl
  rw [dataType, run_bind_ok (lookup_run type.name r), hfind]
  rfl

/-- Whether a name is new is what the site that brings it in is judged by. -/
theorem fresh_run {t : Site} {what : Introduced} (hr : r.scopes.scopes = s :: rest)
    (hs : s.Holds earlier t.around) (ht : t.act = .introduce what) :
    (fresh t.name t.span).run.run r =
      (judge earlier [t], { r with log := .lookup t.name true :: r.log }) := by
  have hfind : r.scopes.lookup t.name true = s.find? t.name := by
    rw [ScopeChain.lookup, ScopeChain.findCurrent?, ScopeChain.current?, hr]
    rfl
  rw [fresh]
  show StateT.run (ExceptT.run (if (r.scopes.lookup t.name true).isSome
      then fail t.span (.duplicateIdentifier t.name) else pure ()))
    { r with log := .lookup t.name true :: r.log } = _
  rw [hfind, hs.isSome_find?, judge_introduce earlier ht]
  split <;> rfl

theorem defineEnclosing_run {t : Scope} (hr : r.scopes.scopes = t :: s :: rest)
    (symbol : Symbol) :
    ((defineEnclosing symbol).run r).2.scopes.scopes = t :: s.define symbol :: rest := by
  obtain ⟨⟨scopes⟩, log⟩ := r
  cases hr
  rfl

theorem openScope_run (hr : r.scopes.scopes = s :: rest) (name : String) :
    ((openScope name).run r).2.scopes.scopes =
      .new name (s.level + 1) :: s :: rest := by
  obtain ⟨⟨scopes⟩, log⟩ := r
  cases hr
  rfl

theorem closeScope_run (hr : r.scopes.scopes = s :: rest) :
    (closeScope.run r).2.scopes.scopes = rest := by
  obtain ⟨⟨scopes⟩, log⟩ := r
  cases hr
  rfl

/-- Introducing a variable either reports that its name is taken, or brings it in. -/
theorem declare_cases {t : Site} {type : DataType} (hr : r.scopes.scopes = s :: rest)
    (hs : s.Holds earlier t.around) (ht : t.act = .introduce (.variable type)) :
    (∃ e r₁, (declare t.name type t.span).run.run r = (.error e, r₁)
        ∧ judge earlier [t] = .error e)
      ∨ ∃ r₁ s₁, (declare t.name type t.span).run.run r =
          (.ok { name := t.name, type, level := t.around.length + 1 }, r₁)
        ∧ judge earlier [t] = .ok ()
        ∧ r₁.scopes.scopes = s₁ :: rest ∧ s₁.Holds (earlier ++ [t]) t.around := by
  obtain ⟨⟨scopes⟩, log⟩ := r
  obtain rfl : scopes = s :: rest := hr
  have hfresh := fresh_run (r := ⟨⟨s :: rest⟩, .lookup type.name false :: log⟩) rfl hs ht
  rw [declare, run_bind_ok (dataType_run (r := ⟨⟨s :: rest⟩, log⟩) rfl hs type t.span)]
  cases hj : judge earlier [t] with
  | error e =>
    rw [hj] at hfresh
    exact .inl ⟨e, _, run_bind_error hfresh, rfl⟩
  | ok _ =>
    rw [hj] at hfresh
    rw [run_bind_ok hfresh, ← hs.level_eq]
    refine .inr ⟨⟨⟨s.define (.var { name := t.name, type, level := s.level }) :: rest⟩, _⟩,
      _, rfl, rfl, rfl, ?_⟩
    exact hs.define ht (meaning?_eq_none_of_judge ht hj) _ rfl

/-- Introducing parameters either reports the first whose name is taken, or brings them all
in. -/
theorem declareAll_cases (params : List Param) (hr : r.scopes.scopes = s :: rest)
    (hs : s.Holds earlier around) :
    (∃ e r₁, (declareAll params).run.run r = (.error e, r₁)
        ∧ judge earlier (params.map (Param.site around)) = .error e)
      ∨ ∃ r₁ s₁, (declareAll params).run.run r =
          (.ok (params.map fun p =>
            { name := p.name, type := p.type, level := around.length + 1 }), r₁)
        ∧ judge earlier (params.map (Param.site around)) = .ok ()
        ∧ r₁.scopes.scopes = s₁ :: rest
        ∧ s₁.Holds (earlier ++ params.map (Param.site around)) around := by
  induction params generalizing earlier r s with
  | nil =>
    refine .inr ⟨r, s, rfl, rfl, hr, ?_⟩
    rwa [List.map_nil, List.append_nil]
  | cons p params ih =>
    have hp : (p.site around).act = .introduce (.variable p.type) := rfl
    rw [declareAll, List.map_cons, List.map_cons, List.append_cons, ← List.singleton_append]
    rcases declare_cases hr hs hp with
      ⟨e, r₁, hrun, hjudge⟩ | ⟨r₁, s₁, hrun, hjudge, hr₁, hs₁⟩
    · exact .inl ⟨e, r₁, run_bind_error hrun, judge_append_of_error hjudge _⟩
    · have hrun₁ : (declare p.name p.type p.span).run.run r =
          (.ok { name := p.name, type := p.type, level := around.length + 1 }, r₁) := hrun
      rw [run_bind_ok hrun₁, judge_append_of_ok hjudge]
      rcases ih hr₁ hs₁ with ⟨e, r₂, hrun', hjudge'⟩ | ⟨r₂, s₂, hrun', hjudge', hr₂, hs₂⟩
      · exact .inl ⟨e, r₂, run_bind_error hrun', hjudge'⟩
      · refine .inr ⟨r₂, s₂, ?_, hjudge', hr₂, hs₂⟩
        rw [run_bind_ok hrun']
        rfl

end Resolve

open Resolve

namespace Walked

variable {earlier : List Site} {around : List Address} {r : Resolver}

/-- The walk over a name that is read or assigned. -/
theorem variableNamed (h : Tracks earlier around r.scopes.scopes) (name : String)
    (span : Span) :
    Walked earlier around [⟨around, name, .use, span⟩] [⟨around, name, .use, span⟩]
      ((Resolve.variableNamed name span).run.run r).1
      ((Resolve.variableNamed name span).run.run r).2 := by
  obtain ⟨level, hfind, _⟩ := h.find?_eq name
  rw [variableNamed_run]
  refine plain (List.forall_mem_singleton.mpr (by rintro _ _ ⟨⟩)) ?_ fun _ => h.skip (by rintro _ ⟨⟩)
  rw [ScopeChain.find?, hfind, judge_singleton, Site.complaint?]
  -- What is found in the chain has the shape of the referent.
  rcases referent? earlier around name with _ | (_ | ⟨_, (_ | _)⟩) <;> rfl

/-- The walk over the declaration of a variable. -/
theorem declare {t : Site} {type : DataType} (h : Tracks earlier t.around r.scopes.scopes)
    (ht : t.act = .introduce (.variable type)) :
    Walked earlier t.around [t] [t]
      (((Resolve.declare t.name type t.span).run.run r).1.map fun _ => ())
      ((Resolve.declare t.name type t.span).run.run r).2 := by
  obtain ⟨s, rest, hr, hs⟩ := h.exists_cons
  have hcall : ∀ u ∈ [t], ∀ count mark, u.act ≠ .call count mark := by
    intro u hu count mark e
    obtain rfl := List.mem_singleton.mp hu
    rw [ht] at e
    cases e
  rcases declare_cases hr hs ht with
    ⟨e, r₁, hrun, hjudge⟩ | ⟨r₁, s₁, hrun, hjudge, hr₁, hs₁⟩
  · rw [hrun]
    exact plain hcall hjudge.symm (by rintro ⟨⟩)
  · rw [hrun]
    refine plain hcall hjudge.symm fun _ => ?_
    rw [hr] at h
    rw [hr₁]
    exact h.introduce hs₁

/-- Introducing a procedure and its parameters, which leads into its scope. -/
theorem openProcedure {t : Site} {id : ProcedureId} {params : List Param}
    {returnType : Option DataType} {place : Address}
    (h : Tracks earlier t.around r.scopes.scopes) (hnew : Untouched earlier place)
    (ht : t.act = .introduce (.procedure id params returnType)) :
    Walked earlier (place :: t.around) (t :: params.map (Param.site (place :: t.around)))
      (t :: params.map (Param.site (place :: t.around)))
      ((Resolve.openProcedure id t.name params returnType t.span).run.run r).1
      ((Resolve.openProcedure id t.name params returnType t.span).run.run r).2 := by
  obtain ⟨s, rest, hr, hs⟩ := h.exists_cons
  have hcall : ∀ u ∈ t :: params.map (Param.site (place :: t.around)), ∀ count mark,
      u.act ≠ .call count mark := by
    intro u hu count mark e
    rcases List.mem_cons.mp hu with rfl | hu
    · rw [ht] at e
      cases e
    · obtain ⟨p, _, rfl⟩ := List.mem_map.mp hu
      cases e
  have hfresh := fresh_run hr hs ht
  rw [Resolve.openProcedure]
  cases hj : judge earlier [t] with
  | error e =>
    rw [hj] at hfresh
    rw [run_bind_error hfresh]
    exact plain hcall (judge_append_of_error hj _).symm (by rintro ⟨⟩)
  | ok _ =>
    rw [hj] at hfresh
    rw [run_bind_ok hfresh]
    generalize hr₀ : ({ r with log := .lookup t.name true :: r.log } : Resolver) = r₀
    have hscopes : r₀.scopes.scopes = s :: rest := by
      rw [← hr₀]
      exact hr
    have hr₁ := openScope_run hscopes t.name
    rw [hs.level_eq] at hr₁
    have hopen : (liftM (openScope t.name) : Resolve Unit).run.run r₀ =
        (.ok (), ((openScope t.name).run r₀).2) := rfl
    rw [run_bind_ok hopen]
    rcases declareAll_cases params hr₁ (.new_procedure hnew) with
      ⟨e, r₂, hrun, hjudge⟩ | ⟨r₂, s₂, hrun, hjudge, hr₂, hs₂⟩
    · rw [run_bind_error hrun]
      exact plain hcall (hjudge.symm.trans (judge_append_of_ok hj _).symm) (by rintro ⟨⟩)
    · rw [run_bind_ok hrun]
      refine plain hcall (hjudge.symm.trans (judge_append_of_ok hj _).symm) fun _ => ?_
      rw [hr] at h
      have htracks := h.enter ht (meaning?_eq_none_of_judge ht hj) hs₂
      rwa [← defineEnclosing_run hr₂] at htracks

/-- The walk over a call. -/
theorem callWith {α : Type} (sites : α → List Site)
    (build : List Expr → Option ProcedureSymbol → α) {name : String} {args : List Expr}
    {resolved : Option ProcedureSymbol} {span : Span}
    (hsites : ∀ args mark, sites (build args mark) =
      ⟨around, name, .call args.length mark, span⟩ :: Expr.allSites around args)
    (h : Tracks earlier around r.scopes.scopes)
    (hargs : ∀ (earlier : List Site) (r : Resolver), Tracks earlier around r.scopes.scopes →
      Walked earlier around (Expr.allSites around args)
        (Expr.allSites around ((Expr.resolveAll args).run r).1.1)
        ((Expr.resolveAll args).run r).1.2 ((Expr.resolveAll args).run r).2) :
    Walked earlier around (sites (build args resolved))
      (sites ((Resolve.callWith build name args resolved span).run r).1.1)
      ((Resolve.callWith build name args resolved span).run r).1.2
      ((Resolve.callWith build name args resolved span).run r).2 := by
  rw [hsites]
  rcases procedureNamed_cases h name args.length resolved span with
    ⟨e, r₁, hname, hjudge⟩ | ⟨symbol, r₁, hname, hjudge, hr₁, hmarked⟩
  · rw [callWith_of_error build hname, hsites]
    exact ⟨(judge_append_of_error hjudge _).symm, by rintro ⟨⟩, rfl, by rintro ⟨⟩⟩
  · rcases hall : (Expr.resolveAll args).run r₁ with ⟨⟨args', verdict⟩, r₂⟩
    obtain ⟨mark, hrun, hmark⟩ := callWith_of_ok build hname hall
    rw [hrun, hsites]
    have hlength : args'.length = args.length := by
      have := congrArg List.length (Expr.unmarked_resolveAll args r₁)
      rwa [hall, Expr.length_allUnmarked, Expr.length_allUnmarked] at this
    have hskip : Tracks (earlier ++ [⟨around, name, .call args.length resolved, span⟩]) around
        r₁.scopes.scopes := by
      rw [hr₁]
      exact h.skip fun _ e => by cases e
    have hwalk := hargs _ _ hskip
    rw [hall] at hwalk
    refine ⟨?_, fun hok => ?_, ?_, fun hok i t hi => ?_⟩
    · exact hwalk.verdict_eq.trans (judge_append_of_ok hjudge _).symm
    · rw [List.append_cons]
      exact hwalk.tracks hok
    · rw [List.map_cons, List.map_cons, hwalk.blank_eq, hlength]
      rfl
    · cases i with
      | zero =>
        obtain rfl := Option.some.inj hi
        rw [List.take_zero, List.append_nil, hmark hok, hlength]
        exact hmarked
      | succ i =>
        rw [List.take_succ_cons, List.append_cons]
        exact hwalk.marked hok i t hi

end Walked

/-! ## The walk over a tree -/

/-- The name and the parameters of a procedure do not stand below the statements of its body. -/
theorem Untouched.enter {earlier : List Site} {around : List Address} {place : Address} {t : Site}
    (h : Untouched earlier place) (hin : Inside around place) (ht : t.around = around)
    (params : List Param) (j : Nat) :
    Untouched (earlier ++ t :: params.map (Param.site (place :: around))) (j :: place) := by
  refine (h.child j).append (.of_inside fun u hu => ?_)
  rcases List.mem_cons.mp hu with rfl | hu
  · rw [ht]
    exact hin.child j
  · obtain ⟨p, _, rfl⟩ := List.mem_map.mp hu
    exact hin.enter j

/-- Leaving the scope of a procedure leaves the chain for the scope around it, which was kept right
all along. -/
theorem Tracks.closeScope {earlier : List Site} {place : Address} {around : List Address}
    {r : Resolver} (h : Tracks earlier (place :: around) r.scopes.scopes) :
    Tracks earlier around (Resolve.closeScope.run r).2.scopes.scopes := by
  cases hchain : r.scopes.scopes with
  | nil => rw [hchain] at h; cases h
  | cons s rest =>
    rw [hchain] at h
    rw [closeScope_run hchain]
    cases h with
    | procedure _ hr => exact hr

mutual

theorem Expr.walked_resolve {around : List Address} :
    ∀ (e : Expr) (earlier : List Site) (r : Resolver), Tracks earlier around r.scopes.scopes →
      Walked earlier around (e.sites around) ((e.resolve.run r).1.1.sites around)
        (e.resolve.run r).1.2 (e.resolve.run r).2
  | .number .., _, _, h => .nil h
  | .var name span, _, _, h => .variableNamed h name span
  | .unary _ operand _, earlier, r, h => operand.walked_resolve earlier r h
  | .binary _ lhs rhs _, earlier, r, h =>
    (lhs.walked_resolve earlier r h).andThen (Expr.sites around) (rhs.walked_resolve _)
  | .call name args resolved span, earlier, r, h => by
    rw [Expr.resolve_call]
    exact .callWith (Expr.sites around) (Expr.call name · · span) (fun _ _ => rfl) h
      (Expr.walked_resolveAll args)

theorem Expr.walked_resolveAll {around : List Address} :
    ∀ (es : List Expr) (earlier : List Site) (r : Resolver),
      Tracks earlier around r.scopes.scopes →
      Walked earlier around (Expr.allSites around es)
        (Expr.allSites around ((Expr.resolveAll es).run r).1.1)
        ((Expr.resolveAll es).run r).1.2 ((Expr.resolveAll es).run r).2
  | [], _, _, h => .nil h
  | e :: es, earlier, r, h =>
    (e.walked_resolve earlier r h).andThen (Expr.allSites around) (Expr.walked_resolveAll es _)

end

mutual

/-- The walk over a statement at an address below which no site stands yet. -/
theorem Stmt.walked_resolve {around : List Address} {place : Address} (hin : Inside around place) :
    ∀ (s : Stmt) (earlier : List Site) (r : Resolver), Untouched earlier place →
      Tracks earlier around r.scopes.scopes →
      Walked earlier around (s.sites around place) ((s.resolve.run r).1.1.sites around place)
        (s.resolve.run r).1.2 (s.resolve.run r).2
  | .compound body _, earlier, r, hnew, h =>
    Stmt.walked_resolveAll hin.child body earlier r (fun j _ => hnew.child j) h
  | .declaration name type span, _, _, _, h =>
    Walked.declare (t := ⟨around, name, .introduce (.variable type), span⟩) h rfl
  | .assign name value span, _, _, _, h =>
    (Walked.variableNamed h name span).andThen (Expr.sites around) (value.walked_resolve _)
  | .call name args resolved span, _, _, _, h => by
    rw [Stmt.resolve_call]
    exact .callWith (Stmt.sites around place) (Stmt.call name · · span) (fun _ _ => rfl) h
      (Expr.walked_resolveAll args)
  | .giveBack value _, earlier, r, _, h => value.walked_resolve earlier r h
  | .breakLoop _, _, _, _, h | .continueLoop _, _, _, _, h | .pass _, _, _, _, h => .nil h
  | .whileLoop test body _, earlier, r, hnew, h | .doWhile test body _, earlier, r, hnew, h => by
    have htest := test.walked_resolve earlier r h
    have hbody : Untouched (earlier ++ test.sites around) (0 :: place) :=
      (hnew.append (.expr hin test)).child 0
    exact htest.andThen (Stmt.sites around (0 :: place))
      fun r h => body.walked_resolve (hin.child 0) _ r hbody h
  | .conditional test body otherwise _, earlier, r, hnew, h => by
    have htest := test.walked_resolve earlier r h
    have hnew₁ : Untouched (earlier ++ test.sites around) place :=
      hnew.append (.expr hin test)
    have hboth := htest.andThen (Stmt.sites around (0 :: place))
      fun r h => body.walked_resolve (hin.child 0) _ r (hnew₁.child 0) h
    have hnew₂ : Untouched (earlier ++ (test.sites around ++ body.sites around (0 :: place)))
        (1 :: place) := by
      rw [← List.append_assoc]
      exact (hnew₁.child 1).append (.sibling (hin.child 1) Nat.zero_ne_one body)
    exact hboth.andThen (Stmt.sites? around (1 :: place))
      fun r h => Stmt.walked_resolve? (hin.child 1) otherwise _ r hnew₂ h
  | .forLoop init test step body _, earlier, r, hnew, h => by
    have hinit := init.walked_resolve (hin.child 0) earlier r (hnew.child 0) h
    have htest := hinit.andThen (Expr.sites around) (test.walked_resolve _)
    have hnew₁ : ∀ j, 0 < j →
        Untouched (earlier ++ (init.sites around (0 :: place) ++ test.sites around))
          (j :: place) := by
      intro j hj
      rw [← List.append_assoc]
      exact ((hnew.child j).append (.sibling (hin.child j) (Nat.ne_of_lt hj) init)).append
        (.expr (hin.child j) test)
    have hstep := htest.andThen (Stmt.sites around (1 :: place))
      fun r h => step.walked_resolve (hin.child 1) _ r (hnew₁ 1 (by omega)) h
    have hnew₂ : Untouched (earlier ++ (init.sites around (0 :: place) ++ test.sites around
        ++ step.sites around (1 :: place))) (2 :: place) := by
      rw [← List.append_assoc]
      exact (hnew₁ 2 (by omega)).append (.sibling (hin.child 2) (by omega) step)
    exact hstep.andThen (Stmt.sites around (2 :: place))
      fun r h => body.walked_resolve (hin.child 2) _ r hnew₂ h
  | .procedure id name params returnType body span, earlier, r, hnew, h => by
    obtain ⟨verdict, r₁, hopen, body', verdict', r₂, hbody, r₃, hrun, hclose⟩ :=
      Stmt.resolve_procedure id name params returnType body span r
    have hwalk := Walked.openProcedure
      (t := ⟨around, name, .introduce (.procedure id params returnType), span⟩) h hnew rfl
    rw [hopen] at hwalk
    have hall := hwalk.andThen (Stmt.allSites (place :: around) place 0)
      fun r h => Stmt.walked_resolveAll hin.enter body _ r (fun j _ => hnew.enter hin rfl params j) h
    rw [hbody] at hall
    rw [hrun]
    refine ⟨hall.verdict_eq, fun hok => ?_, hall.blank_eq, hall.marked⟩
    rw [hclose hok]
    exact (hall.tracks hok).closeScope

theorem Stmt.walked_resolveAll {around : List Address} {place : Address}
    (hin : ∀ j, Inside around (j :: place)) :
    ∀ (ss : List Stmt) {i : Nat} (earlier : List Site) (r : Resolver),
      (∀ j, i ≤ j → Untouched earlier (j :: place)) → Tracks earlier around r.scopes.scopes →
      Walked earlier around (Stmt.allSites around place i ss)
        (Stmt.allSites around place i ((Stmt.resolveAll ss).run r).1.1)
        ((Stmt.resolveAll ss).run r).1.2 ((Stmt.resolveAll ss).run r).2
  | [], _, _, _, _, h => .nil h
  | s :: ss, i, earlier, r, hnew, h => by
    have hs := s.walked_resolve (hin i) earlier r (hnew i (Nat.le_refl i)) h
    refine hs.andThen (Stmt.allSites around place (i + 1)) fun r h => ?_
    refine Stmt.walked_resolveAll hin ss _ r (fun j hj => ?_) h
    exact (hnew j (Nat.le_of_succ_le hj)).append (.sibling (hin j) (Nat.ne_of_lt hj) s)

theorem Stmt.walked_resolve? {around : List Address} {place : Address}
    (hin : Inside around place) :
    ∀ (s : Option Stmt) (earlier : List Site) (r : Resolver), Untouched earlier place →
      Tracks earlier around r.scopes.scopes →
      Walked earlier around (Stmt.sites? around place s)
        (Stmt.sites? around place ((Stmt.resolve? s).run r).1.1)
        ((Stmt.resolve? s).run r).1.2 ((Stmt.resolve? s).run r).2
  | none, _, _, _, h => .nil h
  | some s, earlier, r, hnew, h => s.walked_resolve hin earlier r hnew h

end

/-- The walk over a module, from whatever a resolver has done before. -/
theorem Module.walked_resolve (m : Module) (r : Resolver) :
    ∃ r', Walked [] [] m.sites (r.resolve m).1.1.sites (r.resolve m).1.2 r' := by
  rw [Resolver.resolve_eq]
  have hscope : (Scope.new "global" 1).Holds [] [] := .new rfl (by simp)
  have hin : ∀ j, Inside [] [j] := fun _ _ ha => by cases ha
  have hnew : ∀ j, 0 ≤ j → Untouched [] [j] := fun _ _ _ ht => by cases ht
  exact ⟨_, Stmt.walked_resolveAll hin m.body [] _ hnew (.module hscope)⟩

end Imperative
