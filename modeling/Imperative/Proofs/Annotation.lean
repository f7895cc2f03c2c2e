import Imperative.Proofs.Visits

/-!
# Walks that mark calls

The walk that resolves names marks a call when it leaves it.  Which mark it writes depends on the
names in the tree and not on the marks that are there already.  A walk that fails has marked the
calls that it had left by then, and all other calls are as they were.

* `annotated`: the visits of a tree with the marks that lexical scoping asks for.
* `annotate`: the same up to the first site that does not fit, where a walk stops.
* `Refers`: the calls that a walk leaves do refer to procedures, so their marks are not empty.
* `Annotates`: a walk does to the visits of a tree what `annotate` does.  `Annotates.andThen` puts
  two walks together, and `Annotates.callWith` is the walk over a call; `Expr.annotates_resolve`,
  `Stmt.annotates_resolve` and `Module.annotates_resolve` follow the walk over a tree.
-/

namespace Imperative

/-! ## The marks that lexical scoping asks for -/

/-- The symbol of the procedure to which a name refers. -/
def target? (earlier : List Site) (around : List Address) (name : String) :
    Option ProcedureSymbol :=
  match referent? earlier around name with
  | some (.introduced d (.procedure id params returnType)) =>
    some (.introduced d.name (d.around.length + 1) id params returnType)
  | _ => none

/-- The visits with every call marked by the procedure to which it refers. -/
def annotated (earlier : List Site) : List Visit → List Visit
  | [] => []
  | .reach t :: vs => .reach t :: annotated (earlier ++ [t]) vs
  | .leave around name _ :: vs =>
    .leave around name (target? earlier around name) :: annotated earlier vs

/-- The visits with the calls marked that are left before the first site that does not fit. -/
def annotate (earlier : List Site) : List Visit → List Visit
  | [] => []
  | .reach t :: vs =>
    match t.complaint? earlier with
    | some _ => .reach t :: vs
    | none => .reach t :: annotate (earlier ++ [t]) vs
  | .leave around name _ :: vs =>
    .leave around name (target? earlier around name) :: annotate earlier vs

variable {earlier : List Site} {vs ws : List Visit}

theorem annotate_append_of_ok (h : judge earlier (reached vs) = .ok ()) (ws : List Visit) :
    annotate earlier (vs ++ ws) = annotate earlier vs ++ annotate (earlier ++ reached vs) ws := by
  induction vs generalizing earlier with
  | nil => rw [reached_nil, List.append_nil, List.nil_append, annotate, List.nil_append]
  | cons v vs ih =>
    cases v with
    | leave around name mark =>
      rw [List.cons_append, annotate, annotate, ih h, reached_leave, List.cons_append]
    | reach t =>
      rw [reached_reach, judge] at h
      rw [List.cons_append, annotate, annotate, reached_reach]
      cases ht : t.complaint? earlier with
      | some cause => rw [ht] at h; cases h
      | none =>
        rw [ht] at h
        simp only [ih h, List.cons_append, List.append_assoc, List.nil_append]

theorem annotate_append_of_error {e : AnalysisError} (h : judge earlier (reached vs) = .error e)
    (ws : List Visit) : annotate earlier (vs ++ ws) = annotate earlier vs ++ ws := by
  induction vs generalizing earlier with
  | nil => cases h
  | cons v vs ih =>
    cases v with
    | leave around name mark =>
      rw [List.cons_append, annotate, annotate, ih h, List.cons_append]
    | reach t =>
      rw [reached_reach, judge] at h
      rw [List.cons_append, annotate, annotate]
      cases ht : t.complaint? earlier with
      | some cause => rfl
      | none =>
        rw [ht] at h
        simp only [ih h, List.cons_append]

theorem annotate_map_reach (earlier ts : List Site) :
    annotate earlier (ts.map .reach) = ts.map .reach := by
  induction ts generalizing earlier with
  | nil => rfl
  | cons t ts ih =>
    rw [List.map_cons, annotate]
    cases t.complaint? earlier with
    | some cause => rfl
    | none => rw [ih]

/-- If all sites fit, all calls are marked. -/
theorem annotate_of_ok (h : judge earlier (reached vs) = .ok ()) :
    annotate earlier vs = annotated earlier vs := by
  induction vs generalizing earlier with
  | nil => rfl
  | cons v vs ih =>
    cases v with
    | leave around name mark => rw [annotate, annotated, ih h]
    | reach t =>
      rw [reached_reach, judge] at h
      rw [annotate, annotated]
      cases ht : t.complaint? earlier with
      | some cause => rw [ht] at h; cases h
      | none =>
        rw [ht] at h
        rw [← ih h]

/-- If a site does not fit, the calls that are left before it are marked. -/
theorem exists_of_judge_reached {e : AnalysisError} (h : judge earlier (reached vs) = .error e) :
    ∃ (pre : List Visit) (t : Site) (post : List Visit), vs = pre ++ .reach t :: post
      ∧ judge earlier (reached pre) = .ok ()
      ∧ t.complaint? (earlier ++ reached pre) = some e.cause ∧ e.span = t.span
      ∧ annotate earlier vs = annotated earlier pre ++ .reach t :: post := by
  induction vs generalizing earlier with
  | nil => cases h
  | cons v vs ih =>
    cases v with
    | leave around name mark =>
      obtain ⟨pre, t, post, rfl, fits, cause, span, hvisits⟩ := ih h
      refine ⟨.leave around name mark :: pre, t, post, rfl, fits, cause, span, ?_⟩
      rw [annotate, hvisits, annotated, List.cons_append]
    | reach t =>
      rw [reached_reach, judge] at h
      rw [annotate]
      cases ht : t.complaint? earlier with
      | some cause =>
        rw [ht] at h
        cases h
        refine ⟨[], t, vs, rfl, rfl, ?_, rfl, rfl⟩
        rw [reached_nil, List.append_nil, ht]
      | none =>
        rw [ht] at h
        obtain ⟨pre, u, post, rfl, fits, cause, span, hvisits⟩ := ih h
        refine ⟨.reach t :: pre, u, post, rfl, ?_, ?_, span, ?_⟩
        · rw [reached_reach, judge, ht]
          exact fits
        · rwa [reached_reach, ← List.singleton_append, ← List.append_assoc]
        · rw [hvisits, annotated, List.cons_append]

/-- The marks that are there already do not matter. -/
theorem annotated_map_blank (earlier : List Site) (vs : List Visit) :
    annotated earlier (vs.map Visit.blank) = annotated earlier vs := by
  induction vs generalizing earlier with
  | nil => rfl
  | cons v vs ih =>
    cases v with
    | leave around name mark => rw [List.map_cons, Visit.blank, annotated, annotated, ih]
    | reach t => rw [List.map_cons, Visit.blank, annotated, annotated, ih]

theorem reached_map_blank (vs : List Visit) : reached (vs.map Visit.blank) = reached vs := by
  induction vs with
  | nil => rfl
  | cons v vs ih =>
    cases v with
    | leave around name mark => rw [List.map_cons, Visit.blank, reached_leave, reached_leave, ih]
    | reach t => rw [List.map_cons, Visit.blank, reached_reach, reached_reach, ih]

/-- Every call that is left before the first site that does not fit refers to a procedure. -/
def Refers (earlier : List Site) : List Visit → Prop
  | [] => True
  | .reach t :: vs => t.complaint? earlier = none → Refers (earlier ++ [t]) vs
  | .leave around name _ :: vs => (target? earlier around name).isSome ∧ Refers earlier vs

namespace Refers

theorem map_reach (earlier ts : List Site) : Refers earlier (ts.map .reach) := by
  induction ts generalizing earlier with
  | nil => trivial
  | cons t ts ih => exact fun _ => ih _

theorem append (h : Refers earlier vs)
    (h' : judge earlier (reached vs) = .ok () → Refers (earlier ++ reached vs) ws) :
    Refers earlier (vs ++ ws) := by
  induction vs generalizing earlier with
  | nil => simpa using h' rfl
  | cons v vs ih =>
    cases v with
    | leave around name mark => exact ⟨h.1, ih h.2 h'⟩
    | reach t =>
      intro fits
      refine ih (h fits) fun hok => ?_
      rw [reached_reach, judge, fits] at h'
      simpa using h' hok

/-- A call that was left has got a mark. -/
theorem leave_none_notMem (ws : List Visit) (h : Refers earlier (vs ++ ws))
    (hok : judge earlier (reached vs) = .ok ()) (around : List Address) (name : String) :
    .leave around name none ∉ annotated earlier vs := by
  induction vs generalizing earlier with
  | nil => exact List.not_mem_nil
  | cons v vs ih =>
    cases v with
    | leave around' name' mark =>
      rw [annotated, List.mem_cons]
      rintro (same | rest)
      · obtain ⟨-, -, untargeted⟩ := Visit.leave.inj same
        have targeted := h.1
        rw [← untargeted] at targeted
        cases targeted
      · exact ih h.2 hok rest
    | reach t =>
      rw [reached_reach, judge] at hok
      cases fits : t.complaint? earlier with
      | some cause => rw [fits] at hok; cases hok
      | none =>
        rw [fits] at hok
        rw [annotated, List.mem_cons]
        rintro (same | rest)
        · cases same
        · exact ih (h fits) hok rest

end Refers

/-! ## One walk -/

/-- How a walk in the scope `around` ends, which meets the visits `before` and leaves the visits
`after` in their place. -/
structure Annotates (earlier : List Site) (around : List Address) (before after : List Visit)
    (verdict : Verdict) (r : Resolver) : Prop where
  verdict_eq : verdict = judge earlier (reached before)
  tracks : verdict = .ok () → Tracks (earlier ++ reached before) around r.scopes.scopes
  visits_eq : after = annotate earlier before
  refers : Refers earlier before

namespace Annotates

variable {before after : List Visit} {around : List Address} {verdict : Verdict} {r : Resolver}

/-- Walking over nothing. -/
theorem nil (h : Tracks earlier around r.scopes.scopes) :
    Annotates earlier around [] [] (.ok ()) r where
  verdict_eq := rfl
  tracks _ := by rwa [reached_nil, List.append_nil]
  visits_eq := rfl
  refers := trivial

/-- Walking over sites and leaving no call. -/
theorem reach {ts : List Site} (hverdict : verdict = judge earlier ts)
    (htracks : verdict = .ok () → Tracks (earlier ++ ts) around r.scopes.scopes) :
    Annotates earlier around (ts.map .reach) (ts.map .reach) verdict r where
  verdict_eq := by rwa [reached_map_reach]
  tracks := by rwa [reached_map_reach]
  visits_eq := (annotate_map_reach earlier ts).symm
  refers := .map_reach earlier ts

/-- A walk that has failed, over more visits, none of which it makes. -/
theorem fail {e : AnalysisError} (h : Annotates earlier around before after (.error e) r)
    (rest : List Visit) :
    Annotates earlier around (before ++ rest) (after ++ rest) (.error e) r where
  verdict_eq := by
    rw [reached_append]
    exact (judge_append_of_error h.verdict_eq.symm _).symm
  tracks := by rintro ⟨⟩
  visits_eq := by rw [annotate_append_of_error h.verdict_eq.symm, h.visits_eq]
  refers := h.refers.append fun hok => by
    have := h.verdict_eq.trans hok
    cases this

/-- Two walks one after the other. -/
theorem append {before' after' : List Visit} {around' : List Address} {r' : Resolver}
    (h : Annotates earlier around before after (.ok ()) r)
    (h' : Annotates (earlier ++ reached before) around' before' after' verdict r') :
    Annotates earlier around' (before ++ before') (after ++ after') verdict r' where
  verdict_eq := by
    rw [reached_append, judge_append_of_ok h.verdict_eq.symm]
    exact h'.verdict_eq
  tracks hok := by
    rw [reached_append, ← List.append_assoc]
    exact h'.tracks hok
  visits_eq := by rw [annotate_append_of_ok h.verdict_eq.symm, h.visits_eq, h'.visits_eq]
  refers := h.refers.append fun _ => h'.refers

/-- Leaving a call after a walk. -/
theorem leave {around' : List Address} {name : String} {symbol : ProcedureSymbol}
    (h : Annotates earlier around before after (.ok ()) r)
    (htarget : target? (earlier ++ reached before) around' name = some symbol)
    (mark : Option ProcedureSymbol) :
    Annotates earlier around (before ++ [.leave around' name mark])
      (after ++ [.leave around' name (some symbol)]) (.ok ()) r := by
  refine h.append ⟨rfl, fun _ => ?_, ?_, ?_, trivial⟩
  · rw [reached_leave, reached_nil, List.append_nil]
    exact h.tracks rfl
  · rw [annotate, htarget, annotate]
  · rw [htarget]
    rfl

/-- Two walks, the second of which takes place only if the first came through. -/
theorem andThen {α : Type} (visits : α → List Visit) {node : α}
    {visit : StateM Resolver (α × Verdict)} (h : Annotates earlier around before after verdict r)
    (hv : ∀ r : Resolver, Tracks (earlier ++ reached before) around r.scopes.scopes →
      Annotates (earlier ++ reached before) around (visits node) (visits (visit.run r).1.1)
        (visit.run r).1.2 (visit.run r).2) :
    Annotates earlier around (before ++ visits node)
      (after ++ visits ((verdict.andThen node visit).run r).1.1)
      ((verdict.andThen node visit).run r).1.2 ((verdict.andThen node visit).run r).2 := by
  cases verdict with
  | error e => exact h.fail (visits node)
  | ok _ => exact h.append (hv r (h.tracks rfl))

end Annotates

/-! ## Calls -/

open Resolve

/-- A call whose callee is found, but not all names in its arguments, keeps its mark. -/
theorem Resolve.callWith_of_error_in_args {α : Type}
    (build : List Expr → Option ProcedureSymbol → α) {name : String} {args args' : List Expr}
    {resolved : Option ProcedureSymbol} {span : Span} {r r₁ r₂ : Resolver}
    {symbol : ProcedureSymbol} {failure : AnalysisError}
    (h : (procedureNamed name args.length span).run.run r = (.ok symbol, r₁))
    (hargs : (Expr.resolveAll args).run r₁ = ((args', .error failure), r₂)) :
    (callWith build name args resolved span).run r =
      ((build args' resolved, .error failure), r₂) := by
  rw [callWith, StateT.run_bind, h]
  show (Expr.resolveAll args >>= _).run r₁ = _
  rw [StateT.run_bind, hargs]
  rfl

/-- Sites that bring nothing in change no target. -/
theorem target?_append_of_forall {later : List Site}
    (h : ∀ t ∈ later, ∀ what, t.act ≠ .introduce what) (around : List Address) (name : String) :
    target? (earlier ++ later) around name = target? earlier around name := by
  have same : (meaning? (earlier ++ later) · name) = (meaning? earlier · name) := by
    funext scope
    refine meaning?_append_of_forall fun t ht => ?_
    rw [Site.introduction?_eq_none_iff]
    exact fun what act => absurd act (h t ht what)
  rw [target?, target?, referent?, referent?, same]

/-- The symbol that a call is marked with is that of the procedure to which its name refers. -/
theorem Site.Marked.target?_eq {around : List Address} {name : String} {count : Nat}
    {symbol : ProcedureSymbol} {span : Span}
    (h : Site.Marked earlier ⟨around, name, .call count (some symbol), span⟩) :
    target? earlier around name = some symbol := by
  obtain ⟨v, id, params, returnType, href, -, hmark⟩ := h count (some symbol) rfl
  rw [target?, href, hmark]

/-- The names in the arguments of a call bring nothing in. -/
theorem Expr.of_mem_reached_allVisits {around : List Address} {es : List Expr} {t : Site}
    (ht : t ∈ reached (Expr.allVisits around es)) (what : Introduced) :
    t.act ≠ .introduce what := by
  rw [Expr.reached_allVisits] at ht
  obtain ⟨u, hu, rfl⟩ := List.mem_map.mp ht
  have hact := (Expr.of_mem_allSites hu).2 what
  rw [Site.blank]
  split
  · rintro ⟨⟩
  · exact hact

/-- The walk over a call: it is marked when its arguments are done. -/
theorem Annotates.callWith {α : Type} (visits : α → List Visit)
    (build : List Expr → Option ProcedureSymbol → α) {around : List Address} {r : Resolver}
    {name : String} {args : List Expr} {resolved : Option ProcedureSymbol} {span : Span}
    (hvisits : ∀ args mark, visits (build args mark) =
      Visit.call around name args.length mark span (Expr.allVisits around args))
    (h : Tracks earlier around r.scopes.scopes)
    (hargs : ∀ (earlier : List Site) (r : Resolver), Tracks earlier around r.scopes.scopes →
      Annotates earlier around (Expr.allVisits around args)
        (Expr.allVisits around ((Expr.resolveAll args).run r).1.1)
        ((Expr.resolveAll args).run r).1.2 ((Expr.resolveAll args).run r).2) :
    Annotates earlier around (visits (build args resolved))
      (visits ((Resolve.callWith build name args resolved span).run r).1.1)
      ((Resolve.callWith build name args resolved span).run r).1.2
      ((Resolve.callWith build name args resolved span).run r).2 := by
  rw [hvisits]
  generalize hsite : (⟨around, name, .call args.length none, span⟩ : Site) = t
  rcases procedureNamed_cases h name args.length none span with
    ⟨e, r₁, hname, hjudge⟩ | ⟨symbol, r₁, hname, hjudge, hr₁, hmarked⟩
  · -- The callee is not found, and nothing else is looked at.
    rw [hsite] at hjudge
    have stopped : Annotates earlier around [.reach t] [.reach t] (.error e) r₁ :=
      .reach hjudge.symm (by rintro ⟨⟩)
    rw [callWith_of_error build hname, hvisits, Visit.call, hsite]
    exact stopped.fail _
  · -- The callee is found; whether the call is marked depends on its arguments.
    rw [hsite] at hjudge
    have found : Annotates earlier around [.reach t] [.reach t] (.ok ()) r₁ := by
      refine .reach hjudge.symm fun _ => ?_
      rw [hr₁, ← hsite]
      exact h.skip (by rintro _ ⟨⟩)
    have walk := found.append (hargs _ r₁ (found.tracks rfl))
    have hlength : ((Expr.resolveAll args).run r₁).1.1.length = args.length := by
      have := congrArg List.length (Expr.unmarked_resolveAll args r₁)
      rwa [Expr.length_allUnmarked, Expr.length_allUnmarked] at this
    rcases hall : (Expr.resolveAll args).run r₁ with ⟨⟨args', verdict⟩, r₂⟩
    rw [hall] at walk hlength
    cases verdict with
    | error e =>
      rw [callWith_of_error_in_args build hname hall, hvisits, hlength, Visit.call, Visit.call,
        hsite]
      exact walk.fail _
    | ok _ =>
      obtain ⟨mark, hrun, hmark⟩ := callWith_of_ok build hname hall
      rw [hrun, hmark rfl, hvisits, hlength, Visit.call, Visit.call, hsite]
      -- The arguments bring no name in, so the callee still refers to the same procedure.
      have htarget : target? (earlier ++ reached ([.reach t] ++ Expr.allVisits around args)) around
          name = some symbol := by
        rw [target?_append_of_forall, hmarked.target?_eq]
        rw [reached_append, reached_reach, reached_nil]
        intro u hu
        rcases List.mem_append.mp hu with hu | hu
        · obtain rfl := List.mem_singleton.mp hu
          rw [← hsite]
          rintro _ ⟨⟩
        · exact Expr.of_mem_reached_allVisits hu
      exact walk.leave htarget resolved

/-! ## The walk over a tree -/

mutual

theorem Expr.annotates_resolve {around : List Address} :
    ∀ (e : Expr) (earlier : List Site) (r : Resolver), Tracks earlier around r.scopes.scopes →
      Annotates earlier around (e.visits around) ((e.resolve.run r).1.1.visits around)
        (e.resolve.run r).1.2 (e.resolve.run r).2
  | .number .., _, _, h => .nil h
  | .var name span, _, _, h =>
    have found := Walked.variableNamed h name span
    .reach found.verdict_eq found.tracks
  | .unary _ operand _, earlier, r, h => operand.annotates_resolve earlier r h
  | .binary _ lhs rhs _, earlier, r, h =>
    (lhs.annotates_resolve earlier r h).andThen (Expr.visits around) (rhs.annotates_resolve _)
  | .call name args resolved span, earlier, r, h => by
    rw [Expr.resolve_call]
    exact .callWith (Expr.visits around) (Expr.call name · · span) (fun _ _ => rfl) h
      (Expr.annotates_resolveAll args)

theorem Expr.annotates_resolveAll {around : List Address} :
    ∀ (es : List Expr) (earlier : List Site) (r : Resolver),
      Tracks earlier around r.scopes.scopes →
      Annotates earlier around (Expr.allVisits around es)
        (Expr.allVisits around ((Expr.resolveAll es).run r).1.1)
        ((Expr.resolveAll es).run r).1.2 ((Expr.resolveAll es).run r).2
  | [], _, _, h => .nil h
  | e :: es, earlier, r, h =>
    (e.annotates_resolve earlier r h).andThen (Expr.allVisits around)
      (Expr.annotates_resolveAll es _)

end

namespace Untouched

variable {around : List Address} {place : Address}

theorem map_blank {ts : List Site} (h : Untouched ts place) :
    Untouched (ts.map Site.blank) place := by
  intro t ht
  obtain ⟨u, hu, rfl⟩ := List.mem_map.mp ht
  rw [Site.blank]
  split <;> exact h u hu

/-- The visits of an expression leave the procedures in another place alone. -/
theorem visits_expr (h : Untouched earlier place) (hin : Inside around place) (e : Expr) :
    Untouched (earlier ++ reached (e.visits around)) place := by
  rw [e.reached_visits]
  exact h.append (.map_blank (.expr hin e))

/-- The visits of one child leave the procedures in another alone. -/
theorem visits_sibling {i j : Nat} (h : Untouched earlier (j :: place))
    (hin : Inside around (j :: place)) (hij : i ≠ j) (s : Stmt) :
    Untouched (earlier ++ reached (s.visits around (i :: place))) (j :: place) := by
  rw [s.reached_visits]
  exact h.append (.map_blank (.sibling hin hij s))

end Untouched

mutual

/-- The walk over a statement at an address below which no site stands yet. -/
theorem Stmt.annotates_resolve {around : List Address} {place : Address}
    (hin : Inside around place) :
    ∀ (s : Stmt) (earlier : List Site) (r : Resolver), Untouched earlier place →
      Tracks earlier around r.scopes.scopes →
      Annotates earlier around (s.visits around place) ((s.resolve.run r).1.1.visits around place)
        (s.resolve.run r).1.2 (s.resolve.run r).2
  | .compound body _, earlier, r, hnew, h =>
    Stmt.annotates_resolveAll hin.child body earlier r (fun j _ => hnew.child j) h
  | .declaration name type span, _, _, _, h =>
    have declared := Walked.declare (t := ⟨around, name, .introduce (.variable type), span⟩) h rfl
    .reach declared.verdict_eq declared.tracks
  | .assign name value span, earlier, _, _, h => by
    have found := Walked.variableNamed h name span
    have target : Annotates earlier around [.reach ⟨around, name, .use, span⟩]
        [.reach ⟨around, name, .use, span⟩] _ _ := .reach found.verdict_eq found.tracks
    exact target.andThen (Expr.visits around) (value.annotates_resolve _)
  | .call name args resolved span, _, _, _, h => by
    rw [Stmt.resolve_call]
    exact .callWith (Stmt.visits around place) (Stmt.call name · · span) (fun _ _ => rfl) h
      (Expr.annotates_resolveAll args)
  | .giveBack value _, earlier, r, _, h => value.annotates_resolve earlier r h
  | .breakLoop _, _, _, _, h | .continueLoop _, _, _, _, h | .pass _, _, _, _, h => .nil h
  | .whileLoop test body _, earlier, r, hnew, h | .doWhile test body _, earlier, r, hnew, h => by
    have htest := test.annotates_resolve earlier r h
    exact htest.andThen (Stmt.visits around (0 :: place)) fun r h =>
      body.annotates_resolve (hin.child 0) _ r ((hnew.visits_expr hin test).child 0) h
  | .conditional test body otherwise _, earlier, r, hnew, h => by
    have htest := test.annotates_resolve earlier r h
    have hnew₁ := hnew.visits_expr hin test
    have hbody := htest.andThen (Stmt.visits around (0 :: place)) fun r h =>
      body.annotates_resolve (hin.child 0) _ r (hnew₁.child 0) h
    have hnew₂ := (hnew₁.child 1).visits_sibling (hin.child 1) Nat.zero_ne_one body
    rw [List.append_assoc, ← reached_append] at hnew₂
    exact hbody.andThen (Stmt.visits? around (1 :: place)) fun r h =>
      Stmt.annotates_resolve? (hin.child 1) otherwise _ r hnew₂ h
  | .forLoop init test step body _, earlier, r, hnew, h => by
    have hinit := init.annotates_resolve (hin.child 0) earlier r (hnew.child 0) h
    have htest := hinit.andThen (Expr.visits around) (test.annotates_resolve _)
    have hnew₁ : ∀ j, 0 < j → Untouched
        (earlier ++ reached (init.visits around (0 :: place) ++ test.visits around))
        (j :: place) := by
      intro j hj
      rw [reached_append, ← List.append_assoc]
      exact ((hnew.child j).visits_sibling (hin.child j) (Nat.ne_of_lt hj) init).visits_expr
        (hin.child j) test
    have hstep := htest.andThen (Stmt.visits around (1 :: place)) fun r h =>
      step.annotates_resolve (hin.child 1) _ r (hnew₁ 1 (by omega)) h
    have hnew₂ := (hnew₁ 2 (by omega)).visits_sibling (i := 1) (hin.child 2) (by omega) step
    rw [List.append_assoc, ← reached_append] at hnew₂
    exact hstep.andThen (Stmt.visits around (2 :: place)) fun r h =>
      body.annotates_resolve (hin.child 2) _ r hnew₂ h
  | .procedure id name params returnType body span, earlier, r, hnew, h => by
    obtain ⟨verdict, r₁, hopen, body', verdict', r₂, hbody, r₃, hrun, hclose⟩ :=
      Stmt.resolve_procedure id name params returnType body span r
    have opened := Walked.openProcedure
      (t := ⟨around, name, .introduce (.procedure id params returnType), span⟩) h hnew rfl
    rw [hopen] at opened
    have hhead := Annotates.reach opened.verdict_eq opened.tracks
    have hall := hhead.andThen (Stmt.allVisits (place :: around) place 0) fun r h =>
      Stmt.annotates_resolveAll hin.enter body _ r (fun j _ => by
        rw [reached_map_reach]
        exact hnew.enter hin rfl params j) h
    rw [hbody] at hall
    rw [hrun]
    refine ⟨hall.verdict_eq, fun hok => ?_, hall.visits_eq, hall.refers⟩
    rw [hclose hok]
    exact (hall.tracks hok).closeScope

theorem Stmt.annotates_resolveAll {around : List Address} {place : Address}
    (hin : ∀ j, Inside around (j :: place)) :
    ∀ (ss : List Stmt) {i : Nat} (earlier : List Site) (r : Resolver),
      (∀ j, i ≤ j → Untouched earlier (j :: place)) → Tracks earlier around r.scopes.scopes →
      Annotates earlier around (Stmt.allVisits around place i ss)
        (Stmt.allVisits around place i ((Stmt.resolveAll ss).run r).1.1)
        ((Stmt.resolveAll ss).run r).1.2 ((Stmt.resolveAll ss).run r).2
  | [], _, _, _, _, h => .nil h
  | s :: ss, i, earlier, r, hnew, h => by
    have hs := s.annotates_resolve (hin i) earlier r (hnew i (Nat.le_refl i)) h
    refine hs.andThen (Stmt.allVisits around place (i + 1)) fun r h => ?_
    refine Stmt.annotates_resolveAll hin ss _ r (fun j hj => ?_) h
    exact (hnew j (Nat.le_of_succ_le hj)).visits_sibling (hin j) (Nat.ne_of_lt hj) s

theorem Stmt.annotates_resolve? {around : List Address} {place : Address}
    (hin : Inside around place) :
    ∀ (s : Option Stmt) (earlier : List Site) (r : Resolver), Untouched earlier place →
      Tracks earlier around r.scopes.scopes →
      Annotates earlier around (Stmt.visits? around place s)
        (Stmt.visits? around place ((Stmt.resolve? s).run r).1.1)
        ((Stmt.resolve? s).run r).1.2 ((Stmt.resolve? s).run r).2
  | none, _, _, _, h => .nil h
  | some s, earlier, r, hnew, h => s.annotates_resolve hin earlier r hnew h

end

/-- The walk over a module, from whatever a resolver has done before. -/
theorem Module.annotates_resolve (m : Module) (r : Resolver) :
    ∃ r', Annotates [] [] m.visits (r.resolve m).1.1.visits (r.resolve m).1.2 r' := by
  rw [Resolver.resolve_eq]
  have hscope : (Scope.new "global" 1).Holds [] [] := .new rfl (by simp)
  have hin : ∀ j, Inside [] [j] := fun _ _ ha => by cases ha
  have hnew : ∀ j, 0 ≤ j → Untouched [] [j] := fun _ _ _ ht => by cases ht
  exact ⟨_, Stmt.annotates_resolveAll hin m.body [] _ hnew (.module hscope)⟩

end Imperative
