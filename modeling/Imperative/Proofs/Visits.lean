import Imperative.Proofs.NameResolution

/-!
# Visits

A walk over a tree meets the names in it one after the other, and it leaves a call when all
arguments of the call are done; that is when the call is marked.  The *visits* of a tree are these
moments in the order of the walk.  They show every mark of the tree at the moment at which a walk
would write it.

* `Module.visits`: the visits of a module.  Leaving the marks aside, they are its sites
  (`Expr.reached_visits`, `Stmt.reached_visits`).
* `Module.eq_of_visits`: a module is known from its unmarked module and its visits.
-/

namespace Imperative

/-- A moment of a walk. -/
inductive Visit where
  /-- A name is met.  The site of a call does not show the mark here. -/
  | reach (site : Site)
  /-- The arguments of a call are done. -/
  | leave (around : List Address) (name : String) (mark : Option ProcedureSymbol)
  deriving DecidableEq, Repr

namespace Visit

/-- The visits of a call: its name, its arguments and its end. -/
def call (around : List Address) (name : String) (count : Nat) (mark : Option ProcedureSymbol)
    (span : Span) (args : List Visit) : List Visit :=
  .reach ⟨around, name, .call count none, span⟩ :: (args ++ [.leave around name mark])

/-- The site that is met. -/
def site? : Visit → Option Site
  | .reach t => some t
  | .leave .. => none

/-- The visit without the mark that it may show. -/
def blank : Visit → Visit
  | .reach t => .reach t
  | .leave around name _ => .leave around name none

end Visit

/-- The sites that are met. -/
def reached (vs : List Visit) : List Site :=
  vs.filterMap Visit.site?

/-! ## The visits of a tree -/

mutual

/-- The visits of an expression. -/
def Expr.visits (around : List Address) : Expr → List Visit
  | .number .. => []
  | .var name span => [.reach ⟨around, name, .use, span⟩]
  | .unary _ operand _ => operand.visits around
  | .binary _ lhs rhs _ => lhs.visits around ++ rhs.visits around
  | .call name args mark span =>
    Visit.call around name args.length mark span (Expr.allVisits around args)

/-- The visits of a list of expressions. -/
def Expr.allVisits (around : List Address) : List Expr → List Visit
  | [] => []
  | e :: es => e.visits around ++ Expr.allVisits around es

end

mutual

/-- The visits of the statement at the address `place`. -/
def Stmt.visits (around : List Address) (place : Address) : Stmt → List Visit
  | .compound body _ => Stmt.allVisits around place 0 body
  | .declaration name type span => [.reach ⟨around, name, .introduce (.variable type), span⟩]
  | .assign name value span => .reach ⟨around, name, .use, span⟩ :: value.visits around
  | .call name args mark span =>
    Visit.call around name args.length mark span (Expr.allVisits around args)
  | .conditional test body otherwise _ =>
    test.visits around ++ body.visits around (0 :: place)
      ++ Stmt.visits? around (1 :: place) otherwise
  | .whileLoop test body _ | .doWhile test body _ =>
    test.visits around ++ body.visits around (0 :: place)
  | .forLoop init test step body _ =>
    init.visits around (0 :: place) ++ test.visits around ++ step.visits around (1 :: place)
      ++ body.visits around (2 :: place)
  | .giveBack value _ => value.visits around
  | .breakLoop _ | .continueLoop _ | .pass _ => []
  | .procedure id name params returnType body span =>
    (⟨around, name, .introduce (.procedure id params returnType), span⟩
        :: params.map (Param.site (place :: around))).map Visit.reach
      ++ Stmt.allVisits (place :: around) place 0 body

/-- The visits of the children of `place` from the `i`-th on. -/
def Stmt.allVisits (around : List Address) (place : Address) (i : Nat) : List Stmt → List Visit
  | [] => []
  | s :: ss => s.visits around (i :: place) ++ Stmt.allVisits around place (i + 1) ss

/-- The visits of a statement that may be absent. -/
def Stmt.visits? (around : List Address) (place : Address) : Option Stmt → List Visit
  | none => []
  | some s => s.visits around place

end

/-- The visits of a module. -/
def Module.visits (m : Module) : List Visit :=
  Stmt.allVisits [] [] 0 m.body

/-! ## Visits and sites -/

@[simp] theorem reached_nil : reached [] = [] := rfl

@[simp] theorem reached_reach (t : Site) (vs : List Visit) :
    reached (.reach t :: vs) = t :: reached vs := rfl

@[simp] theorem reached_leave (around : List Address) (name : String)
    (mark : Option ProcedureSymbol) (vs : List Visit) :
    reached (.leave around name mark :: vs) = reached vs := rfl

@[simp] theorem reached_append (vs ws : List Visit) :
    reached (vs ++ ws) = reached vs ++ reached ws :=
  List.filterMap_append

@[simp] theorem reached_map_reach (ts : List Site) : reached (ts.map Visit.reach) = ts := by
  induction ts with
  | nil => rfl
  | cons t ts ih => rw [List.map_cons, reached_reach, ih]

mutual

/-- A walk over an expression meets its sites. -/
theorem Expr.reached_visits (around : List Address) :
    ∀ e : Expr, reached (e.visits around) = (e.sites around).map Site.blank
  | .number .. | .var .. => rfl
  | .unary _ operand _ => operand.reached_visits around
  | .binary _ lhs rhs _ => by
    simp [Expr.visits, Expr.sites, lhs.reached_visits, rhs.reached_visits]
  | .call name args mark span => by
    simp [Expr.visits, Visit.call, Expr.sites, Expr.reached_allVisits around args, Site.blank]

theorem Expr.reached_allVisits (around : List Address) :
    ∀ es : List Expr, reached (Expr.allVisits around es) = (Expr.allSites around es).map Site.blank
  | [] => rfl
  | e :: es => by
    simp [Expr.allVisits, Expr.allSites, e.reached_visits, Expr.reached_allVisits around es]

end

mutual

/-- A walk over a statement meets its sites. -/
theorem Stmt.reached_visits (around : List Address) (place : Address) :
    ∀ s : Stmt, reached (s.visits around place) = (s.sites around place).map Site.blank
  | .compound body _ => Stmt.reached_allVisits around place 0 body
  | .declaration .. | .breakLoop _ | .continueLoop _ | .pass _ => rfl
  | .assign name value span => by
    simp [Stmt.visits, Stmt.sites, value.reached_visits, Site.blank]
  | .call name args mark span => by
    simp [Stmt.visits, Visit.call, Stmt.sites, Expr.reached_allVisits around args, Site.blank]
  | .conditional test body otherwise _ => by
    simp [Stmt.visits, Stmt.sites, test.reached_visits, body.reached_visits,
      Stmt.reached_visits? around (1 :: place) otherwise]
  | .whileLoop test body _ | .doWhile test body _ => by
    simp [Stmt.visits, Stmt.sites, test.reached_visits, body.reached_visits]
  | .forLoop init test step body _ => by
    simp [Stmt.visits, Stmt.sites, init.reached_visits, test.reached_visits, step.reached_visits,
      body.reached_visits]
  | .giveBack value _ => value.reached_visits around
  | .procedure id name params returnType body span => by
    have blank : Site.blank ∘ Param.site (place :: around) = Param.site (place :: around) := rfl
    rw [Stmt.visits, Stmt.sites, reached_append, reached_map_reach, List.map_append,
      Stmt.reached_allVisits (place :: around) place 0 body, List.map_cons, List.map_map, blank]
    rfl

theorem Stmt.reached_allVisits (around : List Address) (place : Address) (i : Nat) :
    ∀ ss : List Stmt,
      reached (Stmt.allVisits around place i ss) = (Stmt.allSites around place i ss).map Site.blank
  | [] => rfl
  | s :: ss => by
    simp [Stmt.allVisits, Stmt.allSites, s.reached_visits,
      Stmt.reached_allVisits around place (i + 1) ss]

theorem Stmt.reached_visits? (around : List Address) (place : Address) :
    ∀ s : Option Stmt,
      reached (Stmt.visits? around place s) = (Stmt.sites? around place s).map Site.blank
  | none => rfl
  | some s => s.reached_visits around place

end

/-! ## Visits and marks -/

mutual

/-- Without its marks, an expression has the same visits without theirs. -/
theorem Expr.visits_unmarked (around : List Address) :
    ∀ e : Expr, e.unmarked.visits around = (e.visits around).map Visit.blank
  | .number .. | .var .. => rfl
  | .unary _ operand _ => operand.visits_unmarked around
  | .binary _ lhs rhs _ => by
    simp [Expr.visits, Expr.unmarked, lhs.visits_unmarked, rhs.visits_unmarked]
  | .call name args mark span => by
    simp [Expr.visits, Visit.call, Expr.unmarked, Expr.allVisits_unmarked around args, Visit.blank]

theorem Expr.allVisits_unmarked (around : List Address) :
    ∀ es : List Expr,
      Expr.allVisits around (Expr.allUnmarked es) = (Expr.allVisits around es).map Visit.blank
  | [] => rfl
  | e :: es => by
    simp [Expr.allVisits, Expr.allUnmarked, e.visits_unmarked, Expr.allVisits_unmarked around es]

end

mutual

/-- Without its marks, a statement has the same visits without theirs. -/
theorem Stmt.visits_unmarked (around : List Address) (place : Address) :
    ∀ s : Stmt, s.unmarked.visits around place = (s.visits around place).map Visit.blank
  | .compound body _ => Stmt.allVisits_unmarked around place 0 body
  | .declaration .. | .breakLoop _ | .continueLoop _ | .pass _ => rfl
  | .assign name value span => by
    simp [Stmt.visits, Stmt.unmarked, value.visits_unmarked, Visit.blank]
  | .call name args mark span => by
    simp [Stmt.visits, Visit.call, Stmt.unmarked, Expr.allVisits_unmarked around args, Visit.blank]
  | .conditional test body otherwise _ => by
    simp [Stmt.visits, Stmt.unmarked, test.visits_unmarked, body.visits_unmarked,
      Stmt.visits?_unmarked around (1 :: place) otherwise]
  | .whileLoop test body _ | .doWhile test body _ => by
    simp [Stmt.visits, Stmt.unmarked, test.visits_unmarked, body.visits_unmarked]
  | .forLoop init test step body _ => by
    simp [Stmt.visits, Stmt.unmarked, init.visits_unmarked, test.visits_unmarked,
      step.visits_unmarked, body.visits_unmarked]
  | .giveBack value _ => value.visits_unmarked around
  | .procedure id name params returnType body span => by
    have blank : Visit.blank ∘ Visit.reach = Visit.reach := rfl
    simp only [Stmt.visits, Stmt.unmarked, List.map_append, List.map_map, blank,
      Stmt.allVisits_unmarked (place :: around) place 0 body]

theorem Stmt.allVisits_unmarked (around : List Address) (place : Address) (i : Nat) :
    ∀ ss : List Stmt, Stmt.allVisits around place i (Stmt.allUnmarked ss) =
      (Stmt.allVisits around place i ss).map Visit.blank
  | [] => rfl
  | s :: ss => by
    simp [Stmt.allVisits, Stmt.allUnmarked, s.visits_unmarked,
      Stmt.allVisits_unmarked around place (i + 1) ss]

theorem Stmt.visits?_unmarked (around : List Address) (place : Address) :
    ∀ s : Option Stmt, Stmt.visits? around place (Stmt.unmarked? s) =
      (Stmt.visits? around place s).map Visit.blank
  | none => rfl
  | some s => s.visits_unmarked around place

end

/-! ## A tree is known from its unmarked tree and its visits -/

section Known

variable {around : List Address} {place : Address}

theorem Expr.length_visits {e e' : Expr} (h : e.unmarked = e'.unmarked) :
    (e.visits around).length = (e'.visits around).length := by
  have same := congrArg (fun e => (e.visits around).length) h
  simpa [Expr.visits_unmarked] using same

theorem Stmt.length_visits {s s' : Stmt} (h : s.unmarked = s'.unmarked) :
    (s.visits around place).length = (s'.visits around place).length := by
  have same := congrArg (fun s => (s.visits around place).length) h
  simpa [Stmt.visits_unmarked] using same

theorem Stmt.length_visits? {s s' : Option Stmt} (h : Stmt.unmarked? s = Stmt.unmarked? s') :
    (Stmt.visits? around place s).length = (Stmt.visits? around place s').length := by
  have same := congrArg (fun s => (Stmt.visits? around place s).length) h
  simpa [Stmt.visits?_unmarked] using same

/-- A call is known from its visits. -/
theorem Visit.of_call_eq {name : String} {count : Nat} {mark mark' : Option ProcedureSymbol}
    {span : Span} {args args' : List Visit}
    (h : Visit.call around name count mark span args =
      Visit.call around name count mark' span args') :
    args = args' ∧ mark = mark' := by
  obtain ⟨same, last⟩ := List.append_inj' (List.cons.inj h).2 rfl
  cases last
  exact ⟨same, rfl⟩

mutual

theorem Expr.eq_of_visits : ∀ {e e' : Expr}, e.unmarked = e'.unmarked →
    e.visits around = e'.visits around → e = e'
  | .number .., e', h, _ => by
    cases e' <;> cases h
    rfl
  | .var .., e', h, _ => by
    cases e' <;> cases h
    rfl
  | .unary op operand span, e', h, hv => by
    cases e' with
    | unary op' operand' span' =>
      obtain ⟨rfl, same, rfl⟩ := Expr.unary.inj h
      rw [Expr.eq_of_visits same hv]
    | _ => cases h
  | .binary op lhs rhs span, e', h, hv => by
    cases e' with
    | binary op' lhs' rhs' span' =>
      obtain ⟨rfl, left, right, rfl⟩ := Expr.binary.inj h
      obtain ⟨visits, visits'⟩ := List.append_inj hv (Expr.length_visits left)
      rw [Expr.eq_of_visits left visits, Expr.eq_of_visits right visits']
    | _ => cases h
  | .call name args mark span, e', h, hv => by
    cases e' with
    | call name' args' mark' span' =>
      obtain ⟨rfl, same, -, rfl⟩ := Expr.call.inj h
      have count : args'.length = args.length := by
        rw [← Expr.length_allUnmarked args', ← same, Expr.length_allUnmarked]
      rw [Expr.visits, Expr.visits, count] at hv
      obtain ⟨visits, rfl⟩ := Visit.of_call_eq hv
      rw [Expr.all_eq_of_visits same visits]
    | _ => cases h

theorem Expr.all_eq_of_visits : ∀ {es es' : List Expr}, Expr.allUnmarked es = Expr.allUnmarked es' →
    Expr.allVisits around es = Expr.allVisits around es' → es = es'
  | [], es', h, _ => by
    cases es' with
    | nil => rfl
    | cons => cases h
  | e :: es, es', h, hv => by
    cases es' with
    | nil => cases h
    | cons e' es' =>
      obtain ⟨first, rest⟩ := List.cons.inj h
      obtain ⟨visits, visits'⟩ := List.append_inj hv (Expr.length_visits first)
      rw [Expr.eq_of_visits first visits, Expr.all_eq_of_visits rest visits']

end

mutual

theorem Stmt.eq_of_visits {around : List Address} {place : Address} : ∀ {s s' : Stmt},
    s.unmarked = s'.unmarked → s.visits around place = s'.visits around place → s = s'
  | .declaration .., s', h, _ | .breakLoop _, s', h, _ | .continueLoop _, s', h, _
  | .pass _, s', h, _ => by
    cases s' <;> cases h
    rfl
  | .compound body span, s', h, hv => by
    cases s' with
    | compound body' span' =>
      obtain ⟨same, rfl⟩ := Stmt.compound.inj h
      rw [Stmt.all_eq_of_visits same hv]
    | _ => cases h
  | .assign name value span, s', h, hv => by
    cases s' with
    | assign name' value' span' =>
      obtain ⟨rfl, same, rfl⟩ := Stmt.assign.inj h
      rw [Expr.eq_of_visits same (List.cons.inj hv).2]
    | _ => cases h
  | .call name args mark span, s', h, hv => by
    cases s' with
    | call name' args' mark' span' =>
      obtain ⟨rfl, same, -, rfl⟩ := Stmt.call.inj h
      have count : args'.length = args.length := by
        rw [← Expr.length_allUnmarked args', ← same, Expr.length_allUnmarked]
      rw [Stmt.visits, Stmt.visits, count] at hv
      obtain ⟨visits, rfl⟩ := Visit.of_call_eq hv
      rw [Expr.all_eq_of_visits same visits]
    | _ => cases h
  | .conditional test body otherwise span, s', h, hv => by
    cases s' with
    | conditional test' body' otherwise' span' =>
      obtain ⟨htest, hbody, hotherwise, rfl⟩ := Stmt.conditional.inj h
      obtain ⟨hv, visits₃⟩ := List.append_inj' hv (Stmt.length_visits? hotherwise)
      obtain ⟨visits₁, visits₂⟩ := List.append_inj hv (Expr.length_visits htest)
      rw [Expr.eq_of_visits htest visits₁, Stmt.eq_of_visits hbody visits₂,
        Stmt.eq_of_visits? hotherwise visits₃]
    | _ => cases h
  | .whileLoop test body span, s', h, hv => by
    cases s' with
    | whileLoop test' body' span' =>
      obtain ⟨htest, hbody, rfl⟩ := Stmt.whileLoop.inj h
      obtain ⟨visits₁, visits₂⟩ := List.append_inj hv (Expr.length_visits htest)
      rw [Expr.eq_of_visits htest visits₁, Stmt.eq_of_visits hbody visits₂]
    | _ => cases h
  | .doWhile test body span, s', h, hv => by
    cases s' with
    | doWhile test' body' span' =>
      obtain ⟨htest, hbody, rfl⟩ := Stmt.doWhile.inj h
      obtain ⟨visits₁, visits₂⟩ := List.append_inj hv (Expr.length_visits htest)
      rw [Expr.eq_of_visits htest visits₁, Stmt.eq_of_visits hbody visits₂]
    | _ => cases h
  | .forLoop init test step body span, s', h, hv => by
    cases s' with
    | forLoop init' test' step' body' span' =>
      obtain ⟨hinit, htest, hstep, hbody, rfl⟩ := Stmt.forLoop.inj h
      obtain ⟨hv, visits₄⟩ := List.append_inj' hv (Stmt.length_visits hbody)
      obtain ⟨hv, visits₃⟩ := List.append_inj' hv (Stmt.length_visits hstep)
      obtain ⟨visits₁, visits₂⟩ := List.append_inj hv (Stmt.length_visits hinit)
      rw [Stmt.eq_of_visits hinit visits₁, Expr.eq_of_visits htest visits₂,
        Stmt.eq_of_visits hstep visits₃, Stmt.eq_of_visits hbody visits₄]
    | _ => cases h
  | .giveBack value span, s', h, hv => by
    cases s' with
    | giveBack value' span' =>
      obtain ⟨same, rfl⟩ := Stmt.giveBack.inj h
      rw [Expr.eq_of_visits same hv]
    | _ => cases h
  | .procedure id name params returnType body span, s', h, hv => by
    cases s' with
    | procedure id' name' params' returnType' body' span' =>
      obtain ⟨rfl, rfl, rfl, rfl, same, rfl⟩ := Stmt.procedure.inj h
      rw [Stmt.all_eq_of_visits same (List.append_cancel_left hv)]
    | _ => cases h

theorem Stmt.all_eq_of_visits {around : List Address} {place : Address} {i : Nat} :
    ∀ {ss ss' : List Stmt}, Stmt.allUnmarked ss = Stmt.allUnmarked ss' →
      Stmt.allVisits around place i ss = Stmt.allVisits around place i ss' → ss = ss'
  | [], ss', h, _ => by
    cases ss' with
    | nil => rfl
    | cons => cases h
  | s :: ss, ss', h, hv => by
    cases ss' with
    | nil => cases h
    | cons s' ss' =>
      obtain ⟨first, rest⟩ := List.cons.inj h
      obtain ⟨visits, visits'⟩ := List.append_inj hv (Stmt.length_visits first)
      rw [Stmt.eq_of_visits first visits, Stmt.all_eq_of_visits rest visits']

theorem Stmt.eq_of_visits? {around : List Address} {place : Address} : ∀ {s s' : Option Stmt},
    Stmt.unmarked? s = Stmt.unmarked? s' →
    Stmt.visits? around place s = Stmt.visits? around place s' → s = s'
  | none, s', h, _ => by
    cases s' with
    | none => rfl
    | some => cases h
  | some s, s', h, hv => by
    cases s' with
    | none => cases h
    | some s' => rw [Stmt.eq_of_visits (Option.some.inj h) hv]

end

/-- **A module is known from its unmarked module and its visits.** -/
theorem Module.eq_of_visits {m m' : Module} (h : m.unmarked = m'.unmarked)
    (hv : m.visits = m'.visits) : m = m' := by
  obtain ⟨body⟩ := m
  obtain ⟨body'⟩ := m'
  exact congrArg Module.mk (Stmt.all_eq_of_visits (Module.mk.inj h) hv)

theorem Module.visits_unmarked (m : Module) : m.unmarked.visits = m.visits.map Visit.blank :=
  Stmt.allVisits_unmarked [] [] 0 m.body

end Known

end Imperative
