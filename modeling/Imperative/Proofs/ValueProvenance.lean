import Imperative.Proofs.Realms
import Imperative.Proofs.TreeHeight

/-!
# Where values come from

Two realms, and the programs that they cover.

* Without floats: a program without division and without a declaration of type `float` computes with
  integers and missing values only, so it never divides by zero.
* Without missing values: a program without a declaration of type `var` that calls no procedure
  without a return type for its value never computes with a missing value, so it never fails at one.

The types of parameters and of results do not enter: what is passed and what is returned is what
some expression gave.  What does enter can be read off the program, as lists: the operators in its
expressions, the types that it declares variables with, and the procedures that it calls for a value.
The marks of calls matter for the last list only, so the first two are those of the program before
analysis.
-/

namespace Imperative

/-! ## What a program is made of -/

mutual

/-- The types of the variables that the statement declares, inside procedures too. -/
def Stmt.declaredTypes : Stmt → List DataType
  | .declaration _ type _ => [type]
  | .compound body _ | .procedure _ _ _ _ body _ => Stmt.allDeclaredTypes body
  | .conditional _ body otherwise _ => body.declaredTypes ++ Stmt.declaredTypes? otherwise
  | .whileLoop _ body _ | .doWhile _ body _ => body.declaredTypes
  | .forLoop init _ step body _ => init.declaredTypes ++ (step.declaredTypes ++ body.declaredTypes)
  | .assign .. | .call .. | .giveBack .. | .breakLoop _ | .continueLoop _ | .pass _ => []

/-- The types of the variables that the statements declare. -/
def Stmt.allDeclaredTypes : List Stmt → List DataType
  | [] => []
  | s :: ss => s.declaredTypes ++ Stmt.allDeclaredTypes ss

/-- The types of the variables that the statement declares, if there is one. -/
def Stmt.declaredTypes? : Option Stmt → List DataType
  | none => []
  | some s => s.declaredTypes

end

/-- The operator between two operands at the root of the expression. -/
def Expr.binaryOp? : Expr → Option BinaryOp
  | .binary op _ _ _ => some op
  | .number .. | .var .. | .unary .. | .call .. => none

/-- The mark of the call at the root of the expression. -/
def Expr.mark? : Expr → Option ProcedureSymbol
  | .call _ _ mark _ => mark
  | .number .. | .var .. | .unary .. | .binary .. => none

namespace Module

/-- The expressions of the module and the expressions inside them. -/
def subexpressions (m : Module) : List Expr :=
  m.expressions.flatMap Expr.postorder

/-- The operators between two operands in the module. -/
def operators (m : Module) : List BinaryOp :=
  m.subexpressions.filterMap Expr.binaryOp?

/-- The types of the variables that the module declares. -/
def declaredTypes (m : Module) : List DataType :=
  Stmt.allDeclaredTypes m.body

/-- The procedures that the module calls inside an expression. -/
def calledForValue (m : Module) : List Procedure :=
  (m.subexpressions.filterMap Expr.mark?).filterMap fun symbol =>
    (ProcedureTable.ofModule m).find? symbol.id

end Module

/-! ### Marks do not matter -/

mutual

theorem Expr.postorder_unmarked : ∀ e : Expr,
    e.unmarked.postorder = e.postorder.map Expr.unmarked
  | .number .. | .var .. => rfl
  | .unary _ operand _ => by
    simp only [Expr.unmarked, Expr.postorder, List.map_append, List.map_cons, List.map_nil,
      Expr.postorder_unmarked operand]
  | .binary _ lhs rhs _ => by
    simp only [Expr.unmarked, Expr.postorder, List.map_append, List.map_cons, List.map_nil,
      Expr.postorder_unmarked lhs, Expr.postorder_unmarked rhs]
  | .call _ args _ _ => by
    simp only [Expr.unmarked, Expr.postorder, List.map_append, List.map_cons, List.map_nil,
      Expr.allPostorder_unmarked args]

theorem Expr.allPostorder_unmarked : ∀ es : List Expr,
    Expr.allPostorder (Expr.allUnmarked es) = (Expr.allPostorder es).map Expr.unmarked
  | [] => rfl
  | e :: es => by
    simp only [Expr.allUnmarked, Expr.allPostorder, List.map_append, Expr.postorder_unmarked e,
      Expr.allPostorder_unmarked es]

end

theorem Expr.allUnmarked_eq_map (es : List Expr) : Expr.allUnmarked es = es.map Expr.unmarked := by
  induction es with
  | nil => rfl
  | cons e es ih => rw [Expr.allUnmarked, ih, List.map_cons]

mutual

theorem Stmt.expressions_unmarked : ∀ s : Stmt,
    s.unmarked.expressions = s.expressions.map Expr.unmarked
  | .compound body _ | .procedure _ _ _ _ body _ => Stmt.allExpressions_unmarked body
  | .call _ args _ _ => Expr.allUnmarked_eq_map args
  | .conditional _ body otherwise _ => by
    simp only [Stmt.unmarked, Stmt.expressions, List.map_cons, List.map_append,
      Stmt.expressions_unmarked body, Stmt.expressions?_unmarked otherwise]
  | .whileLoop test body _ | .doWhile test body _ =>
    congrArg (test.unmarked :: ·) (Stmt.expressions_unmarked body)
  | .forLoop init _ step body _ => by
    simp only [Stmt.unmarked, Stmt.expressions, List.map_cons, List.map_append,
      Stmt.expressions_unmarked init, Stmt.expressions_unmarked step,
      Stmt.expressions_unmarked body]
  | .assign .. | .giveBack .. | .declaration .. | .breakLoop _ | .continueLoop _ | .pass _ => rfl

theorem Stmt.allExpressions_unmarked : ∀ ss : List Stmt,
    Stmt.allExpressions (Stmt.allUnmarked ss) = (Stmt.allExpressions ss).map Expr.unmarked
  | [] => rfl
  | s :: ss => by
    simp only [Stmt.allUnmarked, Stmt.allExpressions, List.map_append, Stmt.expressions_unmarked s,
      Stmt.allExpressions_unmarked ss]

theorem Stmt.expressions?_unmarked : ∀ s : Option Stmt,
    Stmt.expressions? (Stmt.unmarked? s) = (Stmt.expressions? s).map Expr.unmarked
  | none => rfl
  | some s => Stmt.expressions_unmarked s

end

mutual

theorem Stmt.declaredTypes_unmarked : ∀ s : Stmt, s.unmarked.declaredTypes = s.declaredTypes
  | .compound body _ | .procedure _ _ _ _ body _ => Stmt.allDeclaredTypes_unmarked body
  | .conditional _ body otherwise _ => by
    simp only [Stmt.unmarked, Stmt.declaredTypes, Stmt.declaredTypes_unmarked body,
      Stmt.declaredTypes?_unmarked otherwise]
  | .whileLoop _ body _ | .doWhile _ body _ => Stmt.declaredTypes_unmarked body
  | .forLoop init _ step body _ => by
    simp only [Stmt.unmarked, Stmt.declaredTypes, Stmt.declaredTypes_unmarked init,
      Stmt.declaredTypes_unmarked step, Stmt.declaredTypes_unmarked body]
  | .declaration .. | .assign .. | .call .. | .giveBack .. | .breakLoop _ | .continueLoop _
  | .pass _ => rfl

theorem Stmt.allDeclaredTypes_unmarked : ∀ ss : List Stmt,
    Stmt.allDeclaredTypes (Stmt.allUnmarked ss) = Stmt.allDeclaredTypes ss
  | [] => rfl
  | s :: ss => by
    simp only [Stmt.allUnmarked, Stmt.allDeclaredTypes, Stmt.declaredTypes_unmarked s,
      Stmt.allDeclaredTypes_unmarked ss]

theorem Stmt.declaredTypes?_unmarked : ∀ s : Option Stmt,
    Stmt.declaredTypes? (Stmt.unmarked? s) = Stmt.declaredTypes? s
  | none => rfl
  | some s => Stmt.declaredTypes_unmarked s

end

namespace Module

theorem subexpressions_unmarked (m : Module) :
    m.unmarked.subexpressions = m.subexpressions.map Expr.unmarked := by
  simp only [subexpressions, expressions, unmarked, Stmt.allExpressions_unmarked, List.flatMap_map,
    List.map_flatMap, Expr.postorder_unmarked]

theorem operators_unmarked (m : Module) : m.unmarked.operators = m.operators := by
  rw [operators, subexpressions_unmarked, List.filterMap_map]
  refine List.filterMap_congr fun e _ => ?_
  cases e <;> rfl

theorem operators_analyze (m : Module) : m.analyze.module.operators = m.operators := by
  have hunmarked : m.analyze.module.unmarked = m.unmarked := m.unmarked_resolve {}
  rw [← operators_unmarked, hunmarked, operators_unmarked]

theorem declaredTypes_analyze (m : Module) : m.analyze.module.declaredTypes = m.declaredTypes := by
  have hunmarked : Stmt.allUnmarked m.analyze.module.body = Stmt.allUnmarked m.body :=
    congrArg Module.body (m.unmarked_resolve {})
  rw [declaredTypes, ← Stmt.allDeclaredTypes_unmarked, hunmarked, Stmt.allDeclaredTypes_unmarked]
  rfl

end Module

/-! ### From calls to sites -/

section Sites

variable {name : String} {args : List Expr} {mark : Option ProcedureSymbol} {span : Span}

mutual

/-- A call inside an expression is one of its sites. -/
theorem Expr.exists_site_of_call {around : List Address} : ∀ {e : Expr},
    .call name args mark span ∈ e.postorder → ∃ t ∈ e.sites around, t.act = .call args.length mark
  | .number .., h | .var .., h => nomatch List.mem_singleton.mp h
  | .unary _ operand _, h => by
    rcases List.mem_append.mp h with h | h
    · exact Expr.exists_site_of_call (e := operand) h
    · cases List.mem_singleton.mp h
  | .binary _ lhs rhs _, h => by
    rcases List.mem_append.mp h with h | h
    · rcases List.mem_append.mp h with h | h
      · obtain ⟨t, ht, hact⟩ := Expr.exists_site_of_call h
        exact ⟨t, List.mem_append_left _ ht, hact⟩
      · obtain ⟨t, ht, hact⟩ := Expr.exists_site_of_call h
        exact ⟨t, List.mem_append_right _ ht, hact⟩
    · cases List.mem_singleton.mp h
  | .call _ args' _ _, h => by
    rcases List.mem_append.mp h with h | h
    · obtain ⟨t, ht, hact⟩ := Expr.exists_site_of_call_all h
      exact ⟨t, List.mem_cons_of_mem _ ht, hact⟩
    · cases List.mem_singleton.mp h
      exact ⟨_, List.mem_cons_self, rfl⟩

theorem Expr.exists_site_of_call_all {around : List Address} : ∀ {es : List Expr},
    .call name args mark span ∈ Expr.allPostorder es →
      ∃ t ∈ Expr.allSites around es, t.act = .call args.length mark
  | [], h => nomatch h
  | e :: es, h => by
    rcases List.mem_append.mp h with h | h
    · obtain ⟨t, ht, hact⟩ := Expr.exists_site_of_call h
      exact ⟨t, List.mem_append_left _ ht, hact⟩
    · obtain ⟨t, ht, hact⟩ := Expr.exists_site_of_call_all h
      exact ⟨t, List.mem_append_right _ ht, hact⟩

end

theorem Expr.sites_subset_allSites {around : List Address} {e : Expr} {es : List Expr}
    (h : e ∈ es) : e.sites around ⊆ Expr.allSites around es := by
  induction es with
  | nil => cases h
  | cons f es ih =>
    rcases List.mem_cons.mp h with rfl | h
    · exact List.subset_append_left _ _
    · exact List.Subset.trans (ih h) (List.subset_append_right _ _)

mutual

/-- The sites of an expression are among those of the statement it stands in. -/
theorem Stmt.exists_sites_of_expression {e : Expr} : ∀ {s : Stmt} {around : List Address}
    {place : Address}, e ∈ s.expressions → ∃ inner, e.sites inner ⊆ s.sites around place
  | .compound body _, _, _, h => Stmt.exists_sites_of_expression_all (l := body) h
  | .procedure _ _ _ _ body _, around, place, h => by
    obtain ⟨inner, hinner⟩ := Stmt.exists_sites_of_expression_all (l := body) h
    exact ⟨inner, List.subset_append_of_subset_right _ hinner⟩
  | .assign _ value _, around, _, h => by
    obtain rfl := List.mem_singleton.mp h
    exact ⟨around, List.subset_cons_self _ _⟩
  | .giveBack value _, around, _, h => by
    obtain rfl := List.mem_singleton.mp h
    exact ⟨around, List.Subset.refl _⟩
  | .call _ args _ _, around, _, h =>
    ⟨around, List.subset_cons_of_subset _ (Expr.sites_subset_allSites h)⟩
  | .conditional test body otherwise _, around, place, h => by
    rw [Stmt.expressions, List.mem_cons, List.mem_append] at h
    rcases h with rfl | h | h
    · exact ⟨around, List.subset_append_of_subset_left _ (List.subset_append_left _ _)⟩
    · obtain ⟨inner, hinner⟩ := Stmt.exists_sites_of_expression h
      exact ⟨inner, List.subset_append_of_subset_left _
        (List.subset_append_of_subset_right _ hinner)⟩
    · obtain ⟨inner, hinner⟩ := Stmt.exists_sites_of_expression? h
      exact ⟨inner, List.subset_append_of_subset_right _ hinner⟩
  | .whileLoop test body _, around, place, h | .doWhile test body _, around, place, h => by
    rcases List.mem_cons.mp h with rfl | h
    · exact ⟨around, List.subset_append_left _ _⟩
    · obtain ⟨inner, hinner⟩ := Stmt.exists_sites_of_expression (s := body) h
      exact ⟨inner, List.subset_append_of_subset_right _ hinner⟩
  | .forLoop init test step body _, around, place, h => by
    rw [Stmt.expressions, List.mem_append, List.mem_cons, List.mem_append] at h
    rw [Stmt.sites, List.append_assoc, List.append_assoc]
    rcases h with h | rfl | h | h
    · obtain ⟨inner, hinner⟩ := Stmt.exists_sites_of_expression h
      exact ⟨inner, List.subset_append_of_subset_left _ hinner⟩
    · exact ⟨around, List.subset_append_of_subset_right _ (List.subset_append_left _ _)⟩
    · obtain ⟨inner, hinner⟩ := Stmt.exists_sites_of_expression h
      exact ⟨inner, List.subset_append_of_subset_right _ (List.subset_append_of_subset_right _
        (List.subset_append_of_subset_left _ hinner))⟩
    · obtain ⟨inner, hinner⟩ := Stmt.exists_sites_of_expression h
      exact ⟨inner, List.subset_append_of_subset_right _ (List.subset_append_of_subset_right _
        (List.subset_append_of_subset_right _ hinner))⟩
  | .declaration .., _, _, h | .breakLoop _, _, _, h | .continueLoop _, _, _, h
  | .pass _, _, _, h => nomatch h

theorem Stmt.exists_sites_of_expression_all {e : Expr} : ∀ {l : List Stmt}
    {around : List Address} {place : Address} {i : Nat}, e ∈ Stmt.allExpressions l →
      ∃ inner, e.sites inner ⊆ Stmt.allSites around place i l
  | [], _, _, _, h => nomatch h
  | s :: ss, _, _, _, h => by
    rcases List.mem_append.mp h with h | h
    · obtain ⟨inner, hinner⟩ := Stmt.exists_sites_of_expression h
      exact ⟨inner, List.subset_append_of_subset_left _ hinner⟩
    · obtain ⟨inner, hinner⟩ := Stmt.exists_sites_of_expression_all h
      exact ⟨inner, List.subset_append_of_subset_right _ hinner⟩

theorem Stmt.exists_sites_of_expression? {e : Expr} : ∀ {s : Option Stmt}
    {around : List Address} {place : Address}, e ∈ Stmt.expressions? s →
      ∃ inner, e.sites inner ⊆ Stmt.sites? around place s
  | none, _, _, h => nomatch h
  | some s, _, _, h => Stmt.exists_sites_of_expression (s := s) h

end

/-- A call for a value leads to one of the procedures that are called for a value, and that has the
return type that the caller sees. -/
theorem Module.exists_calledForValue {text : String} {m : Module}
    (hparse : Module.parse text = .ok m) (h : m.analyze.verdict = .ok ()) {symbol : ProcedureSymbol}
    (hcall : .call name args (some symbol) span ∈ m.analyze.module.subexpressions) :
    ∃ q ∈ m.analyze.module.calledForValue, symbol.returnType = q.returnType := by
  obtain ⟨e, he, hcall'⟩ := List.mem_flatMap.mp hcall
  obtain ⟨inner, hinner⟩ := Stmt.exists_sites_of_expression_all he
  have hsite : ∃ t ∈ e.sites inner, t.act = .call args.length (some symbol) :=
    Expr.exists_site_of_call hcall'
  obtain ⟨t, ht, hact⟩ := hsite
  obtain ⟨_, q, ⟨⟩, hfind, -, -, hreturn⟩ := Module.definition_of_call hparse h (hinner ht) hact
  refine ⟨q, List.mem_filterMap.mpr ⟨symbol, ?_, hfind⟩, hreturn⟩
  exact List.mem_filterMap.mpr ⟨_, hcall, rfl⟩

end Sites

/-! ## What a realm has to have -/

section Cover

variable {R : Realm}

mutual

/-- A realm covers a statement if it covers its expressions and has what its declarations give. -/
theorem Stmt.staysIn_of_parts : ∀ {s : Stmt}, (∀ e ∈ s.expressions, R.Covers e) →
    (∀ type ∈ s.declaredTypes, R.Has (.zero type)) → s.StaysIn R
  | .compound body _, he, ht | .procedure _ _ _ _ body _, he, ht =>
    Stmt.allStayIn_of_parts (l := body) he ht
  | .declaration _ type _, _, ht => ht type List.mem_cons_self
  | .assign _ value _, he, _ | .giveBack value _, he, _ => he value List.mem_cons_self
  | .call .., he, _ => he
  | .conditional .., he, ht => by
    rw [Stmt.expressions, List.forall_mem_cons, List.forall_mem_append] at he
    rw [Stmt.declaredTypes, List.forall_mem_append] at ht
    exact ⟨he.1, Stmt.staysIn_of_parts he.2.1 ht.1, Stmt.staysIn?_of_parts he.2.2 ht.2⟩
  | .whileLoop _ body _, he, ht | .doWhile _ body _, he, ht => by
    rw [Stmt.expressions, List.forall_mem_cons] at he
    exact ⟨he.1, Stmt.staysIn_of_parts (s := body) he.2 ht⟩
  | .forLoop .., he, ht => by
    rw [Stmt.expressions, List.forall_mem_append, List.forall_mem_cons,
      List.forall_mem_append] at he
    rw [Stmt.declaredTypes, List.forall_mem_append, List.forall_mem_append] at ht
    obtain ⟨hinit, htest, hstep, hbody⟩ := he
    exact ⟨Stmt.staysIn_of_parts hinit ht.1, htest, Stmt.staysIn_of_parts hstep ht.2.1,
      Stmt.staysIn_of_parts hbody ht.2.2⟩
  | .breakLoop _, _, _ | .continueLoop _, _, _ | .pass _, _, _ => trivial

theorem Stmt.allStayIn_of_parts : ∀ {l : List Stmt},
    (∀ e ∈ Stmt.allExpressions l, R.Covers e) →
    (∀ type ∈ Stmt.allDeclaredTypes l, R.Has (.zero type)) → Stmt.AllStayIn R l
  | [], _, _ => trivial
  | _ :: _, he, ht => by
    rw [Stmt.allExpressions, List.forall_mem_append] at he
    rw [Stmt.allDeclaredTypes, List.forall_mem_append] at ht
    exact ⟨Stmt.staysIn_of_parts he.1 ht.1, Stmt.allStayIn_of_parts he.2 ht.2⟩

theorem Stmt.staysIn?_of_parts : ∀ {s : Option Stmt},
    (∀ e ∈ Stmt.expressions? s, R.Covers e) →
    (∀ type ∈ Stmt.declaredTypes? s, R.Has (.zero type)) → Stmt.StaysIn? R s
  | none, _, _ => trivial
  | some s, he, ht => Stmt.staysIn_of_parts (s := s) he ht

end

/-- **Which programs a realm covers**: those whose operators and declarations do not lead out of it,
if it has the missing value or nothing is called for a value that returns none. -/
theorem Module.allStayIn_of_lists {text : String} {m : Module} (hparse : Module.parse text = .ok m)
    (h : m.analyze.verdict = .ok ()) (hoperators : ∀ op ∈ m.operators, R.Closed op)
    (htypes : ∀ type ∈ m.declaredTypes, R.Has (.zero type))
    (hcalls : ∀ q ∈ m.analyze.module.calledForValue, q.returnType = none → R.Has .none) :
    Stmt.AllStayIn R m.analyze.module.body := by
  rw [← Module.operators_analyze] at hoperators
  rw [← Module.declaredTypes_analyze] at htypes
  refine Stmt.allStayIn_of_parts (fun e he x hx => ?_) htypes
  have hx : x ∈ m.analyze.module.subexpressions := List.mem_flatMap.mpr ⟨e, he, hx⟩
  cases x with
  | number | var | unary => trivial
  | binary op => exact hoperators op (List.mem_filterMap.mpr ⟨_, hx, rfl⟩)
  | call name args mark span =>
    cases mark with
    | none => trivial
    | some symbol =>
      obtain ⟨q, hq, hreturn⟩ := Module.exists_calledForValue hparse h hx
      exact fun hnone => hcalls q hq (hreturn ▸ hnone)

end Cover

/-! ## Two realms -/

/-- An exact result is an integer, or it is refused. -/
theorem answers_ofInt {Has : Value → Prop} {Fails : ValueError → Prop} (hint : ∀ n, Has (.int n))
    (hfails : Fails .overflow) (n : Int) : Answers Has Fails (Value.ofInt n) := by
  rw [Value.ofInt]
  split
  · exact hint _
  · exact hfails

/-- The result of arithmetic on numbers is an integer or a double, or it is refused. -/
theorem answers_arithmetic {Has : Value → Prop} {Fails : ValueError → Prop}
    (hint : ∀ n, Has (.int n)) (hfloat : ∀ x, Has (.float x)) (hfails : Fails .overflow)
    {lhs rhs : Value} {x y : Float} (h : Value.bothFloats lhs rhs = .ok (x, y))
    (exact : Int → Int → Int) (rounded : Float → Float → Float) :
    Answers Has Fails (Value.arithmetic exact rounded lhs rhs) := by
  unfold Value.arithmetic
  split
  · exact answers_ofInt hint hfails _
  · rw [h]
    exact hfloat _

/-- A value that is not missing is a number. -/
theorem Value.exists_toFloat? {v : Value} (h : v ≠ .none) : ∃ x, v.toFloat? = some x := by
  cases v with
  | int n => exact ⟨_, rfl⟩
  | float x => exact ⟨x, rfl⟩
  | none => exact (h rfl).elim

namespace Realm

/-- Integers and missing values, and no division by zero. -/
def withoutFloats : Realm where
  Has v := (∃ n, v = .int n) ∨ v = .none
  Fails e := e ≠ .divisionByZero
  int n := .inl ⟨n, rfl⟩
  unary op v hv := by
    rcases hv with ⟨n, rfl⟩ | rfl
    · cases op with
      | plus => exact .inl ⟨n, rfl⟩
      | minus => exact answers_ofInt (fun n => .inl ⟨n, rfl⟩) nofun _
    · exact nofun

/-- Numbers, and no operand that has no value. -/
def withoutMissing : Realm where
  Has v := v ≠ .none
  Fails e := e ≠ .missing
  int n := nofun
  unary op v hv := by
    cases v with
    | int n =>
      cases op with
      | plus => exact nofun
      | minus => exact answers_ofInt (fun _ => nofun) nofun _
    | float x => cases op <;> exact nofun
    | none => exact (hv rfl).elim

theorem closed_withoutFloats {op : BinaryOp} (h : op ≠ .div) : withoutFloats.Closed op := by
  intro lhs rhs hlhs hrhs
  have hexact (n : Int) : Answers withoutFloats.Has withoutFloats.Fails (Value.ofInt n) :=
    answers_ofInt withoutFloats.int nofun n
  rcases hlhs with ⟨m, rfl⟩ | rfl
  · rcases hrhs with ⟨n, rfl⟩ | rfl
    · cases op with
      | add | sub | mul => exact hexact _
      | div => exact (h rfl).elim
    · cases op with
      | add | sub | mul => exact nofun
      | div => exact (h rfl).elim
  · cases op with
    | add | sub | mul => exact nofun
    | div => exact (h rfl).elim

theorem closed_withoutMissing (op : BinaryOp) : withoutMissing.Closed op := by
  intro lhs rhs hlhs hrhs
  obtain ⟨x, hx⟩ := Value.exists_toFloat? hlhs
  obtain ⟨y, hy⟩ := Value.exists_toFloat? hrhs
  have hboth : Value.bothFloats lhs rhs = .ok (x, y) := by
    rw [Value.bothFloats, hx, hy]
  cases op with
  | add | sub | mul =>
    exact answers_arithmetic withoutMissing.int (fun _ => nofun) nofun hboth _ _
  | div =>
    rw [Value.binary, Value.divide, hboth]
    show Answers _ _ (if y == 0 then .error .divisionByZero else .ok (.float (x / y)))
    split <;> exact nofun

end Realm

/-! ## Programs -/

/-- **Where values come from.**  Take a text that parses and comes through analysis, and any limit.
Without division and without declared floats, all values that are bound, returned or computed in any
state of the run are integers or missing, and the run does not fail at a division by zero.  Without
declared variables of type `var`, and without calls for the value of a procedure that has no return
type, no value that is bound, returned or computed by an expression is missing in any state of the
run, and the run does not fail at an operand without a value. -/
theorem Module.values_stay_in_realms (text : String) (m : Module)
    (hparse : Module.parse text = .ok m) (hverdict : m.analyze.verdict = .ok ())
    (i : Interpreter) :
    (.div ∉ m.operators → .float ∉ m.declaredTypes →
        (∀ s, i.Visits m.analyze.module s →
          (∀ v ∈ s.held, (∃ n, v = .int n) ∨ v = .none)
          ∧ ∀ v k, s.control = .value v k → (∃ n, v = .int n) ∨ v = .none)
        ∧ ∀ (σ : Type) (observe : σ → Event → σ) (seen : σ) (fuel : Nat) (run : Run σ) e,
          i.interpret observe seen fuel m.analyze.module = some run → run.result = .error e →
          e.cause ≠ .divisionByZero)
      ∧ (.universal ∉ m.declaredTypes →
        (∀ q ∈ m.analyze.module.calledForValue, q.returnType ≠ none) →
        (∀ s, i.Visits m.analyze.module s →
          (∀ v ∈ s.held, v ≠ .none)
          ∧ ∀ v k, s.control = .value v k → (∀ next, k ≠ .discard next) → v ≠ .none)
        ∧ ∀ (σ : Type) (observe : σ → Event → σ) (seen : σ) (fuel : Nat) (run : Run σ) e,
          i.interpret observe seen fuel m.analyze.module = some run → run.result = .error e →
          ∀ operator, e.cause ≠ .missingValue operator) := by
  constructor
  · intro hdiv hfloat
    have hbody : Stmt.AllStayIn .withoutFloats m.analyze.module.body := by
      refine Module.allStayIn_of_lists hparse hverdict (fun op hop => ?_) (fun type htype => ?_)
        fun _ _ _ => .inr rfl
      · exact Realm.closed_withoutFloats fun h => hdiv (h ▸ hop)
      · cases type with
        | integer => exact .inl ⟨0, rfl⟩
        | float => exact (hfloat htype).elim
        | universal => exact .inr rfl
    refine ⟨fun s hvisits => ?_, fun σ observe seen fuel run e hrun hresult hcause => ?_⟩
    · have hstays := Realm.staysIn_of_visits hbody hvisits
      refine ⟨hstays.held, fun v k hcontrol => ?_⟩
      have hvalue := hstays.control
      rw [hcontrol] at hvalue
      -- a value that is only to be forgotten may be missing, which this realm allows
      rcases hvalue.1 with hv | ⟨hv, -⟩
      · exact hv
      · exact .inr hv
    · have hfails : Realm.withoutFloats.Fails .divisionByZero :=
        Realm.fails_of_interpret hbody hrun hresult (by rw [hcause]; rfl)
      exact hfails rfl
  · intro hvar hcalls
    have hbody : Stmt.AllStayIn .withoutMissing m.analyze.module.body := by
      refine Module.allStayIn_of_lists hparse hverdict
        (fun op _ => Realm.closed_withoutMissing op) (fun type htype => ?_)
        fun q hq hnone => (hcalls q hq hnone).elim
      cases type with
      | integer | float => exact nofun
      | universal => exact (hvar htype).elim
    refine ⟨fun s hvisits => ?_, fun σ observe seen fuel run e hrun hresult operator hcause => ?_⟩
    · have hstays := Realm.staysIn_of_visits hbody hvisits
      refine ⟨hstays.held, fun v k hcontrol hk => ?_⟩
      have hvalue := hstays.control
      rw [hcontrol] at hvalue
      exact hvalue.1.has hk
    · have hfails : Realm.withoutMissing.Fails .missing :=
        Realm.fails_of_interpret hbody hrun hresult (by rw [hcause]; rfl)
      exact hfails rfl

/-- A parameter and a result that are declared to hold other values than those that go through them,
and a procedure without a return type that is called as a statement. -/
def Module.untypedFlow : Module where
  body := [.procedure ⟨0⟩ "f" [⟨"b", .universal, ⟨12, 17, 1, 13⟩⟩] (some .float)
      [.giveBack (.var "b" ⟨28, 29, 1, 29⟩) ⟨21, 29, 1, 22⟩] ⟨0, 32, 1, 1⟩,
    .procedure ⟨1⟩ "g" [] none [] ⟨33, 44, 1, 34⟩,
    .declaration "y" .integer ⟨45, 50, 1, 46⟩,
    .call "g" [] none ⟨52, 55, 1, 53⟩,
    .assign "y" (.binary .add (.call "f" [.number 1 ⟨63, 64, 1, 64⟩] none ⟨61, 65, 1, 62⟩)
      (.number 2 ⟨68, 69, 1, 69⟩) ⟨61, 69, 1, 62⟩) ⟨57, 69, 1, 58⟩]

set_option maxRecDepth 10000 in
theorem Module.parse_untypedFlow :
    Module.parse "def float f(var b) \x7b return b; \x7d def g() \x7b \x7d int y; g(); y = f(1) + 2;"
      = .ok .untypedFlow := by cbv

theorem Module.analyze_untypedFlow : Module.untypedFlow.analyze.verdict = .ok () := rfl

/-- All values in the run of this program are integers. -/
theorem Module.values_stay_in_realms_untyped :
    (∃ text, Module.parse text = .ok .untypedFlow) ∧ Module.untypedFlow.analyze.verdict = .ok ()
      ∧ .div ∉ Module.untypedFlow.operators ∧ .float ∉ Module.untypedFlow.declaredTypes
      ∧ .universal ∉ Module.untypedFlow.declaredTypes
      ∧ (∀ q ∈ Module.untypedFlow.analyze.module.calledForValue, q.returnType ≠ none)
      ∧ ∀ s, (Interpreter.new 8).Visits Module.untypedFlow.analyze.module s →
        ∀ v ∈ s.held, ∃ n, v = .int n := by
  have hdiv : .div ∉ Module.untypedFlow.operators := by decide
  have hfloat : .float ∉ Module.untypedFlow.declaredTypes := by decide
  have hvar : .universal ∉ Module.untypedFlow.declaredTypes := by decide
  have hcalls : ∀ q ∈ Module.untypedFlow.analyze.module.calledForValue, q.returnType ≠ none := by
    decide
  obtain ⟨hints, hpresent⟩ := Module.values_stay_in_realms _ _ Module.parse_untypedFlow
    Module.analyze_untypedFlow (Interpreter.new 8)
  refine ⟨⟨_, Module.parse_untypedFlow⟩, Module.analyze_untypedFlow, hdiv, hfloat, hvar, hcalls,
    fun s hs v hv => ?_⟩
  rcases ((hints hdiv hfloat).1 s hs).1 v hv with hint | hnone
  · exact hint
  · exact (((hpresent hvar hcalls).1 s hs).1 v hv hnone).elim

end Imperative
