import Imperative.Tree

/-!
# Trees without marks

Analysis writes at every call which procedure it refers to.  `unmarked` takes these marks
off again and leaves everything else as it is, spans and numbers included.  A tree that
parsing has built is its own unmarked tree, and two trees with the same unmarked tree
differ in marks only.
-/

namespace Imperative

mutual

/-- The expression without the marks at its calls. -/
def Expr.unmarked : Expr → Expr
  | .number value span => .number value span
  | .var name span => .var name span
  | .unary op operand span => .unary op operand.unmarked span
  | .binary op lhs rhs span => .binary op lhs.unmarked rhs.unmarked span
  | .call name args _ span => .call name (Expr.allUnmarked args) none span

/-- The expressions without the marks at their calls. -/
def Expr.allUnmarked : List Expr → List Expr
  | [] => []
  | e :: es => e.unmarked :: Expr.allUnmarked es

end

mutual

/-- The statement without the marks at its calls. -/
def Stmt.unmarked : Stmt → Stmt
  | .compound body span => .compound (Stmt.allUnmarked body) span
  | .declaration name type span => .declaration name type span
  | .assign name value span => .assign name value.unmarked span
  | .call name args _ span => .call name (Expr.allUnmarked args) none span
  | .conditional test body otherwise span =>
    .conditional test.unmarked body.unmarked (Stmt.unmarked? otherwise) span
  | .whileLoop test body span => .whileLoop test.unmarked body.unmarked span
  | .doWhile test body span => .doWhile test.unmarked body.unmarked span
  | .forLoop init test step body span =>
    .forLoop init.unmarked test.unmarked step.unmarked body.unmarked span
  | .giveBack value span => .giveBack value.unmarked span
  | .breakLoop span => .breakLoop span
  | .continueLoop span => .continueLoop span
  | .pass span => .pass span
  | .procedure id name params returnType body span =>
    .procedure id name params returnType (Stmt.allUnmarked body) span

/-- The statements without the marks at their calls. -/
def Stmt.allUnmarked : List Stmt → List Stmt
  | [] => []
  | s :: ss => s.unmarked :: Stmt.allUnmarked ss

/-- The statement without the marks at its calls, if there is one. -/
def Stmt.unmarked? : Option Stmt → Option Stmt
  | none => none
  | some s => some s.unmarked

end

/-- The module without the marks at its calls. -/
def Module.unmarked (m : Module) : Module :=
  ⟨Stmt.allUnmarked m.body⟩

mutual

/-- Without its marks, an expression has none to take off. -/
theorem Expr.unmarked_unmarked : ∀ e : Expr, e.unmarked.unmarked = e.unmarked
  | .number .. | .var .. => rfl
  | .unary _ operand _ => by simp only [Expr.unmarked, operand.unmarked_unmarked]
  | .binary _ lhs rhs _ => by
    simp only [Expr.unmarked, lhs.unmarked_unmarked, rhs.unmarked_unmarked]
  | .call _ args _ _ => by simp only [Expr.unmarked, Expr.allUnmarked_allUnmarked args]

theorem Expr.allUnmarked_allUnmarked : ∀ es : List Expr,
    Expr.allUnmarked (Expr.allUnmarked es) = Expr.allUnmarked es
  | [] => rfl
  | e :: es => by
    simp only [Expr.allUnmarked, e.unmarked_unmarked, Expr.allUnmarked_allUnmarked es]

end

mutual

/-- Without its marks, a statement has none to take off. -/
theorem Stmt.unmarked_unmarked : ∀ s : Stmt, s.unmarked.unmarked = s.unmarked
  | .compound body _ => by simp only [Stmt.unmarked, Stmt.allUnmarked_allUnmarked body]
  | .declaration .. | .breakLoop _ | .continueLoop _ | .pass _ => rfl
  | .assign _ value _ | .giveBack value _ => by simp only [Stmt.unmarked, value.unmarked_unmarked]
  | .call _ args _ _ => by simp only [Stmt.unmarked, Expr.allUnmarked_allUnmarked args]
  | .conditional test body otherwise _ => by
    simp only [Stmt.unmarked, test.unmarked_unmarked, body.unmarked_unmarked,
      Stmt.unmarked?_unmarked? otherwise]
  | .whileLoop test body _ | .doWhile test body _ => by
    simp only [Stmt.unmarked, test.unmarked_unmarked, body.unmarked_unmarked]
  | .forLoop init test step body _ => by
    simp only [Stmt.unmarked, init.unmarked_unmarked, test.unmarked_unmarked,
      step.unmarked_unmarked, body.unmarked_unmarked]
  | .procedure _ _ _ _ body _ => by simp only [Stmt.unmarked, Stmt.allUnmarked_allUnmarked body]

theorem Stmt.allUnmarked_allUnmarked : ∀ ss : List Stmt,
    Stmt.allUnmarked (Stmt.allUnmarked ss) = Stmt.allUnmarked ss
  | [] => rfl
  | s :: ss => by
    simp only [Stmt.allUnmarked, s.unmarked_unmarked, Stmt.allUnmarked_allUnmarked ss]

theorem Stmt.unmarked?_unmarked? : ∀ s : Option Stmt,
    Stmt.unmarked? (Stmt.unmarked? s) = Stmt.unmarked? s
  | none => rfl
  | some s => by simp only [Stmt.unmarked?, s.unmarked_unmarked]

end

/-- Without its marks, a module has none to take off. -/
theorem Module.unmarked_unmarked (m : Module) : m.unmarked.unmarked = m.unmarked :=
  congrArg Module.mk (Stmt.allUnmarked_allUnmarked m.body)

@[simp] theorem Expr.length_allUnmarked (es : List Expr) :
    (Expr.allUnmarked es).length = es.length := by
  induction es with
  | nil => rfl
  | cons e es ih => rw [Expr.allUnmarked, List.length_cons, List.length_cons, ih]

end Imperative
