import Imperative.Tree

/-!
# The parts of an expression

An expression and all expressions inside it, left to right and each of them behind its own parts.
This is the order in which an evaluation comes to the end of each of them.
-/

namespace Imperative

mutual

/-- The expression and the expressions inside it, each behind its own parts. -/
def Expr.postorder : Expr → List Expr
  | .number n span => [.number n span]
  | .var name span => [.var name span]
  | .unary op operand span => operand.postorder ++ [.unary op operand span]
  | .binary op lhs rhs span => lhs.postorder ++ rhs.postorder ++ [.binary op lhs rhs span]
  | .call name args resolved span =>
    Expr.allPostorder args ++ [.call name args resolved span]

/-- The expressions and the expressions inside them, each behind its own parts. -/
def Expr.allPostorder : List Expr → List Expr
  | [] => []
  | e :: es => e.postorder ++ Expr.allPostorder es

end

theorem Expr.mem_postorder_self (e : Expr) : e ∈ e.postorder := by
  cases e <;> simp [postorder]

theorem Expr.mem_allPostorder {x : Expr} {es : List Expr} :
    x ∈ Expr.allPostorder es ↔ ∃ e ∈ es, x ∈ e.postorder := by
  induction es with
  | nil => simp [allPostorder]
  | cons e es ih => simp [allPostorder, ih]

end Imperative
