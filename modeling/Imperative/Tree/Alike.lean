import Imperative.Tree

/-!
# Trees that say the same

Two trees are *alike* if they differ at most in spans, in the numbers of their procedures
and in what analysis has written at their calls.  That is the equality of programs: it
sees what was written, and neither where it stood nor what has been found out about it.
-/

namespace Imperative

mutual

/-- Whether two expressions say the same. -/
def Expr.alike : Expr → Expr → Bool
  | .number m _, .number n _ => m == n
  | .var m _, .var n _ => m == n
  | .unary o e _, .unary p f _ => o == p && e.alike f
  | .binary o e₁ e₂ _, .binary p f₁ f₂ _ => o == p && e₁.alike f₁ && e₂.alike f₂
  | .call m es _ _, .call n fs _ _ => m == n && Expr.allAlike es fs
  | _, _ => false

/-- Whether two lists of expressions say the same, one by one. -/
def Expr.allAlike : List Expr → List Expr → Bool
  | [], [] => true
  | e :: es, f :: fs => e.alike f && Expr.allAlike es fs
  | _, _ => false

end

/-- Whether two lists of parameters have the same names and types. -/
def Param.allAlike (ps qs : List Param) : Bool :=
  ps.map (fun p => (p.name, p.type)) == qs.map (fun q => (q.name, q.type))

mutual

/-- Whether two statements say the same. -/
def Stmt.alike : Stmt → Stmt → Bool
  | .compound s _, .compound t _ => Stmt.allAlike s t
  | .declaration m a _, .declaration n b _ => m == n && a == b
  | .assign m e _, .assign n f _ => m == n && e.alike f
  | .call m es _ _, .call n fs _ _ => m == n && Expr.allAlike es fs
  | .conditional e s s' _, .conditional f t t' _ =>
    e.alike f && s.alike t && Stmt.optionAlike s' t'
  | .whileLoop e s _, .whileLoop f t _ => e.alike f && s.alike t
  | .doWhile e s _, .doWhile f t _ => e.alike f && s.alike t
  | .forLoop s₁ e s₂ s₃ _, .forLoop t₁ f t₂ t₃ _ =>
    s₁.alike t₁ && e.alike f && s₂.alike t₂ && s₃.alike t₃
  | .giveBack e _, .giveBack f _ => e.alike f
  | .breakLoop _, .breakLoop _ => true
  | .continueLoop _, .continueLoop _ => true
  | .pass _, .pass _ => true
  | .procedure _ m ps a s _, .procedure _ n qs b t _ =>
    m == n && Param.allAlike ps qs && a == b && Stmt.allAlike s t
  | _, _ => false

/-- Whether two lists of statements say the same, one by one. -/
def Stmt.allAlike : List Stmt → List Stmt → Bool
  | [], [] => true
  | s :: ss, t :: ts => s.alike t && Stmt.allAlike ss ts
  | _, _ => false

/-- Whether two alternatives are both absent, or say the same. -/
def Stmt.optionAlike : Option Stmt → Option Stmt → Bool
  | none, none => true
  | some s, some t => s.alike t
  | _, _ => false

end

/-- Whether two modules say the same. -/
def Module.alike (m n : Module) : Bool :=
  Stmt.allAlike m.body n.body

end Imperative
