import Imperative.Program

/-!
# Trees and failures at other places

`moved f` puts every span of a tree, or of a failure, where `f` says, and changes nothing else:
names, numbers of procedures and marks stay as they are.  Two things that are the same after
moving differ in their spans only, and a thing that moving leaves alone has only spans that `f`
leaves alone.
-/

namespace Imperative

variable (f : Span → Span)

mutual

/-- The expression with its spans moved. -/
def Expr.moved : Expr → Expr
  | .number value span => .number value (f span)
  | .var name span => .var name (f span)
  | .unary op operand span => .unary op operand.moved (f span)
  | .binary op lhs rhs span => .binary op lhs.moved rhs.moved (f span)
  | .call name args resolved span => .call name (Expr.allMoved args) resolved (f span)

/-- The expressions with their spans moved. -/
def Expr.allMoved : List Expr → List Expr
  | [] => []
  | e :: es => e.moved :: Expr.allMoved es

end

/-- The parameter with its span moved. -/
def Param.moved (p : Param) : Param :=
  { p with span := f p.span }

mutual

/-- The statement with its spans moved. -/
def Stmt.moved : Stmt → Stmt
  | .compound body span => .compound (Stmt.allMoved body) (f span)
  | .declaration name type span => .declaration name type (f span)
  | .assign name value span => .assign name (value.moved f) (f span)
  | .call name args resolved span => .call name (Expr.allMoved f args) resolved (f span)
  | .conditional test body otherwise span =>
    .conditional (test.moved f) body.moved (Stmt.moved? otherwise) (f span)
  | .whileLoop test body span => .whileLoop (test.moved f) body.moved (f span)
  | .doWhile test body span => .doWhile (test.moved f) body.moved (f span)
  | .forLoop init test step body span =>
    .forLoop init.moved (test.moved f) step.moved body.moved (f span)
  | .giveBack value span => .giveBack (value.moved f) (f span)
  | .breakLoop span => .breakLoop (f span)
  | .continueLoop span => .continueLoop (f span)
  | .pass span => .pass (f span)
  | .procedure id name params returnType body span =>
    .procedure id name (params.map (Param.moved f)) returnType (Stmt.allMoved body) (f span)

/-- The statements with their spans moved. -/
def Stmt.allMoved : List Stmt → List Stmt
  | [] => []
  | s :: ss => s.moved :: Stmt.allMoved ss

/-- The statement with its spans moved, if there is one. -/
def Stmt.moved? : Option Stmt → Option Stmt
  | none => none
  | some s => some s.moved

end

/-- The module with its spans moved. -/
def Module.moved (m : Module) : Module :=
  ⟨Stmt.allMoved f m.body⟩

/-- The token in another place. -/
def Token.moved (t : Token) : Token :=
  { t with span := f t.span }

/-- The fault in another place. -/
def Fault.moved (fault : Fault) : Fault :=
  { fault with span := f fault.span }

/-- The failure of parsing in another place. -/
def ParseError.moved : ParseError → ParseError
  | .lexical fault => .lexical (fault.moved f)
  | .unexpected expected found => .unexpected expected (found.moved f)
  | .tooDeep limit span => .tooDeep limit (f span)
  | .integerTooLarge literal => .integerTooLarge (literal.moved f)

/-- The failure of analysis in another place. -/
def AnalysisError.moved (e : AnalysisError) : AnalysisError :=
  ⟨e.cause, f e.span⟩

/-- The failure of a run in another place. -/
def RuntimeError.moved (e : RuntimeError) : RuntimeError :=
  ⟨e.cause, f e.span⟩

/-- The failure of any stage in another place. -/
def Failure.moved : Failure → Failure
  | .lexical fault => .lexical (fault.moved f)
  | .parse e => .parse (e.moved f)
  | .analysis e => .analysis (e.moved f)
  | .runtime e => .runtime (e.moved f)

theorem Expr.allMoved_eq_map (es : List Expr) : Expr.allMoved f es = es.map (Expr.moved f) := by
  induction es with
  | nil => rfl
  | cons e es ih => rw [Expr.allMoved, ih, List.map_cons]

theorem Expr.length_allMoved (es : List Expr) : (Expr.allMoved f es).length = es.length := by
  rw [Expr.allMoved_eq_map, List.length_map]

theorem Stmt.allMoved_eq_map (ss : List Stmt) : Stmt.allMoved f ss = ss.map (Stmt.moved f) := by
  induction ss with
  | nil => rfl
  | cons s ss ih => rw [Stmt.allMoved, ih, List.map_cons]

/-! ## Moving nothing -/

mutual

theorem Expr.moved_id : ∀ e : Expr, e.moved id = e
  | .number .. | .var .. => rfl
  | .unary op operand span => by rw [Expr.moved, operand.moved_id, id]
  | .binary op lhs rhs span => by rw [Expr.moved, lhs.moved_id, rhs.moved_id, id]
  | .call name args resolved span => by rw [Expr.moved, Expr.allMoved_id args, id]

theorem Expr.allMoved_id : ∀ es : List Expr, Expr.allMoved id es = es
  | [] => rfl
  | e :: es => by rw [Expr.allMoved, e.moved_id, Expr.allMoved_id es]

end

mutual

theorem Stmt.moved_id : ∀ s : Stmt, s.moved id = s
  | .declaration .. | .breakLoop _ | .continueLoop _ | .pass _ => rfl
  | .compound body span => by rw [Stmt.moved, Stmt.allMoved_id body, id]
  | .assign name value span => by rw [Stmt.moved, value.moved_id, id]
  | .call name args resolved span => by rw [Stmt.moved, Expr.allMoved_id args, id]
  | .conditional test body otherwise span => by
    rw [Stmt.moved, test.moved_id, body.moved_id, Stmt.moved?_id otherwise, id]
  | .whileLoop test body span => by rw [Stmt.moved, test.moved_id, body.moved_id, id]
  | .doWhile test body span => by rw [Stmt.moved, test.moved_id, body.moved_id, id]
  | .forLoop init test step body span => by
    rw [Stmt.moved, init.moved_id, test.moved_id, step.moved_id, body.moved_id, id]
  | .giveBack value span => by rw [Stmt.moved, value.moved_id, id]
  | .procedure number name params returnType body span => by
    have same : params.map (Param.moved id) = params := List.map_id params
    rw [Stmt.moved, Stmt.allMoved_id body, same]
    rfl

theorem Stmt.allMoved_id : ∀ ss : List Stmt, Stmt.allMoved id ss = ss
  | [] => rfl
  | s :: ss => by rw [Stmt.allMoved, s.moved_id, Stmt.allMoved_id ss]

theorem Stmt.moved?_id : ∀ s : Option Stmt, Stmt.moved? id s = s
  | none => rfl
  | some s => by rw [Stmt.moved?, s.moved_id]

end

theorem Module.moved_id (m : Module) : m.moved id = m := by
  rw [Module.moved, Stmt.allMoved_id]

end Imperative
