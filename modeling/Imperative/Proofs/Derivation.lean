import Imperative.Execution.Procedure
import Imperative.Proofs.Grammar
import Imperative.Proofs.Marks
import Mathlib.Data.List.Range

/-!
# What a derivation says about its tree

Facts about every tree that the grammar can produce, by induction on derivations.

* `ExprDerivation.magnitude_le`, `StmtDerivation.magnitude_le`: no integer is too large.
* `StmtDerivation.unmarked`: no call carries a mark.
* `StmtDerivation.headsSimple`: the head of a `for` loop holds simple statements only, at
  every depth.  Execution relies on it, since procedures are not looked for in heads.
* `StmtDerivation.numbers_perm`: the procedures of the tree carry exactly the numbers that
  were given out between its first and its last token, each of them once.
-/

namespace Imperative

/-! ## Heads of loops -/

/-- Whether a statement is simple, so that it may stand in the head of a loop. -/
def Stmt.IsSimple : Stmt → Prop
  | .declaration .. | .assign .. | .call .. | .pass _ => True
  | _ => False

mutual

/-- Every head of a loop in the statement holds simple statements only. -/
def Stmt.HeadsSimple : Stmt → Prop
  | .compound body _ | .procedure _ _ _ _ body _ => Stmt.AllHeadsSimple body
  | .conditional _ body otherwise _ => body.HeadsSimple ∧ Stmt.HeadsSimple? otherwise
  | .whileLoop _ body _ | .doWhile _ body _ => body.HeadsSimple
  | .forLoop init _ step body _ => init.IsSimple ∧ step.IsSimple ∧ body.HeadsSimple
  | .declaration .. | .assign .. | .call .. | .giveBack .. | .breakLoop _ | .continueLoop _
  | .pass _ => True

/-- Every head of a loop in the statements holds simple statements only. -/
def Stmt.AllHeadsSimple : List Stmt → Prop
  | [] => True
  | s :: ss => s.HeadsSimple ∧ Stmt.AllHeadsSimple ss

/-- Every head of a loop in a statement that may be absent holds simple statements only. -/
def Stmt.HeadsSimple? : Option Stmt → Prop
  | none => True
  | some s => s.HeadsSimple

end

namespace Grammar

variable {p : ExprPhrase} {q : StmtPhrase} {m n : Nat} {ts : List Token}

/-! ## Integers -/

@[grind →] theorem SignWord.ne_integer {k : Token.Kind} {op : UnaryOp} (h : SignWord k op) :
    k ≠ .integer := by
  cases h <;> decide

@[grind →] theorem SumWord.ne_integer {k : Token.Kind} {op : BinaryOp} (h : SumWord k op) :
    k ≠ .integer := by
  cases h <;> decide

@[grind →] theorem ProductWord.ne_integer {k : Token.Kind} {op : BinaryOp}
    (h : ProductWord k op) : k ≠ .integer := by
  cases h <;> decide

@[grind →] theorem TypeWord.ne_integer {k : Token.Kind} {type : DataType}
    (h : TypeWord k type) : k ≠ .integer := by
  cases h <;> decide

/-- Every integer in a derived stretch of tokens fits into 64 bits with a sign: the only
rule with an integer token gives it a value of that size. -/
theorem ExprDerivation.magnitude_le (d : ExprDerivation p ts) :
    ∀ t ∈ ts, t.kind = .integer → t.magnitude ≤ 2 ^ 63 - 1 := by
  induction d with
  | @number t n word value =>
    intro u hu _
    obtain rfl := List.mem_singleton.mp hu
    have small := Int64.toInt_lt n
    omega
  | _ => grind

theorem SimpleDerivation.magnitude_le {stop : Token} {s : Stmt}
    (d : SimpleDerivation stop s ts) :
    ∀ t ∈ ts, t.kind = .integer → t.magnitude ≤ 2 ^ 63 - 1 := by
  cases d with
  | call d => exact d.magnitude_le
  | assign target equals value =>
    have small := value.magnitude_le
    grind
  | declaration word name => grind
  | empty => simp

/-- No token of a list of parameters is an integer. -/
theorem ParamsDerivation.ne_integer {params : List Param} (d : ParamsDerivation params ts) :
    ∀ t ∈ ts, t.kind ≠ .integer := by
  have more : ∀ {ps : List Param} {us : List Token}, MoreParamsDerivation ps us →
      ∀ t ∈ us, t.kind ≠ .integer := by
    intro ps us d
    induction d with
    | none => simp
    | some comma next rest ih =>
      cases next with
      | mk word name => grind
  cases d with
  | none => simp
  | some first rest =>
    cases first with
    | mk word name =>
      have none := more rest
      grind

theorem ReturnTypeDerivation.ne_integer {returnType : Option DataType}
    (d : ReturnTypeDerivation returnType ts) : ∀ t ∈ ts, t.kind ≠ .integer := by
  cases d with
  | none => simp
  | some word => grind

theorem StmtDerivation.magnitude_le (d : StmtDerivation m q ts n) :
    ∀ t ∈ ts, t.kind = .integer → t.magnitude ≤ 2 ^ 63 - 1 := by
  induction d with
  | procedure word result name opens formals closes begins inner ends ih =>
    have noneInType := result.ne_integer
    have noneInParams := formals.ne_integer
    simp_all [or_imp]
  | simple inner stop =>
    have small := inner.magnitude_le
    simp_all [or_imp]
  | giveBack word value stop =>
    have small := value.magnitude_le
    simp_all [or_imp]
  | ifThen word opens condition closes branch ih =>
    have small := condition.magnitude_le
    simp_all [or_imp]
  | ifElse word opens condition closes branch closed other alternative ih ih' =>
    have small := condition.magnitude_le
    simp_all [or_imp]
  | whileLoop word opens condition closes round ih =>
    have small := condition.magnitude_le
    simp_all [or_imp]
  | doWhile begins round word opens condition closes stop ih =>
    have small := condition.magnitude_le
    simp_all [or_imp]
  | forLoop word opens first stop condition stop' next closes round ih =>
    have smallFirst := first.magnitude_le
    have small := condition.magnitude_le
    have smallNext := next.magnitude_le
    simp_all [or_imp]
  | _ => simp_all [or_imp]

/-! ## Marks -/

/-- The trees of a phrase of an expression. -/
def ExprPhrase.trees : ExprPhrase → List Expr
  | factor e | term e | expression e => [e]
  | call _ args | more args => args

theorem ExprDerivation.unmarked (d : ExprDerivation p ts) :
    Expr.allUnmarked p.trees = p.trees := by
  induction d <;> simp_all [ExprPhrase.trees, Expr.allUnmarked, Expr.unmarked]

theorem SimpleDerivation.unmarked {stop : Token} {s : Stmt} (d : SimpleDerivation stop s ts) :
    s.unmarked = s := by
  cases d with
  | call d =>
    have h := d.unmarked
    simp_all [Stmt.unmarked, ExprPhrase.trees]
  | assign target equals value =>
    have h := value.unmarked
    simp_all [Stmt.unmarked, ExprPhrase.trees, Expr.allUnmarked]
  | declaration word name => rfl
  | empty => rfl

theorem StmtDerivation.unmarked (d : StmtDerivation m q ts n) :
    Stmt.allUnmarked q.trees = q.trees := by
  induction d with
  | simple inner stop => simp [StmtPhrase.trees, Stmt.allUnmarked, inner.unmarked]
  | giveBack word value stop =>
    have h := value.unmarked
    simp_all [StmtPhrase.trees, Stmt.allUnmarked, ExprPhrase.trees, Expr.allUnmarked, Stmt.unmarked]
  | ifThen word opens condition closes branch ih =>
    have h := condition.unmarked
    simp_all [StmtPhrase.trees, Stmt.allUnmarked, ExprPhrase.trees, Expr.allUnmarked, Stmt.unmarked,
      Stmt.unmarked?]
  | ifElse word opens condition closes branch closed other alternative ih ih' =>
    have h := condition.unmarked
    simp_all [StmtPhrase.trees, Stmt.allUnmarked, ExprPhrase.trees, Expr.allUnmarked, Stmt.unmarked,
      Stmt.unmarked?]
  | whileLoop word opens condition closes round ih =>
    have h := condition.unmarked
    simp_all [StmtPhrase.trees, Stmt.allUnmarked, ExprPhrase.trees, Expr.allUnmarked, Stmt.unmarked]
  | doWhile begins round word opens condition closes stop ih =>
    have h := condition.unmarked
    simp_all [StmtPhrase.trees, Stmt.allUnmarked, ExprPhrase.trees, Expr.allUnmarked, Stmt.unmarked]
  | forLoop word opens first stop condition stop' next closes round ih =>
    have h := condition.unmarked
    simp_all [StmtPhrase.trees, Stmt.allUnmarked, ExprPhrase.trees, Expr.allUnmarked, Stmt.unmarked,
      first.unmarked, next.unmarked]
  | _ => simp_all [StmtPhrase.trees, Stmt.allUnmarked, Stmt.unmarked]

/-! ## Heads of loops and numbers of procedures -/

theorem SimpleDerivation.isSimple {stop : Token} {s : Stmt} (d : SimpleDerivation stop s ts) :
    s.IsSimple := by
  cases d <;> trivial

theorem headsSimple_of_isSimple {s : Stmt} (h : s.IsSimple) : s.HeadsSimple := by
  cases s <;> trivial

theorem StmtDerivation.headsSimple (d : StmtDerivation m q ts n) :
    Stmt.AllHeadsSimple q.trees := by
  induction d with
  | simple inner stop =>
    exact ⟨headsSimple_of_isSimple inner.isSimple, trivial⟩
  | forLoop word opens first stop condition stop' next closes round ih =>
    exact ⟨⟨first.isSimple, next.isSimple, ih.1⟩, trivial⟩
  | _ => simp_all [StmtPhrase.trees, Stmt.AllHeadsSimple, Stmt.HeadsSimple, Stmt.HeadsSimple?]

theorem procedures_of_isSimple {s : Stmt} (h : s.IsSimple) : s.procedures = [] := by
  cases s <;> simp_all [Stmt.IsSimple, Stmt.procedures]

/-- Neighbouring stretches of numbers make one stretch. -/
theorem range'_append_of_le {k m n : Nat} (hk : k ≤ m) (hm : m ≤ n) :
    List.range' k (m - k) ++ List.range' m (n - m) = List.range' k (n - k) := by
  have size : n - k = m - k + (n - m) := by omega
  rw [size, ← List.range'_append_1, Nat.add_sub_cancel' hk]

/-- The numbers of two neighbouring stretches are those of the whole stretch. -/
theorem range'_perm_of_append {k m n : Nat} {ks ms : List Nat} (hk : k ≤ m) (hm : m ≤ n)
    (first : ks.Perm (List.range' k (m - k))) (second : ms.Perm (List.range' m (n - m))) :
    (ks ++ ms).Perm (List.range' k (n - k)) := by
  rw [← range'_append_of_le hk hm]
  exact first.append second

/-- The procedures of a derived tree carry the numbers from `m` up to, but without, `n`, each
of them once. -/
theorem StmtDerivation.numbers_perm (d : StmtDerivation m q ts n) :
    m ≤ n ∧ ((Stmt.allProcedures q.trees).map (·.id.index)).Perm (List.range' m (n - m)) := by
  induction d with
  | @procedure m n _ _ _ _ _ _ _ _ _ _ _ _ _ _ _ _ _ _ _ inner _ ih =>
    obtain ⟨le, perm⟩ := ih
    refine ⟨Nat.le_succ_of_le le, ?_⟩
    -- the number of the procedure comes last, its definition before those inside it
    rw [Nat.succ_sub le, List.range'_concat, Nat.one_mul, Nat.add_sub_cancel' le]
    simp only [StmtPhrase.trees, Stmt.allProcedures, Stmt.procedures, List.append_nil,
      List.map_cons] at perm ⊢
    exact (perm.cons n).trans (List.perm_append_singleton n _).symm
  | simple inner stop =>
    simp [StmtPhrase.trees, Stmt.allProcedures, procedures_of_isSimple inner.isSimple]
  | ifElse _ _ _ _ _ _ _ _ ih ih' =>
    simp only [StmtPhrase.trees, Stmt.allProcedures, Stmt.procedures, Stmt.procedures?,
      List.append_nil, List.map_append] at ih ih' ⊢
    exact ⟨ih.1.trans ih'.1, range'_perm_of_append ih.1 ih'.1 ih.2 ih'.2⟩
  | cons first rest ih ih' =>
    simp only [StmtPhrase.trees, Stmt.allProcedures, List.append_nil, List.map_append]
      at ih ih' ⊢
    exact ⟨ih.1.trans ih'.1, range'_perm_of_append ih.1 ih'.1 ih.2 ih'.2⟩
  | _ => simp_all [StmtPhrase.trees, Stmt.allProcedures, Stmt.procedures, Stmt.procedures?]

end Grammar

end Imperative
