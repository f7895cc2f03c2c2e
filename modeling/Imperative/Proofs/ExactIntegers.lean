import Imperative.Proofs.Continuations
import Imperative.Proofs.Subexpressions
import Mathlib

/-!
# Integers are computed exactly or not at all

An expression made of integer literals, of names that hold integers, of signs and of `+`, `-` and
`*` has a value over all the integers, whatever its size: its *denotation* (`Expr.denote?`).  The
machine has words of 64 bits only.  It gives the denotation if that of every subexpression fits into
a word, and otherwise it stops with an overflow at the first subexpression whose denotation does
not, in the order in which an evaluation comes to their ends (`Machine.exact_or_overflow`).

## The shape of the argument

One operator takes words to the exact result, if this is a word, and refuses otherwise
(`Value.unary_int`, `Value.binary_int`); that is all that is said about arithmetic.  The rest is one
recursion along the expression, for any continuation: as long as nothing overflows, the evaluation
goes on with the denotation in a word (`Machine.halts_eval_iff_of_inRange`), and at the first
subexpression that does not fit it stops (`Machine.halts_of_first_outOfRange`).  An operand that
overflows stops the run before the operator is looked at, so a result that would have come back into
range is never seen.
-/

namespace Imperative

/-! ## Words and integers -/

/-- The integer can be written in a word of 64 bits. -/
def FitsWord (n : Int) : Prop :=
  -2 ^ 63 ≤ n ∧ n ≤ 2 ^ 63 - 1

instance : DecidablePred FitsWord := fun _ => inferInstanceAs (Decidable (_ ∧ _))

theorem FitsWord.toInt (n : Int64) : FitsWord n.toInt :=
  ⟨n.le_toInt, Int.le_sub_one_of_lt n.toInt_lt⟩

theorem FitsWord.toInt_ofInt {n : Int} (h : FitsWord n) : (Int64.ofInt n).toInt = n :=
  Int64.toInt_ofInt_of_le h.1 (Int.lt_of_le_sub_one h.2)

/-- The sign over the integers. -/
def UnaryOp.onInt : UnaryOp → Int → Int
  | plus, n => n
  | minus, n => -n

/-- The operator over the integers; a quotient need not be one. -/
def BinaryOp.onInt? : BinaryOp → Int → Int → Option Int
  | add, m, n => some (m + n)
  | sub, m, n => some (m - n)
  | mul, m, n => some (m * n)
  | div, _, _ => none

namespace Value

theorem ofInt_of_fits {n : Int} (h : FitsWord n) : ofInt n = .ok (.int (Int64.ofInt n)) :=
  if_pos h

theorem ofInt_of_not_fits {n : Int} (h : ¬ FitsWord n) : ofInt n = .error .overflow :=
  if_neg h

/-- A sign gives the exact result, if it fits. -/
theorem unary_int (op : UnaryOp) (n : Int64) :
    Value.unary op (.int n) = ofInt (op.onInt n.toInt) := by
  cases op with
  | plus =>
    rw [UnaryOp.onInt, ofInt_of_fits (.toInt n), Int64.ofInt_toInt]
    rfl
  | minus => rfl

/-- An operator gives the exact result, if it fits. -/
theorem binary_int {op : BinaryOp} {m n : Int64} {k : Int}
    (h : op.onInt? m.toInt n.toInt = some k) :
    Value.binary op (.int m) (.int n) = ofInt k := by
  cases op with
  | add | sub | mul =>
    cases h
    rfl
  | div => cases h

end Value

/-! ## Denotations -/

namespace Expr

/-- The value of the expression over the integers, if it is made of integers. -/
def denote? (stack : CallStack) : Expr → Option Int
  | .number n _ => some n.toInt
  | .var name _ =>
    match stack.top?.bind (·.get? name) with
    | some (.int n) => some n.toInt
    | _ => none
  | .unary op operand _ => (operand.denote? stack).map op.onInt
  | .binary op lhs rhs _ =>
    (lhs.denote? stack).bind fun m => (rhs.denote? stack).bind fun n => op.onInt? m n
  | .call .. => none

/-- The denotation of the expression fits into a word. -/
def InRange (stack : CallStack) (e : Expr) : Prop :=
  ∃ n ∈ e.denote? stack, FitsWord n

/-- The denotation of the expression does not fit into a word. -/
def OutOfRange (stack : CallStack) (e : Expr) : Prop :=
  ∃ n ∈ e.denote? stack, ¬ FitsWord n

instance (stack : CallStack) : DecidablePred (InRange stack) :=
  fun e => inferInstanceAs (Decidable (∃ n ∈ e.denote? stack, FitsWord n))

instance (stack : CallStack) : DecidablePred (OutOfRange stack) :=
  fun e => inferInstanceAs (Decidable (∃ n ∈ e.denote? stack, ¬ FitsWord n))

/-- The operator at the root of the expression, as it is written. -/
def operator? : Expr → Option String
  | .unary op _ _ => some op.text
  | .binary op _ _ _ => some op.text
  | .number .. | .var .. | .call .. => none

variable {stack : CallStack} {n : Int}

theorem inRange_iff {e : Expr} (h : e.denote? stack = some n) : e.InRange stack ↔ FitsWord n := by
  simp [InRange, h]

theorem outOfRange_iff {e : Expr} (h : e.denote? stack = some n) :
    e.OutOfRange stack ↔ ¬ FitsWord n := by
  simp [OutOfRange, h]

theorem denote?_var {name : String} {span : Span} (h : (var name span).denote? stack = some n) :
    ∃ record v, stack.top? = some record ∧ record.get? name = some (.int v) ∧ v.toInt = n := by
  rw [denote?] at h
  split at h
  · next v hv =>
    obtain ⟨record, htop, hget⟩ := Option.bind_eq_some_iff.mp hv
    exact ⟨record, v, htop, hget, Option.some.inj h⟩
  · cases h

theorem denote?_unary {op : UnaryOp} {operand : Expr} {span : Span}
    (h : (unary op operand span).denote? stack = some n) :
    ∃ m, operand.denote? stack = some m ∧ op.onInt m = n :=
  Option.map_eq_some_iff.mp h

theorem denote?_binary {op : BinaryOp} {lhs rhs : Expr} {span : Span}
    (h : (binary op lhs rhs span).denote? stack = some n) :
    ∃ l r, lhs.denote? stack = some l ∧ rhs.denote? stack = some r ∧ op.onInt? l r = some n := by
  obtain ⟨l, hl, h⟩ := Option.bind_eq_some_iff.mp h
  obtain ⟨r, hr, h⟩ := Option.bind_eq_some_iff.mp h
  exact ⟨l, r, hl, hr, h⟩

theorem not_outOfRange_number (m : Int64) (span : Span) : ¬ (number m span).OutOfRange stack :=
  fun h => (outOfRange_iff rfl).mp h (.toInt m)

theorem not_outOfRange_var (name : String) (span : Span) : ¬ (var name span).OutOfRange stack := by
  rintro ⟨n, hn, hfits⟩
  obtain ⟨_, v, -, -, rfl⟩ := denote?_var hn
  exact hfits (.toInt v)

/-- Whatever is inside an expression with a denotation has one too. -/
theorem exists_denote_of_mem_postorder : ∀ {e : Expr} {n : Int}, e.denote? stack = some n →
    ∀ x ∈ e.postorder, ∃ k, x.denote? stack = some k
  | .number .., n, h, x, hx => by
    obtain rfl := List.mem_singleton.mp hx
    exact ⟨n, h⟩
  | .var .., n, h, x, hx => by
    obtain rfl := List.mem_singleton.mp hx
    exact ⟨n, h⟩
  | .unary op operand span, n, h, x, hx => by
    obtain ⟨m, hm, -⟩ := denote?_unary h
    rcases List.mem_append.mp hx with hx | hx
    · exact exists_denote_of_mem_postorder hm x hx
    · obtain rfl := List.mem_singleton.mp hx
      exact ⟨n, h⟩
  | .binary op lhs rhs span, n, h, x, hx => by
    obtain ⟨l, r, hl, hr, -⟩ := denote?_binary h
    rcases List.mem_append.mp hx with hx | hx
    · rcases List.mem_append.mp hx with hx | hx
      · exact exists_denote_of_mem_postorder hl x hx
      · exact exists_denote_of_mem_postorder hr x hx
    · obtain rfl := List.mem_singleton.mp hx
      exact ⟨n, h⟩
  | .call .., n, h, _, _ => nomatch h

/-- The first expression of those inside, itself the last, whose denotation is no word. -/
def firstOutOfRange? (stack : CallStack) (e : Expr) : Option Expr :=
  e.postorder.find? fun x => x.OutOfRange stack

theorem outOfRange_of_find? {x : Expr} {es : List Expr}
    (h : es.find? (fun y => y.OutOfRange stack) = some x) : x.OutOfRange stack := by
  have hx := List.find?_some h
  exact of_decide_eq_true hx

/-- If none is the first, all denotations are words. -/
theorem firstOutOfRange?_eq_none_iff {e : Expr} (h : e.denote? stack = some n) :
    e.firstOutOfRange? stack = none ↔ ∀ x ∈ e.postorder, x.InRange stack := by
  rw [firstOutOfRange?, List.find?_eq_none]
  refine forall₂_congr fun x hx => ?_
  obtain ⟨k, hk⟩ := exists_denote_of_mem_postorder h x hx
  rw [decide_eq_true_iff, outOfRange_iff hk, inRange_iff hk, Decidable.not_not]

/-- What is out of range in the operand comes before what the sign makes of it. -/
theorem firstOutOfRange?_unary (op : UnaryOp) (operand : Expr) (span : Span) :
    (unary op operand span).firstOutOfRange? stack =
      (operand.firstOutOfRange? stack).or
        ([unary op operand span].find? fun x => x.OutOfRange stack) := by
  rw [firstOutOfRange?, postorder, List.find?_append]
  rfl

theorem firstOutOfRange?_binary (op : BinaryOp) (lhs rhs : Expr) (span : Span) :
    (binary op lhs rhs span).firstOutOfRange? stack =
      ((lhs.firstOutOfRange? stack).or (rhs.firstOutOfRange? stack)).or
        ([binary op lhs rhs span].find? fun x => x.OutOfRange stack) := by
  rw [firstOutOfRange?, postorder, List.find?_append, List.find?_append]
  rfl

end Expr

/-! ## Evaluation -/

namespace Machine

variable {table : ProcedureTable} {stack : CallStack}

theorem operate_ofInt_of_fits {n : Int} (h : FitsWord n) (operator : String) (site : Span)
    (k : ValueCont) :
    operate (Value.ofInt n) operator site k stack =
      .next [] ⟨.value (.int (Int64.ofInt n)) k, stack⟩ := by
  rw [Value.ofInt_of_fits h]
  rfl

theorem operate_ofInt_of_not_fits {n : Int} (h : ¬ FitsWord n) (operator : String) (site : Span)
    (k : ValueCont) :
    operate (Value.ofInt n) operator site k stack =
      .halt [] (.failure ⟨.integerOverflow operator, site⟩) stack := by
  rw [Value.ofInt_of_not_fits h]
  rfl

/-- A sign is applied to the integer that a word stands for. -/
theorem step_unary_ofInt {n : Int} (h : FitsWord n) (op : UnaryOp) (site : Span) (k : ValueCont) :
    step table ⟨.value (.int (Int64.ofInt n)) (.unary op site k), stack⟩ =
      operate (Value.ofInt (op.onInt n)) op.text site k stack := by
  show operate (Value.unary op (.int (Int64.ofInt n))) op.text site k stack = _
  rw [Value.unary_int, h.toInt_ofInt]

/-- An operator is applied to the integers that two words stand for. -/
theorem step_rightOperand_ofInt {l r n : Int} (hl : FitsWord l) (hr : FitsWord r) {op : BinaryOp}
    (hn : op.onInt? l r = some n) (site : Span) (k : ValueCont) :
    step table ⟨.value (.int (Int64.ofInt r)) (.rightOperand op (.int (Int64.ofInt l)) site k),
        stack⟩ = operate (Value.ofInt n) op.text site k stack := by
  rw [← hl.toInt_ofInt, ← hr.toInt_ofInt] at hn
  show operate (Value.binary op (.int (Int64.ofInt l)) (.int (Int64.ofInt r))) op.text site k
    stack = _
  rw [Value.binary_int hn]

/-- **While everything fits**, the evaluation goes on with the denotation in a word. -/
theorem halts_eval_iff_of_inRange : ∀ {e : Expr} {n : Int}, e.denote? stack = some n →
    (∀ x ∈ e.postorder, x.InRange stack) → ∀ {k : ValueCont} {o : Outcome} {t : CallStack},
      Halts table ⟨.eval e k, stack⟩ o t ↔
        Halts table ⟨.value (.int (Int64.ofInt n)) k, stack⟩ o t
  | .number m span, n, h, _, k, o, t => by
    obtain rfl : m.toInt = n := Option.some.inj h
    rw [Int64.ofInt_toInt]
    exact halts_iff_of_next rfl
  | .var name span, n, h, _, k, o, t => by
    obtain ⟨record, v, htop, hget, rfl⟩ := Expr.denote?_var h
    rw [Int64.ofInt_toInt]
    have hstep : step table ⟨.eval (.var name span) k, stack⟩ =
        .next [] ⟨.value (.int v) k, stack⟩ := by
      show readName name span k stack = _
      simp only [readName, htop, hget, go]
    exact halts_iff_of_next hstep
  | .unary op operand span, n, h, hall, k, o, t => by
    obtain ⟨m, hm, rfl⟩ := Expr.denote?_unary h
    have hself := (Expr.inRange_iff h).mp (hall _ (Expr.mem_postorder_self _))
    have hoperand : ∀ x ∈ operand.postorder, x.InRange stack :=
      fun x hx => hall x (List.mem_append_left _ hx)
    have hfits := (Expr.inRange_iff hm).mp (hoperand _ operand.mem_postorder_self)
    have hstep : step table ⟨.value (.int (Int64.ofInt m)) (.unary op span k), stack⟩ =
        .next [] ⟨.value (.int (Int64.ofInt (op.onInt m))) k, stack⟩ := by
      rw [step_unary_ofInt hfits, operate_ofInt_of_fits hself]
    calc Halts table ⟨.eval (.unary op operand span) k, stack⟩ o t
        ↔ Halts table ⟨.eval operand (.unary op span k), stack⟩ o t := halts_iff_of_next rfl
      _ ↔ Halts table ⟨.value (.int (Int64.ofInt m)) (.unary op span k), stack⟩ o t :=
        halts_eval_iff_of_inRange hm hoperand
      _ ↔ _ := halts_iff_of_next hstep
  | .binary op lhs rhs span, n, h, hall, k, o, t => by
    obtain ⟨l, r, hl, hr, hn⟩ := Expr.denote?_binary h
    have hself := (Expr.inRange_iff h).mp (hall _ (Expr.mem_postorder_self _))
    have hlhs : ∀ x ∈ lhs.postorder, x.InRange stack :=
      fun x hx => hall x (List.mem_append_left _ (List.mem_append_left _ hx))
    have hrhs : ∀ x ∈ rhs.postorder, x.InRange stack :=
      fun x hx => hall x (List.mem_append_left _ (List.mem_append_right _ hx))
    have hfitsl := (Expr.inRange_iff hl).mp (hlhs _ lhs.mem_postorder_self)
    have hfitsr := (Expr.inRange_iff hr).mp (hrhs _ rhs.mem_postorder_self)
    let lhsWord : Value := .int (Int64.ofInt l)
    have hstep : step table ⟨.value (.int (Int64.ofInt r)) (.rightOperand op lhsWord span k), stack⟩ =
        .next [] ⟨.value (.int (Int64.ofInt n)) k, stack⟩ := by
      rw [step_rightOperand_ofInt hfitsl hfitsr hn, operate_ofInt_of_fits hself]
    calc Halts table ⟨.eval (.binary op lhs rhs span) k, stack⟩ o t
        ↔ Halts table ⟨.eval lhs (.leftOperand op rhs span k), stack⟩ o t := halts_iff_of_next rfl
      _ ↔ Halts table ⟨.value lhsWord (.leftOperand op rhs span k), stack⟩ o t :=
        halts_eval_iff_of_inRange hl hlhs
      _ ↔ Halts table ⟨.eval rhs (.rightOperand op lhsWord span k), stack⟩ o t :=
        halts_iff_of_next rfl
      _ ↔ Halts table ⟨.value (.int (Int64.ofInt r)) (.rightOperand op lhsWord span k), stack⟩ o t :=
        halts_eval_iff_of_inRange hr hrhs
      _ ↔ _ := halts_iff_of_next hstep
  | .call .., _, h, _, _, _, _ => nomatch h

/-- **At the first subexpression that does not fit**, the evaluation stops. -/
theorem halts_of_firstOutOfRange : ∀ {e : Expr} {n : Int}, e.denote? stack = some n →
    ∀ {x : Expr}, e.firstOutOfRange? stack = some x → ∃ op, x.operator? = some op ∧
      ∀ k, Halts table ⟨.eval e k, stack⟩ (.failure ⟨.integerOverflow op, x.span⟩) stack
  | .number m span, _, _, x, hx => by
    obtain rfl := List.mem_singleton.mp (List.mem_of_find?_eq_some hx)
    exact (Expr.not_outOfRange_number m span (Expr.outOfRange_of_find? hx)).elim
  | .var name span, _, _, x, hx => by
    obtain rfl := List.mem_singleton.mp (List.mem_of_find?_eq_some hx)
    exact (Expr.not_outOfRange_var name span (Expr.outOfRange_of_find? hx)).elim
  | .unary op operand span, n, h, x, hx => by
    obtain ⟨m, hm, rfl⟩ := Expr.denote?_unary h
    rw [Expr.firstOutOfRange?_unary, Option.or_eq_some_iff] at hx
    rcases hx with hx | ⟨hnone, hx⟩
    · obtain ⟨op', hop, hhalts⟩ := halts_of_firstOutOfRange hm hx
      exact ⟨op', hop, fun k => .later rfl (hhalts _)⟩
    · have hall := (Expr.firstOutOfRange?_eq_none_iff hm).mp hnone
      have hfits := (Expr.inRange_iff hm).mp (hall _ operand.mem_postorder_self)
      obtain rfl := List.mem_singleton.mp (List.mem_of_find?_eq_some hx)
      have hout := (Expr.outOfRange_iff h).mp (Expr.outOfRange_of_find? hx)
      refine ⟨op.text, rfl, fun k => .later rfl ((halts_eval_iff_of_inRange hm hall).mpr ?_)⟩
      have hstep : step table ⟨.value (.int (Int64.ofInt m)) (.unary op span k), stack⟩ =
          .halt [] (.failure ⟨.integerOverflow op.text, span⟩) stack := by
        rw [step_unary_ofInt hfits, operate_ofInt_of_not_fits hout]
      exact .now hstep
  | .binary op lhs rhs span, n, h, x, hx => by
    obtain ⟨l, r, hl, hr, hn⟩ := Expr.denote?_binary h
    rw [Expr.firstOutOfRange?_binary, Option.or_eq_some_iff, Option.or_eq_some_iff,
      Option.or_eq_none_iff] at hx
    rcases hx with (hx | ⟨hnone, hx⟩) | ⟨⟨hnonel, hnoner⟩, hx⟩
    · obtain ⟨op', hop, hhalts⟩ := halts_of_firstOutOfRange hl hx
      exact ⟨op', hop, fun k => .later rfl (hhalts _)⟩
    · have hall := (Expr.firstOutOfRange?_eq_none_iff hl).mp hnone
      obtain ⟨op', hop, hhalts⟩ := halts_of_firstOutOfRange hr hx
      refine ⟨op', hop, fun k => .later rfl ?_⟩
      exact (halts_eval_iff_of_inRange hl hall).mpr (.later rfl (hhalts _))
    · have halll := (Expr.firstOutOfRange?_eq_none_iff hl).mp hnonel
      have hallr := (Expr.firstOutOfRange?_eq_none_iff hr).mp hnoner
      have hfitsl := (Expr.inRange_iff hl).mp (halll _ lhs.mem_postorder_self)
      have hfitsr := (Expr.inRange_iff hr).mp (hallr _ rhs.mem_postorder_self)
      obtain rfl := List.mem_singleton.mp (List.mem_of_find?_eq_some hx)
      have hout := (Expr.outOfRange_iff h).mp (Expr.outOfRange_of_find? hx)
      refine ⟨op.text, rfl, fun k => .later rfl ?_⟩
      refine (halts_eval_iff_of_inRange hl halll).mpr (.later rfl ?_)
      refine (halts_eval_iff_of_inRange hr hallr).mpr ?_
      have hstep : step table ⟨.value (.int (Int64.ofInt r)) (.rightOperand op (.int (Int64.ofInt l))
          span k), stack⟩ = .halt [] (.failure ⟨.integerOverflow op.text, span⟩) stack := by
        rw [step_rightOperand_ofInt hfitsl hfitsr hn, operate_ofInt_of_not_fits hout]
      exact .now hstep
  | .call .., _, h, _, _ => nomatch h

/-- **Integers are computed exactly or not at all.**  An expression made of integers gives its
denotation if that of every subexpression is a word; otherwise its evaluation stops with an overflow
at the first subexpression whose denotation is none.  No value that it gives is another one. -/
theorem exact_or_overflow (table : ProcedureTable) (stack : CallStack) (e : Expr) (n : Int)
    (h : e.denote? stack = some n) :
    ((∃ v : Int64, v.toInt = n ∧ Halts table ⟨.eval e .done, stack⟩ (.value (.int v)) stack) ↔
        ∀ x ∈ e.postorder, x.InRange stack)
      ∧ ((¬ ∀ x ∈ e.postorder, x.InRange stack) →
        ∃ x op, e.postorder.find? (fun y => y.OutOfRange stack) = some x ∧ x.operator? = some op
          ∧ Halts table ⟨.eval e .done, stack⟩ (.failure ⟨.integerOverflow op, x.span⟩) stack)
      ∧ ∀ v t, Halts table ⟨.eval e .done, stack⟩ (.value v) t →
        ∃ w : Int64, v = .int w ∧ w.toInt = n := by
  have hfailed (hnot : ¬ ∀ x ∈ e.postorder, x.InRange stack) :
      ∃ x op, e.firstOutOfRange? stack = some x ∧ x.operator? = some op
        ∧ Halts table ⟨.eval e .done, stack⟩ (.failure ⟨.integerOverflow op, x.span⟩) stack := by
    obtain ⟨x, hx⟩ := Option.ne_none_iff_exists'.mp
      fun hnone => hnot ((Expr.firstOutOfRange?_eq_none_iff h).mp hnone)
    obtain ⟨op, hop, hhalts⟩ := halts_of_firstOutOfRange h hx
    exact ⟨x, op, hx, hop, hhalts .done⟩
  have hexact (hall : ∀ x ∈ e.postorder, x.InRange stack) :
      (Int64.ofInt n).toInt = n
        ∧ Halts table ⟨.eval e .done, stack⟩ (.value (.int (Int64.ofInt n))) stack := by
    have hfits := (Expr.inRange_iff h).mp (hall e e.mem_postorder_self)
    exact ⟨hfits.toInt_ofInt, (halts_eval_iff_of_inRange h hall).mpr (.now rfl)⟩
  refine ⟨⟨?_, fun hall => ⟨_, hexact hall⟩⟩, hfailed, fun v t hv => ?_⟩
  · rintro ⟨v, -, hv⟩
    refine Decidable.byContradiction fun hnot => ?_
    obtain ⟨x, op, -, -, hhalts⟩ := hfailed hnot
    exact nomatch (hv.unique hhalts).1
  · by_cases hall : ∀ x ∈ e.postorder, x.InRange stack
    · obtain ⟨hn, hhalts⟩ := hexact hall
      exact ⟨_, Outcome.value.inj (hv.unique hhalts).1, hn⟩
    · obtain ⟨x, op, -, -, hhalts⟩ := hfailed hall
      exact nomatch (hv.unique hhalts).1

/-- A sum that overflows and a difference that comes back into range: the sum is refused. -/
theorem exact_or_overflow_returning :
    let sum : Expr := .binary .add (.number Int64.maxValue {}) (.number 1 {}) ⟨0, 23, 1, 1⟩
    let e : Expr := .binary .sub sum (.number 1 {}) ⟨0, 27, 1, 1⟩
    e.denote? (.empty 1) = some (2 ^ 63 - 1)
      ∧ Halts {} ⟨.eval e .done, .empty 1⟩ (.failure ⟨.integerOverflow "+", ⟨0, 23, 1, 1⟩⟩)
        (.empty 1) := by
  intro sum e
  have hdenote : e.denote? (.empty 1) = some (2 ^ 63 - 1) := by decide
  have hfirst : e.firstOutOfRange? (.empty 1) = some sum := by rfl
  obtain ⟨x, op, hx, hop, hhalts⟩ := (exact_or_overflow {} (.empty 1) e _ hdenote).2.1
    (mt (Expr.firstOutOfRange?_eq_none_iff hdenote).mpr (by rw [hfirst]; nofun))
  obtain rfl : sum = x := Option.some.inj (hfirst.symm.trans hx)
  obtain rfl : "+" = op := Option.some.inj hop
  exact ⟨hdenote, hhalts⟩

end Machine

end Imperative
