import Imperative.Proofs.Reading
import Mathlib.Data.List.Induction

/-!
# Parsed expressions are derived

Whenever the parser of a rule for expressions succeeds, the tokens it has taken are
derived by that rule, and the tree it gives is the tree of the derivation.  The parsers of
operator chains and of arguments are loops over the parser of what they join, so their
lemmas take what that parser does as a hypothesis (`Parse.Derives`), and only `factor` is
an induction, on its budget.
-/

namespace Imperative

open Grammar

/-- The value of a run of digits, written as a sum of powers of ten. -/
theorem Parse.decimalValue_eq_ofDigits (digits : List Char) :
    Parse.decimalValue digits =
      Nat.ofDigits 10 (digits.reverse.map fun c => c.toNat - '0'.toNat) := by
  unfold Parse.decimalValue
  induction digits using List.reverseRecOn with
  | nil => rfl
  | append_singleton digits c ih =>
    rw [List.foldl_append, ih, List.reverse_append, List.map_append, Nat.ofDigits_append]
    simp only [List.foldl_cons, List.foldl_nil, List.reverse_singleton, List.map_singleton,
      List.length_singleton, Nat.ofDigits_singleton, pow_one]
    rw [Nat.add_comm, List.map_reverse]

namespace Parse

variable {s s' : Parser}

/-- Where `p` succeeds it takes tokens that are derived as the given phrase. -/
def Derives (p : Parse Expr) (phrase : Expr → ExprPhrase) : Prop :=
  ∀ ⦃s s' : Parser⦄ ⦃e : Expr⦄, s.Ends → p.run s = (.ok e, s') →
    ∃ ts, s.Takes ts s' ∧ Nonempty (ExprDerivation (phrase e) ts)

/-! ## Literals -/

/-- A literal is accepted if it fits, and then it is worth what its digits say. -/
theorem literal_ok {t : Token} {n : Int64} (h : (literal t).run s = (.ok n, s')) :
    s' = s ∧ n.toInt = t.magnitude := by
  unfold literal at h
  simp only at h
  split at h
  · next small =>
    cases h
    refine ⟨rfl, ?_⟩
    rw [Int64.toInt_ofNat_of_lt small, decimalValue_eq_ofDigits]
    rfl
  · cases h

/-! ## Operator chains -/

theorem sumWord_of_additive? {k : Token.Kind} {op : BinaryOp} (h : additive? k = some op) :
    SumWord k op := by
  unfold additive? at h
  split at h <;> cases h
  · exact .plus
  · exact .minus

theorem productWord_of_multiplicative? {k : Token.Kind} {op : BinaryOp}
    (h : multiplicative? k = some op) : ProductWord k op := by
  unfold multiplicative? at h
  split at h <;> cases h
  · exact .times
  · exact .slash

/-- The rest of a chain extends the phrase that its left operand is derived as, whenever
one more operator with its operand does. -/
theorem chainAfter_ok {operator? : Token.Kind → Option BinaryOp} {operand : Parse Expr}
    {phrase part : Expr → ExprPhrase}
    (notEnd : operator? .endOfInput = none) (operands : Derives operand part)
    (extend : ∀ {t : Token} {op : BinaryOp} {lhs rhs : Expr} {ts us : List Token},
      operator? t.kind = some op → ExprDerivation (phrase lhs) ts →
      ExprDerivation (part rhs) us →
      Nonempty (ExprDerivation (phrase (.binary op lhs rhs (lhs.span.through rhs.span)))
        (ts ++ t :: us)))
    {budget levels : Nat} {lhs e : Expr} {us : List Token} (hs : s.Ends)
    (left : ExprDerivation (phrase lhs) us)
    (h : (chainAfter operator? operand budget levels lhs).run s = (.ok e, s')) :
    ∃ ts, s.Takes ts s' ∧ Nonempty (ExprDerivation (phrase e) (us ++ ts)) := by
  induction budget generalizing s levels lhs us with
  | zero => exact (tooDeep_ok h).elim
  | succ budget ih =>
    obtain ⟨k, s₁, h₁, k₁⟩ := of_bind h
    obtain ⟨t, ht, rfl⟩ := kind_ok h₁
    split at k₁
    · -- no operator follows, so the chain ends here
      obtain ⟨_, s₂, h₂, k₂⟩ := of_bind k₁
      obtain ⟨rfl, -⟩ := current_ok ht
      obtain ⟨depth, rfl⟩ := leave_ok h₂
      cases k₂
      refine ⟨[], ⟨⟨rfl, rfl, rfl⟩, rfl⟩, ?_⟩
      rw [List.append_nil]
      exact ⟨left⟩
    · next op hop =>
      have ht' : t.kind ≠ .endOfInput := by
        intro hend
        rw [hend, notEnd] at hop
        cases hop
      obtain ⟨rfl, rest, hrest⟩ := current_ok_of_ne ht hs ht'
      obtain ⟨_, s₂, h₂, k₂⟩ := of_bind k₁
      obtain ⟨-, taken⟩ := advance_ok h₂ hrest
      obtain ⟨_, s₃, h₃, k₃⟩ := of_bind k₂
      obtain ⟨depth, rfl⟩ := enter_ok h₃
      obtain ⟨rhs, s₄, h₄, k₄⟩ := of_bind k₃
      have hs₂ : s₂.Ends := taken.ends hs
      obtain ⟨vs, takenRhs, ⟨right⟩⟩ := operands (s := { s₂ with depth }) hs₂ h₄
      obtain ⟨whole⟩ := extend hop left right
      obtain ⟨ws, takenRest, ⟨d⟩⟩ := ih (takenRhs.ends hs₂) whole k₄
      have takenRhs' : s₂.Takes vs s₄ :=
        ⟨⟨takenRhs.items, takenRhs.final, takenRhs.previous⟩, takenRhs.procedures⟩
      refine ⟨[t] ++ vs ++ ws, (taken.trans takenRhs').trans takenRest, ?_⟩
      rw [show us ++ ([t] ++ vs ++ ws) = us ++ t :: vs ++ ws by simp]
      exact ⟨d⟩

theorem chain_ok {operator? : Token.Kind → Option BinaryOp} {operand : Parse Expr}
    {phrase part : Expr → ExprPhrase}
    (notEnd : operator? .endOfInput = none) (operands : Derives operand part)
    (start : ∀ {e : Expr} {ts : List Token}, ExprDerivation (part e) ts →
      Nonempty (ExprDerivation (phrase e) ts))
    (extend : ∀ {t : Token} {op : BinaryOp} {lhs rhs : Expr} {ts us : List Token},
      operator? t.kind = some op → ExprDerivation (phrase lhs) ts →
      ExprDerivation (part rhs) us →
      Nonempty (ExprDerivation (phrase (.binary op lhs rhs (lhs.span.through rhs.span)))
        (ts ++ t :: us)))
    (budget : Nat) : Derives (chain operator? operand budget) phrase := by
  intro s s' e hs h
  obtain ⟨lhs, s₁, h₁, k₁⟩ := of_bind h
  obtain ⟨ts, taken, ⟨first⟩⟩ := operands hs h₁
  obtain ⟨left⟩ := start first
  obtain ⟨us, takenRest, d⟩ := chainAfter_ok notEnd operands extend (taken.ends hs) left k₁
  exact ⟨ts ++ us, taken.trans takenRest, d⟩

/-- An expression is derived if its factors are. -/
theorem expressionOf_ok {factor : Parse Expr} (factors : Derives factor .factor)
    (budget : Nat) : Derives (expressionOf factor budget) .expression := by
  have terms : Derives (chain multiplicative? factor budget) .term :=
    chain_ok rfl factors (fun d => ⟨.factor d⟩)
      (fun hop left right => ⟨.product left (productWord_of_multiplicative? hop) right⟩) budget
  exact chain_ok rfl terms (fun d => ⟨.term d⟩)
    (fun hop left right => ⟨.sum left (sumWord_of_additive? hop) right⟩) budget

/-! ## Parentheses and calls -/

/-- An expression in parentheses is three stretches of tokens. -/
theorem parenthesised_ok {expression : Parse Expr} (inner : Derives expression .expression)
    {e : Expr} (hs : s.Ends) (h : (parenthesised expression).run s = (.ok e, s')) :
    ∃ l ts r, s.Takes (l :: (ts ++ [r])) s' ∧ l.kind = .leftParen ∧ r.kind = .rightParen ∧
      Nonempty (ExprDerivation (.expression e) ts) := by
  obtain ⟨l, s₁, h₁, k₁⟩ := of_bind h
  obtain ⟨hl, takenL⟩ := expect_ok h₁ hs (by decide)
  have hs₁ := takenL.ends hs
  obtain ⟨e', s₂, h₂, k₂⟩ := of_bind k₁
  obtain ⟨ts, takenInner, d⟩ := inner hs₁ h₂
  obtain ⟨r, s₃, h₃, k₃⟩ := of_bind k₂
  obtain ⟨hr, takenR⟩ := expect_ok h₃ (takenInner.ends hs₁) (by decide)
  cases k₃
  exact ⟨l, ts, r, takenL.trans (takenInner.trans takenR), hl, hr, d⟩

/-- The arguments behind those already read. -/
theorem argumentsAfter_ok {expression : Parse Expr} (inner : Derives expression .expression)
    {budget : Nat} {read args : List Expr} (hs : s.Ends)
    (h : (argumentsAfter expression budget read).run s = (.ok args, s')) :
    ∃ es ts, args = read.reverse ++ es ∧ s.Takes ts s' ∧
      Nonempty (ExprDerivation (.more es) ts) := by
  induction budget generalizing s read with
  | zero => exact (tooDeep_ok h).elim
  | succ budget ih =>
    obtain ⟨k, s₁, h₁, k₁⟩ := of_bind h
    obtain ⟨c, hc, rfl⟩ := kind_ok h₁
    split at k₁
    · next comma =>
      obtain ⟨rfl, rest, hrest⟩ := current_ok_of_ne hc hs (by rw [comma]; decide)
      obtain ⟨_, s₂, h₂, k₂⟩ := of_bind k₁
      obtain ⟨-, taken⟩ := advance_ok h₂ hrest
      have hs₂ := taken.ends hs
      obtain ⟨e, s₃, h₃, k₃⟩ := of_bind k₂
      obtain ⟨ts, takenArg, ⟨next⟩⟩ := inner hs₂ h₃
      obtain ⟨es, us, rfl, takenRest, ⟨more⟩⟩ := ih (takenArg.ends hs₂) k₃
      refine ⟨e :: es, c :: (ts ++ us), by simp, ?_, ⟨.moreSome comma next more⟩⟩
      exact taken.trans (takenArg.trans takenRest)
    · obtain ⟨rfl, -⟩ := current_ok hc
      cases k₁
      exact ⟨[], [], by simp, .refl _, ⟨.moreNone⟩⟩

/-- A call is derived if its arguments are. -/
theorem call_ok {expression : Parse Expr} (inner : Derives expression .expression)
    {budget : Nat} {name : String} {args : List Expr} (hs : s.Ends)
    (h : (call expression budget).run s = (.ok (name, args), s')) :
    ∃ ts, s.Takes ts s' ∧ Nonempty (ExprDerivation (.call name args) ts) := by
  obtain ⟨f, s₁, h₁, k₁⟩ := of_bind h
  obtain ⟨hf, takenF⟩ := expect_ok h₁ hs (by decide)
  have hs₁ := takenF.ends hs
  obtain ⟨l, s₂, h₂, k₂⟩ := of_bind k₁
  obtain ⟨hl, takenL⟩ := expect_ok h₂ hs₁ (by decide)
  have hs₂ := takenL.ends hs₁
  obtain ⟨k, s₃, h₃, k₃⟩ := of_bind k₂
  obtain rfl := state_of_kind_ok h₃
  dsimp only at k₃
  split at k₃
  · obtain ⟨none, s₄, h₄, k₄⟩ := of_bind k₃
    cases h₄
    obtain ⟨r, s₅, h₅, k₅⟩ := of_bind k₄
    obtain ⟨hr, takenR⟩ := expect_ok h₅ hs₂ (by decide)
    cases k₅
    exact ⟨[f, l, r], takenF.trans (takenL.trans takenR), ⟨.callNone hf hl hr⟩⟩
  · obtain ⟨e, s₄, h₄, k₄⟩ := of_bind k₃
    obtain ⟨ts, takenFirst, ⟨first⟩⟩ := inner hs₂ h₄
    have hs₄ := takenFirst.ends hs₂
    obtain ⟨all, s₅, h₅, k₅⟩ := of_bind k₄
    obtain ⟨es, us, rfl, takenRest, ⟨more⟩⟩ := argumentsAfter_ok inner hs₄ h₅
    obtain ⟨r, s₆, h₆, k₆⟩ := of_bind k₅
    obtain ⟨hr, takenR⟩ := expect_ok h₆ (takenRest.ends hs₄) (by decide)
    cases k₆
    refine ⟨f :: l :: (ts ++ us ++ [r]), ?_, ⟨.callSome hf hl first more hr⟩⟩
    exact takenF.trans (takenL.trans ((takenFirst.trans takenRest).trans takenR))

/-! ## Factors -/

/-- A call starts with its callee. -/
theorem exists_cons_of_call {name : String} {args : List Expr} {ts : List Token}
    (d : ExprDerivation (.call name args) ts) : ∃ f us, ts = f :: us := by
  cases d with
  | callNone => exact ⟨_, _, rfl⟩
  | callSome => exact ⟨_, _, rfl⟩

/-- A sign in front of a factor. -/
theorem signed_ok {operand : Parse Expr} (factors : Derives operand .factor) {t : Token}
    {op : UnaryOp} {rest : List Item} {e : Expr} (hs : s.Ends) (word : SignWord t.kind op)
    (hrest : s.items = .ok t :: rest)
    (h : (do
      let _ ← advance
      let operand ← operand
      return .unary op operand (t.span.through operand.span) : Parse Expr).run s =
        (.ok e, s')) :
    ∃ ts, s.Takes ts s' ∧ Nonempty (ExprDerivation (.factor e) ts) := by
  obtain ⟨_, s₁, h₁, k₁⟩ := of_bind h
  obtain ⟨-, taken⟩ := advance_ok h₁ hrest
  obtain ⟨inner, s₂, h₂, k₂⟩ := of_bind k₁
  obtain ⟨ts, takenInner, ⟨d⟩⟩ := factors (taken.ends hs) h₂
  cases k₂
  exact ⟨t :: ts, taken.trans takenInner, ⟨.sign word d⟩⟩

/-- **Factors are derived.**  The induction is on the budget, which every nested factor
lowers by one. -/
theorem factor_ok (budget : Nat) : Derives (factor budget) .factor := by
  induction budget with
  | zero =>
    intro s s' e _ h
    exact (tooDeep_ok h).elim
  | succ budget ih =>
    intro s s' e hs h
    rw [factor] at h
    obtain ⟨depth, s₀, depth', h₀, rfl⟩ := nested_ok h
    -- the counter of levels plays no part, so the parser one level deeper stands for both
    suffices ∃ ts, ({ s with depth } : Parser).Takes ts s₀ ∧
        Nonempty (ExprDerivation (.factor e) ts) by
      obtain ⟨ts, taken, d⟩ := this
      exact ⟨ts, ⟨⟨taken.items, taken.final, taken.previous⟩, taken.procedures⟩, d⟩
    have hs : ({ s with depth } : Parser).Ends := hs
    generalize ({ s with depth } : Parser) = s at h₀ hs
    have nestedExpression := expressionOf_ok ih budget
    obtain ⟨t, s₁, h₁, k₁⟩ := of_bind h₀
    have here : t.kind ≠ .endOfInput → s₁ = s ∧ ∃ rest, s.items = .ok t :: rest :=
      current_ok_of_ne h₁ hs
    split at k₁
    · next plus =>
      obtain ⟨rfl, rest, hrest⟩ := here (by rw [plus]; decide)
      rw [if_pos plus] at k₁
      exact signed_ok ih hs (plus ▸ .plus) hrest k₁
    · next minus =>
      obtain ⟨rfl, rest, hrest⟩ := here (by rw [minus]; decide)
      rw [if_neg (by rw [minus]; decide)] at k₁
      exact signed_ok ih hs (minus ▸ .minus) hrest k₁
    · next integer =>
      obtain ⟨rfl, rest, hrest⟩ := here (by rw [integer]; decide)
      obtain ⟨_, s₂, h₂, k₂⟩ := of_bind k₁
      obtain ⟨-, taken⟩ := advance_ok h₂ hrest
      obtain ⟨n, s₃, h₃, k₃⟩ := of_bind k₂
      obtain ⟨rfl, value⟩ := literal_ok h₃
      cases k₃
      exact ⟨[t], taken, ⟨.number integer value⟩⟩
    · next opens =>
      obtain ⟨rfl, -⟩ := here (by rw [opens]; decide)
      obtain ⟨l, ts, r, taken, hl, hr, ⟨d⟩⟩ := parenthesised_ok nestedExpression hs k₁
      exact ⟨_, taken, ⟨.group hl d hr⟩⟩
    · next identifier =>
      obtain ⟨rfl, rest, hrest⟩ := here (by rw [identifier]; decide)
      obtain ⟨k, s₂, h₂, k₂⟩ := of_bind k₁
      obtain rfl := state_of_nextKind_ok h₂
      split at k₂
      · obtain ⟨⟨name, args⟩, s₃, h₃, k₃⟩ := of_bind k₂
        obtain ⟨ts, taken, ⟨d⟩⟩ := call_ok nestedExpression hs h₃
        obtain ⟨span, s₄, h₄, k₄⟩ := of_bind k₃
        obtain ⟨rfl, rfl⟩ := finish_ok h₄
        cases k₄
        obtain ⟨f, us, rfl⟩ := exists_cons_of_call d
        obtain rfl := head_eq_of_reads hrest taken.toReads
        refine ⟨f :: us, taken, ?_⟩
        rw [taken.through_previous]
        exact ⟨.invoke d⟩
      · obtain ⟨_, s₃, h₃, k₃⟩ := of_bind k₂
        obtain ⟨-, taken⟩ := advance_ok h₃ hrest
        cases k₃
        exact ⟨[t], taken, ⟨.name identifier⟩⟩
    · exact (not_unexpected_ok k₁).elim

/-- Expressions are derived. -/
theorem expression_ok (budget : Nat) : Derives (expression budget) .expression :=
  expressionOf_ok (factor_ok budget) budget

end Parse

end Imperative
