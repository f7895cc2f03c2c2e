import Imperative.Proofs.Acceptance
import Imperative.Proofs.ExpressionSoundness
import Imperative.Proofs.Nesting

/-!
# Parsing of expressions is complete

What the grammar derives as an expression, the parser of expressions accepts, at the cost of the
derivation and no other (`ExprDerivation.accepted`).

Derivations of chains lean to the left and the parser reads them from the left, so a chain is
not accepted operand by operand.  Instead `Parse.Chains` says how far the parser has come behind
a part of a chain: it goes on as `chainAfter` with the tree of that part, one level taken for
each operator.  A chain ends when the next token is none of its operators.

A budget of as many tokens as there are to read is always enough.
-/

namespace Imperative

open Grammar

/-! ## What follows an expression -/

namespace Token.Kind

/-- A factor ends here: the next token does not turn a name into a call. -/
def EndsFactor (k : Token.Kind) : Prop :=
  k ≠ .leftParen

/-- A term ends here: no factor is joined to it. -/
def EndsTerm (k : Token.Kind) : Prop :=
  k.EndsFactor ∧ Parse.multiplicative? k = none

/-- An expression ends here: no term is joined to it. -/
def EndsExpression (k : Token.Kind) : Prop :=
  k.EndsTerm ∧ Parse.additive? k = none

theorem endsExpression_rightParen : EndsExpression .rightParen := ⟨⟨nofun, rfl⟩, rfl⟩

theorem endsExpression_comma : EndsExpression .comma := ⟨⟨nofun, rfl⟩, rfl⟩

theorem endsExpression_semicolon : EndsExpression .semicolon := ⟨⟨nofun, rfl⟩, rfl⟩

end Token.Kind

namespace Parse

theorem endsFactor_of_productWord {k : Token.Kind} {op : BinaryOp} (h : ProductWord k op) :
    k.EndsFactor := by
  cases h <;> nofun

theorem endsTerm_of_sumWord {k : Token.Kind} {op : BinaryOp} (h : SumWord k op) :
    k.EndsTerm := by
  cases h <;> exact ⟨nofun, rfl⟩

theorem multiplicative?_of_productWord {k : Token.Kind} {op : BinaryOp} (h : ProductWord k op) :
    multiplicative? k = some op := by
  cases h <;> rfl

theorem additive?_of_sumWord {k : Token.Kind} {op : BinaryOp} (h : SumWord k op) :
    additive? k = some op := by
  cases h <;> rfl

/-! ## Chains of operators -/

/-- The parser of a chain has come to the end of the tokens `ts` with the tree `e`, with `links`
operators behind it. -/
def Chains (operator? : Token.Kind → Option BinaryOp) (operand : Parse Expr) (budget : Nat)
    (next : Token → Prop) (links cost : Nat) (ts : List Token) (e : Expr) : Prop :=
  ∀ ⦃c : Nat⦄ ⦃stop : Token → Prop⦄ ⦃previous : Span⦄ ⦃m n : Nat⦄ ⦃us : List Token⦄ ⦃tree : Expr⦄,
    Accepts (chainAfter operator? operand (budget - links) links e) links c stop
      (Token.lastSpan previous ts) m us tree n →
    (∀ v, stop v → next (us.headD v)) →
    Accepts (chain operator? operand budget) 0 (max cost c) stop previous m (ts ++ us) tree n

namespace Chains

variable {operator? : Token.Kind → Option BinaryOp} {operand : Parse Expr} {budget : Nat}
  {next : Token → Prop} {links c c' : Nat} {ts us : List Token} {t : Token} {lhs rhs e : Expr}
  {op : BinaryOp}

theorem single (h : ∀ previous m, Accepts operand 0 c next previous m ts e m) :
    Chains operator? operand budget next 0 c ts e := by
  intro c' stop previous m n us tree hrest hnext
  exact (h previous m).bind hrest hnext

/-- One more operator and one more operand. -/
theorem link (h : Chains operator? operand budget next links c ts lhs)
    (hop : operator? t.kind = some op) (ht : next t)
    (hrhs : ∀ previous m, Accepts operand 0 c' next previous m us rhs m)
    (hbudget : links < budget) :
    Chains operator? operand budget next (links + 1) (max c (links + 1 + c')) (ts ++ t :: us)
      (.binary op lhs rhs (lhs.span.through rhs.span)) := by
  intro c'' stop previous m n vs tree hrest hnext
  obtain ⟨rounds, hrounds⟩ : ∃ rounds, budget - links = rounds + 1 :=
    ⟨budget - links - 1, by omega⟩
  have hlater : budget - (links + 1) = rounds := by omega
  rw [hlater, Token.lastSpan_append, Token.lastSpan_cons] at hrest
  rw [List.append_assoc, List.cons_append, max_assoc]
  -- the part on the left is read first, and the operator is what it goes on with
  refine h ?_ (fun _ _ => ht)
  rw [hrounds, chainAfter]
  refine .kind_bind fun v _ => ?_
  simp only [List.headD_cons, hop]
  refine .advance_bind (.enter_bind (by omega) ?_)
  exact (hrhs t.span m).bind_held hrest hnext

/-- The chain ends. -/
theorem close (h : Chains operator? operand budget next links c ts e) (hbudget : links < budget)
    {stop : Token → Prop} (hstop : ∀ v, stop v → next v ∧ operator? v.kind = none)
    (previous : Span) (m : Nat) :
    Accepts (chain operator? operand budget) 0 c stop previous m ts e m := by
  obtain ⟨rounds, hrounds⟩ : ∃ rounds, budget - links = rounds + 1 :=
    ⟨budget - links - 1, by omega⟩
  have hend : Accepts (chainAfter operator? operand (budget - links) links e) links 0 stop
      (Token.lastSpan previous ts) m [] e m := by
    rw [hrounds, chainAfter]
    refine .kind_bind fun v hv => ?_
    simp only [List.headD_nil, (hstop v hv).2]
    exact .leave_bind e
  have hall := h hend fun v hv => (hstop v hv).1
  rwa [Nat.max_zero, List.append_nil] at hall

end Chains

/-! ## Parts of factors -/

section Parts

variable {β : Type} {p : Parse Expr} {f : Expr → Parse β} {held c c' m k n : Nat}
  {stop : Token → Prop} {previous : Span} {ts us : List Token} {l r : Token} {e : Expr} {b : β}

theorem parenthesised_accepts (opens : l.kind = .leftParen)
    (h : Accepts p 0 c (·.kind.EndsExpression) l.span m ts e m) (closes : r.kind = .rightParen) :
    Accepts (parenthesised p) 0 c stop previous m (l :: (ts ++ [r])) e m := by
  refine .expect_bind opens (h.bind_free (.expect_bind closes (.pure e)) fun _ _ => ?_)
  exact closes ▸ Token.Kind.endsExpression_rightParen

/-- An expression in parentheses, and what comes behind. -/
theorem Accepts.parenthesised_bind (opens : l.kind = .leftParen)
    (h : Accepts p 0 c (·.kind.EndsExpression) l.span m ts e m) (closes : r.kind = .rightParen)
    (hf : Accepts (f e) 0 c' stop r.span m us b n) :
    Accepts (parenthesised p >>= f) 0 (max c c') stop previous m (l :: (ts ++ r :: us)) b n := by
  have hinner : Accepts (parenthesised p) 0 c (fun _ => True) previous m (l :: (ts ++ [r])) e m :=
    parenthesised_accepts opens h closes
  have htokens : l :: (ts ++ r :: us) = (l :: (ts ++ [r])) ++ us := by simp
  rw [htokens]
  refine hinner.bind ?_ fun _ _ => trivial
  simpa using hf

theorem literal_accepts {t : Token} {v : Int64} (value : v.toInt = t.magnitude) :
    Accepts (literal t) 0 0 stop previous m [] v m := by
  have hvalue : decimalValue t.lexeme.toList = t.magnitude := decimalValue_eq_ofDigits _
  have hsmall : t.magnitude < 1 <<< 63 := by
    have := Int64.toInt_lt v
    omega
  have hv : Int64.ofNat t.magnitude = v := by
    rw [← Int64.toInt_inj, Int64.toInt_ofNat_of_lt hsmall, value]
  simp only [literal, hvalue, if_pos hsmall, hv]
  exact .pure v

end Parts

end Parse

/-! ## One lemma for each rule -/

/-- What the parser does with tokens of a phrase. -/
def Grammar.ExprPhrase.Accepted (ts : List Token) (links cost : Nat) : ExprPhrase → Prop
  | .factor e => ∀ budget, ts.length ≤ budget → ∀ previous m,
    Parse.Accepts (Parse.factor budget) 0 cost (·.kind.EndsFactor) previous m ts e m
  | .term e => ∀ budget, ts.length ≤ budget →
    Parse.Chains Parse.multiplicative? (Parse.factor budget) budget (·.kind.EndsFactor) links cost
      ts e
  | .expression e => ∀ budget, ts.length ≤ budget →
    Parse.Chains Parse.additive? (Parse.chain Parse.multiplicative? (Parse.factor budget) budget)
      budget (·.kind.EndsTerm) links cost ts e
  | .call name args => ∀ budget, ts.length ≤ budget + 1 → ∀ stop previous m,
    Parse.Accepts (Parse.call (Parse.expression budget) budget) 0 cost stop previous m ts
      (name, args) m
  | .more es => ∀ budget rounds read, ts.length ≤ budget → ts.length < rounds → ∀ previous m,
    Parse.Accepts (Parse.argumentsAfter (Parse.expression budget) rounds read) 0 cost
      (·.kind = .rightParen) previous m ts (read.reverse ++ es) m

namespace Parse

variable {previous : Span} {m budget : Nat} {t : Token}

theorem number_accepts {v : Int64} (word : t.kind = .integer) (value : v.toInt = t.magnitude)
    {stop : Token → Prop} :
    Accepts (factor (budget + 1)) 0 1 stop previous m [t] (.number v t.span) m := by
  rw [factor]
  refine .nested (.current_bind fun v _ => ?_)
  simp only [List.headD_cons, word]
  refine .advance_bind ?_
  exact (literal_accepts value).bind_last (.pure _)

theorem name_accepts (word : t.kind = .identifier) :
    Accepts (factor (budget + 1)) 0 1 (·.kind.EndsFactor) previous m [t] (.var t.lexeme t.span)
      m := by
  rw [factor]
  refine .nested (.current_bind fun v _ => ?_)
  simp only [List.headD_cons, word]
  refine .nextKind_bind fun v hv => ?_
  rw [if_neg (by exact hv)]
  exact .advance_bind (.pure _)

theorem sign_accepts {op : UnaryOp} {e : Expr} {ts : List Token} {c : Nat}
    {stop : Token → Prop} (word : SignWord t.kind op)
    (h : ∀ previous m, Accepts (factor budget) 0 c stop previous m ts e m) :
    Accepts (factor (budget + 1)) 0 (c + 1) stop previous m (t :: ts)
      (.unary op e (t.span.through e.span)) m := by
  rw [factor]
  refine .nested (.current_bind fun v _ => ?_)
  generalize hk : t.kind = k at word
  cases word with
  | plus =>
    simp only [List.headD_cons, hk, reduceIte]
    exact .advance_bind ((h _ _).bind_last (.pure _))
  | minus =>
    simp only [List.headD_cons, hk, reduceCtorEq, reduceIte]
    exact .advance_bind ((h _ _).bind_last (.pure _))

theorem group_accepts {l r : Token} {e : Expr} {ts : List Token} {c : Nat} {stop : Token → Prop}
    (opens : l.kind = .leftParen) (closes : r.kind = .rightParen)
    (h : ∀ previous m, Accepts (expression budget) 0 c (·.kind.EndsExpression) previous m ts e m) :
    Accepts (factor (budget + 1)) 0 (c + 1) stop previous m (l :: (ts ++ [r])) e m := by
  rw [factor]
  refine .nested (.current_bind fun v _ => ?_)
  simp only [List.headD_cons, opens]
  exact parenthesised_accepts opens (h l.span m) closes

theorem invoke_accepts {f l : Token} {name : String} {args : List Expr} {ts : List Token} {c : Nat}
    {stop : Token → Prop} (callee : f.kind = .identifier) (opens : l.kind = .leftParen)
    (h : ∀ previous m, Accepts (call (expression budget) budget) 0 c stop previous m
      (f :: l :: ts) (name, args) m) :
    Accepts (factor (budget + 1)) 0 (c + 1) stop previous m (f :: l :: ts)
      (.call name args none (Token.cover (f :: l :: ts))) m := by
  rw [factor]
  refine .nested (.current_bind fun v _ => ?_)
  simp only [List.headD_cons, callee]
  refine .nextKind_bind fun v _ => ?_
  rw [if_pos (by exact opens)]
  refine (h previous m).bind_last ?_
  exact .finish_bind rfl (.pure _)

theorem moreNone_accepts {inner : Parse Expr} {read : List Expr} :
    Accepts (argumentsAfter inner (budget + 1) read) 0 0 (·.kind = .rightParen) previous m []
      (read.reverse ++ []) m := by
  rw [argumentsAfter]
  refine .kind_bind fun v hv => ?_
  rw [if_neg (by rw [List.headD_nil, hv]; nofun), List.append_nil]
  exact .pure _

theorem moreSome_accepts {inner : Parse Expr} {read es : List Expr} {e : Expr} {comma : Token}
    {ts us : List Token} {c c' : Nat} (hcomma : comma.kind = .comma)
    (hnext : ∀ previous m, Accepts inner 0 c (·.kind.EndsExpression) previous m ts e m)
    (hrest : ∀ previous m, Accepts (argumentsAfter inner budget (e :: read)) 0 c'
      (·.kind = .rightParen) previous m us ((e :: read).reverse ++ es) m)
    (hends : ∀ v, v.kind = .rightParen → (us.headD v).kind.EndsExpression) :
    Accepts (argumentsAfter inner (budget + 1) read) 0 (max c c') (·.kind = .rightParen) previous m
      (comma :: (ts ++ us)) (read.reverse ++ e :: es) m := by
  have hlist : (e :: read).reverse ++ es = read.reverse ++ e :: es := by simp
  rw [argumentsAfter]
  refine .kind_bind fun v _ => ?_
  rw [if_pos (by exact hcomma)]
  refine .advance_bind ?_
  rw [← hlist]
  exact (hnext comma.span m).bind (hrest _ m) hends

theorem callNone_accepts {inner : Parse Expr} {f l r : Token} {stop : Token → Prop}
    (callee : f.kind = .identifier) (opens : l.kind = .leftParen) (closes : r.kind = .rightParen) :
    Accepts (call inner budget) 0 0 stop previous m [f, l, r] (f.lexeme, []) m := by
  refine .expect_bind callee (.expect_bind opens (.kind_bind fun v _ => ?_))
  rw [if_pos (by exact closes)]
  exact .expect_bind closes (.pure _)

theorem callSome_accepts {inner : Parse Expr} {f l r : Token} {stop : Token → Prop} {e : Expr}
    {es : List Expr} {ts us : List Token} {c c' : Nat}
    (callee : f.kind = .identifier) (opens : l.kind = .leftParen) (closes : r.kind = .rightParen)
    (hstart : ∀ v, (ts.headD v).kind ≠ .rightParen)
    (hfirst : ∀ previous m, Accepts inner 0 c (·.kind.EndsExpression) previous m ts e m)
    (hrest : ∀ previous m, Accepts (argumentsAfter inner budget [e]) 0 c'
      (·.kind = .rightParen) previous m us ([e].reverse ++ es) m)
    (hends : ∀ v, v.kind = .rightParen → (us.headD v).kind.EndsExpression) :
    Accepts (call inner budget) 0 (max c c') stop previous m (f :: l :: (ts ++ us ++ [r]))
      (f.lexeme, e :: es) m := by
  refine .expect_bind callee (.expect_bind opens (.kind_bind fun v _ => ?_))
  rw [if_neg (by rw [headD_append, headD_append]; exact hstart _), List.append_assoc]
  refine (hfirst l.span m).bind ?_ (fun v _ => headD_append us [r] v ▸ hends r closes)
  exact (hrest _ m).bind_free (.expect_bind closes (.pure _)) fun _ _ => closes

end Parse

namespace Grammar

variable {phrase : ExprPhrase} {ts : List Token}

/-- A chain of terms that is accepted as far as it goes is an expression. -/
theorem ExprPhrase.Accepted.expression {e : Expr} {links cost : Nat}
    (h : (ExprPhrase.expression e).Accepted ts links cost) (hlinks : links < ts.length)
    {budget : Nat} (hbudget : ts.length ≤ budget) (previous : Span) (m : Nat) :
    Parse.Accepts (Parse.expression budget) 0 cost (·.kind.EndsExpression) previous m ts e m :=
  (h budget hbudget).close (hlinks.trans_le hbudget) (fun _ hv => hv) previous m

theorem ExprPhrase.Accepted.term {e : Expr} {links cost : Nat}
    (h : (ExprPhrase.term e).Accepted ts links cost) (hlinks : links < ts.length)
    {budget : Nat} (hbudget : ts.length ≤ budget) (previous : Span) (m : Nat) :
    Parse.Accepts (Parse.chain Parse.multiplicative? (Parse.factor budget) budget) 0 cost
      (·.kind.EndsTerm) previous m ts e m :=
  (h budget hbudget).close (hlinks.trans_le hbudget) (fun _ hv => hv) previous m

theorem ExprDerivation.links_lt_length (d : ExprDerivation phrase ts)
    (h : ∀ es, phrase ≠ .more es) : d.links < ts.length := by
  obtain ⟨t, us, rfl, -, hlinks⟩ := d.exists_cons h
  exact Nat.lt_succ_of_le hlinks

/-- A call starts with its callee and a parenthesis. -/
theorem ExprDerivation.exists_call {name : String} {args : List Expr}
    (d : ExprDerivation (.call name args) ts) :
    ∃ f l us, ts = f :: l :: us ∧ f.kind = .identifier ∧ l.kind = .leftParen := by
  cases d with
  | callNone callee opens => exact ⟨_, _, _, rfl, callee, opens⟩
  | callSome callee opens => exact ⟨_, _, _, rfl, callee, opens⟩

/-- Behind an argument comes a comma or the end of the list. -/
theorem ExprDerivation.endsExpression_of_more {es : List Expr} (d : ExprDerivation (.more es) ts)
    {v : Token} (hv : v.kind = .rightParen) : (ts.headD v).kind.EndsExpression := by
  cases d with
  | moreNone => exact hv ▸ Token.Kind.endsExpression_rightParen
  | moreSome comma => exact comma ▸ Token.Kind.endsExpression_comma

/-- **Parsing of expressions is complete.**  Every derivation is accepted at its own cost. -/
theorem ExprDerivation.accepted (d : ExprDerivation phrase ts) :
    phrase.Accepted ts d.links d.cost := by
  induction d with
  | number word value =>
    rintro (_ | budget) hbudget previous m
    · cases hbudget
    · exact Parse.number_accepts word value
  | name word =>
    rintro (_ | budget) hbudget previous m
    · cases hbudget
    · exact Parse.name_accepts word
  | sign word operand ih =>
    rintro (_ | budget) hbudget previous m
    · cases hbudget
    · exact Parse.sign_accepts word (ih budget (Nat.le_of_succ_le_succ hbudget))
  | group opens inner closes ih =>
    rintro (_ | budget) hbudget previous m
    · cases hbudget
    · rw [List.length_cons, List.length_append] at hbudget
      exact Parse.group_accepts opens closes
        (ih.expression (inner.links_lt_length nofun) (by omega))
  | invoke call ih =>
    obtain ⟨f, l, us, rfl, callee, opens⟩ := call.exists_call
    rintro (_ | budget) hbudget previous m
    · cases hbudget
    · exact Parse.invoke_accepts callee opens (ih budget hbudget _)
  | factor only ih => exact fun budget hbudget => Parse.Chains.single (ih budget hbudget)
  | product left word right ihl ihr =>
    intro budget hbudget
    rw [List.length_append, List.length_cons] at hbudget
    have hlinks := left.links_lt_length nofun
    exact (ihl budget (by omega)).link (Parse.multiplicative?_of_productWord word)
      (Parse.endsFactor_of_productWord word) (ihr budget (by omega)) (by omega)
  | term only ih =>
    exact fun budget hbudget => Parse.Chains.single (ih.term (only.links_lt_length nofun) hbudget)
  | sum left word right ihl ihr =>
    intro budget hbudget
    rw [List.length_append, List.length_cons] at hbudget
    have hlinks := left.links_lt_length nofun
    exact (ihl budget (by omega)).link (Parse.additive?_of_sumWord word)
      (Parse.endsTerm_of_sumWord word) (ihr.term (right.links_lt_length nofun) (by omega))
      (by omega)
  | callNone callee opens closes =>
    exact fun _ _ _ _ _ => Parse.callNone_accepts callee opens closes
  | callSome callee opens first rest closes ihf ihr =>
    intro budget hbudget stop previous m
    simp only [List.length_cons, List.length_append] at hbudget
    obtain ⟨t, us, rfl, ht, -⟩ := first.exists_cons nofun
    exact Parse.callSome_accepts callee opens closes (fun _ => ht)
      (ihf.expression (first.links_lt_length nofun) (by omega))
      (ihr budget budget _ (by omega) (by omega)) fun _ => rest.endsExpression_of_more
  | moreNone =>
    rintro budget (_ | rounds) read - hrounds previous m
    · cases hrounds
    · exact Parse.moreNone_accepts
  | moreSome comma next rest ihn ihr =>
    rintro budget (_ | rounds) read hbudget hrounds previous m
    · cases hrounds
    · simp only [List.length_cons, List.length_append] at hbudget hrounds
      exact Parse.moreSome_accepts comma (ihn.expression (next.links_lt_length nofun) (by omega))
        (ihr budget rounds _ (by omega) (by omega)) fun _ => rest.endsExpression_of_more

theorem ExprDerivation.expression_accepts {e : Expr} (d : ExprDerivation (.expression e) ts)
    {budget : Nat} (hbudget : ts.length ≤ budget) (previous : Span) (m : Nat) :
    Parse.Accepts (Parse.expression budget) 0 d.cost (·.kind.EndsExpression) previous m ts e m :=
  d.accepted.expression (d.links_lt_length nofun) hbudget previous m

end Grammar

end Imperative
