import Imperative.Proofs.ExpressionCompleteness

/-!
# Parsing of statements is complete

What the grammar derives as statements, the parser accepts, at the cost of the derivation
(`StmtDerivation.accepted`).

One token is enough to tell the rules apart, except behind a name, where a second one tells a
call from an assignment.  What is left to check is that a stretch cannot go on where its
derivation ends.  That is so because an `else` never starts a statement, and because a statement
that could still take an `else` is never followed by one: the grammar has given it to the nearest
conditional.
-/

namespace Imperative

open Grammar

/-- A token behind a statement that does not go on with it: not an `else` that the statement
could take. -/
def Stmt.Closes (s : Stmt) (v : Token) : Prop :=
  s.endsOpen = true → v.kind ≠ .kwElse

namespace Parse

variable {α β : Type} {stop : Token → Prop} {previous : Span} {held c c' k m n : Nat}
  {ts us vs : List Token} {t : Token} {b : β}

/-! ## Types and parameters -/

theorem run_dataType {type : DataType} (word : TypeWord t.kind type) (final : Token)
    (ts : List Token) (previous : Span) (m depth : Nat) :
    dataType.run (.over final (t :: ts) previous m depth) =
      (.ok type, .over final ts t.span m depth) := by
  have htype : typeOfKind? t.kind = some type := by
    generalize t.kind = k at word
    cases word <;> rfl
  rw [dataType, run_bind, run_current]
  simp only [List.headD_cons, htype]
  rw [run_bind, run_advance]
  rfl

theorem Accepts.dataType_bind {type : DataType} {f : DataType → Parse β}
    (word : TypeWord t.kind type) (h : Accepts (f type) held c stop t.span m ts b n) :
    Accepts (dataType >>= f) held c stop previous m (t :: ts) b n :=
  .of_run (fun _ _ _ _ => ⟨type, run_dataType word .., h⟩) rfl

theorem Accepts.start_bind {f : Span → Parse β}
    (h : Accepts (f t.span) held c stop previous m (t :: ts) b n) :
    Accepts (start >>= f) held c stop previous m (t :: ts) b n :=
  .of_run (fun _ _ _ _ => ⟨t.span, by rw [start, run_bind, run_current]; rfl, h⟩) rfl

theorem ne_rightParen_of_typeWord {type : DataType} {k : Token.Kind} (h : TypeWord k type) :
    k ≠ .rightParen := by
  cases h <;> nofun

theorem isType_of_typeWord {type : DataType} {k : Token.Kind} (h : TypeWord k type) :
    k.isType = true := by
  cases h <;> rfl

theorem parameter_accepts {p : Param} (d : ParamDerivation p ts) :
    Accepts parameter 0 0 (fun _ => True) previous m ts p m := by
  cases d with
  | mk word name =>
    refine .start_bind (.dataType_bind word (.expect_bind name ?_))
    exact .finish_bind rfl (.pure _)

theorem parametersAfter_accepts {ps read : List Param} (d : MoreParamsDerivation ps ts)
    {rounds : Nat} (hrounds : ts.length < rounds) :
    Accepts (parametersAfter rounds read) 0 0 (·.kind = .rightParen) previous m ts
      (read.reverse ++ ps) m := by
  induction d generalizing rounds read previous with
  | none =>
    obtain ⟨rounds, rfl⟩ := Nat.exists_eq_add_one_of_ne_zero (Nat.ne_of_gt hrounds)
    rw [parametersAfter]
    refine .kind_bind fun v hv => ?_
    rw [if_neg (by rw [List.headD_nil, hv]; nofun), List.append_nil]
    exact .pure _
  | @some _ p ps ts us comma next rest ih =>
    obtain ⟨rounds, rfl⟩ := Nat.exists_eq_add_one_of_ne_zero (Nat.ne_zero_of_lt hrounds)
    have hlist : (p :: read).reverse ++ ps = read.reverse ++ p :: ps := by simp
    rw [List.length_cons, List.length_append] at hrounds
    rw [parametersAfter]
    refine .kind_bind fun v _ => ?_
    rw [if_pos (by exact comma), ← hlist]
    refine .advance_bind ?_
    exact (parameter_accepts next).bind_free (ih (by omega)) fun _ _ => trivial

theorem parameters_accepts {ps : List Param} (d : ParamsDerivation ps ts) {rounds : Nat}
    (hrounds : ts.length ≤ rounds) :
    Accepts (parameters rounds) 0 0 (·.kind = .rightParen) previous m ts ps m := by
  cases d with
  | none =>
    refine .kind_bind fun v hv => ?_
    rw [if_pos (by exact hv)]
    exact .pure _
  | @some p ps ts us first rest =>
    have hstart : ∀ v, ((ts ++ us).headD v).kind ≠ .rightParen := by
      cases first with
      | mk word name => exact fun _ => ne_rightParen_of_typeWord word
    have hlength : us.length < rounds := by
      cases first with
      | mk word name =>
        simp only [List.length_cons, List.length_append, List.length_nil] at hrounds
        omega
    refine .kind_bind fun v _ => ?_
    rw [if_neg (hstart v)]
    exact (parameter_accepts first).bind_free (parametersAfter_accepts rest hlength)
      fun _ _ => trivial

/-! ## Simple statements -/

theorem typeWord_cases {type : DataType} {k : Token.Kind} (h : TypeWord k type) :
    k = .kwInt ∨ k = .kwFloat ∨ k = .kwVar := by
  cases h <;> simp

theorem simple_accepts {q : Token} {s : Stmt} (d : SimpleDerivation q s ts)
    (hq : q.kind = .semicolon ∨ q.kind = .rightParen) {budget : Nat}
    (hbudget : ts.length ≤ budget) (previous : Span) (m : Nat) :
    Accepts (simple budget) 0 d.cost (· = q) previous m ts s m := by
  cases d with
  | call call =>
    obtain ⟨f, l, us, rfl, callee, opens⟩ := call.exists_call
    refine .current_bind fun v _ => ?_
    simp only [List.headD_cons, callee]
    refine .nextKind_bind fun v _ => ?_
    rw [if_pos (by exact opens)]
    refine (call.accepted budget (Nat.le_succ_of_le hbudget) _ _ _).bind_last ?_
    exact .finish_bind rfl (.pure _)
  | assign target equals value =>
    refine .current_bind fun v _ => ?_
    simp only [List.headD_cons, target]
    -- the token behind the name tells the assignment from a call
    refine .nextKind_bind fun v _ => ?_
    rw [if_neg (by rw [List.headD_cons, equals]; nofun)]
    refine .advance_bind (.expect_bind equals ?_)
    have hvalue := value.expression_accepts (Nat.le_of_succ_le (Nat.le_of_succ_le hbudget))
    refine ((hvalue _ m).mono fun v hv => ?_).bind_last (.finish_bind rfl (.pure _))
    subst hv
    rcases hq with hq | hq
    · exact hq ▸ Token.Kind.endsExpression_semicolon
    · exact hq ▸ Token.Kind.endsExpression_rightParen
  | declaration word name =>
    refine .current_bind fun v _ => ?_
    rcases typeWord_cases word with hk | hk | hk
    all_goals
      simp only [List.headD_cons, hk]
      exact .dataType_bind word (.expect_bind name (.finish_bind rfl (.pure _)))
  | empty =>
    refine .current_bind fun v hv => ?_
    subst hv
    rcases hq with hq | hq
    · simp only [List.headD_nil, hq]
      exact .pure _
    · simp only [List.headD_nil, hq]
      exact .pure _

/-! ## Jumps, branches and loops -/

section Statements

variable {block : Parse Stmt} {budget : Nat} {test : Expr} {body otherwise init step s : Stmt}
  {w l r x q q' d : Token}

theorem conditional_accepts (word : w.kind = .kwIf) (opens : l.kind = .leftParen)
    (htest : ∀ previous m, Accepts (expression budget) 0 c (·.kind.EndsExpression) previous m ts
      test m) (closes : r.kind = .rightParen)
    (hbody : ∀ previous, Accepts block 0 c' body.Closes previous m us body n) :
    Accepts (conditional block budget) 0 (max c c') (·.kind ≠ .kwElse) previous m
      (w :: l :: (ts ++ r :: us))
      (.conditional test body none (Token.cover (w :: l :: (ts ++ r :: us)))) n := by
  refine .expect_bind word (.parenthesised_bind opens (htest _ m) closes ?_)
  refine ((hbody _).mono fun v hv _ => hv).bind_last (.kind_bind fun v hv => ?_)
  rw [if_neg (by exact hv), pure_bind]
  exact .finish_bind (by simp) (.pure _)

theorem conditional_else_accepts {c'' : Nat} (word : w.kind = .kwIf) (opens : l.kind = .leftParen)
    (htest : ∀ previous m, Accepts (expression budget) 0 c (·.kind.EndsExpression) previous m ts
      test m) (closes : r.kind = .rightParen)
    (hbody : ∀ previous, Accepts block 0 c' body.Closes previous k us body m)
    (closed : body.endsOpen = false) (other : x.kind = .kwElse)
    (hother : ∀ previous, Accepts block 0 c'' otherwise.Closes previous m vs otherwise n) :
    Accepts (conditional block budget) 0 (max c (max c' c'')) otherwise.Closes previous k
      (w :: l :: (ts ++ r :: (us ++ x :: vs)))
      (.conditional test body (some otherwise)
        (Token.cover (w :: l :: (ts ++ r :: (us ++ x :: vs))))) n := by
  refine .expect_bind word (.parenthesised_bind opens (htest _ k) closes ?_)
  refine (hbody _).bind (.kind_bind fun v _ => ?_) fun v _ hopen => ?_
  · rw [if_pos (by exact other)]
    refine .advance_bind ?_
    rw [bind_map_left]
    exact (hother _).bind_last (.finish_bind (by simp) (.pure _))
  · -- a closed body leaves the `else` behind it alone
    rw [closed] at hopen
    cases hopen

theorem whileLoop_accepts (word : w.kind = .kwWhile) (opens : l.kind = .leftParen)
    (htest : ∀ previous m, Accepts (expression budget) 0 c (·.kind.EndsExpression) previous m ts
      test m) (closes : r.kind = .rightParen)
    (hbody : ∀ previous, Accepts block 0 c' body.Closes previous m us body n) :
    Accepts (whileLoop block budget) 0 (max c c') body.Closes previous m
      (w :: l :: (ts ++ r :: us))
      (.whileLoop test body (Token.cover (w :: l :: (ts ++ r :: us)))) n := by
  refine .expect_bind word (.parenthesised_bind opens (htest _ m) closes ?_)
  exact (hbody _).bind_last (.finish_bind (by simp) (.pure _))

theorem doWhile_accepts (begins : d.kind = .kwDo)
    (hbody : ∀ previous, Accepts block 0 c body.Closes previous m us body n)
    (word : w.kind = .kwWhile) (opens : l.kind = .leftParen)
    (htest : ∀ previous m, Accepts (expression budget) 0 c' (·.kind.EndsExpression) previous m ts
      test m) (closes : r.kind = .rightParen) (hstop : q.kind = .semicolon) :
    Accepts (doWhile block budget) 0 (max c c') stop previous m
      (d :: (us ++ w :: l :: (ts ++ [r, q])))
      (.doWhile test body (Token.cover (d :: (us ++ w :: l :: (ts ++ [r, q]))))) n := by
  refine .expect_bind begins ((hbody _).bind (.expect_bind word ?_) fun v _ _ => ?_)
  · rw [← Nat.max_zero c']
    refine .parenthesised_bind opens (htest _ n) closes (.expect_bind hstop ?_)
    exact .finish_bind (by simp) (.pure _)
  · rw [List.headD_cons, word]
    nofun

theorem forLoop_accepts {c₁ c₂ : Nat} {ws : List Token} (word : w.kind = .kwFor)
    (opens : l.kind = .leftParen)
    (hinit : ∀ previous m, Accepts (simple budget) 0 c (· = q) previous m ts init m)
    (hq : q.kind = .semicolon)
    (htest : ∀ previous m, Accepts (expression budget) 0 c₁ (·.kind.EndsExpression) previous m us
      test m) (hq' : q'.kind = .semicolon)
    (hstep : ∀ previous m, Accepts (simple budget) 0 c₂ (· = r) previous m vs step m)
    (closes : r.kind = .rightParen)
    (hbody : ∀ previous, Accepts block 0 c' body.Closes previous m ws body n) :
    Accepts (forLoop block budget) 0 (max c (max c₁ (max c₂ c'))) body.Closes previous m
      (w :: l :: (ts ++ q :: (us ++ q' :: (vs ++ r :: ws))))
      (.forLoop init test step body
        (Token.cover (w :: l :: (ts ++ q :: (us ++ q' :: (vs ++ r :: ws)))))) n := by
  refine .expect_bind word (.expect_bind opens ((hinit _ m).bind (.expect_bind hq ?_)
    fun _ _ => rfl))
  refine (htest _ m).bind (.expect_bind hq' ?_)
    fun _ _ => hq' ▸ Token.Kind.endsExpression_semicolon
  refine (hstep _ m).bind (.expect_bind closes ?_) fun _ _ => rfl
  exact (hbody _).bind_last (.finish_bind (by simp) (.pure _))

theorem giveBack_accepts {e : Expr} (word : w.kind = .kwReturn)
    (hvalue : ∀ previous m, Accepts (expression budget) 0 c (·.kind.EndsExpression) previous m ts
      e m) :
    Accepts (jump budget) 0 c (·.kind = .semicolon) previous m (w :: ts)
      (.giveBack e (Token.cover (w :: ts))) m := by
  refine .advance_bind ?_
  simp only [word]
  refine ((hvalue _ m).mono fun v hv => ?_).bind_last (.finish_bind rfl (.pure _))
  exact hv ▸ Token.Kind.endsExpression_semicolon

theorem breakLoop_accepts (word : w.kind = .kwBreak) :
    Accepts (jump budget) 0 0 (·.kind = .semicolon) previous m [w] (.breakLoop (Token.cover [w]))
      m := by
  refine .advance_bind ?_
  simp only [word]
  exact .finish_bind rfl (.pure _)

theorem continueLoop_accepts (word : w.kind = .kwContinue) :
    Accepts (jump budget) 0 0 (·.kind = .semicolon) previous m [w]
      (.continueLoop (Token.cover [w])) m := by
  refine .advance_bind ?_
  simp only [word]
  exact .finish_bind rfl (.pure _)

/-- A statement takes one level, and its parts have a smaller budget. -/
theorem statement_accepts (hne : ts ≠ [])
    (h : ∀ budget, ts.length ≤ budget + 1 → ∀ previous,
      Accepts (statementOf (blockOf (statement budget) (statements budget)) budget) 0 c stop
        previous m ts s n)
    (budget : Nat) (hbudget : ts.length ≤ budget) (previous : Span) :
    Accepts (statement budget) 0 (c + 1) stop previous m ts s n := by
  have hpos : ts.length ≠ 0 := fun h => hne (List.length_eq_zero_iff.mp h)
  obtain ⟨budget, rfl⟩ := Nat.exists_eq_add_one_of_ne_zero (n := budget) (by omega)
  rw [statement]
  exact (h budget hbudget previous).nested

/-- A statement and the semicolon behind it. -/
theorem stopped_accepts (ts : List Token) {p : Parse Stmt} {stop' : Token → Prop}
    (h : Accepts p 0 c stop' previous m ts s n) (hq : q.kind = .semicolon) (hstop : stop' q) :
    Accepts (do
      let stmt ← p
      let _ ← expect .semicolon
      return stmt) 0 c stop previous m (ts ++ [q]) s n :=
  h.bind_free (.expect_bind hq (.pure s)) fun _ _ => hstop

end Statements

/-! ## Statements in braces -/

section Braces

variable {inner : Parse (List Stmt)} {body : List Stmt} {l r : Token}

theorem braced_accepts (opens : l.kind = .leftBrace)
    (h : ∀ previous, Accepts inner 0 c (·.kind = .rightBrace) previous m ts body n)
    (closes : r.kind = .rightBrace) :
    Accepts (braced inner) 0 c stop previous m (l :: (ts ++ [r])) body n :=
  .expect_bind opens ((h _).bind_free (.expect_bind closes (.pure body)) fun _ _ => closes)

theorem compound_accepts (opens : l.kind = .leftBrace)
    (h : ∀ previous, Accepts inner 0 c (·.kind = .rightBrace) previous m ts body n)
    (closes : r.kind = .rightBrace) :
    Accepts (compound inner) 0 (c + 1) stop previous m (l :: (ts ++ [r]))
      (.compound body (Token.cover (l :: (ts ++ [r])))) n := by
  refine .start_bind ?_
  exact (braced_accepts opens h closes).nested.bind_last (.finish_bind (by simp) (.pure _))

/-- A return type, which may be left out, and what comes behind. -/
theorem Accepts.returnType_bind {f : Option DataType → Parse β} {returnType : Option DataType}
    (result : ReturnTypeDerivation returnType us) (ht : t.kind.isType = false)
    (h : Accepts (f returnType) held c stop (Token.lastSpan previous us) m (t :: ts) b n) :
    Accepts (do
      if (← kind).isType then some <$> dataType >>= f else pure none >>= f)
      held c stop previous m (us ++ t :: ts) b n := by
  refine .kind_bind fun v _ => ?_
  cases result with
  | none =>
    rw [if_neg (by rw [List.nil_append, List.headD_cons, ht]; nofun), pure_bind]
    exact h
  | some word =>
    rw [if_pos (by exact isType_of_typeWord word), bind_map_left]
    exact .dataType_bind word h

theorem procedure_accepts {d f p q : Token} {returnType : Option DataType} {params : List Param}
    {rounds : Nat} (word : d.kind = .kwDef) (result : ReturnTypeDerivation returnType us)
    (name : f.kind = .identifier) (opens : p.kind = .leftParen)
    (formals : ParamsDerivation params vs) (hrounds : vs.length ≤ rounds)
    (closes : q.kind = .rightParen) (begins : l.kind = .leftBrace)
    (h : ∀ previous, Accepts inner 0 c (·.kind = .rightBrace) previous m ts body n)
    (ends : r.kind = .rightBrace) :
    Accepts (procedure inner rounds) 0 (c + 1) stop previous m
      (d :: (us ++ f :: p :: (vs ++ q :: l :: (ts ++ [r]))))
      (.procedure ⟨n⟩ f.lexeme params returnType body
        (Token.cover (d :: (us ++ f :: p :: (vs ++ q :: l :: (ts ++ [r])))))) (n + 1) := by
  refine .expect_bind word (.returnType_bind result (name ▸ rfl) ?_)
  refine .expect_bind name (.expect_bind opens ?_)
  rw [← Nat.zero_max (c + 1)]
  refine (parameters_accepts formals hrounds).bind (.expect_bind closes ?_) fun _ _ => closes
  refine (braced_accepts begins h ends).nested.bind_last (.freshId_bind ?_)
  exact .finish_bind (by simp) (.pure _)

end Braces

/-! ## Blocks and lists of statements -/

section Lists

variable {rounds : Nat} {s : Stmt} {read ss : List Stmt} {inner : Parse (List Stmt)}
  {single : Parse Stmt} {stop' : Token → Prop}

theorem block_compound_accepts (hstart : t.kind = .leftBrace)
    (h : Accepts (compound inner) 0 c stop previous m (t :: ts) s n) :
    Accepts (blockOf single inner) 0 c stop previous m (t :: ts) s n := by
  refine .kind_bind fun v _ => ?_
  rw [if_pos (by exact hstart)]
  exact h

theorem block_statement_accepts (hstart : t.kind ≠ .leftBrace)
    (h : Accepts single 0 c stop previous m (t :: ts) s n) :
    Accepts (blockOf single inner) 0 c stop previous m (t :: ts) s n := by
  refine .kind_bind fun v _ => ?_
  rw [if_neg (by exact hstart)]
  exact h

theorem nil_accepts :
    Accepts (statementsAfter single inner (rounds + 1) read) 0 0
      (fun v => v.kind = .rightBrace ∨ v.kind = .endOfInput) previous m [] (read.reverse ++ [])
      m := by
  rw [statementsAfter, List.append_nil]
  refine .kind_bind fun v hv => ?_
  rcases hv with hv | hv
  all_goals
    simp only [List.headD_nil, hv]
    exact .pure _

/-- The parser of the item that starts with a token of a kind. -/
def itemOf (single : Parse Stmt) (inner : Parse (List Stmt)) (rounds : Nat) (k : Token.Kind) :
    Parse Stmt :=
  if k = .leftBrace then compound inner
  else if k = .kwDef then procedure inner rounds
  else single

theorem cons_accepts (hends : t.kind ≠ .rightBrace ∧ t.kind ≠ .endOfInput)
    (h : Accepts (itemOf single inner rounds t.kind) 0 c stop' previous k (t :: ts) s m)
    (hrest : Accepts (statementsAfter single inner rounds (s :: read)) 0 c' stop
      (Token.lastSpan previous (t :: ts)) m us ss n)
    (hstop : ∀ v, stop v → stop' (us.headD v)) :
    Accepts (statementsAfter single inner (rounds + 1) read) 0 (max c c') stop previous k
      (t :: ts ++ us) ss n := by
  have hbind := h.bind (f := fun next => statementsAfter single inner rounds (next :: read))
    hrest hstop
  rw [statementsAfter]
  refine .kind_bind fun v _ => ?_
  simp only [List.cons_append, List.headD_cons]
  split
  · next hk => exact absurd hk hends.1
  · next hk => exact absurd hk hends.2
  · next hk =>
    rw [itemOf, if_pos hk] at hbind
    exact hbind
  · next hk =>
    rw [itemOf, hk, if_neg nofun, if_pos rfl] at hbind
    exact hbind
  · next hbrace hdef =>
    rw [itemOf, if_neg hbrace, if_neg hdef] at hbind
    exact hbind

end Lists

end Parse

/-! ## What statements start with -/

/-- Statements do not start with tokens that start or end something else. -/
def Token.Kind.StartsStatement (k : Token.Kind) : Prop :=
  k ≠ .leftBrace ∧ k ≠ .rightBrace ∧ k ≠ .kwDef ∧ k ≠ .kwElse ∧ k ≠ .endOfInput

instance (k : Token.Kind) : Decidable k.StartsStatement :=
  inferInstanceAs (Decidable (_ ∧ _))

namespace Grammar

variable {m n : Nat} {ts : List Token} {s : Stmt} {ss : List Stmt}

/-- The tokens with which simple statements start, the empty one with what stops it. -/
theorem SimpleDerivation.head_kind {q : Token} (d : SimpleDerivation q s ts)
    (hq : q.kind = .semicolon) :
    (ts.headD q).kind = .identifier ∨ (ts.headD q).kind = .kwInt ∨ (ts.headD q).kind = .kwFloat
      ∨ (ts.headD q).kind = .kwVar ∨ (ts.headD q).kind = .semicolon := by
  cases d with
  | call call =>
    obtain ⟨f, l, us, rfl, callee, -⟩ := call.exists_call
    exact .inl callee
  | assign target => exact .inl target
  | declaration word =>
    rcases Parse.typeWord_cases word with hk | hk | hk
    · exact .inr (.inl hk)
    · exact .inr (.inr (.inl hk))
    · exact .inr (.inr (.inr (.inl hk)))
  | empty => exact .inr (.inr (.inr (.inr hq)))

theorem StmtDerivation.exists_cons_of_statement (d : StmtDerivation m (.statement s) ts n) :
    ∃ t us, ts = t :: us ∧ t.kind.StartsStatement := by
  have hstarts : ∀ {t : Token} {k : Token.Kind}, t.kind = k → k.StartsStatement →
      t.kind.StartsStatement := fun h => h ▸ id
  cases d with
  | @simple _ q _ ts inner stop =>
    have hcons : ts ++ [q] = ts.headD q :: (ts ++ [q]).tail := by cases ts <;> rfl
    refine ⟨_, _, hcons, ?_⟩
    rcases inner.head_kind stop with hk | hk | hk | hk | hk
    all_goals exact hstarts hk (by decide)
  | giveBack word | breakLoop word | continueLoop word | ifThen word | ifElse word
  | whileLoop word | doWhile word | forLoop word => exact ⟨_, _, rfl, hstarts word (by decide)⟩

theorem StmtDerivation.exists_cons_of_item (d : StmtDerivation m (.item s) ts n) :
    ∃ t us, ts = t :: us ∧ (t.kind ≠ .rightBrace ∧ t.kind ≠ .endOfInput) ∧ t.kind ≠ .kwElse := by
  cases d with
  | itemCompound only =>
    cases only with
    | compound opens => exact ⟨_, _, rfl, opens ▸ by decide, opens ▸ by decide⟩
  | itemProcedure only =>
    cases only with
    | procedure word => exact ⟨_, _, rfl, word ▸ by decide, word ▸ by decide⟩
  | itemStatement only =>
    obtain ⟨t, us, rfl, -, hbrace, -, helse, hend⟩ := only.exists_cons_of_statement
    exact ⟨t, us, rfl, ⟨hbrace, hend⟩, helse⟩

/-- No list of statements goes on with an `else`. -/
theorem StmtDerivation.head_ne_else (d : StmtDerivation m (.statements ss) ts n) {v : Token}
    (hv : v.kind ≠ .kwElse) : (ts.headD v).kind ≠ .kwElse := by
  cases d with
  | nil => exact hv
  | cons first rest =>
    obtain ⟨t, us, rfl, -, ht⟩ := first.exists_cons_of_item
    exact ht

/-! ## All rules together -/

/-- What the parser does with tokens of a phrase. -/
def StmtPhrase.Accepted (m : Nat) (ts : List Token) (n cost : Nat) : StmtPhrase → Prop
  | .compound s => ∀ budget, ts.length ≤ budget → ∀ stop previous,
    Parse.Accepts (Parse.compound (Parse.statements budget)) 0 cost stop previous m ts s n
  | .procedure s => ∀ budget rounds, ts.length ≤ budget → ts.length ≤ rounds → ∀ stop previous,
    Parse.Accepts (Parse.procedure (Parse.statements budget) rounds) 0 cost stop previous m ts s n
  | .statement s => ∀ budget, ts.length ≤ budget → ∀ previous,
    Parse.Accepts (Parse.statement budget) 0 cost s.Closes previous m ts s n
  | .block s => ∀ budget, ts.length ≤ budget → ∀ previous,
    Parse.Accepts (Parse.blockOf (Parse.statement budget) (Parse.statements budget)) 0 cost
      s.Closes previous m ts s n
  | .item s => ∀ budget rounds, ts.length ≤ budget → ts.length ≤ rounds → ∀ v previous,
    Parse.Accepts (Parse.itemOf (Parse.statement budget) (Parse.statements budget) rounds
      (ts.headD v).kind) 0 cost (·.kind ≠ .kwElse) previous m ts s n
  | .statements ss => ∀ budget rounds, ts.length ≤ budget → ts.length < rounds →
    ∀ read previous,
    Parse.Accepts (Parse.statementsAfter (Parse.statement budget) (Parse.statements budget) rounds
      read) 0 cost (fun v => v.kind = .rightBrace ∨ v.kind = .endOfInput) previous m ts
      (read.reverse ++ ss) n

theorem StmtPhrase.Accepted.statements {cost : Nat}
    (h : (StmtPhrase.statements ss).Accepted m ts n cost) {budget : Nat}
    (hbudget : ts.length + 2 ≤ budget) (previous : Span) :
    Parse.Accepts (Parse.statements budget) 0 cost
      (fun v => v.kind = .rightBrace ∨ v.kind = .endOfInput) previous m ts ss n := by
  obtain ⟨budget, rfl⟩ := Nat.exists_eq_add_one_of_ne_zero (Nat.ne_zero_of_lt hbudget)
  rw [Parse.statements]
  exact h budget budget (by omega) (by omega) [] previous

/-- Statements in front of a closing brace. -/
theorem StmtPhrase.Accepted.inner {cost : Nat}
    (h : (StmtPhrase.statements ss).Accepted m ts n cost) {budget : Nat}
    (hbudget : ts.length + 2 ≤ budget) (previous : Span) :
    Parse.Accepts (Parse.statements budget) 0 cost (·.kind = .rightBrace) previous m ts ss n :=
  (h.statements hbudget previous).mono fun _ => .inl

variable {phrase : StmtPhrase}

/-- **Parsing of statements is complete.**  Every derivation is accepted at its own cost. -/
theorem StmtDerivation.accepted (d : StmtDerivation m phrase ts n) :
    phrase.Accepted m ts n d.cost := by
  induction d with
  | compound opens inner closes ih =>
    intro budget hbudget stop previous
    rw [List.length_cons, List.length_append, List.length_singleton] at hbudget
    exact Parse.compound_accepts opens (ih.inner (by omega)) closes
  | procedure word result name opens formals closes begins inner ends ih =>
    intro budget rounds hbudget hrounds stop previous
    simp only [List.length_cons, List.length_append, List.length_nil] at hbudget hrounds
    exact Parse.procedure_accepts word result name opens formals (by omega) closes begins
      (ih.inner (by omega)) ends
  | @simple n _ _ _ inner stop =>
    refine Parse.statement_accepts (by simp) fun budget hbudget previous => ?_
    rw [List.length_append, List.length_singleton] at hbudget
    have hsimple :=
      Parse.simple_accepts inner (.inl stop) (Nat.le_of_succ_le_succ hbudget) previous n
    refine .current_bind fun v _ => ?_
    rw [Parse.headD_append, List.headD_cons]
    rcases inner.head_kind stop with hk | hk | hk | hk | hk
    all_goals
      simp only [hk]
      exact Parse.stopped_accepts _ hsimple stop rfl
  | giveBack word value stop =>
    refine Parse.statement_accepts (List.cons_ne_nil _ _) fun budget hbudget previous => ?_
    simp only [List.length_cons, List.length_append] at hbudget
    refine .current_bind fun v _ => ?_
    simp only [List.headD_cons, word]
    exact Parse.stopped_accepts (_ :: _)
      (Parse.giveBack_accepts word (value.expression_accepts (by omega))) stop stop
  | breakLoop word stop =>
    refine Parse.statement_accepts (List.cons_ne_nil _ _) fun budget _ previous => ?_
    refine .current_bind fun v _ => ?_
    simp only [List.headD_cons, word]
    exact Parse.stopped_accepts [_] (Parse.breakLoop_accepts word) stop stop
  | continueLoop word stop =>
    refine Parse.statement_accepts (List.cons_ne_nil _ _) fun budget _ previous => ?_
    refine .current_bind fun v _ => ?_
    simp only [List.headD_cons, word]
    exact Parse.stopped_accepts [_] (Parse.continueLoop_accepts word) stop stop
  | ifThen word opens condition closes branch ih =>
    refine Parse.statement_accepts (List.cons_ne_nil _ _) fun budget hbudget previous => ?_
    simp only [List.length_cons, List.length_append] at hbudget
    refine .current_bind fun v _ => ?_
    simp only [List.headD_cons, word]
    -- the conditional itself is open, whatever its branch is
    exact (Parse.conditional_accepts word opens (condition.expression_accepts (by omega)) closes
      (ih budget (by omega))).mono fun v hv => hv rfl
  | ifElse word opens condition closes branch closed other alternative ih ih' =>
    refine Parse.statement_accepts (List.cons_ne_nil _ _) fun budget hbudget previous => ?_
    simp only [List.length_cons, List.length_append] at hbudget
    refine .current_bind fun v _ => ?_
    simp only [List.headD_cons, word]
    exact Parse.conditional_else_accepts word opens (condition.expression_accepts (by omega))
      closes (ih budget (by omega)) closed other (ih' budget (by omega))
  | whileLoop word opens condition closes round ih =>
    refine Parse.statement_accepts (List.cons_ne_nil _ _) fun budget hbudget previous => ?_
    simp only [List.length_cons, List.length_append] at hbudget
    refine .current_bind fun v _ => ?_
    simp only [List.headD_cons, word]
    exact Parse.whileLoop_accepts word opens (condition.expression_accepts (by omega)) closes
      (ih budget (by omega))
  | doWhile begins round word opens condition closes stop ih =>
    refine Parse.statement_accepts (List.cons_ne_nil _ _) fun budget hbudget previous => ?_
    simp only [List.length_cons, List.length_append] at hbudget
    refine .current_bind fun v _ => ?_
    simp only [List.headD_cons, begins]
    exact Parse.doWhile_accepts begins (ih budget (by omega)) word opens
      (condition.expression_accepts (by omega)) closes stop
  | forLoop word opens first stop condition stop' next closes round ih =>
    refine Parse.statement_accepts (List.cons_ne_nil _ _) fun budget hbudget previous => ?_
    simp only [List.length_cons, List.length_append] at hbudget
    refine .current_bind fun v _ => ?_
    simp only [List.headD_cons, word]
    exact Parse.forLoop_accepts word opens
      (Parse.simple_accepts first (.inl stop) (by omega)) stop
      (condition.expression_accepts (by omega)) stop'
      (Parse.simple_accepts next (.inr closes) (by omega)) closes
      (ih budget (by omega))
  | blockCompound only ih =>
    intro budget hbudget previous
    cases only with
    | compound opens => exact Parse.block_compound_accepts opens (ih budget hbudget _ previous)
  | blockStatement only ih =>
    intro budget hbudget previous
    obtain ⟨t, us, rfl, hbrace, -⟩ := only.exists_cons_of_statement
    exact Parse.block_statement_accepts hbrace (ih budget hbudget previous)
  | itemCompound only ih =>
    intro budget rounds hbudget _ v previous
    cases only with
    | compound opens =>
      rw [Parse.itemOf, if_pos (by exact opens)]
      exact ih budget hbudget _ previous
  | itemProcedure only ih =>
    intro budget rounds hbudget hrounds v previous
    cases only with
    | procedure word =>
      rw [Parse.itemOf, if_neg (by rw [List.headD_cons, word]; nofun), if_pos (by exact word)]
      exact ih budget rounds hbudget hrounds _ previous
  | itemStatement only ih =>
    intro budget rounds hbudget _ v previous
    obtain ⟨t, us, rfl, hbrace, -, hdef, -⟩ := only.exists_cons_of_statement
    rw [Parse.itemOf, if_neg (by exact hbrace), if_neg (by exact hdef)]
    exact (ih budget hbudget previous).mono fun _ hv _ => hv
  | nil =>
    rintro budget (_ | rounds) - hrounds read previous
    · cases hrounds
    · exact Parse.nil_accepts
  | @cons k m n s ss ts us first rest ih ih' =>
    rintro budget (_ | rounds) hbudget hrounds read previous
    · cases hrounds
    · have hlist : (s :: read).reverse ++ ss = read.reverse ++ s :: ss := by simp
      obtain ⟨t, ts, rfl, hends, -⟩ := first.exists_cons_of_item
      simp only [List.length_append, List.length_cons] at hbudget hrounds
      have hitem := ih budget rounds (by rw [List.length_cons]; omega)
        (by rw [List.length_cons]; omega) t previous
      rw [← hlist]
      refine Parse.cons_accepts hends hitem (ih' budget rounds (by omega) (by omega) _ _) ?_
      -- behind the item comes another one or the end of the list, and so no `else`
      rintro v (hv | hv)
      all_goals exact rest.head_ne_else (by rw [hv]; nofun)

end Grammar

end Imperative
