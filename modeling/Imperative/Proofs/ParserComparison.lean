import Imperative.Proofs.Moving
import Imperative.Proofs.Reading

/-!
# Two parsers side by side

The rules of parsing are built from a few steps that look at a token, take it, count a level or a
procedure, or finish a span.  Whatever relation between two parsers these steps keep, every rule
keeps: this is proved here once, for any relation.

A `Parse.Comparison` says which parsers, tokens, spans and failures of the one side answer to
which of the other, and holds the laws of the single steps.  What follows is one lemma for each
rule, up to `Comparison.program`: on parsers that answer to each other, either both sides fail,
with failures that answer to each other, or both give modules that are the same once their spans
are moved (`Comparison.left`, `Comparison.right`).

The two sides are the same in one use and different in the other.  Comparing a parser with
itself, the relation on tokens can say where a token comes from, and then so does every failure;
comparing two texts, it can leave the spans open, and then the spans have decided nothing.
-/

namespace Imperative

namespace Parse

variable {α α' β β' : Type}

/-- Two runs end alike: with results and parsers that are related, or with related failures. -/
def EndsAlike (state : Parser → Parser → Prop) (failure : ParseError → ParseError → Prop)
    (R : α → α' → Prop) : Except ParseError α × Parser → Except ParseError α' × Parser → Prop
  | (.ok a, s), (.ok a', s') => R a a' ∧ state s s'
  | (.error e, _), (.error e', _) => failure e e'
  | _, _ => False

/-- From related parsers, both sides end alike. -/
def Keeps (state : Parser → Parser → Prop) (failure : ParseError → ParseError → Prop)
    (R : α → α' → Prop) (p : Parse α) (p' : Parse α') : Prop :=
  ∀ ⦃s s' : Parser⦄, state s s' → EndsAlike state failure R (p.run s) (p'.run s')

/-- A way to compare two runs of parsing, which every single step keeps. -/
structure Comparison where
  state : Parser → Parser → Prop
  token : Token → Token → Prop
  span : Span → Span → Prop
  failure : ParseError → ParseError → Prop
  /-- Where the spans of the first side are moved to. -/
  left : Span → Span
  /-- Where the spans of the second side are moved to. -/
  right : Span → Span
  -- spans and tokens that answer to each other
  left_eq_right {s s' : Span} : span s s' → left s = right s'
  kind_eq {t t' : Token} : token t t' → t.kind = t'.kind
  lexeme_eq {t t' : Token} : token t t' → t.lexeme = t'.lexeme
  span_of_token {t t' : Token} : token t t' → span t.span t'.span
  through {s s' t t' : Span} : span s s' → span t t' → span (s.through t) (s'.through t')
  collapse {s s' : Span} : span s s' → span s.collapse s'.collapse
  through_previous {s s' : Parser} {first first' : Span} : state s s' → span first first' →
    span (first.through s.previous) (first'.through s'.previous)
  -- what parsers count
  depth_eq {s s' : Parser} : state s s' → s.depth = s'.depth
  withDepth {s s' : Parser} (depth : Nat) : state s s' → state { s with depth } { s' with depth }
  procedures_eq {s s' : Parser} : state s s' → s.procedures = s'.procedures
  withProcedures {s s' : Parser} (procedures : Nat) : state s s' →
    state { s with procedures } { s' with procedures }
  -- looking at tokens, and taking them
  current : Keeps state failure token current current
  nextKind : Keeps state failure Eq nextKind nextKind
  advance : Keeps state failure token advance advance
  -- failures about tokens that answer to each other
  unexpected {t t' : Token} (expected : Expectation) : token t t' →
    failure (.unexpected expected t) (.unexpected expected t')
  tooDeep {t t' : Token} (limit : Nat) : token t t' →
    failure (.tooDeep limit t.span) (.tooDeep limit t'.span)
  integerTooLarge {t t' : Token} : token t t' →
    failure (.integerTooLarge t) (.integerTooLarge t')

namespace Comparison

variable (c : Comparison)

/-- From parsers that answer to each other, both sides end alike. -/
abbrev Alike (R : α → α' → Prop) (p : Parse α) (p' : Parse α') : Prop :=
  Keeps c.state c.failure R p p'

/-- Expressions that are the same once they are moved, and stand at spans that answer to each
other. -/
def expr (e e' : Expr) : Prop :=
  e.moved c.left = e'.moved c.right ∧ c.span e.span e'.span

/-- Arguments that are the same once they are moved. -/
def exprs (es es' : List Expr) : Prop :=
  Expr.allMoved c.left es = Expr.allMoved c.right es'

/-- Calls have the same name, and arguments that are the same once they are moved. -/
def invocation (x x' : String × List Expr) : Prop :=
  x.1 = x'.1 ∧ c.exprs x.2 x'.2

/-- Parameters that are the same once they are moved. -/
def param (p p' : Param) : Prop :=
  p.moved c.left = p'.moved c.right

/-- Lists of parameters that are the same once they are moved. -/
def params (ps ps' : List Param) : Prop :=
  ps.map (Param.moved c.left) = ps'.map (Param.moved c.right)

/-- Statements that are the same once they are moved. -/
def stmt (s s' : Stmt) : Prop :=
  s.moved c.left = s'.moved c.right

/-- Lists of statements that are the same once they are moved. -/
def stmts (ss ss' : List Stmt) : Prop :=
  Stmt.allMoved c.left ss = Stmt.allMoved c.right ss'

/-! ## Sequences and single steps -/

section Steps

variable {c} {R : α → α' → Prop} {R' : β → β' → Prop} {p : Parse α} {p' : Parse α'}
  {f : α → Parse β} {f' : α' → Parse β'}

theorem bind (hp : c.Alike R p p') (hf : ∀ a a', R a a' → c.Alike R' (f a) (f' a')) :
    c.Alike R' (p >>= f) (p' >>= f') := by
  intro s s' hs
  have first := hp hs
  rw [run_bind, run_bind]
  generalize p.run s = r, p'.run s' = r' at first
  rcases r with ⟨e | a, u⟩ <;> rcases r' with ⟨e' | a', u'⟩
  · exact first
  · exact first.elim
  · exact first.elim
  · exact hf a a' first.1 first.2

theorem result {a : α} {a' : α'} (h : R a a') : c.Alike R (pure a) (pure a') :=
  fun _ _ hs => ⟨h, hs⟩

/-- A failure at a token that was seen. -/
theorem refuse {t t' : Token} (h : c.token t t') (expected : Expectation) :
    c.Alike R (Parse.unexpected expected t) (Parse.unexpected expected t') :=
  fun _ _ _ => c.unexpected expected h

theorem deep : c.Alike R Parse.tooDeep Parse.tooDeep :=
  bind c.current fun _ _ h _ _ _ => c.tooDeep maxNesting h

theorem kind : c.Alike Eq Parse.kind Parse.kind :=
  bind c.current fun _ _ h => result (c.kind_eq h)

theorem expect (k : Token.Kind) : c.Alike c.token (Parse.expect k) (Parse.expect k) := by
  refine bind c.current fun t t' h => ?_
  rw [c.kind_eq h]
  split
  · exact c.advance
  · exact refuse h _

theorem start : c.Alike c.span Parse.start Parse.start :=
  bind c.current fun _ _ h => result (c.span_of_token h)

theorem finish {first first' : Span} (h : c.span first first') :
    c.Alike c.span (Parse.finish first) (Parse.finish first') :=
  fun _ _ hs => ⟨c.through_previous hs h, hs⟩

theorem freshId : c.Alike Eq Parse.freshId Parse.freshId := by
  intro s s' hs
  have number : (⟨s.procedures⟩ : ProcedureId) = ⟨s'.procedures⟩ := by rw [c.procedures_eq hs]
  have behind := c.withProcedures (s.procedures + 1) hs
  refine ⟨number, ?_⟩
  rwa [← c.procedures_eq hs]

/-! ## Levels of nesting -/

/-- Parsers that answer to each other do so after the same change of their levels. -/
theorem regrade {s s' : Parser} (hs : c.state s s') (change : Nat → Nat) :
    c.state { s with depth := change s.depth } { s' with depth := change s'.depth } := by
  rw [← c.depth_eq hs]
  exact c.withDepth _ hs

theorem enter : c.Alike Eq Parse.enter Parse.enter := by
  intro s s' hs
  rw [Parse.enter, run_bind, run_bind]
  -- both sides decide by their levels, which are the same
  change EndsAlike _ _ _ ((if maxNesting ≤ s.depth then _ else _ : Parse Unit).run s)
    ((if maxNesting ≤ s'.depth then _ else _ : Parse Unit).run s')
  rw [← c.depth_eq hs]
  split
  · exact bind deep (R := fun _ _ => False) (fun _ _ absurd => absurd.elim) hs
  · exact ⟨rfl, regrade hs (· + 1)⟩

theorem leave (levels : Nat) : c.Alike Eq (Parse.leave levels) (Parse.leave levels) :=
  fun _ _ hs => ⟨rfl, regrade hs (· - levels)⟩

theorem nested (h : c.Alike R p p') : c.Alike R (Parse.nested p) (Parse.nested p') := by
  refine bind enter fun _ _ _ s s' hs => ?_
  have inner := h hs
  change EndsAlike _ _ _ ((p.run s).1, { (p.run s).2 with depth := (p.run s).2.depth - 1 })
    ((p'.run s').1, { (p'.run s').2 with depth := (p'.run s').2.depth - 1 })
  generalize p.run s = r, p'.run s' = r' at inner
  rcases r with ⟨e | a, u⟩ <;> rcases r' with ⟨e' | a', u'⟩
  · exact inner
  · exact inner.elim
  · exact inner.elim
  · exact ⟨inner.1, regrade inner.2 (· - 1)⟩

end Steps

/-! ## Expressions -/

section Expressions

variable {c} {operand inner : Parse Expr}

theorem expr_var {t t' : Token} (h : c.token t t') :
    c.expr (.var t.lexeme t.span) (.var t'.lexeme t'.span) := by
  refine ⟨?_, c.span_of_token h⟩
  rw [Expr.moved, Expr.moved, c.lexeme_eq h, c.left_eq_right (c.span_of_token h)]

theorem expr_number (n : Int64) {s s' : Span} (h : c.span s s') :
    c.expr (.number n s) (.number n s') := by
  refine ⟨?_, h⟩
  rw [Expr.moved, Expr.moved, c.left_eq_right h]

theorem expr_unary (op : UnaryOp) {e e' : Expr} {s s' : Span} (he : c.expr e e')
    (h : c.span s s') : c.expr (.unary op e s) (.unary op e' s') := by
  refine ⟨?_, h⟩
  rw [Expr.moved, Expr.moved, he.1, c.left_eq_right h]

theorem expr_binary (op : BinaryOp) {e₁ e₁' e₂ e₂' : Expr} (h₁ : c.expr e₁ e₁')
    (h₂ : c.expr e₂ e₂') :
    c.expr (.binary op e₁ e₂ (e₁.span.through e₂.span))
      (.binary op e₁' e₂' (e₁'.span.through e₂'.span)) := by
  have span := c.through h₁.2 h₂.2
  refine ⟨?_, span⟩
  rw [Expr.moved, Expr.moved, h₁.1, h₂.1, c.left_eq_right span]

theorem expr_call (name : String) {es es' : List Expr} {s s' : Span} (hes : c.exprs es es')
    (h : c.span s s') : c.expr (.call name es none s) (.call name es' none s') := by
  refine ⟨?_, h⟩
  rw [Expr.moved, Expr.moved, hes, c.left_eq_right h]

theorem exprs_reverse {es es' : List Expr} (h : c.exprs es es') :
    c.exprs es.reverse es'.reverse := by
  rw [exprs, Expr.allMoved_eq_map, Expr.allMoved_eq_map, List.map_reverse, List.map_reverse,
    ← Expr.allMoved_eq_map, ← Expr.allMoved_eq_map, h]

theorem exprs_cons {e e' : Expr} {es es' : List Expr} (h : c.expr e e') (hes : c.exprs es es') :
    c.exprs (e :: es) (e' :: es') := by
  rw [exprs, Expr.allMoved, Expr.allMoved, h.1, hes]

/-- The operators and operands that follow two left operands. -/
theorem chainAfter (operator? : Token.Kind → Option BinaryOp)
    (hoperand : c.Alike c.expr operand operand) {budget levels : Nat} {lhs lhs' : Expr}
    (h : c.expr lhs lhs') :
    c.Alike c.expr (Parse.chainAfter operator? operand budget levels lhs)
      (Parse.chainAfter operator? operand budget levels lhs') := by
  induction budget generalizing levels lhs lhs' with
  | zero => exact deep
  | succ budget ih =>
    refine bind kind fun k _ same => ?_
    subst same
    cases operator? k with
    | none => exact bind (leave levels) fun _ _ _ => result h
    | some op =>
      refine bind c.advance fun _ _ _ => bind enter fun _ _ _ => bind hoperand fun rhs rhs' hr => ?_
      exact ih (expr_binary op h hr)

theorem chain (operator? : Token.Kind → Option BinaryOp)
    (hoperand : c.Alike c.expr operand operand) (budget : Nat) :
    c.Alike c.expr (Parse.chain operator? operand budget)
      (Parse.chain operator? operand budget) :=
  bind hoperand fun _ _ h => chainAfter operator? hoperand h

theorem expressionOf {factor : Parse Expr} (hfactor : c.Alike c.expr factor factor)
    (budget : Nat) :
    c.Alike c.expr (Parse.expressionOf factor budget) (Parse.expressionOf factor budget) :=
  chain additive? (chain multiplicative? hfactor budget) budget

theorem parenthesised (h : c.Alike c.expr inner inner) :
    c.Alike c.expr (Parse.parenthesised inner) (Parse.parenthesised inner) :=
  bind (expect _) fun _ _ _ => bind h fun _ _ he => bind (expect _) fun _ _ _ => result he

theorem argumentsAfter (h : c.Alike c.expr inner inner) {budget : Nat}
    {read read' : List Expr} (hread : c.exprs read read') :
    c.Alike c.exprs (Parse.argumentsAfter inner budget read)
      (Parse.argumentsAfter inner budget read') := by
  induction budget generalizing read read' with
  | zero => exact deep
  | succ budget ih =>
    refine bind kind fun k _ same => ?_
    subst same
    split
    · exact bind c.advance fun _ _ _ => bind h fun _ _ he => ih (exprs_cons he hread)
    · exact result (exprs_reverse hread)

theorem call (h : c.Alike c.expr inner inner) (budget : Nat) :
    c.Alike c.invocation (Parse.call inner budget) (Parse.call inner budget) := by
  refine bind (expect _) fun name name' hname => bind (expect _) fun _ _ _ =>
    bind kind fun k _ same => ?_
  subst same
  have closed : ∀ es es', c.exprs es es' → c.Alike c.invocation
      (do let _ ← Parse.expect .rightParen; return (name.lexeme, es))
      (do let _ ← Parse.expect .rightParen; return (name'.lexeme, es')) :=
    fun _ _ hes => bind (expect _) fun _ _ _ => result ⟨c.lexeme_eq hname, hes⟩
  split
  · exact closed [] [] rfl
  · exact bind h fun _ _ he => bind (argumentsAfter h (exprs_cons he rfl)) closed

theorem literal {t t' : Token} (h : c.token t t') :
    c.Alike Eq (Parse.literal t) (Parse.literal t') := by
  rw [Parse.literal, Parse.literal, c.lexeme_eq h]
  split
  · exact result rfl
  · exact fun _ _ _ => c.integerTooLarge h

/-- Factors, by induction on the budget. -/
theorem factor (budget : Nat) : c.Alike c.expr (Parse.factor budget) (Parse.factor budget) := by
  induction budget with
  | zero => exact deep
  | succ budget ih =>
    refine nested (bind c.current fun t t' h => ?_)
    have inner := expressionOf ih budget
    rw [c.kind_eq h]
    cases t'.kind with
    | plus | minus =>
      exact bind c.advance fun _ _ _ => bind ih fun _ _ he =>
        result (expr_unary _ he (c.through (c.span_of_token h) he.2))
    | integer =>
      refine bind c.advance fun _ _ _ => bind (literal h) fun n _ same => ?_
      exact result (same ▸ expr_number n (c.span_of_token h))
    | leftParen => exact parenthesised inner
    | identifier =>
      refine bind c.nextKind fun k _ same => ?_
      subst same
      split
      · refine bind (call inner budget) fun x x' hx => bind (finish (c.span_of_token h)) ?_
        obtain ⟨name, args⟩ := x
        obtain ⟨_, args'⟩ := x'
        obtain ⟨rfl, hargs⟩ := hx
        exact fun _ _ hspan => result (expr_call name hargs hspan)
      · exact bind c.advance fun _ _ _ => result (expr_var h)
    | _ => exact refuse h _

theorem expression (budget : Nat) :
    c.Alike c.expr (Parse.expression budget) (Parse.expression budget) :=
  expressionOf (factor budget) budget

end Expressions

/-! ## Statements -/

section Statements

variable {c} {inner : Parse Stmt} {inners : Parse (List Stmt)}

theorem stmts_cons {s s' : Stmt} {ss ss' : List Stmt} (h : c.stmt s s') (hss : c.stmts ss ss') :
    c.stmts (s :: ss) (s' :: ss') := by
  rw [stmts, Stmt.allMoved, Stmt.allMoved, h, hss]

theorem stmts_reverse {ss ss' : List Stmt} (h : c.stmts ss ss') :
    c.stmts ss.reverse ss'.reverse := by
  rw [stmts, Stmt.allMoved_eq_map, Stmt.allMoved_eq_map, List.map_reverse, List.map_reverse,
    ← Stmt.allMoved_eq_map, ← Stmt.allMoved_eq_map, h]

theorem dataType : c.Alike Eq Parse.dataType Parse.dataType := by
  refine bind c.current fun t t' h => ?_
  rw [c.kind_eq h]
  cases typeOfKind? t'.kind with
  | none => exact refuse h _
  | some type => exact bind c.advance fun _ _ _ => result rfl

theorem parameter : c.Alike c.param Parse.parameter Parse.parameter := by
  refine bind start fun _ _ hfirst => bind dataType fun type _ same => bind (expect _)
    fun name name' hname => bind (finish hfirst) fun _ _ hspan => result ?_
  rw [param, Param.moved, Param.moved, same, c.lexeme_eq hname, c.left_eq_right hspan]

theorem parametersAfter {budget : Nat} {read read' : List Param} (hread : c.params read read') :
    c.Alike c.params (Parse.parametersAfter budget read) (Parse.parametersAfter budget read') := by
  induction budget generalizing read read' with
  | zero => exact deep
  | succ budget ih =>
    refine bind kind fun k _ same => ?_
    subst same
    split
    · refine bind c.advance fun _ _ _ => bind parameter fun p p' hp => ih ?_
      rw [params, List.map_cons, List.map_cons, hp, hread]
    · refine result ?_
      rw [params, List.map_reverse, List.map_reverse, hread]

theorem parameters (budget : Nat) :
    c.Alike c.params (Parse.parameters budget) (Parse.parameters budget) := by
  refine bind kind fun k _ same => ?_
  subst same
  split
  · exact result rfl
  · refine bind parameter fun p p' hp => parametersAfter ?_
    rw [params, List.map_singleton, List.map_singleton, hp]

theorem braced (h : c.Alike c.stmts inners inners) :
    c.Alike c.stmts (Parse.braced inners) (Parse.braced inners) :=
  bind (expect _) fun _ _ _ => bind h fun _ _ hbody => bind (expect _) fun _ _ _ => result hbody

theorem compound (h : c.Alike c.stmts inners inners) :
    c.Alike c.stmt (Parse.compound inners) (Parse.compound inners) := by
  refine bind start fun _ _ hfirst => bind (nested (braced h)) fun _ _ hbody =>
    bind (finish hfirst) fun _ _ hspan => result ?_
  rw [stmt, Stmt.moved, Stmt.moved, hbody, c.left_eq_right hspan]

theorem procedure (h : c.Alike c.stmts inners inners) (budget : Nat) :
    c.Alike c.stmt (Parse.procedure inners budget) (Parse.procedure inners budget) := by
  refine bind (expect _) fun first first' hfirst => bind kind fun k _ same => ?_
  subst same
  -- what follows the type does not depend on how the type was found
  have behind : ∀ returnType returnType', returnType = returnType' → c.Alike c.stmt
      (do
        let name ← Parse.expect .identifier
        let _ ← Parse.expect .leftParen
        let params ← Parse.parameters budget
        let _ ← Parse.expect .rightParen
        let body ← Parse.nested (Parse.braced inners)
        let id ← Parse.freshId
        return .procedure id name.lexeme params returnType body (← Parse.finish first.span))
      (do
        let name ← Parse.expect .identifier
        let _ ← Parse.expect .leftParen
        let params ← Parse.parameters budget
        let _ ← Parse.expect .rightParen
        let body ← Parse.nested (Parse.braced inners)
        let id ← Parse.freshId
        return .procedure id name.lexeme params returnType' body (← Parse.finish first'.span)) := by
    rintro returnType _ rfl
    refine bind (expect _) fun name name' hname => bind (expect _) fun _ _ _ =>
      bind (parameters budget) fun ps ps' hparams => bind (expect _) fun _ _ _ =>
      bind (nested (braced h)) fun _ _ hbody => bind freshId fun id _ same =>
      bind (finish (c.span_of_token hfirst)) fun _ _ hspan => result ?_
    rw [stmt, Stmt.moved, Stmt.moved, same, c.lexeme_eq hname, hparams, hbody,
      c.left_eq_right hspan]
  split
  · exact bind (bind dataType fun _ _ same => result (congrArg some same)) behind
  · exact behind none none rfl

theorem simple (budget : Nat) : c.Alike c.stmt (Parse.simple budget) (Parse.simple budget) := by
  refine bind c.current fun t t' h => ?_
  have here := c.span_of_token h
  have declared : c.Alike c.stmt
      (do
        let type ← Parse.dataType
        let name ← Parse.expect .identifier
        return .declaration name.lexeme type (← Parse.finish t.span))
      (do
        let type ← Parse.dataType
        let name ← Parse.expect .identifier
        return .declaration name.lexeme type (← Parse.finish t'.span)) := by
    refine bind dataType fun type _ same => bind (expect _) fun name name' hname =>
      bind (finish here) fun _ _ hspan => result ?_
    rw [stmt, Stmt.moved, Stmt.moved, same, c.lexeme_eq hname, c.left_eq_right hspan]
  rw [c.kind_eq h]
  cases t'.kind with
  | identifier =>
    refine bind c.nextKind fun k _ same => ?_
    subst same
    split
    · refine bind (call (expression budget) budget) fun x x' hx => bind (finish here)
        fun _ _ hspan => result ?_
      rw [stmt, Stmt.moved, Stmt.moved, hx.1, hx.2, c.left_eq_right hspan]
    · refine bind c.advance fun _ _ _ => bind (expect _) fun _ _ _ =>
        bind (expression budget) fun e e' he => bind (finish here) fun _ _ hspan => result ?_
      rw [stmt, Stmt.moved, Stmt.moved, c.lexeme_eq h, he.1, c.left_eq_right hspan]
  | kwInt | kwFloat | kwVar => exact declared
  | semicolon | rightParen =>
    refine result ?_
    rw [stmt, Stmt.moved, Stmt.moved, c.left_eq_right (c.collapse here)]
  | _ => exact refuse h _

theorem jump (budget : Nat) : c.Alike c.stmt (Parse.jump budget) (Parse.jump budget) := by
  refine bind c.advance fun t t' h => ?_
  have ended := finish (c := c) (c.span_of_token h)
  rw [c.kind_eq h]
  cases t'.kind with
  | kwReturn =>
    refine bind (expression budget) fun e e' he => bind ended fun _ _ hspan => result ?_
    rw [stmt, Stmt.moved, Stmt.moved, he.1, c.left_eq_right hspan]
  | kwBreak | kwContinue =>
    refine bind ended fun _ _ hspan => result ?_
    rw [stmt, Stmt.moved, Stmt.moved, c.left_eq_right hspan]
  | _ => exact refuse h _

theorem conditional (h : c.Alike c.stmt inner inner) (budget : Nat) :
    c.Alike c.stmt (Parse.conditional inner budget) (Parse.conditional inner budget) := by
  refine bind (expect _) fun first first' hfirst => bind (parenthesised (expression budget))
    fun test test' htest => bind h fun body body' hbody => bind kind fun k _ same => ?_
  subst same
  have ended : ∀ otherwise otherwise',
      Stmt.moved? c.left otherwise = Stmt.moved? c.right otherwise' → c.Alike c.stmt
        (do return .conditional test body otherwise (← Parse.finish first.span))
        (do return .conditional test' body' otherwise' (← Parse.finish first'.span)) := by
    refine fun _ _ hotherwise => bind (finish (c.span_of_token hfirst)) fun _ _ hspan => result ?_
    rw [stmt, Stmt.moved, Stmt.moved, htest.1, hbody, hotherwise, c.left_eq_right hspan]
  split
  · refine bind c.advance fun _ _ _ => bind (bind h fun s s' hs => result ?_) ended
    rw [Stmt.moved?, Stmt.moved?, hs]
  · exact ended none none rfl

theorem whileLoop (h : c.Alike c.stmt inner inner) (budget : Nat) :
    c.Alike c.stmt (Parse.whileLoop inner budget) (Parse.whileLoop inner budget) := by
  refine bind (expect _) fun _ _ hfirst => bind (parenthesised (expression budget))
    fun test test' htest => bind h fun _ _ hbody =>
    bind (finish (c.span_of_token hfirst)) fun _ _ hspan => result ?_
  rw [stmt, Stmt.moved, Stmt.moved, htest.1, hbody, c.left_eq_right hspan]

theorem doWhile (h : c.Alike c.stmt inner inner) (budget : Nat) :
    c.Alike c.stmt (Parse.doWhile inner budget) (Parse.doWhile inner budget) := by
  refine bind (expect _) fun _ _ hfirst => bind h fun _ _ hbody => bind (expect _) fun _ _ _ =>
    bind (parenthesised (expression budget)) fun test test' htest => bind (expect _) fun _ _ _ =>
    bind (finish (c.span_of_token hfirst)) fun _ _ hspan => result ?_
  rw [stmt, Stmt.moved, Stmt.moved, htest.1, hbody, c.left_eq_right hspan]

theorem forLoop (h : c.Alike c.stmt inner inner) (budget : Nat) :
    c.Alike c.stmt (Parse.forLoop inner budget) (Parse.forLoop inner budget) := by
  refine bind (expect _) fun _ _ hfirst => bind (expect _) fun _ _ _ =>
    bind (simple budget) fun _ _ hinit => bind (expect _) fun _ _ _ =>
    bind (expression budget) fun test test' htest => bind (expect _) fun _ _ _ =>
    bind (simple budget) fun _ _ hstep => bind (expect _) fun _ _ _ =>
    bind h fun _ _ hbody => bind (finish (c.span_of_token hfirst)) fun _ _ hspan => result ?_
  rw [stmt, Stmt.moved, Stmt.moved, hinit, htest.1, hstep, hbody, c.left_eq_right hspan]

/-- A statement that a semicolon has to follow. -/
theorem terminated (h : c.Alike c.stmt inner inner) :
    c.Alike c.stmt (do let s ← inner; let _ ← Parse.expect .semicolon; return s)
      (do let s ← inner; let _ ← Parse.expect .semicolon; return s) :=
  bind h fun _ _ hs => bind (expect _) fun _ _ _ => result hs

theorem statementOf (h : c.Alike c.stmt inner inner) (budget : Nat) :
    c.Alike c.stmt (Parse.statementOf inner budget) (Parse.statementOf inner budget) := by
  refine bind c.current fun t t' ht => ?_
  rw [c.kind_eq ht]
  cases t'.kind with
  | kwIf => exact conditional h budget
  | kwWhile => exact whileLoop h budget
  | kwDo => exact doWhile h budget
  | kwFor => exact forLoop h budget
  | kwReturn | kwBreak | kwContinue => exact terminated (jump budget)
  | identifier | kwInt | kwFloat | kwVar | semicolon => exact terminated (simple budget)
  | _ => exact refuse ht _

theorem blockOf (h : c.Alike c.stmt inner inner) (hs : c.Alike c.stmts inners inners) :
    c.Alike c.stmt (Parse.blockOf inner inners) (Parse.blockOf inner inners) := by
  refine bind kind fun k _ same => ?_
  subst same
  split
  · exact compound hs
  · exact h

theorem statementsAfter (h : c.Alike c.stmt inner inner) (hs : c.Alike c.stmts inners inners)
    {budget : Nat} {read read' : List Stmt} (hread : c.stmts read read') :
    c.Alike c.stmts (Parse.statementsAfter inner inners budget read)
      (Parse.statementsAfter inner inners budget read') := by
  induction budget generalizing read read' with
  | zero => exact deep
  | succ budget ih =>
    refine bind kind fun k _ same => ?_
    subst same
    cases k with
    | rightBrace | endOfInput => exact result (stmts_reverse hread)
    | leftBrace => exact bind (compound hs) fun _ _ next => ih (stmts_cons next hread)
    | kwDef => exact bind (procedure hs budget) fun _ _ next => ih (stmts_cons next hread)
    | _ => exact bind h fun _ _ next => ih (stmts_cons next hread)

/-- Single statements and lists of them, by induction on the budget they share. -/
theorem statement_and_statements (budget : Nat) :
    c.Alike c.stmt (Parse.statement budget) (Parse.statement budget) ∧
      c.Alike c.stmts (Parse.statements budget) (Parse.statements budget) := by
  induction budget with
  | zero => exact ⟨deep, deep⟩
  | succ budget ih =>
    obtain ⟨one, many⟩ := ih
    exact ⟨nested (statementOf (blockOf one many) budget), statementsAfter one many rfl⟩

/-- On parsers that answer to each other, programs are the same once they are moved, or both
fail alike. -/
theorem program (budget : Nat) :
    c.Alike (fun m m' => m.moved c.left = m'.moved c.right) (Parse.program budget)
      (Parse.program budget) := by
  refine bind (statement_and_statements budget).2 fun body body' hbody =>
    bind c.current fun t t' h => ?_
  rw [c.kind_eq h]
  split
  · exact result (congrArg Module.mk hbody)
  · exact refuse h _

end Statements

end Comparison

end Parse

end Imperative
