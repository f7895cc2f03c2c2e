import Imperative.Proofs.ParserCompleteness
import Imperative.Proofs.ParserSoundness
import Imperative.Proofs.Writing
import Mathlib

/-!
# How high trees of expressions are

The limit on nesting counts levels while a text is read, and a chain of operators takes one level
for each of them.  That bounds the height of the trees, but not by the limit itself.  The levels of
a chain are given back at its end, and the tree of the chain may then become the *first* operand of
another chain, where all the operators that follow come on top of it without meeting the levels that
its own took.  A product in front of a sum is enough for that, and so is an argument in front of a
product.

What the levels do bound is every way down a tree that enters no first operand.  So a tree is within
the limit if and only if its first operands are.

* `Grammar.ExprDerivation.trailsBelow`: ways down that enter no first operand are no longer than the
  cost of a derivation.
* `Module.height_le_limit_iff`: which trees of a program are within the limit.
* `Grammar.ExprDerivation.heightAtMost`: a derivation that costs `c` levels makes a tree of height
  at most `c ^ 2`.
* `Lexeme.exists_tower`: for every `c` there are tokens that cost `c` levels and make a tree of
  height `c ^ 2`.
* `Module.height_le_square`: so the square of 1023 is the exact bound on the trees of a program.
-/

namespace Imperative

mutual

/-- The number of nodes on the longest way from the root of the expression to a leaf. -/
def Expr.height : Expr → Nat
  | .number .. | .var .. => 1
  | .unary _ operand _ => operand.height + 1
  | .binary _ lhs rhs _ => max lhs.height rhs.height + 1
  | .call _ args _ _ => Expr.maxHeight args + 1

/-- The height of the highest of the expressions. -/
def Expr.maxHeight : List Expr → Nat
  | [] => 0
  | e :: es => max e.height (Expr.maxHeight es)

end

theorem Expr.height_pos (e : Expr) : 0 < e.height := by
  cases e with
  | number | var => exact Nat.one_pos
  | unary | binary | call => exact Nat.succ_pos _

theorem Expr.height_le_maxHeight {e : Expr} {es : List Expr} (h : e ∈ es) :
    e.height ≤ Expr.maxHeight es := by
  induction es with
  | nil => cases h
  | cons f es ih =>
    rw [Expr.maxHeight]
    rcases List.mem_cons.mp h with rfl | h
    · exact Nat.le_max_left _ _
    · exact (ih h).trans (Nat.le_max_right _ _)

/-! ## Ways down that enter no first operand -/

/-- The expression `f` stands `k` nodes below the root, and no operator on the way has it in its
first operand. -/
inductive Expr.Trails : Expr → Nat → Expr → Prop
  | root (e : Expr) : Trails e 0 e
  | operand {op : UnaryOp} {operand f : Expr} {span : Span} {k : Nat} (h : Trails operand k f) :
      Trails (.unary op operand span) (k + 1) f
  | last {op : BinaryOp} {lhs rhs f : Expr} {span : Span} {k : Nat} (h : Trails rhs k f) :
      Trails (.binary op lhs rhs span) (k + 1) f
  | argument {name : String} {args : List Expr} {mark : Option ProcedureSymbol} {span : Span}
      {a f : Expr} {k : Nat} (ha : a ∈ args) (h : Trails a k f) :
      Trails (.call name args mark span) (k + 1) f

/-- Wherever a way down first comes to a first operand, the operand is no higher than what is left
of the limit there. -/
def Expr.FirstsWithin (limit : Nat) (e : Expr) : Prop :=
  ∀ (k : Nat) (op : BinaryOp) (lhs rhs : Expr) (span : Span),
    e.Trails k (.binary op lhs rhs span) → k + 1 + lhs.height ≤ limit

namespace Expr

theorem Trails.add_height_le {e f : Expr} {k : Nat} (h : e.Trails k f) :
    k + f.height ≤ e.height := by
  induction h with
  | root e => exact Nat.le_of_eq (Nat.zero_add _)
  | operand _ ih =>
    rw [height]
    omega
  | last _ ih =>
    rw [height]
    omega
  | argument ha _ ih =>
    have hargs := height_le_maxHeight ha
    rw [height]
    omega

theorem firstsWithin_height (e : Expr) : e.FirstsWithin e.height := by
  intro k op lhs rhs span h
  have hbelow := h.add_height_le
  rw [height] at hbelow
  omega

/-- What first operands leave of the limit, less one level, they leave below a node that is no first
operand. -/
theorem FirstsWithin.of_step {e part : Expr} {limit : Nat}
    (step : ∀ {k f}, part.Trails k f → e.Trails (k + 1) f) (h : e.FirstsWithin (limit + 1)) :
    part.FirstsWithin limit := by
  intro k op lhs rhs span hpart
  have hbelow := h (k + 1) op lhs rhs span (step hpart)
  omega

mutual

/-- A tree is as high as one of the ways down that enter no first operand, or as one of the first
operands makes it. -/
theorem height_le_of_trails : ∀ {e : Expr} {limit : Nat}, (∀ k f, e.Trails k f → k < limit) →
    e.FirstsWithin limit → e.height ≤ limit
  | e, 0, hways, _ => absurd (hways 0 e (.root e)) (Nat.not_lt_zero 0)
  | .number .., limit + 1, _, _ => Nat.succ_le_succ (Nat.zero_le limit)
  | .var .., limit + 1, _, _ => Nat.succ_le_succ (Nat.zero_le limit)
  | .unary _ operand _, limit + 1, hways, hfirsts => by
    refine Nat.succ_le_succ (height_le_of_trails (e := operand) ?_ (hfirsts.of_step .operand))
    exact fun k f h => Nat.lt_of_succ_lt_succ (hways (k + 1) f (.operand h))
  | .binary op lhs rhs span, limit + 1, hways, hfirsts => by
    have hlhs := hfirsts 0 op lhs rhs span (.root _)
    have hrhs : rhs.height ≤ limit := height_le_of_trails
      (fun k f h => Nat.lt_of_succ_lt_succ (hways (k + 1) f (.last h))) (hfirsts.of_step .last)
    rw [height]
    omega
  | .call _ args _ _, limit + 1, hways, hfirsts => by
    refine Nat.succ_le_succ (maxHeight_le_of_trails fun a ha => ⟨fun k f h => ?_, ?_⟩)
    · exact Nat.lt_of_succ_lt_succ (hways (k + 1) f (.argument ha h))
    · exact hfirsts.of_step (.argument ha)

theorem maxHeight_le_of_trails : ∀ {es : List Expr} {limit : Nat},
    (∀ e ∈ es, (∀ k f, e.Trails k f → k < limit) ∧ e.FirstsWithin limit) →
    Expr.maxHeight es ≤ limit
  | [], limit, _ => Nat.zero_le limit
  | e :: es, _, h => by
    obtain ⟨⟨hways, hfirsts⟩, hrest⟩ := List.forall_mem_cons.mp h
    exact max_le (height_le_of_trails hways hfirsts) (maxHeight_le_of_trails hrest)

end

end Expr

mutual

/-- The expressions that stand in the statement: values, tests and arguments, each as a whole. -/
def Stmt.expressions : Stmt → List Expr
  | .compound body _ | .procedure _ _ _ _ body _ => Stmt.allExpressions body
  | .assign _ value _ | .giveBack value _ => [value]
  | .call _ args _ _ => args
  | .conditional test body otherwise _ =>
    test :: (body.expressions ++ Stmt.expressions? otherwise)
  | .whileLoop test body _ | .doWhile test body _ => test :: body.expressions
  | .forLoop init test step body _ =>
    init.expressions ++ test :: (step.expressions ++ body.expressions)
  | .declaration .. | .breakLoop _ | .continueLoop _ | .pass _ => []

/-- The expressions that stand in the statements. -/
def Stmt.allExpressions : List Stmt → List Expr
  | [] => []
  | s :: ss => s.expressions ++ Stmt.allExpressions ss

/-- The expressions that stand in a statement that may be absent. -/
def Stmt.expressions? : Option Stmt → List Expr
  | none => []
  | some s => s.expressions

end

/-- The expressions that stand in the module. -/
def Module.expressions (m : Module) : List Expr :=
  Stmt.allExpressions m.body

namespace Grammar

/-! ## The bounds -/

/-- Ways down that enter no first operand are shorter than the given number of nodes. -/
def ExprPhrase.TrailsBelow (levels : Nat) : ExprPhrase → Prop
  | factor e | term e | expression e => ∀ k f, e.Trails k f → k < levels
  | call _ args | more args => ∀ e ∈ args, ∀ k f, e.Trails k f → k < levels

/-- **The levels bound the ways down that enter no first operand.** -/
theorem ExprDerivation.trailsBelow {p : ExprPhrase} {ts : List Token}
    (d : ExprDerivation p ts) : p.TrailsBelow d.cost := by
  induction d with
  | number | name =>
    rintro _ _ ⟨⟩
    exact Nat.one_pos
  | sign word operand ih =>
    intro k f h
    cases h with
    | root => exact Nat.succ_pos _
    | operand h => exact Nat.succ_lt_succ (ih _ f h)
  | group opens inner closes ih => exact fun k f h => (ih k f h).trans (Nat.lt_succ_self _)
  | invoke call ih =>
    intro k f h
    cases h with
    | root => exact Nat.succ_pos _
    | argument ha h => exact Nat.succ_lt_succ (ih _ ha _ f h)
  | factor only ih | term only ih => exact ih
  | product left word right ihl ihr | sum left word right ihl ihr =>
    intro k f h
    rw [cost]
    cases h with
    | root => omega
    | last h =>
      have hright := ihr _ f h
      omega
  | callNone | moreNone =>
    intro e he
    cases he
  | callSome callee opens first rest closes ihf ihr =>
    refine List.forall_mem_cons.mpr ⟨fun k f h => ?_, fun e he k f h => ?_⟩
    · exact (ihf k f h).trans_le (Nat.le_max_left _ _)
    · exact (ihr e he k f h).trans_le (Nat.le_max_right _ _)
  | moreSome comma next rest ihn ihr =>
    refine List.forall_mem_cons.mpr ⟨fun k f h => ?_, fun e he k f h => ?_⟩
    · exact (ihn k f h).trans_le (Nat.le_max_left _ _)
    · exact (ihr e he k f h).trans_le (Nat.le_max_right _ _)

/-- How high the trees of a reading are that costs `cost` levels and ends with a chain of `links`
operators.  A factor has given back all levels but its own, so what it holds costs one level less;
a chain may come on top of a first operand that costs as much as the whole chain. -/
def ExprPhrase.HeightAtMost (links cost : Nat) : ExprPhrase → Prop
  | factor e => ∃ c, cost = c + 1 ∧ e.height ≤ c ^ 2 + 1
  | term e => ∃ c, cost = c + 1 ∧ links ≤ c ∧ e.height ≤ links + (c ^ 2 + 1)
  | expression e => ∃ c, cost = c + 1 ∧ links ≤ c ∧ e.height ≤ links + (c ^ 2 + c + 1)
  | call _ args | more args => Expr.maxHeight args ≤ cost ^ 2

/-- A chain of any length is within the square of its cost. -/
theorem ExprPhrase.HeightAtMost.expression {e : Expr} {links cost : Nat}
    (h : (ExprPhrase.expression e).HeightAtMost links cost) : e.height ≤ cost ^ 2 := by
  obtain ⟨c, rfl, hlinks, hheight⟩ := h
  calc e.height ≤ links + (c ^ 2 + c + 1) := hheight
    _ ≤ c + (c ^ 2 + c + 1) := Nat.add_le_add_right hlinks _
    _ = (c + 1) ^ 2 := by ring

/-- The square grows with the cost, so a part may be measured by the cost of the whole. -/
theorem square_succ_le {c d : Nat} (h : c ≤ d) : c ^ 2 + 1 ≤ d ^ 2 + 1 :=
  Nat.succ_le_succ (Nat.pow_le_pow_left h 2)

/-- **A tree is at most as high as the square of the cost of its derivation.** -/
theorem ExprDerivation.heightAtMost {p : ExprPhrase} {ts : List Token}
    (d : ExprDerivation p ts) : p.HeightAtMost d.links d.cost := by
  induction d with
  | number | name => exact ⟨0, rfl, Nat.le_refl 1⟩
  | sign word operand ih =>
    obtain ⟨c, hcost, hheight⟩ := ih
    refine ⟨c + 1, congrArg Nat.succ hcost, ?_⟩
    rw [Expr.height]
    nlinarith
  | group opens inner closes ih =>
    exact ⟨inner.cost, rfl, ih.expression.trans (Nat.le_succ _)⟩
  | invoke call ih =>
    exact ⟨call.cost, rfl, Nat.succ_le_succ ih⟩
  | factor only ih =>
    obtain ⟨c, hcost, hheight⟩ := ih
    exact ⟨c, hcost, Nat.zero_le c, (Nat.zero_add (c ^ 2 + 1)).symm ▸ hheight⟩
  | product left word right ihl ihr =>
    obtain ⟨c, hleft, hlinks, hlower⟩ := ihl
    obtain ⟨d, hright, hother⟩ := ihr
    refine ⟨max c (left.links + 1 + d), ?_, ?_, ?_⟩
    · rw [cost, hleft, hright]
      omega
    · rw [links]
      omega
    · have hc := square_succ_le (Nat.le_max_left c (left.links + 1 + d))
      have hd := square_succ_le ((Nat.le_add_left d _).trans (Nat.le_max_right c (left.links + 1 + d)))
      rw [Expr.height, links]
      omega
  | term only ih =>
    obtain ⟨c, hcost, hlinks, hheight⟩ := ih
    refine ⟨c, hcost, Nat.zero_le c, ?_⟩
    change _ ≤ 0 + (c ^ 2 + c + 1)
    omega
  | sum left word right ihl ihr =>
    obtain ⟨c, hleft, hlinks, hlower⟩ := ihl
    obtain ⟨d, hright, hshort, hother⟩ := ihr
    refine ⟨max c (left.links + 1 + d), ?_, ?_, ?_⟩
    · rw [cost, hleft, hright]
      omega
    · rw [links]
      omega
    · have hc := square_succ_le (Nat.le_max_left c (left.links + 1 + d))
      have hd := square_succ_le ((Nat.le_add_left d _).trans (Nat.le_max_right c (left.links + 1 + d)))
      rw [Expr.height, links]
      omega
  | callNone => exact Nat.zero_le _
  | callSome callee opens first rest closes ihf ihr =>
    refine max_le ?_ ?_
    · exact ihf.expression.trans (Nat.pow_le_pow_left (Nat.le_max_left _ _) 2)
    · exact ihr.trans (Nat.pow_le_pow_left (Nat.le_max_right _ _) 2)
  | moreNone => exact Nat.zero_le _
  | moreSome comma next rest ihn ihr =>
    refine max_le ?_ ?_
    · exact ihn.expression.trans (Nat.pow_le_pow_left (Nat.le_max_left _ _) 2)
    · exact ihr.trans (Nat.pow_le_pow_left (Nat.le_max_right _ _) 2)

/-- The expression has a derivation that costs less than the given number of levels. -/
def DerivedBelow (levels : Nat) (e : Expr) : Prop :=
  ∃ (ts : List Token) (d : ExprDerivation (.expression e) ts), d.cost < levels

theorem DerivedBelow.mono {levels levels' : Nat} {e : Expr} (h : DerivedBelow levels e)
    (hle : levels ≤ levels') : DerivedBelow levels' e := by
  obtain ⟨ts, d, hcost⟩ := h
  exact ⟨ts, d, hcost.trans_le hle⟩

/-- An expression costs one level less than the statement in which it stands. -/
theorem ExprDerivation.derivedBelow {e : Expr} {ts : List Token}
    (d : ExprDerivation (.expression e) ts) : DerivedBelow (d.cost + 1) e :=
  ⟨ts, d, Nat.lt_succ_self _⟩

/-- The arguments that a phrase reads. -/
def ExprPhrase.arguments : ExprPhrase → List Expr
  | call _ args | more args => args
  | factor _ | term _ | expression _ => []

theorem ExprDerivation.arguments_derivedBelow {p : ExprPhrase} {ts : List Token}
    (d : ExprDerivation p ts) : ∀ e ∈ p.arguments, DerivedBelow (d.cost + 1) e := by
  induction d with
  | callSome _ _ first rest _ _ ihr | moreSome _ first rest _ ihr =>
    refine List.forall_mem_cons.mpr ⟨first.derivedBelow.mono ?_, fun e he => (ihr e he).mono ?_⟩
    · exact Nat.succ_le_succ (Nat.le_max_left _ _)
    · exact Nat.succ_le_succ (Nat.le_max_right _ _)
  | _ =>
    intro e he
    cases he

theorem SimpleDerivation.derivedBelow {stop : Token} {s : Stmt} {ts : List Token}
    (d : SimpleDerivation stop s ts) : ∀ e ∈ s.expressions, DerivedBelow (d.cost + 1) e := by
  cases d with
  | call call => exact call.arguments_derivedBelow
  | assign target equals value =>
    intro e he
    obtain rfl := List.mem_singleton.mp he
    exact value.derivedBelow
  | declaration | empty =>
    intro e he
    cases he

theorem StmtDerivation.derivedBelow {q : StmtPhrase} {m n : Nat} {ts : List Token}
    (d : StmtDerivation m q ts n) :
    ∀ e ∈ Stmt.allExpressions q.trees, DerivedBelow d.cost e := by
  induction d with
  | nil =>
    intro e he
    cases he
  | cons first rest ihf ihr =>
    simp only [StmtPhrase.trees, Stmt.allExpressions, List.append_nil, List.forall_mem_append,
      StmtDerivation.cost] at ihf ihr ⊢
    exact ⟨fun e he => (ihf e he).mono (Nat.le_max_left _ _),
      fun e he => (ihr e he).mono (Nat.le_max_right _ _)⟩
  | blockCompound only ih | blockStatement only ih | itemCompound only ih | itemProcedure only ih
  | itemStatement only ih => exact ih
  | compound _ inner _ ih | procedure _ _ _ _ _ _ _ inner _ ih =>
    simp only [StmtPhrase.trees, Stmt.allExpressions, Stmt.expressions, List.append_nil,
      StmtDerivation.cost] at ih ⊢
    exact fun e he => (ih e he).mono (Nat.le_succ _)
  | simple inner stop =>
    simp only [StmtPhrase.trees, Stmt.allExpressions, List.append_nil, StmtDerivation.cost]
    exact inner.derivedBelow
  | giveBack _ value _ =>
    simp only [StmtPhrase.trees, Stmt.allExpressions, Stmt.expressions, List.append_nil,
      List.forall_mem_singleton, StmtDerivation.cost]
    exact value.derivedBelow
  | breakLoop | continueLoop =>
    intro e he
    cases he
  | ifThen _ _ condition _ branch ih =>
    simp only [StmtPhrase.trees, Stmt.allExpressions, Stmt.expressions, Stmt.expressions?,
      List.append_nil, List.forall_mem_cons, StmtDerivation.cost] at ih ⊢
    exact ⟨condition.derivedBelow.mono (by omega), fun e he => (ih e he).mono (by omega)⟩
  | ifElse _ _ condition _ branch _ _ alternative ih ih' =>
    simp only [StmtPhrase.trees, Stmt.allExpressions, Stmt.expressions, Stmt.expressions?,
      List.append_nil, List.forall_mem_cons, List.forall_mem_append, StmtDerivation.cost]
      at ih ih' ⊢
    exact ⟨condition.derivedBelow.mono (by omega), fun e he => (ih e he).mono (by omega),
      fun e he => (ih' e he).mono (by omega)⟩
  | whileLoop _ _ condition _ round ih | doWhile _ round _ _ condition _ _ ih =>
    simp only [StmtPhrase.trees, Stmt.allExpressions, Stmt.expressions, List.append_nil,
      List.forall_mem_cons, StmtDerivation.cost] at ih ⊢
    exact ⟨condition.derivedBelow.mono (by omega), fun e he => (ih e he).mono (by omega)⟩
  | forLoop _ _ first _ condition _ next _ round ih =>
    simp only [StmtPhrase.trees, Stmt.allExpressions, Stmt.expressions, List.append_nil,
      List.forall_mem_cons, List.forall_mem_append, StmtDerivation.cost] at ih ⊢
    exact ⟨fun e he => (first.derivedBelow e he).mono (by omega), condition.derivedBelow.mono (by omega),
      fun e he => (next.derivedBelow e he).mono (by omega), fun e he => (ih e he).mono (by omega)⟩

end Grammar

open Grammar

/-- What parsing accepts is derived at a cost within the limit. -/
theorem Module.exists_derivation_within_limit {text : String} {m : Module}
    (h : Module.parse text = .ok m) :
    ∃ (tokens : List Token) (d : ProgramDerivation tokens m), d.statements.cost ≤ maxNesting := by
  obtain ⟨tokens, hlex, ⟨d⟩⟩ := Module.exists_derivation_of_parse h
  refine ⟨tokens, d, Nat.le_of_not_lt fun hdeep => ?_⟩
  obtain ⟨span, herror⟩ := (Module.parse_of_derivation hlex d).2 hdeep
  rw [h] at herror
  cases herror

/-- Every expression of a text that parses costs less than the limit. -/
theorem Module.derivedBelow_of_mem_expressions {text : String} {m : Module}
    (h : Module.parse text = .ok m) {e : Expr} (he : e ∈ m.expressions) :
    DerivedBelow maxNesting e := by
  obtain ⟨tokens, d, hcost⟩ := Module.exists_derivation_within_limit h
  exact (d.statements.derivedBelow e he).mono hcost

/-- **Which trees are within the limit.**  An expression of a text that parses is no higher than the
limit on nesting if and only if, wherever a way down first comes to a first operand, that operand is
no higher than what is left of the limit. -/
theorem Module.height_le_limit_iff (text : String) (m : Module) (h : Module.parse text = .ok m)
    (e : Expr) (he : e ∈ m.expressions) :
    e.height ≤ maxNesting ↔ e.FirstsWithin maxNesting := by
  constructor
  · intro hheight k op lhs rhs span htrails
    exact (e.firstsWithin_height k op lhs rhs span htrails).trans hheight
  · intro hfirsts
    obtain ⟨ts, d, hcost⟩ := Module.derivedBelow_of_mem_expressions h he
    exact Expr.height_le_of_trails (fun k f hf => (d.trailsBelow k f hf).trans hcost) hfirsts

/-- A product in front of a sum, and far from the limit. -/
theorem Module.height_le_limit_iff_product :
    ∃ m e, Module.parse "x = 1 * 2 + 3;" = .ok m ∧ m.expressions = [e] ∧ e.height = 3
      ∧ e.FirstsWithin maxNesting := by
  let product : Expr :=
    .binary .mul (.number 1 ⟨4, 5, 1, 5⟩) (.number 2 ⟨8, 9, 1, 9⟩) ⟨4, 9, 1, 5⟩
  let sum : Expr := .binary .add product (.number 3 ⟨12, 13, 1, 13⟩) ⟨4, 13, 1, 5⟩
  have hparse : Module.parse "x = 1 * 2 + 3;" = .ok ⟨[.assign "x" sum ⟨0, 13, 1, 1⟩]⟩ := by cbv
  have hwithin := (Module.height_le_limit_iff _ _ hparse sum (List.mem_singleton_self _)).mp
    (by decide)
  exact ⟨_, sum, hparse, rfl, rfl, hwithin⟩

/-! ## The square is attained -/

/-- The tokens are written as the lexemes are, wherever they stand. -/
def Lexeme.Spelt (ls : List Lexeme) (ts : List Token) : Prop :=
  ts.map Token.spelling = ls.map Lexeme.spelling

namespace Lexeme

theorem Spelt.of_append {ls ls' : List Lexeme} {ts : List Token} (h : Spelt (ls ++ ls') ts) :
    ∃ us vs, ts = us ++ vs ∧ Spelt ls us ∧ Spelt ls' vs := by
  rw [Spelt, List.map_append] at h
  exact List.map_eq_append_iff.mp h

theorem Spelt.of_cons {l : Lexeme} {ls : List Lexeme} {ts : List Token} (h : Spelt (l :: ls) ts) :
    ∃ t us, ts = t :: us ∧ t.spelling = l.spelling ∧ Spelt ls us := by
  rw [Spelt, List.map_cons] at h
  exact List.map_eq_cons_iff.mp h

theorem Spelt.of_nil {ts : List Token} (h : Spelt [] ts) : ts = [] :=
  List.map_eq_nil_iff.mp h

/-- A kind that is written with one character. -/
def mark (kind : Token.Kind) (c : Char) (h : kind.text? = some (String.ofList [c])) : Lexeme :=
  ⟨kind, [c], .fixed h⟩

/-- The number 1. -/
def one : Lexeme :=
  ⟨.integer, ['1'], .integer (List.cons_ne_nil _ _) (List.forall_mem_singleton.mpr rfl)⟩

/-- A name of one letter. -/
def letter (c : Char) (h : c.isAlpha = true)
    (free : ∀ kind ∈ Token.Kind.keywords, kind.text? ≠ some (String.ofList [c])) : Lexeme :=
  ⟨.identifier, [c], .identifier h (by simp) free⟩

/-- As many operators as given, each with the operand 1 behind it. -/
def onesBehind (operator : Lexeme) (n : Nat) : List Lexeme :=
  (List.replicate n [operator, one]).flatten

/-- A call, a product and a sum inside each other: the innermost argument is 1, and each level puts
a call around it, then makes this call the first factor of a product as long as the limit allows,
and the product the first term of such a sum. -/
def tower : Nat → List Lexeme
  | 0 => [one]
  | c + 1 =>
    letter 'f' rfl (by decide) :: mark .leftParen '(' rfl :: (tower c
      ++ mark .rightParen ')' rfl :: (onesBehind (mark .times '*' rfl) (c + 1)
        ++ onesBehind (mark .plus '+' rfl) (c + 1)))

theorem exists_number {t : Token} (h : t.spelling = one.spelling) :
    ∃ (e : Expr) (d : ExprDerivation (.factor e) [t]), d.cost = 1 ∧ e.height = 1 := by
  have word : t.kind = .integer := congrArg Prod.fst h
  have lexeme : t.lexeme = "1" := congrArg Prod.snd h
  have value : (1 : Int64).toInt = t.magnitude := by
    rw [Token.magnitude, lexeme]
    decide
  exact ⟨_, .number word value, rfl, rfl⟩

/-- A chain is made longer.  Its first operand, whatever it is, gets deeper with every operator,
but only the operands behind it cost more. -/
theorem exists_chain {phrase : Expr → ExprPhrase} {operator : Lexeme}
    (link : ∀ {e : Expr} {ts : List Token} {t u : Token} (d : ExprDerivation (phrase e) ts),
      t.spelling = operator.spelling → u.spelling = one.spelling →
      ∃ (e' : Expr) (d' : ExprDerivation (phrase e') (ts ++ [t, u])), d'.links = d.links + 1
        ∧ d'.cost = max d.cost (d.links + 2) ∧ e'.height = e.height + 1)
    {e : Expr} {ts : List Token} (d : ExprDerivation (phrase e) ts) :
    ∀ (n : Nat) {us : List Token}, Spelt (onesBehind operator n) us →
      ∃ (e' : Expr) (d' : ExprDerivation (phrase e') (ts ++ us)), d'.links = d.links + n
        ∧ d'.cost ≤ max d.cost (d.links + n + 1) ∧ e'.height = e.height + n
  | 0, us, h => by
    obtain rfl := h.of_nil
    rw [List.append_nil]
    exact ⟨e, d, rfl, Nat.le_max_left _ _, rfl⟩
  | n + 1, us, h => by
    rw [onesBehind, List.replicate_succ', List.flatten_append] at h
    obtain ⟨vs, ws, rfl, hvs, hws⟩ := h.of_append
    obtain ⟨t, ws, rfl, ht, hws⟩ := hws.of_cons
    obtain ⟨u, ws, rfl, hu, hws⟩ := hws.of_cons
    obtain rfl := hws.of_nil
    obtain ⟨e₁, d₁, hlinks₁, hcost₁, hheight₁⟩ := exists_chain link d n hvs
    obtain ⟨e₂, d₂, hlinks₂, hcost₂, hheight₂⟩ := link d₁ ht hu
    rw [← List.append_assoc]
    exact ⟨e₂, d₂, by omega, by omega, by omega⟩

theorem exists_product {e : Expr} {ts : List Token} {t u : Token} (d : ExprDerivation (.term e) ts)
    (ht : t.spelling = (mark .times '*' rfl).spelling) (hu : u.spelling = one.spelling) :
    ∃ (e' : Expr) (d' : ExprDerivation (.term e') (ts ++ [t, u])), d'.links = d.links + 1
      ∧ d'.cost = max d.cost (d.links + 2) ∧ e'.height = e.height + 1 := by
  obtain ⟨f, operand, hcost, hheight⟩ := exists_number hu
  have kind : t.kind = .times := congrArg Prod.fst ht
  have word : ProductWord t.kind .mul := kind ▸ .times
  refine ⟨_, .product d word operand, rfl, ?_, ?_⟩
  · rw [ExprDerivation.cost, hcost]
  · rw [Expr.height, hheight, Nat.max_eq_left e.height_pos]

theorem exists_sum {e : Expr} {ts : List Token} {t u : Token}
    (d : ExprDerivation (.expression e) ts) (ht : t.spelling = (mark .plus '+' rfl).spelling)
    (hu : u.spelling = one.spelling) :
    ∃ (e' : Expr) (d' : ExprDerivation (.expression e') (ts ++ [t, u])), d'.links = d.links + 1
      ∧ d'.cost = max d.cost (d.links + 2) ∧ e'.height = e.height + 1 := by
  obtain ⟨f, operand, hcost, hheight⟩ := exists_number hu
  have kind : t.kind = .plus := congrArg Prod.fst ht
  have word : SumWord t.kind .add := kind ▸ .plus
  refine ⟨_, .sum d word (.factor operand), rfl, ?_, ?_⟩
  · rw [ExprDerivation.cost, ExprDerivation.cost, hcost]
  · rw [Expr.height, hheight, Nat.max_eq_left e.height_pos]

/-- A factor with a product and then a sum behind it: both chains come on top of the factor, while
they cost no more than the longer of them. -/
theorem exists_chains {e : Expr} {ts us : List Token} (d : ExprDerivation (.factor e) ts)
    {j k : Nat} (h : Spelt (onesBehind (mark .times '*' rfl) j
      ++ onesBehind (mark .plus '+' rfl) k) us) :
    ∃ (e' : Expr) (d' : ExprDerivation (.expression e') (ts ++ us)),
      d'.cost ≤ max d.cost (max j k + 1) ∧ e'.height = e.height + j + k := by
  obtain ⟨vs, ws, rfl, hvs, hws⟩ := h.of_append
  obtain ⟨e₁, d₁, -, hcost₁, hheight₁⟩ := exists_chain exists_product (.factor d) j hvs
  obtain ⟨e₂, d₂, -, hcost₂, hheight₂⟩ := exists_chain exists_sum (.term d₁) k hws
  have hzero : (ExprDerivation.factor d).links = 0 := rfl
  have hzero' : (ExprDerivation.term d₁).links = 0 := rfl
  rw [hzero, ExprDerivation.cost] at hcost₁
  rw [hzero', ExprDerivation.cost] at hcost₂
  rw [← List.append_assoc]
  exact ⟨e₂, d₂, by omega, by omega⟩

/-- **A tower is as high as the square of its cost.** -/
theorem exists_tower : ∀ (c : Nat) {ts : List Token}, Spelt (tower c) ts →
    ∃ (e : Expr) (d : ExprDerivation (.expression e) ts), d.cost ≤ c + 1
      ∧ e.height = (c + 1) ^ 2
  | 0, ts, h => by
    obtain ⟨t, us, rfl, ht, h⟩ := h.of_cons
    obtain rfl := h.of_nil
    obtain ⟨e, d, hcost, hheight⟩ := exists_number ht
    exact ⟨e, .term (.factor d), Nat.le_of_eq hcost, hheight⟩
  | c + 1, ts, h => by
    obtain ⟨f, ts, rfl, hf, h⟩ := h.of_cons
    obtain ⟨l, ts, rfl, hl, h⟩ := h.of_cons
    obtain ⟨us, ts, rfl, hus, h⟩ := h.of_append
    obtain ⟨r, ts, rfl, hr, h⟩ := h.of_cons
    obtain ⟨e, d, hcost, hheight⟩ := exists_tower c hus
    let call := ExprDerivation.callSome (congrArg Prod.fst hf) (congrArg Prod.fst hl) d .moreNone
      (congrArg Prod.fst hr)
    have hcall : (ExprDerivation.invoke call).cost = max d.cost 0 + 1 := rfl
    obtain ⟨e', d', hcost', hheight'⟩ := exists_chains (.invoke call) h
    have htokens : f :: l :: (us ++ r :: ts) = f :: l :: (us ++ [] ++ [r]) ++ ts := by simp
    rw [htokens]
    refine ⟨e', d', by omega, ?_⟩
    rw [hheight', Expr.height, Expr.maxHeight, Expr.maxHeight, hheight, Nat.max_zero]
    ring

/-! ### Texts -/

/-- One blank. -/
def space : Blanks :=
  ⟨[' '], List.forall_mem_singleton.mpr (by decide)⟩

/-- The lexemes as a text, with a blank in front of each. -/
def spaced (ls : List Lexeme) : String :=
  String.ofList (write (ls.map (space, ·)) ⟨[], List.forall_mem_nil _⟩)

theorem spaced_eq (ls : List Lexeme) :
    spaced ls = String.ofList (ls.map fun l => ' ' :: l.word).flatten := by
  rw [spaced]
  congr 1
  induction ls with
  | nil => rfl
  | cons l ls ih =>
    rw [List.map_cons, write, ih, List.map_cons, List.flatten_cons]
    rfl

theorem words_onesBehind (operator : Lexeme) (n : Nat) :
    ((onesBehind operator n).map fun l => ' ' :: l.word).flatten
      = (List.replicate n (' ' :: operator.word ++ " 1".toList)).flatten := by
  induction n with
  | zero => rfl
  | succ n ih =>
    rw [onesBehind, List.replicate_succ, List.flatten_cons, List.map_append, List.flatten_append,
      ← onesBehind, ih, List.replicate_succ, List.flatten_cons]
    rfl

/-- Lexemes with blanks between them are read as they were written. -/
theorem exists_lex_spaced (ls : List Lexeme) :
    ∃ tokens, lex (spaced ls) = .ok tokens ∧ Spelt ls tokens := by
  have separated : Separated (ls.map (space, ·)) := by
    refine (List.pairwise_map.mpr (List.pairwise_of_forall fun _ _ h => ?_)).isChain
    cases h
  obtain ⟨tokens, tiles, spelt⟩ :=
    (tiles_write_iff [] (ls.map (space, ·)) ⟨[], List.forall_mem_nil _⟩).mpr separated
  have chars : write (ls.map (space, ·)) ⟨[], List.forall_mem_nil _⟩
      = (Cursor.ofString (spaced ls)).rest := String.toList_ofList.symm
  rw [chars, Cursor.tiles_iff rfl] at tiles
  refine ⟨tokens, lex_eq_ok tiles, ?_⟩
  rw [Spelt, spelt, List.map_map]
  rfl

/-- An assignment to `x` of what the lexemes say. -/
def assignment (value : List Lexeme) : List Lexeme :=
  letter 'x' rfl (by decide) :: mark .equals '=' rfl :: (value ++ [mark .semicolon ';' rfl])

/-- The text that assigns a sum whose first term is a product. -/
theorem spaced_chains (j k : Nat) :
    spaced (assignment (one :: (onesBehind (mark .times '*' rfl) j
      ++ onesBehind (mark .plus '+' rfl) k)))
      = String.ofList (" x = 1".toList ++ (List.replicate j " * 1".toList).flatten
        ++ (List.replicate k " + 1".toList).flatten ++ " ;".toList) := by
  rw [spaced_eq, assignment]
  simp only [List.cons_append, List.map_cons, List.map_append, List.flatten_cons,
    List.flatten_append, words_onesBehind]
  simp [letter, mark, one]

/-- A value that costs less than the limit can be assigned in a text that parses. -/
theorem exists_parse_assignment (value : List Lexeme) (height : Nat)
    (h : ∀ {ts : List Token}, Spelt value ts → ∃ (e : Expr) (d : ExprDerivation (.expression e) ts),
      d.cost + 1 ≤ maxNesting ∧ e.height = height) :
    ∃ m, Module.parse (spaced (assignment value)) = .ok m
      ∧ ∃ e ∈ m.expressions, e.height = height := by
  obtain ⟨tokens, hlex, spelt⟩ := exists_lex_spaced (assignment value)
  obtain ⟨x, ts, rfl, hx, spelt⟩ := spelt.of_cons
  obtain ⟨q, ts, rfl, hq, spelt⟩ := spelt.of_cons
  obtain ⟨us, ts, rfl, hus, spelt⟩ := spelt.of_append
  obtain ⟨stop, ts, rfl, hstop, spelt⟩ := spelt.of_cons
  obtain rfl := spelt.of_nil
  obtain ⟨e, d, hcost, hheight⟩ := h hus
  let inner : SimpleDerivation stop _ (x :: q :: us) :=
    .assign (congrArg Prod.fst hx) (congrArg Prod.fst hq) d
  let program : ProgramDerivation (x :: q :: (us ++ [stop]) ++ []) ⟨[.assign x.lexeme e _]⟩ :=
    ⟨0, .cons (.itemStatement (.simple inner (congrArg Prod.fst hstop))) .nil⟩
  have htotal : program.statements.cost = max (d.cost + 1) 0 := rfl
  rw [← List.append_nil (x :: q :: (us ++ [stop]))] at hlex
  refine ⟨_, (Module.parse_of_derivation hlex program).1 (by omega), e, ?_, hheight⟩
  exact List.mem_singleton_self e

end Lexeme

open Lexeme

/-- **How high the trees of a program are.**  No expression of a text that parses is higher than the
square of 1023, and there is a text with an expression of just that height. -/
theorem Module.height_le_square :
    (∀ (text : String) (m : Module), Module.parse text = .ok m →
      ∀ e ∈ m.expressions, e.height ≤ (maxNesting - 1) ^ 2)
    ∧ ∃ (text : String) (m : Module), Module.parse text = .ok m
      ∧ ∃ e ∈ m.expressions, e.height = (maxNesting - 1) ^ 2 := by
  constructor
  · intro text m h e he
    obtain ⟨ts, d, hcost⟩ := Module.derivedBelow_of_mem_expressions h he
    exact d.heightAtMost.expression.trans (Nat.pow_le_pow_left (Nat.le_pred_of_lt hcost) 2)
  · obtain ⟨m, hparse, e, he, hheight⟩ :=
      exists_parse_assignment (tower (maxNesting - 2)) ((maxNesting - 1) ^ 2) fun spelt => by
        obtain ⟨e, d, hcost, hheight⟩ := exists_tower (maxNesting - 2) spelt
        exact ⟨e, d, Nat.add_le_of_le_sub (by decide) hcost, hheight⟩
    exact ⟨_, m, hparse, e, he, hheight⟩

/-- A sum of 601 terms, the first of which is a product of 601 factors, is within the limit on
nesting, but its tree is 1201 nodes high. -/
theorem Module.exists_higher_than_limit :
    ∃ (text : String) (m : Module),
      text = String.ofList (" x = 1".toList ++ (List.replicate 600 " * 1".toList).flatten
        ++ (List.replicate 600 " + 1".toList).flatten ++ " ;".toList)
      ∧ Module.parse text = .ok m
      ∧ ∃ e ∈ m.expressions, e.height = 1201 ∧ maxNesting < e.height := by
  obtain ⟨m, hparse, e, he, hheight⟩ :=
    exists_parse_assignment
      (one :: (onesBehind (mark .times '*' rfl) 600 ++ onesBehind (mark .plus '+' rfl) 600)) 1201
      fun spelt => by
        obtain ⟨t, us, rfl, ht, spelt⟩ := spelt.of_cons
        obtain ⟨e, d, hcost, hheight⟩ := exists_number ht
        obtain ⟨e', d', hcost', hheight'⟩ := exists_chains d spelt
        exact ⟨e', d', by rw [maxNesting]; omega, by omega⟩
  exact ⟨_, m, spaced_chains 600 600, hparse, e, he, hheight, by rw [hheight]; decide⟩

end Imperative
