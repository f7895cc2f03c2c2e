import Imperative.Parsing.Statement
import Mathlib.Data.Nat.Digits.Defs

/-!
# The grammar

What it means for a list of tokens to be a program, said without a parser.  A *derivation*
says how the rules of the language produce a stretch of tokens, and which tree they make of
it.  The rules are those listed in `Parsing.Expression` and `Parsing.Statement`; here each
of them is one constructor, and the trees and the tokens are its indices.

## What the rules pin down

* Operators of one level group to the left because the rules of `term` and `expression` are
  left-recursive, and products bind tighter than sums because the operands of a sum are
  terms.
* Parentheses group and leave no trace: the tree of `( e )` is the tree of `e`, with the
  span of `e`.
* The span of every other node is `Token.cover` of its own tokens, or joins the spans of
  its operands.
* An `else` goes to the nearest conditional that is still open.  The rule `ifElse` refuses
  a body that ends in a conditional without an `else` (`Stmt.endsOpen`), since that
  conditional would have been the nearer one.
* Procedures are numbered in the order in which their definitions end.  A derivation of
  statements has two more indices for that: how many procedures were numbered before its
  first token, and how many after its last.
* An empty simple statement has no token, so its span is the empty one in front of the
  token that stops it.

Derivations are data, so that they can be measured as well as asked for.
-/

namespace Imperative

namespace Token

/-- The number that the digits of an integer token denote. -/
def magnitude (t : Token) : Nat :=
  Nat.ofDigits 10 (t.lexeme.toList.reverse.map fun c => c.toNat - '0'.toNat)

/-- The span from the first token of a stretch to its last one. -/
def cover : List Token → Span
  | [] => {}
  | t :: ts => t.span.through (ts.getLast?.getD t).span

end Token

/-- Whether a statement ends in a conditional that could still take an `else`. -/
def Stmt.endsOpen : Stmt → Bool
  | .conditional _ _ none _ => true
  | .conditional _ _ (some otherwise) _ => otherwise.endsOpen
  | .whileLoop _ body _ => body.endsOpen
  | .forLoop _ _ _ body _ => body.endsOpen
  | _ => false

namespace Grammar

/-! ## Words with a meaning of their own -/

/-- The tokens that are signs. -/
inductive SignWord : Token.Kind → UnaryOp → Prop
  | plus : SignWord .plus .plus
  | minus : SignWord .minus .minus

/-- The tokens that join terms. -/
inductive SumWord : Token.Kind → BinaryOp → Prop
  | plus : SumWord .plus .add
  | minus : SumWord .minus .sub

/-- The tokens that join factors. -/
inductive ProductWord : Token.Kind → BinaryOp → Prop
  | times : ProductWord .times .mul
  | slash : ProductWord .slash .div

/-- The tokens that name types. -/
inductive TypeWord : Token.Kind → DataType → Prop
  | int : TypeWord .kwInt .integer
  | float : TypeWord .kwFloat .float
  | var : TypeWord .kwVar .universal

/-! ## Expressions -/

/-- What tokens of an expression can be read as, with the tree of the reading. -/
inductive ExprPhrase where
  | factor (tree : Expr)
  | term (tree : Expr)
  | expression (tree : Expr)
  | call (name : String) (args : List Expr)
  /-- The arguments behind the first one, each with a comma in front. -/
  | more (args : List Expr)

/-- How the rules for expressions produce a stretch of tokens. -/
inductive ExprDerivation : ExprPhrase → List Token → Type
  | number {t : Token} {n : Int64} (word : t.kind = .integer) (value : n.toInt = t.magnitude) :
      ExprDerivation (.factor (.number n t.span)) [t]
  | name {t : Token} (word : t.kind = .identifier) :
      ExprDerivation (.factor (.var t.lexeme t.span)) [t]
  | sign {t : Token} {op : UnaryOp} {e : Expr} {ts : List Token} (word : SignWord t.kind op)
      (operand : ExprDerivation (.factor e) ts) :
      ExprDerivation (.factor (.unary op e (t.span.through e.span))) (t :: ts)
  | group {l r : Token} {e : Expr} {ts : List Token} (opens : l.kind = .leftParen)
      (inner : ExprDerivation (.expression e) ts) (closes : r.kind = .rightParen) :
      ExprDerivation (.factor e) (l :: (ts ++ [r]))
  | invoke {name : String} {args : List Expr} {ts : List Token}
      (call : ExprDerivation (.call name args) ts) :
      ExprDerivation (.factor (.call name args none (Token.cover ts))) ts
  | factor {e : Expr} {ts : List Token} (only : ExprDerivation (.factor e) ts) :
      ExprDerivation (.term e) ts
  | product {t : Token} {op : BinaryOp} {lhs rhs : Expr} {ts us : List Token}
      (left : ExprDerivation (.term lhs) ts) (word : ProductWord t.kind op)
      (right : ExprDerivation (.factor rhs) us) :
      ExprDerivation (.term (.binary op lhs rhs (lhs.span.through rhs.span))) (ts ++ t :: us)
  | term {e : Expr} {ts : List Token} (only : ExprDerivation (.term e) ts) :
      ExprDerivation (.expression e) ts
  | sum {t : Token} {op : BinaryOp} {lhs rhs : Expr} {ts us : List Token}
      (left : ExprDerivation (.expression lhs) ts) (word : SumWord t.kind op)
      (right : ExprDerivation (.term rhs) us) :
      ExprDerivation (.expression (.binary op lhs rhs (lhs.span.through rhs.span)))
        (ts ++ t :: us)
  | callNone {f l r : Token} (callee : f.kind = .identifier) (opens : l.kind = .leftParen)
      (closes : r.kind = .rightParen) :
      ExprDerivation (.call f.lexeme []) [f, l, r]
  | callSome {f l r : Token} {e : Expr} {es : List Expr} {ts us : List Token}
      (callee : f.kind = .identifier) (opens : l.kind = .leftParen)
      (first : ExprDerivation (.expression e) ts) (rest : ExprDerivation (.more es) us)
      (closes : r.kind = .rightParen) :
      ExprDerivation (.call f.lexeme (e :: es)) (f :: l :: (ts ++ us ++ [r]))
  | moreNone : ExprDerivation (.more []) []
  | moreSome {c : Token} {e : Expr} {es : List Expr} {ts us : List Token}
      (comma : c.kind = .comma) (next : ExprDerivation (.expression e) ts)
      (rest : ExprDerivation (.more es) us) :
      ExprDerivation (.more (e :: es)) (c :: (ts ++ us))

/-! ## Statements -/

/-- A simple statement without what stops it. -/
inductive SimpleDerivation (stop : Token) : Stmt → List Token → Type
  | call {name : String} {args : List Expr} {ts : List Token}
      (call : ExprDerivation (.call name args) ts) :
      SimpleDerivation stop (.call name args none (Token.cover ts)) ts
  | assign {x q : Token} {e : Expr} {ts : List Token} (target : x.kind = .identifier)
      (equals : q.kind = .equals) (value : ExprDerivation (.expression e) ts) :
      SimpleDerivation stop (.assign x.lexeme e (Token.cover (x :: q :: ts))) (x :: q :: ts)
  | declaration {w x : Token} {type : DataType} (word : TypeWord w.kind type)
      (name : x.kind = .identifier) :
      SimpleDerivation stop (.declaration x.lexeme type (Token.cover [w, x])) [w, x]
  | empty : SimpleDerivation stop (.pass stop.span.collapse) []

/-- One parameter. -/
inductive ParamDerivation : Param → List Token → Type
  | mk {w x : Token} {type : DataType} (word : TypeWord w.kind type)
      (name : x.kind = .identifier) :
      ParamDerivation ⟨x.lexeme, type, Token.cover [w, x]⟩ [w, x]

/-- The parameters behind the first one, each with a comma in front. -/
inductive MoreParamsDerivation : List Param → List Token → Type
  | none : MoreParamsDerivation [] []
  | some {c : Token} {p : Param} {ps : List Param} {ts us : List Token}
      (comma : c.kind = .comma) (next : ParamDerivation p ts)
      (rest : MoreParamsDerivation ps us) :
      MoreParamsDerivation (p :: ps) (c :: (ts ++ us))

/-- The parameters of a procedure. -/
inductive ParamsDerivation : List Param → List Token → Type
  | none : ParamsDerivation [] []
  | some {p : Param} {ps : List Param} {ts us : List Token} (first : ParamDerivation p ts)
      (rest : MoreParamsDerivation ps us) :
      ParamsDerivation (p :: ps) (ts ++ us)

/-- The return type of a procedure, which may be left out. -/
inductive ReturnTypeDerivation : Option DataType → List Token → Type
  | none : ReturnTypeDerivation .none []
  | some {w : Token} {type : DataType} (word : TypeWord w.kind type) :
      ReturnTypeDerivation (.some type) [w]

/-- What tokens can be read as, from a single statement upwards, with the tree. -/
inductive StmtPhrase where
  | compound (tree : Stmt)
  | procedure (tree : Stmt)
  | statement (tree : Stmt)
  /-- A statement or a compound statement: what a branch or a loop takes as its body. -/
  | block (tree : Stmt)
  /-- A statement, a compound statement or a procedure: what stands in a list. -/
  | item (tree : Stmt)
  | statements (trees : List Stmt)

/-- The trees of a reading. -/
def StmtPhrase.trees : StmtPhrase → List Stmt
  | compound s | procedure s | statement s | block s | item s => [s]
  | statements ss => ss

/-- How the rules for statements produce a stretch of tokens.  The two numbers count the
procedures numbered before the stretch and behind it. -/
inductive StmtDerivation : Nat → StmtPhrase → List Token → Nat → Type
  | compound {m n : Nat} {l r : Token} {body : List Stmt} {ts : List Token}
      (opens : l.kind = .leftBrace) (inner : StmtDerivation m (.statements body) ts n)
      (closes : r.kind = .rightBrace) :
      StmtDerivation m (.compound (.compound body (Token.cover (l :: (ts ++ [r])))))
        (l :: (ts ++ [r])) n
  | procedure {m n : Nat} {d f l r b c : Token} {returnType : Option DataType}
      {params : List Param} {body : List Stmt} {ts us vs : List Token}
      (word : d.kind = .kwDef) (result : ReturnTypeDerivation returnType ts)
      (name : f.kind = .identifier) (opens : l.kind = .leftParen)
      (formals : ParamsDerivation params us) (closes : r.kind = .rightParen)
      (begins : b.kind = .leftBrace) (inner : StmtDerivation m (.statements body) vs n)
      (ends : c.kind = .rightBrace) :
      StmtDerivation m
        (.procedure (.procedure ⟨n⟩ f.lexeme params returnType body
          (Token.cover (d :: (ts ++ f :: l :: (us ++ r :: b :: (vs ++ [c])))))))
        (d :: (ts ++ f :: l :: (us ++ r :: b :: (vs ++ [c])))) (n + 1)
  | simple {n : Nat} {q : Token} {s : Stmt} {ts : List Token} (inner : SimpleDerivation q s ts)
      (stop : q.kind = .semicolon) :
      StmtDerivation n (.statement s) (ts ++ [q]) n
  | giveBack {n : Nat} {w q : Token} {e : Expr} {ts : List Token} (word : w.kind = .kwReturn)
      (value : ExprDerivation (.expression e) ts) (stop : q.kind = .semicolon) :
      StmtDerivation n (.statement (.giveBack e (Token.cover (w :: ts)))) (w :: (ts ++ [q])) n
  | breakLoop {n : Nat} {w q : Token} (word : w.kind = .kwBreak) (stop : q.kind = .semicolon) :
      StmtDerivation n (.statement (.breakLoop (Token.cover [w]))) [w, q] n
  | continueLoop {n : Nat} {w q : Token} (word : w.kind = .kwContinue)
      (stop : q.kind = .semicolon) :
      StmtDerivation n (.statement (.continueLoop (Token.cover [w]))) [w, q] n
  | ifThen {m n : Nat} {w l r : Token} {test : Expr} {body : Stmt} {ts us : List Token}
      (word : w.kind = .kwIf) (opens : l.kind = .leftParen)
      (condition : ExprDerivation (.expression test) ts) (closes : r.kind = .rightParen)
      (branch : StmtDerivation m (.block body) us n) :
      StmtDerivation m
        (.statement (.conditional test body none (Token.cover (w :: l :: (ts ++ r :: us)))))
        (w :: l :: (ts ++ r :: us)) n
  | ifElse {k m n : Nat} {w l r x : Token} {test : Expr} {body otherwise : Stmt}
      {ts us vs : List Token}
      (word : w.kind = .kwIf) (opens : l.kind = .leftParen)
      (condition : ExprDerivation (.expression test) ts) (closes : r.kind = .rightParen)
      (branch : StmtDerivation k (.block body) us m) (closed : body.endsOpen = false)
      (other : x.kind = .kwElse) (alternative : StmtDerivation m (.block otherwise) vs n) :
      StmtDerivation k
        (.statement (.conditional test body (some otherwise)
          (Token.cover (w :: l :: (ts ++ r :: (us ++ x :: vs))))))
        (w :: l :: (ts ++ r :: (us ++ x :: vs))) n
  | whileLoop {m n : Nat} {w l r : Token} {test : Expr} {body : Stmt} {ts us : List Token}
      (word : w.kind = .kwWhile) (opens : l.kind = .leftParen)
      (condition : ExprDerivation (.expression test) ts) (closes : r.kind = .rightParen)
      (round : StmtDerivation m (.block body) us n) :
      StmtDerivation m
        (.statement (.whileLoop test body (Token.cover (w :: l :: (ts ++ r :: us)))))
        (w :: l :: (ts ++ r :: us)) n
  | doWhile {m n : Nat} {d w l r q : Token} {test : Expr} {body : Stmt} {ts us : List Token}
      (begins : d.kind = .kwDo) (round : StmtDerivation m (.block body) us n)
      (word : w.kind = .kwWhile) (opens : l.kind = .leftParen)
      (condition : ExprDerivation (.expression test) ts) (closes : r.kind = .rightParen)
      (stop : q.kind = .semicolon) :
      StmtDerivation m
        (.statement (.doWhile test body
          (Token.cover (d :: (us ++ w :: l :: (ts ++ [r, q]))))))
        (d :: (us ++ w :: l :: (ts ++ [r, q]))) n
  | forLoop {m n : Nat} {w l q q' r : Token} {test : Expr} {init step body : Stmt}
      {ts us vs ws : List Token} (word : w.kind = .kwFor) (opens : l.kind = .leftParen)
      (first : SimpleDerivation q init ts) (stop : q.kind = .semicolon)
      (condition : ExprDerivation (.expression test) us) (stop' : q'.kind = .semicolon)
      (next : SimpleDerivation r step vs) (closes : r.kind = .rightParen)
      (round : StmtDerivation m (.block body) ws n) :
      StmtDerivation m
        (.statement (.forLoop init test step body
          (Token.cover (w :: l :: (ts ++ q :: (us ++ q' :: (vs ++ r :: ws)))))))
        (w :: l :: (ts ++ q :: (us ++ q' :: (vs ++ r :: ws)))) n
  | blockCompound {m n : Nat} {s : Stmt} {ts : List Token}
      (only : StmtDerivation m (.compound s) ts n) : StmtDerivation m (.block s) ts n
  | blockStatement {m n : Nat} {s : Stmt} {ts : List Token}
      (only : StmtDerivation m (.statement s) ts n) : StmtDerivation m (.block s) ts n
  | itemCompound {m n : Nat} {s : Stmt} {ts : List Token}
      (only : StmtDerivation m (.compound s) ts n) : StmtDerivation m (.item s) ts n
  | itemProcedure {m n : Nat} {s : Stmt} {ts : List Token}
      (only : StmtDerivation m (.procedure s) ts n) : StmtDerivation m (.item s) ts n
  | itemStatement {m n : Nat} {s : Stmt} {ts : List Token}
      (only : StmtDerivation m (.statement s) ts n) : StmtDerivation m (.item s) ts n
  | nil {n : Nat} : StmtDerivation n (.statements []) [] n
  | cons {k m n : Nat} {s : Stmt} {ss : List Stmt} {ts us : List Token}
      (first : StmtDerivation k (.item s) ts m)
      (rest : StmtDerivation m (.statements ss) us n) :
      StmtDerivation k (.statements (s :: ss)) (ts ++ us) n

/-- A derivation of a whole program: its statements produce all tokens, and numbering
starts at zero. -/
structure ProgramDerivation (tokens : List Token) (m : Module) where
  count : Nat
  statements : StmtDerivation 0 (.statements m.body) tokens count

end Grammar

end Imperative
