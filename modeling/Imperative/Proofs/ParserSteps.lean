import Imperative.Proofs.Reading

/-!
# The steps of parsing

A parser is a function, and a function does not show what it goes through.  Here the rules are taken
apart: `Parse.Steps p` is a way to make `p` of single steps, and every rule up to `Parse.program` has
one.  What happens inside a rule is then said by recursion on its steps, and what holds of every rule
is proved by induction on them, with one case a kind of step instead of one a rule.

Levels of nesting are not a kind of step by themselves.  They are taken and given back in two ways
only, by `Parse.nested` and by `Parse.chain`, and these two are kinds of steps.  A nest that is too deep
is found by them; where a rule says by itself that it is too deep, its budget is used up, and that is a
kind of step of its own.
-/

namespace Imperative

namespace Parse

/-- How a parser is made of single steps. -/
inductive Steps : {α : Type} → Parse α → Type 1
  | result {α : Type} (a : α) : Steps (pure a)
  | failure {α : Type} (e : ParseError) : Steps (throw e : Parse α)
  | spent {α : Type} : Steps (Parse.tooDeep : Parse α)
  | current : Steps Parse.current
  | nextKind : Steps Parse.nextKind
  | advance : Steps Parse.advance
  | finish (first : Span) : Steps (Parse.finish first)
  | freshId : Steps Parse.freshId
  | bind {α β : Type} {p : Parse α} {f : α → Parse β} (first : Steps p) (next : ∀ a, Steps (f a)) :
      Steps (p >>= f)
  | nested {α : Type} {p : Parse α} (inner : Steps p) : Steps (Parse.nested p)
  | chain (operator? : Token.Kind → Option BinaryOp) {p : Parse Expr} (operand : Steps p)
      (budget : Nat) : Steps (Parse.chain operator? p budget)

namespace Steps

variable {α β : Type}

/-- A choice has the steps of what is chosen. -/
def choice {c : Prop} [decision : Decidable c] {p q : Parse α} (yes : Steps p) (no : Steps q) :
    Steps (if c then p else q) :=
  match decision with
  | .isTrue _ => yes
  | .isFalse _ => no

/-! ## Tokens -/

/-- Asking for the kind of the current token is looking at that token. -/
def kind : Steps Parse.kind :=
  .bind .current fun _ => .result _

/-- Asking where the current token stands is looking at it. -/
def start : Steps Parse.start :=
  .bind .current fun _ => .result _

/-- A token that has to be of a kind is looked at before it is taken. -/
def expect (k : Token.Kind) : Steps (Parse.expect k) :=
  .bind .current fun _ => .choice .advance (.failure _)

/-! ## Expressions -/

/-- The steps of an expression: a chain of chains, over the steps of a factor. -/
def expressionOf {p : Parse Expr} (factor : Steps p) (budget : Nat) :
    Steps (Parse.expressionOf p budget) :=
  .chain additive? (.chain multiplicative? factor budget) budget

/-- The steps of an expression in parentheses. -/
def parenthesised {p : Parse Expr} (inner : Steps p) : Steps (Parse.parenthesised p) :=
  .bind (.expect _) fun _ => .bind inner fun _ => .bind (.expect _) fun _ => .result _

/-- The steps of further arguments, by recursion on the budget of their loop. -/
def argumentsAfter {p : Parse Expr} (inner : Steps p) :
    (budget : Nat) → (read : List Expr) → Steps (Parse.argumentsAfter p budget read)
  | 0, _ => .spent
  | budget + 1, _ => .bind .kind fun _ => .choice
      (.bind .advance fun _ => .bind inner fun _ => argumentsAfter inner budget _) (.result _)

/-- The steps of a call, with arguments or without. -/
def call {p : Parse Expr} (inner : Steps p) (budget : Nat) : Steps (Parse.call p budget) :=
  .bind (.expect _) fun _ => .bind (.expect _) fun _ => .bind .kind fun _ => .choice
    (.bind (.result []) fun _ => .bind (.expect _) fun _ => .result _)
    (.bind inner fun _ => .bind (argumentsAfter inner budget _) fun _ =>
      .bind (.expect _) fun _ => .result _)

/-- The value of a literal is there, or too large. -/
def literal (t : Token) : Steps (Parse.literal t) :=
  .choice (.result _) (.failure _)

/-- The steps of a factor, one case for each kind of token that one can start with. -/
def factor : (budget : Nat) → Steps (Parse.factor budget)
  | 0 => .spent
  | budget + 1 => .nested <| .bind .current fun t => by
    let inner := expressionOf (factor budget) budget
    cases t.kind with
    | plus | minus => exact .bind .advance fun _ => .bind (factor budget) fun _ => .result _
    | integer => exact .bind .advance fun _ => .bind (literal t) fun _ => .result _
    | leftParen => exact parenthesised inner
    | identifier =>
      exact .bind .nextKind fun _ => .choice
        (.bind (call inner budget) fun _ => .bind (.finish _) fun _ => .result _)
        (.bind .advance fun _ => .result _)
    | _ => exact .failure _

/-- The steps of an expression, with one budget for its chains and its factors. -/
def expression (budget : Nat) : Steps (Parse.expression budget) :=
  expressionOf (factor budget) budget

/-! ## Statements -/

/-- The steps of a type: a keyword that names one is taken. -/
def dataType : Steps Parse.dataType :=
  .bind .current fun t => by
    cases typeOfKind? t.kind with
    | none => exact .failure _
    | some type => exact .bind .advance fun _ => .result _

/-- The steps of one parameter. -/
def parameter : Steps Parse.parameter :=
  .bind .start fun _ => .bind .dataType fun _ => .bind (.expect _) fun _ =>
    .bind (.finish _) fun _ => .result _

/-- The steps of further parameters, by recursion on the budget of their loop. -/
def parametersAfter : (budget : Nat) → (read : List Param) →
    Steps (Parse.parametersAfter budget read)
  | 0, _ => .spent
  | budget + 1, _ => .bind .kind fun _ => .choice
      (.bind .advance fun _ => .bind .parameter fun _ => parametersAfter budget _) (.result _)

/-- The steps of all parameters, which may be none. -/
def parameters (budget : Nat) : Steps (Parse.parameters budget) :=
  .bind .kind fun _ => .choice (.result _)
    (.bind .parameter fun _ => parametersAfter budget _)

section Rules

variable {p : Parse Stmt} {l : Parse (List Stmt)}

/-- The steps of statements in braces. -/
def braced (list : Steps l) : Steps (Parse.braced l) :=
  .bind (.expect _) fun _ => .bind list fun _ => .bind (.expect _) fun _ => .result _

/-- The steps of a compound statement, which is one level deeper. -/
def compound (list : Steps l) : Steps (Parse.compound l) :=
  .bind .start fun _ => .bind (.nested (braced list)) fun _ => .bind (.finish _) fun _ => .result _

/-- The steps of a definition.  Its number is taken behind its body. -/
def procedure (list : Steps l) (budget : Nat) : Steps (Parse.procedure l budget) :=
  .bind (.expect _) fun first => .bind .kind fun _ =>
    -- what follows the type does not depend on whether there is one
    let behind (returnType : Option DataType) : Steps (do
        let name ← Parse.expect .identifier
        let _ ← Parse.expect .leftParen
        let params ← Parse.parameters budget
        let _ ← Parse.expect .rightParen
        let body ← Parse.nested (Parse.braced l)
        let id ← Parse.freshId
        return Stmt.procedure id name.lexeme params returnType body (← Parse.finish first.span)) :=
      .bind (.expect _) fun _ => .bind (.expect _) fun _ => .bind (parameters budget) fun _ =>
        .bind (.expect _) fun _ => .bind (.nested (braced list)) fun _ => .bind .freshId fun _ =>
        .bind (.finish _) fun _ => .result _
    .choice (.bind (.bind .dataType fun _ => .result _) behind) (.bind (.result none) behind)

/-- The steps of a simple statement, of which the empty one has none. -/
def simple (budget : Nat) : Steps (Parse.simple budget) :=
  .bind .current fun t => by
    cases t.kind with
    | identifier =>
      exact .bind .nextKind fun _ => .choice
        (.bind (call (expression budget) budget) fun _ => .bind (.finish _) fun _ => .result _)
        (.bind .advance fun _ => .bind (.expect _) fun _ => .bind (expression budget) fun _ =>
          .bind (.finish _) fun _ => .result _)
    | kwInt | kwFloat | kwVar =>
      exact .bind .dataType fun _ => .bind (.expect _) fun _ => .bind (.finish _) fun _ => .result _
    | semicolon | rightParen => exact .result _
    | _ => exact .failure _

/-- The steps of a jump, which takes its first token before it asks which it is. -/
def jump (budget : Nat) : Steps (Parse.jump budget) :=
  .bind .advance fun t => by
    cases t.kind with
    | kwReturn => exact .bind (expression budget) fun _ => .bind (.finish _) fun _ => .result _
    | kwBreak | kwContinue => exact .bind (.finish _) fun _ => .result _
    | _ => exact .failure _

/-- The steps of a conditional, with an alternative or without. -/
def conditional (block : Steps p) (budget : Nat) : Steps (Parse.conditional p budget) :=
  .bind (.expect _) fun _ => .bind (parenthesised (expression budget)) fun _ => .bind block fun _ =>
    .bind .kind fun _ => .choice
      (.bind .advance fun _ => .bind (.bind block fun _ => .result _) fun _ =>
        .bind (.finish _) fun _ => .result _)
      (.bind (.result none) fun _ => .bind (.finish _) fun _ => .result _)

/-- The steps of a loop that tests before each round. -/
def whileLoop (block : Steps p) (budget : Nat) : Steps (Parse.whileLoop p budget) :=
  .bind (.expect _) fun _ => .bind (parenthesised (expression budget)) fun _ => .bind block fun _ =>
    .bind (.finish _) fun _ => .result _

/-- The steps of a loop that tests after each round. -/
def doWhile (block : Steps p) (budget : Nat) : Steps (Parse.doWhile p budget) :=
  .bind (.expect _) fun _ => .bind block fun _ => .bind (.expect _) fun _ =>
    .bind (parenthesised (expression budget)) fun _ => .bind (.expect _) fun _ =>
    .bind (.finish _) fun _ => .result _

/-- The steps of a loop with a head of its own. -/
def forLoop (block : Steps p) (budget : Nat) : Steps (Parse.forLoop p budget) :=
  .bind (.expect _) fun _ => .bind (.expect _) fun _ => .bind (simple budget) fun _ =>
    .bind (.expect _) fun _ => .bind (expression budget) fun _ => .bind (.expect _) fun _ =>
    .bind (simple budget) fun _ => .bind (.expect _) fun _ => .bind block fun _ =>
    .bind (.finish _) fun _ => .result _

/-- The steps of a statement over those of its blocks, one case for each kind of token that a statement
can start with. -/
def statementOf (block : Steps p) (budget : Nat) : Steps (Parse.statementOf p budget) :=
  .bind .current fun t => by
    cases t.kind with
    | kwIf => exact conditional block budget
    | kwWhile => exact whileLoop block budget
    | kwDo => exact doWhile block budget
    | kwFor => exact forLoop block budget
    | kwReturn | kwBreak | kwContinue =>
      exact .bind (jump budget) fun _ => .bind (.expect _) fun _ => .result _
    | identifier | kwInt | kwFloat | kwVar | semicolon =>
      exact .bind (simple budget) fun _ => .bind (.expect _) fun _ => .result _
    | _ => exact .failure _

/-- The steps of a block: a brace tells a compound statement from a single one. -/
def blockOf (statement : Steps p) (list : Steps l) : Steps (Parse.blockOf p l) :=
  .bind .kind fun _ => .choice (compound list) statement

/-- The steps of further statements, by recursion on the budget of their loop. -/
def statementsAfter (statement : Steps p) (list : Steps l) :
    (budget : Nat) → (read : List Stmt) → Steps (Parse.statementsAfter p l budget read)
  | 0, _ => .spent
  | budget + 1, _ => .bind .kind fun k => by
    cases k with
    | rightBrace | endOfInput => exact .result _
    | leftBrace =>
      exact .bind (compound list) fun _ => statementsAfter statement list budget _
    | kwDef =>
      exact .bind (procedure list budget) fun _ => statementsAfter statement list budget _
    | _ => exact .bind statement fun _ => statementsAfter statement list budget _

end Rules

/-- The steps of single statements and of lists of them, by recursion on the budget they share. -/
def statementAndStatements :
    (budget : Nat) → Steps (Parse.statement budget) × Steps (Parse.statements budget)
  | 0 => (.spent, .spent)
  | budget + 1 =>
    let shared := statementAndStatements budget
    (.nested (statementOf (blockOf shared.1 shared.2) budget),
      statementsAfter shared.1 shared.2 budget [])

/-- The steps of a whole program. -/
def program (budget : Nat) : Steps (Parse.program budget) :=
  .bind (statementAndStatements budget).2 fun _ => .bind .current fun _ =>
    .choice (.result _) (.failure _)

end Steps
end Parse
end Imperative
