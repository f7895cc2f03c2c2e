import Imperative.Parsing.State
import Imperative.Tree

/-!
# Parsing expressions

    expression ::= term { ( "+" | "-" ) term }
    term       ::= factor { ( "*" | "/" ) factor }
    factor     ::= ( "+" | "-" ) factor | integer | "(" expression ")" | call | identifier
    call       ::= identifier "(" [ expression { "," expression } ] ")"

The two levels of operators are one combinator, `chain`, over the parser of their
operands, and argument lists are another, `arguments`.  Only `factor` calls itself, so the
whole grammar of expressions is a single recursion.

## The budget

Recursion and loops are bounded by a number, the *budget*.  Between one token taken and the
next it is lowered at most twice by nesting, and every round of a loop takes a token, so a
budget a little above twice the number of items left is never used up; `Parser.budget` is
chosen well above that.  If it ever were, parsing would fail as it does for a nest that is
too deep.
-/

namespace Imperative

/-- A bound on the recursion of parsing that no text can reach. -/
def Parser.budget (parser : Parser) : Nat :=
  4 * parser.items.length + 8

namespace Parse

/-- The operator that joins terms to an expression. -/
def additive? : Token.Kind → Option BinaryOp
  | .plus => some .add
  | .minus => some .sub
  | _ => none

/-- The operator that joins factors to a term. -/
def multiplicative? : Token.Kind → Option BinaryOp
  | .times => some .mul
  | .slash => some .div
  | _ => none

/-- Parses the operators and operands that follow `lhs`, of which `levels` levels of
nesting are already taken. -/
def chainAfter (operator? : Token.Kind → Option BinaryOp) (operand : Parse Expr) :
    Nat → Nat → Expr → Parse Expr
  | 0, _, _ => tooDeep
  | budget + 1, levels, lhs => do
    match operator? (← kind) with
    | none =>
      leave levels
      return lhs
    | some op =>
      let _ ← advance
      enter
      let rhs ← operand
      chainAfter operator? operand budget (levels + 1)
        (.binary op lhs rhs (lhs.span.through rhs.span))

/-- Parses operands joined by operators of one level, which group to the left. -/
def chain (operator? : Token.Kind → Option BinaryOp) (operand : Parse Expr) (budget : Nat) :
    Parse Expr := do
  let lhs ← operand
  chainAfter operator? operand budget 0 lhs

/-- Parses an expression whose factors are parsed by `factor`. -/
def expressionOf (factor : Parse Expr) (budget : Nat) : Parse Expr :=
  chain additive? (chain multiplicative? factor budget) budget

/-- Parses an expression in parentheses, which leave no trace in the tree. -/
def parenthesised (expression : Parse Expr) : Parse Expr := do
  let _ ← expect .leftParen
  let inner ← expression
  let _ ← expect .rightParen
  return inner

/-- Parses the arguments that follow those already read, which come in reverse order. -/
def argumentsAfter (expression : Parse Expr) : Nat → List Expr → Parse (List Expr)
  | 0, _ => tooDeep
  | budget + 1, read => do
    if (← kind) = .comma then
      let _ ← advance
      let next ← expression
      argumentsAfter expression budget (next :: read)
    else
      return read.reverse

/-- Parses the name and the arguments of a call. -/
def call (expression : Parse Expr) (budget : Nat) : Parse (String × List Expr) := do
  let name ← expect .identifier
  let _ ← expect .leftParen
  let args ←
    if (← kind) = .rightParen then pure []
    else do
      let first ← expression
      argumentsAfter expression budget [first]
  let _ ← expect .rightParen
  return (name.lexeme, args)

/-- The value of a run of digits. -/
def decimalValue (digits : List Char) : Nat :=
  digits.foldl (fun value digit => 10 * value + (digit.toNat - '0'.toNat)) 0

/-- The value of an integer token, which has to fit into 64 bits with a sign. -/
def literal (token : Token) : Parse Int64 :=
  let value := decimalValue token.lexeme.toList
  if value < 1 <<< 63 then return Int64.ofNat value else throw (.integerTooLarge token)

/-- Parses a factor. -/
def factor : Nat → Parse Expr
  | 0 => tooDeep
  | budget + 1 => nested do
    let token ← current
    match token.kind with
    | .plus | .minus =>
      let _ ← advance
      let operand ← factor budget
      return .unary (if token.kind = .plus then .plus else .minus) operand
        (token.span.through operand.span)
    | .integer =>
      let _ ← advance
      return .number (← literal token) token.span
    | .leftParen => parenthesised (expressionOf (factor budget) budget)
    | .identifier =>
      if (← nextKind) = .leftParen then
        let (name, args) ← call (expressionOf (factor budget) budget) budget
        return .call name args none (← finish token.span)
      else
        let _ ← advance
        return .var token.lexeme token.span
    | _ => unexpected .expression token

/-- Parses an expression. -/
def expression (budget : Nat) : Parse Expr :=
  expressionOf (factor budget) budget

end Parse

end Imperative
