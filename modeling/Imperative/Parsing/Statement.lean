import Imperative.Parsing.Expression

/-!
# Parsing statements and programs

    program     ::= statements
    statements  ::= { statement | compound | procedure }
    compound    ::= "{" statements "}"
    procedure   ::= "def" [ type ] identifier "(" [ parameter { "," parameter } ] ")" compound
    parameter   ::= type identifier
    block       ::= compound | statement
    statement   ::= simple ";" | jump ";" | conditional | loop
    simple      ::= call | identifier "=" expression | type identifier | (nothing)
    jump        ::= "return" expression | "break" | "continue"
    conditional ::= "if" "(" expression ")" block [ "else" block ]
    loop        ::= "while" "(" expression ")" block
                  | "do" block "while" "(" expression ")" ";"
                  | "for" "(" simple ";" expression ";" simple ")" block

Each rule is a parser over the parsers of what it contains; `statement` and `statements`
tie the knot, under the budget of `Parsing.Expression`.  A procedure gets its number when
its definition ends, so a procedure inside another one has the smaller number.
-/

namespace Imperative

namespace Parse

/-- The type named by a kind. -/
def typeOfKind? : Token.Kind → Option DataType
  | .kwInt => some .integer
  | .kwFloat => some .float
  | .kwVar => some .universal
  | _ => none

/-- Parses a type. -/
def dataType : Parse DataType := do
  let token ← current
  match typeOfKind? token.kind with
  | none => unexpected .type token
  | some type =>
    let _ ← advance
    return type

/-- Parses one parameter. -/
def parameter : Parse Param := do
  let first ← start
  let type ← dataType
  let name ← expect .identifier
  return ⟨name.lexeme, type, ← finish first⟩

/-- Parses the parameters that follow those already read, which come in reverse order. -/
def parametersAfter : Nat → List Param → Parse (List Param)
  | 0, _ => tooDeep
  | budget + 1, read => do
    if (← kind) = .comma then
      let _ ← advance
      let next ← parameter
      parametersAfter budget (next :: read)
    else
      return read.reverse

/-- Parses the parameters of a procedure up to the closing parenthesis. -/
def parameters (budget : Nat) : Parse (List Param) := do
  if (← kind) = .rightParen then return []
  let first ← parameter
  parametersAfter budget [first]

/-- Parses statements in braces. -/
def braced (statements : Parse (List Stmt)) : Parse (List Stmt) := do
  let _ ← expect .leftBrace
  let body ← statements
  let _ ← expect .rightBrace
  return body

/-- Parses a compound statement. -/
def compound (statements : Parse (List Stmt)) : Parse Stmt := do
  let first ← start
  let body ← nested (braced statements)
  return .compound body (← finish first)

/-- The next number for a procedure. -/
def freshId : Parse ProcedureId := do
  let parser ← get
  set { parser with procedures := parser.procedures + 1 }
  return ⟨parser.procedures⟩

/-- Parses the definition of a procedure. -/
def procedure (statements : Parse (List Stmt)) (budget : Nat) : Parse Stmt := do
  let first ← expect .kwDef
  let returnType ← if (← kind).isType then some <$> dataType else pure none
  let name ← expect .identifier
  let _ ← expect .leftParen
  let params ← parameters budget
  let _ ← expect .rightParen
  let body ← nested (braced statements)
  let id ← freshId
  return .procedure id name.lexeme params returnType body (← finish first.span)

/-- Parses a simple statement without the semicolon behind it.  An empty one is seen from
the token that has to follow: a semicolon, or the parenthesis that closes the head of a
loop. -/
def simple (budget : Nat) : Parse Stmt := do
  let token ← current
  match token.kind with
  | .identifier =>
    if (← nextKind) = .leftParen then
      let (name, args) ← call (expression budget) budget
      return .call name args none (← finish token.span)
    else
      let _ ← advance
      let _ ← expect .equals
      let value ← expression budget
      return .assign token.lexeme value (← finish token.span)
  | .kwInt | .kwFloat | .kwVar =>
    let type ← dataType
    let name ← expect .identifier
    return .declaration name.lexeme type (← finish token.span)
  | .semicolon | .rightParen => return .pass token.span.collapse
  | _ => unexpected .statement token

/-- Parses a jump without the semicolon behind it. -/
def jump (budget : Nat) : Parse Stmt := do
  let token ← advance
  match token.kind with
  | .kwReturn =>
    let value ← expression budget
    return .giveBack value (← finish token.span)
  | .kwBreak => return .breakLoop (← finish token.span)
  | .kwContinue => return .continueLoop (← finish token.span)
  | _ => unexpected .jump token

/-- Parses a conditional.  An `else` belongs to the nearest conditional that can take it. -/
def conditional (block : Parse Stmt) (budget : Nat) : Parse Stmt := do
  let first ← expect .kwIf
  let test ← parenthesised (expression budget)
  let body ← block
  let otherwise ←
    if (← kind) = .kwElse then do
      let _ ← advance
      some <$> block
    else pure none
  return .conditional test body otherwise (← finish first.span)

/-- Parses a loop that tests before each round. -/
def whileLoop (block : Parse Stmt) (budget : Nat) : Parse Stmt := do
  let first ← expect .kwWhile
  let test ← parenthesised (expression budget)
  let body ← block
  return .whileLoop test body (← finish first.span)

/-- Parses a loop that tests after each round. -/
def doWhile (block : Parse Stmt) (budget : Nat) : Parse Stmt := do
  let first ← expect .kwDo
  let body ← block
  let _ ← expect .kwWhile
  let test ← parenthesised (expression budget)
  let _ ← expect .semicolon
  return .doWhile test body (← finish first.span)

/-- Parses a loop with a head of its own. -/
def forLoop (block : Parse Stmt) (budget : Nat) : Parse Stmt := do
  let first ← expect .kwFor
  let _ ← expect .leftParen
  let init ← simple budget
  let _ ← expect .semicolon
  let test ← expression budget
  let _ ← expect .semicolon
  let step ← simple budget
  let _ ← expect .rightParen
  let body ← block
  return .forLoop init test step body (← finish first.span)

/-- Parses a statement whose parts are the given blocks. -/
def statementOf (block : Parse Stmt) (budget : Nat) : Parse Stmt := do
  let token ← current
  match token.kind with
  | .kwIf => conditional block budget
  | .kwWhile => whileLoop block budget
  | .kwDo => doWhile block budget
  | .kwFor => forLoop block budget
  | .kwReturn | .kwBreak | .kwContinue =>
    let stmt ← jump budget
    let _ ← expect .semicolon
    return stmt
  | .identifier | .kwInt | .kwFloat | .kwVar | .semicolon =>
    let stmt ← simple budget
    let _ ← expect .semicolon
    return stmt
  | _ => unexpected .statement token

/-- Parses a block: a compound statement or a single statement. -/
def blockOf (statement : Parse Stmt) (statements : Parse (List Stmt)) : Parse Stmt := do
  if (← kind) = .leftBrace then compound statements else statement

/-- Parses the statements, compound statements and procedures that follow those already
read, which come in reverse order, up to a closing brace or the end of the input. -/
def statementsAfter (statement : Parse Stmt) (statements : Parse (List Stmt)) :
    Nat → List Stmt → Parse (List Stmt)
  | 0, _ => tooDeep
  | budget + 1, read => do
    match ← kind with
    | .rightBrace | .endOfInput => return read.reverse
    | .leftBrace =>
      let next ← compound statements
      statementsAfter statement statements budget (next :: read)
    | .kwDef =>
      let next ← procedure statements budget
      statementsAfter statement statements budget (next :: read)
    | _ =>
      let next ← statement
      statementsAfter statement statements budget (next :: read)

mutual

/-- Parses one statement. -/
def statement : Nat → Parse Stmt
  | 0 => tooDeep
  | budget + 1 =>
    nested (statementOf (blockOf (statement budget) (statements budget)) budget)

/-- Parses statements up to a closing brace or the end of the input. -/
def statements : Nat → Parse (List Stmt)
  | 0 => tooDeep
  | budget + 1 => statementsAfter (statement budget) (statements budget) budget []

end

/-- Parses a whole program. -/
def program (budget : Nat) : Parse Module := do
  let body ← statements budget
  let token ← current
  if token.kind = .endOfInput then return ⟨body⟩
  else unexpected .endOfInput token

end Parse

/-- Parses a program, and gives the parser as it is afterwards. -/
def Parser.parse (parser : Parser) : Except ParseError Module × Parser :=
  (Parse.program parser.budget).run parser

/-- Parses a whole text. -/
def Module.parse (text : String) : Except ParseError Module :=
  (Parser.ofString text).parse.1

end Imperative
