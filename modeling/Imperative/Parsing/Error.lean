import Imperative.Token

/-!
# Why a text is not a program

Parsing stops at the first thing that does not fit: a fault of the text itself, a token
that cannot stand where it stands, a nest that is too deep, or an integer that is too
large.
-/

namespace Imperative

/-- What could have stood in the place of an unexpected token. -/
inductive Expectation where
  | kind (kind : Token.Kind)
  | type
  | statement
  | jump
  | expression
  | endOfInput
  deriving DecidableEq, Repr

/-- The words by which a message speaks of an expectation. -/
def Expectation.description : Expectation → String
  | kind k => k.description
  | type => "a type"
  | statement => "a statement"
  | jump => "'return', 'break' or 'continue'"
  | expression => "an expression"
  | endOfInput => "end of input"

/-- Why parsing failed. -/
inductive ParseError where
  /-- The text has no token where one was asked for. -/
  | lexical (fault : Fault)
  /-- A token stands where only something else can. -/
  | unexpected (expected : Expectation) (found : Token)
  /-- Blocks, statements and expressions are nested deeper than the limit. -/
  | tooDeep (limit : Nat) (span : Span)
  /-- An integer literal does not fit into 64 bits. -/
  | integerTooLarge (literal : Token)
  deriving DecidableEq, Repr

namespace ParseError

/-- The place to which a failure of parsing points. -/
def span : ParseError → Span
  | lexical fault => fault.span
  | unexpected _ found => found.span
  | tooDeep _ span => span
  | integerTooLarge literal => literal.span

/-- How a failure of parsing is reported. -/
def diagnostic : ParseError → Diagnostic
  | lexical fault => fault.diagnostic
  | unexpected expected found => {
      code := "parser::unexpected_token"
      message := "Unexpected token: expected " ++ expected.description ++ ", got "
        ++ found.kind.description ++ " '" ++ found.lexeme ++ "' at " ++ found.span.place
      label := found.span.label }
  | tooDeep limit span => {
      code := "parser::too_deep"
      message := "Nesting deeper than " ++ toString limit ++ " levels at " ++ span.place
      label := span.label (some "nested too deeply")
      help := some "split the expression or block into smaller pieces" }
  | integerTooLarge literal => {
      code := "parser::invalid_integer"
      message := "Integer literal '" ++ literal.lexeme ++ "' at " ++ literal.span.place
        ++ " is out of range"
      label := literal.span.label }

end ParseError

end Imperative
