import Imperative.Parsing.Error
import Imperative.Token.Lexer

/-!
# Parsers

A *parser* is what is left to read, together with what it remembers between tokens: the
span of the last token it took, how many procedures it has numbered, and how deep it is
nested.  It keeps all of this when it fails, so a parser can be asked again.

## Reading ahead

What is left to read is the list of items of the text, tokens and faults alike, followed
by the end token for ever.  Looking at a token does not take it.  A fault is met when
somebody looks at the place where it stands, and is gone afterwards: looking at the
current token removes a fault there, and looking one token further removes a fault behind
the current token, which itself stays.

## Nesting

The limit on nesting is counted up by `enter`.  `nested` counts down again whatever the
outcome, while an operator chain gives its levels back only if it succeeds: levels of a
chain that fails stay taken.
-/

namespace Imperative

/-- The deepest nesting of blocks, statements and expressions that is accepted.  An
operator chain counts one level per operator, since it builds a tree that leans left. -/
def maxNesting : Nat := 1024

/-- What is left to read, and what is remembered between tokens. -/
structure Parser where
  /-- The items not yet taken. -/
  items : List Item
  /-- The token behind the last item. -/
  final : Token
  /-- The span of the last token taken. -/
  previous : Span := {}
  /-- How many procedure definitions have been read to their ends. -/
  procedures : Nat := 0
  /-- How many levels of nesting are taken. -/
  depth : Nat := 0

/-- The parser for the rest of a text. -/
def Parser.ofCursor (c : Cursor) : Parser :=
  { items := c.items, final := c.endToken }

/-- The parser for a whole text. -/
def Parser.ofString (text : String) : Parser :=
  .ofCursor (.ofString text)

/-- Parsing: a parser goes in, and comes out again with a result or a failure. -/
abbrev Parse := ExceptT ParseError (StateM Parser)

namespace Parse

/-- The current token.  A fault in its place is removed and reported. -/
def current : Parse Token := do
  let parser ← get
  match parser.items with
  | [] => return parser.final
  | .ok token :: _ => return token
  | .error fault :: rest =>
    set { parser with items := rest }
    throw (.lexical fault)

/-- The kind of the current token. -/
def kind : Parse Token.Kind :=
  return (← current).kind

/-- The kind of the token behind the current one.  A fault in its place is removed and
reported, and the current token stays. -/
def nextKind : Parse Token.Kind := do
  let token ← current
  let parser ← get
  match parser.items.tail with
  | [] => return parser.final.kind
  | .ok next :: _ => return next.kind
  | .error fault :: rest =>
    set { parser with items := .ok token :: rest }
    throw (.lexical fault)

/-- Takes the current token.  The end token can be taken any number of times. -/
def advance : Parse Token := do
  let token ← current
  modify fun parser => { parser with items := parser.items.tail, previous := token.span }
  return token

/-- Fails because of a token that cannot stand where it stands. -/
def unexpected {α : Type} (expected : Expectation) (found : Token) : Parse α :=
  throw (.unexpected expected found)

/-- Takes the current token if it is of the given kind. -/
def expect (kind : Token.Kind) : Parse Token := do
  let token ← current
  if token.kind = kind then advance else unexpected (.kind kind) token

/-- Fails because the current token is nested too deep. -/
def tooDeep {α : Type} : Parse α := do
  let token ← current
  throw (.tooDeep maxNesting token.span)

/-- Takes one level of nesting. -/
def enter : Parse Unit := do
  if maxNesting ≤ (← get).depth then tooDeep
  modify fun parser => { parser with depth := parser.depth + 1 }

/-- Gives levels of nesting back. -/
def leave (levels : Nat) : Parse Unit :=
  modify fun parser => { parser with depth := parser.depth - levels }

/-- Parses one level deeper, and gives that level back whether or not this succeeds. -/
def nested {α : Type} (inner : Parse α) : Parse α := do
  enter
  ExceptT.mk do
    let outcome ← inner.run
    modify fun parser => { parser with depth := parser.depth - 1 }
    return outcome

/-- The span of the current token. -/
def start : Parse Span :=
  return (← current).span

/-- The span from `first` to the end of the last token taken. -/
def finish (first : Span) : Parse Span :=
  return first.through (← get).previous

end Parse

end Imperative
