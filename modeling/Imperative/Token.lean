import Imperative.Diagnostic

/-!
# Tokens

The words of the language: punctuation marks, twelve keywords, integers, identifiers and
the mark of the end of the input.  A token is a kind together with its text and its span.
-/

namespace Imperative

namespace Token

/-- The kinds of tokens. -/
inductive Kind where
  | plus | minus | times | slash
  | leftParen | rightParen | equals | semicolon | leftBrace | rightBrace | comma
  | kwVar | kwInt | kwFloat | kwReturn | kwIf | kwElse | kwDef
  | kwFor | kwWhile | kwDo | kwBreak | kwContinue
  | integer | identifier | endOfInput
  deriving DecidableEq, Repr, Inhabited

namespace Kind

/-- The keyword spelled by a word, if it is one. -/
def ofKeyword? : String → Option Kind
  | "var" => some kwVar
  | "int" => some kwInt
  | "float" => some kwFloat
  | "return" => some kwReturn
  | "if" => some kwIf
  | "else" => some kwElse
  | "def" => some kwDef
  | "for" => some kwFor
  | "while" => some kwWhile
  | "do" => some kwDo
  | "break" => some kwBreak
  | "continue" => some kwContinue
  | _ => none

/-- The punctuation mark that a character is, if it is one. -/
def ofPunctuation? : Char → Option Kind
  | '+' => some plus
  | '-' => some minus
  | '*' => some times
  | '/' => some slash
  | '(' => some leftParen
  | ')' => some rightParen
  | '=' => some equals
  | ';' => some semicolon
  | '\x7b' => some leftBrace
  | '\x7d' => some rightBrace
  | ',' => some comma
  | _ => none

/-- The kind of a word: a keyword if it spells one, else an identifier. -/
def ofWord (word : String) : Kind :=
  (ofKeyword? word).getD identifier

/-- Whether the kind is a keyword that names a type. -/
def isType : Kind → Bool
  | kwVar | kwInt | kwFloat => true
  | _ => false

/-- The name of the kind in a printed token. -/
def name : Kind → String
  | plus => "Plus"
  | minus => "Minus"
  | times => "Mul"
  | slash => "Div"
  | leftParen => "LParen"
  | rightParen => "RParen"
  | equals => "Eq"
  | semicolon => "Semicolon"
  | leftBrace => "LBrace"
  | rightBrace => "RBrace"
  | comma => "Comma"
  | kwVar => "Var"
  | kwInt => "Int"
  | kwFloat => "Float"
  | kwReturn => "Return"
  | kwIf => "If"
  | kwElse => "Else"
  | kwDef => "Def"
  | kwFor => "For"
  | kwWhile => "While"
  | kwDo => "Do"
  | kwBreak => "Break"
  | kwContinue => "Continue"
  | integer => "Integer"
  | identifier => "Identifier"
  | endOfInput => "Eof"

/-- The words by which a message speaks of the kind. -/
def description : Kind → String
  | plus => "'+'"
  | minus => "'-'"
  | times => "'*'"
  | slash => "'/'"
  | leftParen => "'('"
  | rightParen => "')'"
  | equals => "'='"
  | semicolon => "';'"
  | leftBrace => "'\x7b'"
  | rightBrace => "'\x7d'"
  | comma => "','"
  | kwVar => "'var'"
  | kwInt => "'int'"
  | kwFloat => "'float'"
  | kwReturn => "'return'"
  | kwIf => "'if'"
  | kwElse => "'else'"
  | kwDef => "'def'"
  | kwFor => "'for'"
  | kwWhile => "'while'"
  | kwDo => "'do'"
  | kwBreak => "'break'"
  | kwContinue => "'continue'"
  | integer => "integer"
  | identifier => "identifier"
  | endOfInput => "end of input"

end Kind

end Token

/-- A token: its kind, its text and where it stands. -/
structure Token where
  kind : Token.Kind
  lexeme : String
  span : Span
  deriving DecidableEq, Repr, Inhabited

namespace Token

/-- Whether two tokens agree in kind and text, wherever they stand. -/
def alike (t u : Token) : Bool :=
  t.kind == u.kind && t.lexeme == u.lexeme

/-- Whether two token lists agree token by token, wherever the tokens stand. -/
def allAlike : List Token → List Token → Bool
  | [], [] => true
  | t :: ts, u :: us => t.alike u && allAlike ts us
  | _, _ => false

/-- The printed form of a token, `Kind("text")@line:column`. -/
def display (t : Token) : String :=
  t.kind.name ++ "(\"" ++ t.lexeme ++ "\")@" ++ t.span.place

end Token

/-- A lexical fault: a character with which no token starts. -/
structure Fault where
  char : Char
  span : Span
  deriving DecidableEq, Repr

/-- How a lexical fault is reported. -/
def Fault.diagnostic (f : Fault) : Diagnostic where
  code := "lexer::invalid_char"
  message := "Lexer error on '" ++ f.char.toString ++ "' line: " ++ toString f.span.line
    ++ " column: " ++ toString f.span.column
  label := f.span.label (some "no token starts with this character")

end Imperative
