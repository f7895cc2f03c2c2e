import Imperative.Token.Cursor

/-!
# Lexers

A *lexer* reads one text in three ways that share a cursor: token by token without an end
(`Lexer.next`, which gives the end token for ever once the text is used up), as an
enumeration that stops (`Lexer.advance?`), and as one list (`Lexer.tokens`).  The
enumeration is over for good once it has itself met the end or a fault, even if reading
token by token would still find something; that is the one thing a lexer remembers beyond
its cursor.
-/

namespace Imperative

/-- A cursor, and whether the enumeration of its tokens is over. -/
structure Lexer where
  cursor : Cursor
  finished : Bool := false
  deriving DecidableEq, Repr

namespace Lexer

/-- The lexer in front of a whole text. -/
def ofString (text : String) : Lexer :=
  { cursor := .ofString text }

/-- The next unread character. -/
def peek? (l : Lexer) : Option Char :=
  l.cursor.rest.head?

/-- The next item, or the end token when there is none. -/
def next (l : Lexer) : Item × Lexer :=
  match l.cursor.next? with
  | none => (.ok l.cursor.endToken, { l with cursor := l.cursor.finish })
  | some (item, cursor) => (item, { l with cursor })

/-- The next item of the enumeration, which ends behind the last token or the first fault. -/
def advance? (l : Lexer) : Option Item × Lexer :=
  if l.finished then (none, l)
  else
    match l.cursor.next? with
    | none => (none, ⟨l.cursor.finish, true⟩)
    | some (.error fault, cursor) => (some (.error fault), ⟨cursor, true⟩)
    | some (.ok token, cursor) => (some (.ok token), { l with cursor })

/-- The rest of the enumeration as a list, or the fault that ends it. -/
def tokens (l : Lexer) : Except Fault (List Token) × Lexer :=
  if l.finished then (.ok [], l)
  else ((l.cursor.tokens).1, ⟨(l.cursor.tokens).2, true⟩)

end Lexer

end Imperative
