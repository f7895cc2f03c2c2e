import Imperative.Span

/-!
# Diagnostics

What a failure tells the reader of a program: a code that names the kind of failure, a
message, one label that marks a range of bytes of the source, and, for some kinds, a piece
of advice.  Each stage has its own type of failures, with the causes as constructors; the
wording is a function from those causes to diagnostics.
-/

namespace Imperative

/-- A marked range of bytes, with a text of its own or without. -/
structure Label where
  offset : Nat
  length : Nat
  text : Option String := none
  deriving DecidableEq, Repr

/-- Marks the bytes of a span. -/
def Span.label (s : Span) (text : Option String := none) : Label :=
  ⟨s.start, s.length, text⟩

/-- A failure as it is reported. -/
structure Diagnostic where
  code : String
  message : String
  label : Label
  help : Option String := none
  deriving DecidableEq, Repr

end Imperative
