/-!
# Places in a source text

A *position* is where a reader stands: how many bytes lie behind it, on which line it is
and at which column.  Bytes are those of the UTF-8 encoding, columns count characters,
and only the newline character ends a line.  A *span* is a range of bytes together with
the line and the column of its start; every token, every node of a tree and every
diagnostic carries one.

The two are kept apart on purpose.  A position is what advancing over characters changes,
so it is defined by that: `Position.after` folds `Position.advance` over the characters
read.  A span never moves; it is only ever extended to the end of another one.
-/

namespace Imperative

/-- Where a reader stands in a text: bytes behind it, line, and column in characters. -/
structure Position where
  offset : Nat := 0
  line : Nat := 1
  column : Nat := 1
  deriving DecidableEq, Repr, Inhabited

namespace Position

/-- The start of every text. -/
def start : Position := {}

/-- The position behind the character `c` when `p` is the one in front of it. -/
def advance (p : Position) (c : Char) : Position :=
  if c = '\n' then ⟨p.offset + c.utf8Size, p.line + 1, 1⟩
  else ⟨p.offset + c.utf8Size, p.line, p.column + 1⟩

/-- The position behind the characters `cs` when `p` is the one in front of them. -/
def after (p : Position) (cs : List Char) : Position :=
  cs.foldl advance p

@[simp] theorem after_nil (p : Position) : p.after [] = p := rfl

@[simp] theorem after_cons (p : Position) (c : Char) (cs : List Char) :
    p.after (c :: cs) = (p.advance c).after cs := rfl

/-- Reading two stretches of text one after the other is reading their concatenation. -/
theorem after_append (p : Position) (cs ds : List Char) :
    p.after (cs ++ ds) = (p.after cs).after ds := by
  simp [after]

/-- Every character moves the position by its own number of bytes. -/
@[simp] theorem offset_advance (p : Position) (c : Char) :
    (p.advance c).offset = p.offset + c.utf8Size := by
  unfold advance; split <;> rfl

end Position

/-- A range of bytes `[start, stop)` with the line and the column at which it starts. -/
structure Span where
  start : Nat := 0
  stop : Nat := 0
  line : Nat := 0
  column : Nat := 0
  deriving DecidableEq, Repr, Inhabited

namespace Span

/-- The bytes between two positions, the first of which gives line and column. -/
def between (first last : Position) : Span :=
  ⟨first.offset, last.offset, first.line, first.column⟩

/-- Extends a span up to the end of another one.  A span that already reaches further
keeps its own end. -/
def through (s other : Span) : Span :=
  { s with stop := max other.stop s.stop }

/-- The empty span at the start of `s`. -/
def collapse (s : Span) : Span :=
  { s with stop := s.start }

/-- Number of bytes covered; a span that ends before it starts covers none. -/
def length (s : Span) : Nat :=
  s.stop - s.start

/-- The text `line:column` by which messages name a place. -/
def place (s : Span) : String :=
  toString s.line ++ ":" ++ toString s.column

end Span

end Imperative
