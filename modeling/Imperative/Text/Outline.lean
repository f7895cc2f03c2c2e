/-!
# Outlines

An *outline* is the indented text form of a tree.  It knows three shapes: a leaf, which is
a piece of text; an item with a label in front of it; and a group, which opens, lists its
items on lines of their own, four columns further in and each followed by a comma, and
closes on a line at its own indentation.  A group without items opens and closes on the
spot.

Records, tuples and lists are groups that differ only in what opens and closes them, so
the layout is decided here once for all of them.
-/

namespace Imperative.Text

/-- A tree of text, laid out by `Outline.render`. -/
inductive Outline where
  /-- A piece of text that stays on its line. -/
  | leaf (text : String)
  /-- An item with a label and a colon in front of it. -/
  | labelled (label : String) (item : Outline)
  /-- Items between two texts, one line for each item. -/
  | group (opening closing : String) (items : List Outline)

namespace Outline

/-- A number as a leaf. -/
def number (n : Nat) : Outline :=
  leaf (toString n)

/-- A text in double quotes.  The texts put into outlines are identifiers, which are made
of ASCII letters and digits, so nothing in them needs an escape. -/
def quoted (text : String) : Outline :=
  leaf ("\"" ++ text ++ "\"")

/-- A named record: every item is a labelled field. -/
def record (name : String) (fields : List Outline) : Outline :=
  group (name ++ " \x7b") "\x7d" fields

/-- A named constructor applied to unlabelled items. -/
def apply (name : String) (items : List Outline) : Outline :=
  group (name ++ "(") ")" items

/-- A list in brackets. -/
def list (items : List Outline) : Outline :=
  group "[" "]" items

/-- A value that may be absent. -/
def optional : Option Outline → Outline
  | none => leaf "None"
  | some item => apply "Some" [item]

/-- The blanks in front of a line at indentation `depth`. -/
def indent (depth : Nat) : String :=
  String.ofList (List.replicate (4 * depth) ' ')

mutual

/-- Appends the text of an outline that stands at indentation `depth`. -/
def renderOnto (depth : Nat) (text : String) : Outline → String
  | leaf piece => text ++ piece
  | labelled label item => item.renderOnto depth (text ++ label ++ ": ")
  | group opening closing [] => text ++ opening ++ closing
  | group opening closing (item :: items) =>
    renderLines (depth + 1) (text ++ opening ++ "\n") (item :: items) ++ indent depth ++ closing

/-- Appends one line, or one stretch of lines, for each item of a group. -/
def renderLines (depth : Nat) (text : String) : List Outline → String
  | [] => text
  | item :: items =>
    renderLines depth (item.renderOnto depth (text ++ indent depth) ++ ",\n") items

end

/-- The text of an outline that starts in the first column. -/
def render (o : Outline) : String :=
  o.renderOnto 0 ""

end Outline

end Imperative.Text
