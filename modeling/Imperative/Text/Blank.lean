/-!
# Blank characters

The characters that may stand between tokens: those with the Unicode property
White_Space.  The property holds of 25 characters, which fill ten ranges of code points.
It is strictly larger than the blanks of ASCII: it has the vertical tab and the form feed,
the next-line character, the no-break spaces and the typographic spaces.
-/

namespace Imperative.Text

/-- The ranges of code points, both ends included, that make up White_Space. -/
def blankRanges : List (Nat × Nat) :=
  [(0x0009, 0x000D), (0x0020, 0x0020), (0x0085, 0x0085), (0x00A0, 0x00A0), (0x1680, 0x1680),
    (0x2000, 0x200A), (0x2028, 0x2029), (0x202F, 0x202F), (0x205F, 0x205F), (0x3000, 0x3000)]

/-- Whether a character has the property White_Space. -/
def isBlank (c : Char) : Bool :=
  blankRanges.any fun r => r.1 ≤ c.toNat && c.toNat ≤ r.2

-- The table holds 25 characters, in ascending order and without overlap.
example : (blankRanges.map fun r => r.2 + 1 - r.1).sum = 25 := by decide

example : blankRanges.Pairwise fun r s => r.2 < s.1 := by decide

/-- Every blank of ASCII is a blank. -/
theorem isBlank_of_isWhitespace {c : Char} (h : c.isWhitespace = true) : isBlank c = true := by
  simp only [Char.isWhitespace, Bool.or_eq_true, decide_eq_true_eq] at h
  rcases h with ((rfl | rfl) | rfl) | rfl <;> decide

end Imperative.Text
