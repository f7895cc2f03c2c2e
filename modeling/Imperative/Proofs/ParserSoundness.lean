import Imperative.Proofs.Derivation
import Imperative.Proofs.Lexemes
import Imperative.Proofs.StatementSoundness
import Mathlib

/-!
# Parsing is sound

What parsing accepts is a program of the grammar, and the tree it gives is the tree of a
derivation of all the tokens of the text.  `Proofs.ExpressionSoundness` and
`Proofs.StatementSoundness` prove this rule by rule; here the rules meet the text.
-/

namespace Imperative

open Grammar

/-- A text that parses has no faults, and its tokens derive the module. -/
theorem Module.exists_derivation_of_parse {text : String} {m : Module}
    (h : Module.parse text = .ok m) :
    ∃ tokens, lex text = .ok tokens ∧ Nonempty (ProgramDerivation tokens m) := by
  rcases run : (Parser.ofString text).parse with ⟨result, behind⟩
  have ok : result = .ok m := by
    rw [← h, Module.parse, run]
  subst ok
  have ends : (Parser.ofString text).Ends := rfl
  have noEnd : ∀ t, .ok t ∈ (Parser.ofString text).items → t.kind ≠ .endOfInput :=
    fun t ht => Cursor.kind_ne_endOfInput ht
  obtain ⟨tokens, items, ⟨d⟩⟩ := Parse.program_ok ends noEnd run
  exact ⟨tokens, lex_eq_ok items, ⟨⟨behind.procedures, d⟩⟩⟩

/-- **Parsing is sound.**  If a text parses, then it has no lexical fault, no integer in it
is too large, and the grammar derives the module from the list of all its tokens.  In
particular no call of the module is marked. -/
theorem Module.parse_sound {text : String} {m : Module} (h : Module.parse text = .ok m) :
    ∃ tokens, lex text = .ok tokens ∧
      (∀ t ∈ tokens, t.kind = .integer → t.magnitude ≤ 2 ^ 63 - 1) ∧
      Nonempty (ProgramDerivation tokens m) ∧ m.unmarked = m := by
  obtain ⟨tokens, lexed, ⟨d⟩⟩ := Module.exists_derivation_of_parse h
  have unmarked : Stmt.allUnmarked m.body = m.body := d.statements.unmarked
  refine ⟨tokens, lexed, d.statements.magnitude_le, ⟨d⟩, ?_⟩
  rw [Module.unmarked, unmarked]

set_option maxRecDepth 4000 in
/-- A text with an `else` behind two open conditionals, a chain of operators of both levels,
signs, parentheses, and a loop whose head is almost empty. -/
theorem Module.parse_sound_nested :
    ∃ text m, text = "for (;1;) if (1) if (2) x = -(3) - 4 * 5 - 6; else f(7);" ∧
      Module.parse text = .ok m ∧
      ∃ tokens, lex text = .ok tokens ∧
        (∀ t ∈ tokens, t.kind = .integer → t.magnitude ≤ 2 ^ 63 - 1) ∧
        Nonempty (ProgramDerivation tokens m) ∧ m.unmarked = m := by
  have accepted : (Module.parse
      "for (;1;) if (1) if (2) x = -(3) - 4 * 5 - 6; else f(7);").isOk = true := by cbv
  cases h : Module.parse "for (;1;) if (1) if (2) x = -(3) - 4 * 5 - 6; else f(7);" with
  | ok m => exact ⟨_, m, rfl, h, Module.parse_sound h⟩
  | error e =>
    rw [h] at accepted
    cases accepted

end Imperative
