import Imperative.Proofs.Lexemes
import Imperative.Proofs.StatementCompleteness
import Mathlib

/-!
# Parsing is complete

What the grammar derives from the tokens of a text, parsing accepts, as long as no statement,
compound statement or procedure at the top of the program costs more levels of nesting than
there are; and if one does, parsing fails for that reason and no other.  Together with
`Module.parse_sound` this says which texts are programs.

The costs are those of `Proofs.Nesting`.  `Proofs.ExpressionCompleteness` and
`Proofs.StatementCompleteness` prove this rule by rule; here the rules meet the text.
-/

namespace Imperative

open Grammar

namespace Parse

variable {tokens : List Token} {m : Module}

theorem program_accepts (d : ProgramDerivation tokens m) {budget : Nat}
    (hbudget : tokens.length + 2 ≤ budget) (previous : Span) :
    Accepts (program budget) 0 d.statements.cost (·.kind = .endOfInput) previous 0 tokens m
      d.count := by
  have hbody := (d.statements.accepted.statements hbudget previous).mono fun _ => .inr
  refine hbody.bind_last (.current_bind fun v hv => ?_)
  rw [if_pos (by exact hv)]
  exact .pure m

end Parse

/-- The parser for a text without faults has the tokens of the text ahead of it. -/
theorem Parser.ofString_eq_over {text : String} {tokens : List Token}
    (hlex : lex text = .ok tokens) :
    Parser.ofString text = .over (Cursor.ofString text).endToken tokens {} 0 0 := by
  rw [Parser.ofString, Parser.ofCursor, items_of_lex_eq_ok hlex]
  rfl

/-- Parsing in terms of the cost of the whole program. -/
theorem Module.parse_of_derivation {text : String} {tokens : List Token} {m : Module}
    (hlex : lex text = .ok tokens) (d : ProgramDerivation tokens m) :
    (d.statements.cost ≤ maxNesting → Module.parse text = .ok m)
      ∧ (maxNesting < d.statements.cost →
        ∃ span, Module.parse text = .error (.tooDeep maxNesting span)) := by
  have hparser := Parser.ofString_eq_over hlex
  have hbudget : tokens.length + 2 ≤ (Parser.ofString text).budget := by
    rw [hparser, Parser.budget, Parser.over, List.length_map]
    omega
  obtain ⟨hok, hdeep⟩ := Parse.program_accepts d hbudget {} (Cursor.ofString text).endToken []
    0 rfl (Nat.zero_le _)
  rw [List.append_nil, Nat.zero_add, ← hparser] at hok hdeep
  constructor
  · intro hfits
    rw [Module.parse, Parser.parse, hok hfits]
  · intro hcost
    obtain ⟨span, s, hs⟩ := hdeep hcost
    exact ⟨span, by rw [Module.parse, Parser.parse, hs]⟩

/-- **Parsing is complete, and the limit on nesting is exact.**  Take a text whose tokens the
grammar derives as a program.  If no statement, compound statement or procedure at its top costs
more than 1024 levels of nesting, the text parses, and the module is the tree of the derivation.
If one of them costs more, parsing fails because of a nest that is too deep. -/
theorem Module.parse_complete {text : String} {tokens : List Token} {m : Module}
    (hlex : lex text = .ok tokens) (d : ProgramDerivation tokens m) :
    ((∀ c ∈ d.statements.itemCosts, c ≤ 1024) → Module.parse text = .ok m)
      ∧ ((∃ c ∈ d.statements.itemCosts, 1024 < c) →
        ∃ span, Module.parse text = .error (.tooDeep 1024 span)) := by
  obtain ⟨hok, hdeep⟩ := Module.parse_of_derivation hlex d
  constructor
  · intro hcosts
    exact hok ((d.statements.cost_le_iff 1024).mpr hcosts)
  · rintro ⟨c, hc, hhigh⟩
    refine hdeep (Nat.lt_of_not_le fun hlow => ?_)
    exact absurd ((d.statements.cost_le_iff 1024).mp hlow c hc) (Nat.not_le_of_lt hhigh)

/-- A chain with a sign and a call in its second operand: the operand costs 3 levels behind one
operator, and the statement one more. -/
theorem Module.parse_complete_chain :
    ∃ (text : String) (tokens : List Token) (m : Module) (d : ProgramDerivation tokens m),
      text = "x = 1 - -f(2);" ∧ lex text = .ok tokens ∧ d.statements.itemCosts = [5]
        ∧ Module.parse text = .ok m := by
  let x : Token := ⟨.identifier, "x", ⟨0, 1, 1, 1⟩⟩
  let equals : Token := ⟨.equals, "=", ⟨2, 3, 1, 3⟩⟩
  let one : Token := ⟨.integer, "1", ⟨4, 5, 1, 5⟩⟩
  let minus : Token := ⟨.minus, "-", ⟨6, 7, 1, 7⟩⟩
  let sign : Token := ⟨.minus, "-", ⟨8, 9, 1, 9⟩⟩
  let f : Token := ⟨.identifier, "f", ⟨9, 10, 1, 10⟩⟩
  let opens : Token := ⟨.leftParen, "(", ⟨10, 11, 1, 11⟩⟩
  let two : Token := ⟨.integer, "2", ⟨11, 12, 1, 12⟩⟩
  let closes : Token := ⟨.rightParen, ")", ⟨12, 13, 1, 13⟩⟩
  let stop : Token := ⟨.semicolon, ";", ⟨13, 14, 1, 14⟩⟩
  have hlex : lex "x = 1 - -f(2);" =
      .ok [x, equals, one, minus, sign, f, opens, two, closes, stop] := by cbv
  let first : ExprDerivation (.factor (.number 1 one.span)) [one] :=
    .number rfl (by decide +zetaReduce)
  let argument : ExprDerivation (.factor (.number 2 two.span)) [two] :=
    .number rfl (by decide +zetaReduce)
  let call : ExprDerivation (.call f.lexeme [.number 2 two.span]) [f, opens, two, closes] :=
    .callSome rfl rfl (.term (.factor argument)) .moreNone rfl
  let second := ExprDerivation.sign (t := sign) .minus (.invoke call)
  let value := ExprDerivation.sum (t := minus) (.term (.factor first)) .minus (.factor second)
  let assignment : SimpleDerivation stop _ _ := .assign (x := x) (q := equals) rfl rfl value
  let d : ProgramDerivation [x, equals, one, minus, sign, f, opens, two, closes, stop] _ :=
    ⟨0, .cons (.itemStatement (.simple assignment rfl)) .nil⟩
  have hcosts : d.statements.itemCosts = [5] := rfl
  refine ⟨_, _, _, d, rfl, hlex, hcosts, (Module.parse_complete hlex d).1 ?_⟩
  rw [hcosts]
  decide

end Imperative
