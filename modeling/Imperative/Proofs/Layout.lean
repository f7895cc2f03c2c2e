import Imperative.Proofs.Lexemes
import Imperative.Proofs.MovedRuns
import Imperative.Proofs.ParserComparison
import Mathlib

/-!
# Layout does not change meaning

Blanks and newlines between the tokens of a text decide where the tokens stand, and nothing
else.  Two texts with the same tokens, their places apart, are the same program: they parse to
trees that differ in their spans only, or fail to parse for the same reason, and when they are
run, they end with the same record, or fail in the same stage for the same reason.

What differs in places only is the same once every span is put at the start of the text
(`placeless`).  Parsing is followed by comparing two parsers (`Parse.layout`), analysis and
execution by moving the spans of one tree (`Module.run_moved`).

* `Module.parse_placeless`: parsing two texts with the same tokens.
* `layout_changes_places_only`: parsing and running them.
-/

namespace Imperative

/-- The token without its place. -/
def Token.spelling (t : Token) : Token.Kind × String :=
  (t.kind, t.lexeme)

/-- The start of the text, whatever the place. -/
def Span.forgotten (_ : Span) : Span :=
  Interpreter.programSite

/-- The module with all its places forgotten. -/
def Module.placeless (m : Module) : Module :=
  m.moved Span.forgotten

/-- The failure of parsing with its place forgotten. -/
def ParseError.placeless (e : ParseError) : ParseError :=
  e.moved Span.forgotten

/-- The failure with its place forgotten. -/
def Failure.placeless (failure : Failure) : Failure :=
  failure.moved Span.forgotten

/-! ## Parsing -/

/-- Both parsers are about to read tokens with the same spelling, and have counted alike. -/
structure Parser.ReadsAlike (s s' : Parser) : Prop where
  tokens : ∃ ts us : List Token, s.items = ts.map .ok ∧ s'.items = us.map .ok ∧
    List.Forall₂ (fun t u => t.spelling = u.spelling) ts us
  final : s.final.spelling = s'.final.spelling
  procedures : s.procedures = s'.procedures
  depth : s.depth = s'.depth

namespace Parse

theorem kind_eq_of_spelling_eq {t t' : Token} (h : t.spelling = t'.spelling) :
    t.kind = t'.kind :=
  congrArg Prod.fst h

/-- Tokens with the same spelling are the same once their places are forgotten. -/
theorem moved_forgotten_of_spelling_eq {t t' : Token} (h : t.spelling = t'.spelling) :
    t.moved Span.forgotten = t'.moved Span.forgotten := by
  obtain ⟨kind, lexeme, span⟩ := t
  obtain ⟨_, _, _⟩ := t'
  cases h
  rfl

/-- The comparison of two parsers that leaves all places open. -/
def layout : Comparison where
  state := Parser.ReadsAlike
  token t t' := t.spelling = t'.spelling
  span _ _ := True
  failure e e' := e.placeless = e'.placeless
  left := Span.forgotten
  right := Span.forgotten
  left_eq_right _ := rfl
  kind_eq := kind_eq_of_spelling_eq
  lexeme_eq h := congrArg Prod.snd h
  span_of_token _ := trivial
  through _ _ := trivial
  collapse _ := trivial
  through_previous _ _ := trivial
  depth_eq h := h.depth
  withDepth depth h := ⟨h.tokens, h.final, h.procedures, rfl⟩
  procedures_eq h := h.procedures
  withProcedures procedures h := ⟨h.tokens, h.final, rfl, h.depth⟩
  current := by
    rintro ⟨_, _, _, _, _⟩ ⟨_, _, _, _, _⟩ ⟨⟨ts, us, ⟨⟩, ⟨⟩, same⟩, final, procedures, depth⟩
    cases same with
    | nil => exact ⟨final, ⟨[], [], rfl, rfl, .nil⟩, final, procedures, depth⟩
    | cons first rest => exact ⟨first, ⟨_, _, rfl, rfl, .cons first rest⟩, final, procedures, depth⟩
  nextKind := by
    rintro ⟨_, _, _, _, _⟩ ⟨_, _, _, _, _⟩ ⟨⟨ts, us, ⟨⟩, ⟨⟩, same⟩, final, procedures, depth⟩
    rcases same with _ | ⟨first, _ | ⟨second, rest⟩⟩
    · exact ⟨kind_eq_of_spelling_eq final, ⟨[], [], rfl, rfl, .nil⟩, final, procedures, depth⟩
    · exact ⟨kind_eq_of_spelling_eq final, ⟨_, _, rfl, rfl, .cons first .nil⟩, final, procedures,
        depth⟩
    · exact ⟨kind_eq_of_spelling_eq second, ⟨_, _, rfl, rfl, .cons first (.cons second rest)⟩,
        final, procedures, depth⟩
  advance := by
    rintro ⟨_, _, _, _, _⟩ ⟨_, _, _, _, _⟩ ⟨⟨ts, us, ⟨⟩, ⟨⟩, same⟩, final, procedures, depth⟩
    cases same with
    | nil => exact ⟨final, ⟨[], [], rfl, rfl, .nil⟩, final, procedures, depth⟩
    | cons first rest => exact ⟨first, ⟨_, _, rfl, rfl, rest⟩, final, procedures, depth⟩
  unexpected expected h :=
    congrArg (ParseError.unexpected expected) (moved_forgotten_of_spelling_eq h)
  tooDeep _ _ := rfl
  integerTooLarge h := congrArg ParseError.integerTooLarge (moved_forgotten_of_spelling_eq h)

end Parse

variable {a b : String} {ts us : List Token}

/-- Texts with the same tokens parse alike. -/
theorem Module.parse_placeless (ha : lex a = .ok ts) (hb : lex b = .ok us)
    (same : ts.map Token.spelling = us.map Token.spelling) :
    (∃ m n, Module.parse a = .ok m ∧ Module.parse b = .ok n ∧ m.placeless = n.placeless) ∨
      ∃ e e', Module.parse a = .error e ∧ Module.parse b = .error e' ∧
        e.placeless = e'.placeless := by
  have items := items_of_lex_eq_ok ha
  have items' := items_of_lex_eq_ok hb
  have pairwise : List.Forall₂ (fun t u : Token => t.spelling = u.spelling) ts us := by
    rwa [← List.forall₂_eq_eq_eq, List.forall₂_map_left_iff, List.forall₂_map_right_iff] at same
  have alike : (Parser.ofString a).ReadsAlike (Parser.ofString b) :=
    ⟨⟨ts, us, items, items', pairwise⟩, rfl, rfl, rfl⟩
  have budget : (Parser.ofString a).budget = (Parser.ofString b).budget := by
    rw [Parser.budget, Parser.budget, show (Parser.ofString a).items = _ from items,
      show (Parser.ofString b).items = _ from items', List.length_map, List.length_map,
      pairwise.length_eq]
  have ends := Parse.Comparison.program (c := Parse.layout) (Parser.ofString a).budget alike
  simp only [Module.parse, Parser.parse]
  rw [← budget]
  generalize (Parse.program _).run (Parser.ofString a) = r,
    (Parse.program _).run (Parser.ofString b) = r' at ends
  rcases r with ⟨e | m, s⟩ <;> rcases r' with ⟨e' | m', s'⟩
  · exact .inr ⟨e, e', rfl, rfl, ends⟩
  · exact ends.elim
  · exact ends.elim
  · exact .inl ⟨m, m', rfl, rfl, ends.1⟩

/-! ## Running -/

/-- Modules that differ in places only end alike. -/
theorem Module.run_placeless {m n : Module} (h : m.placeless = n.placeless) (fuel limit : Nat) :
    (m.run fuel limit).map (Except.mapError Failure.placeless) =
      (n.run fuel limit).map (Except.mapError Failure.placeless) := by
  have moved := fun m => Module.run_moved Span.forgotten rfl fuel limit m
  calc (m.run fuel limit).map (Except.mapError Failure.placeless)
      = m.placeless.run fuel limit := (moved m).symm
    _ = n.placeless.run fuel limit := by rw [h]
    _ = (n.run fuel limit).map (Except.mapError Failure.placeless) := moved n

/-- **Layout changes places only.**  Two texts with the same tokens parse to modules that differ in
places only, or both fail to parse, with failures that differ in places only.  Under every limit
they run alike: after as many steps as one likes, both are still running, or both have ended with
the same record, or both with failures that differ in places only. -/
theorem layout_changes_places_only (ha : lex a = .ok ts) (hb : lex b = .ok us)
    (same : ts.map Token.spelling = us.map Token.spelling) :
    ((∃ m n, Module.parse a = .ok m ∧ Module.parse b = .ok n ∧ m.placeless = n.placeless) ∨
      ∃ e e', Module.parse a = .error e ∧ Module.parse b = .error e' ∧
        e.placeless = e'.placeless) ∧
    ∀ limit fuel,
      run fuel limit a = none ∧ run fuel limit b = none ∨
      (∃ record, run fuel limit a = some (.ok record) ∧ run fuel limit b = some (.ok record)) ∨
      ∃ failure failure', run fuel limit a = some (.error failure) ∧
        run fuel limit b = some (.error failure') ∧ failure.placeless = failure'.placeless := by
  refine ⟨Module.parse_placeless ha hb same, fun limit fuel => ?_⟩
  rw [run_eq, run_eq]
  rcases Module.parse_placeless ha hb same with ⟨m, n, hm, hn, alike⟩ | ⟨e, e', he, he', alike⟩
  · rw [hm, hn]
    have ends := Module.run_placeless alike fuel limit
    dsimp only
    generalize m.run fuel limit = r, n.run fuel limit = r' at ends
    rcases r with _ | failure | record <;> rcases r' with _ | failure' | record' <;>
      simp only [Option.map, Except.mapError, reduceCtorEq, Option.some.injEq, Except.error.injEq,
        Except.ok.injEq] at ends
    · exact .inl ⟨rfl, rfl⟩
    · exact .inr (.inr ⟨failure, failure', rfl, rfl, ends⟩)
    · exact .inr (.inl ⟨record, rfl, ends ▸ rfl⟩)
  · rw [he, he']
    exact .inr (.inr ⟨_, _, rfl, rfl, congrArg Failure.parse alike⟩)

/-- The same tokens on one line without blanks, and on three lines with a blank of three bytes.
Both programs read a variable that has no value yet. -/
theorem layout_changes_places_only_blanks :
    ∃ (a b : String) (ts us : List Token),
      a = "var x;x=(x)+1;" ∧ b = "var\u3000x ;\n x\n=( x )+ 1 ;" ∧
      lex a = .ok ts ∧ lex b = .ok us ∧ ts ≠ us ∧
      ts.map Token.spelling = us.map Token.spelling ∧
      ((∃ m n, Module.parse a = .ok m ∧ Module.parse b = .ok n ∧ m.placeless = n.placeless) ∨
        ∃ e e', Module.parse a = .error e ∧ Module.parse b = .error e' ∧
          e.placeless = e'.placeless) ∧
      ∀ limit fuel,
        run fuel limit a = none ∧ run fuel limit b = none ∨
        (∃ record, run fuel limit a = some (.ok record) ∧ run fuel limit b = some (.ok record)) ∨
        ∃ failure failure', run fuel limit a = some (.error failure) ∧
          run fuel limit b = some (.error failure') ∧ failure.placeless = failure'.placeless := by
  have ha : lex "var x;x=(x)+1;" = .ok [⟨.kwVar, "var", ⟨0, 3, 1, 1⟩⟩,
      ⟨.identifier, "x", ⟨4, 5, 1, 5⟩⟩, ⟨.semicolon, ";", ⟨5, 6, 1, 6⟩⟩,
      ⟨.identifier, "x", ⟨6, 7, 1, 7⟩⟩, ⟨.equals, "=", ⟨7, 8, 1, 8⟩⟩,
      ⟨.leftParen, "(", ⟨8, 9, 1, 9⟩⟩, ⟨.identifier, "x", ⟨9, 10, 1, 10⟩⟩,
      ⟨.rightParen, ")", ⟨10, 11, 1, 11⟩⟩, ⟨.plus, "+", ⟨11, 12, 1, 12⟩⟩,
      ⟨.integer, "1", ⟨12, 13, 1, 13⟩⟩, ⟨.semicolon, ";", ⟨13, 14, 1, 14⟩⟩] := by cbv
  have hb : lex "var\u3000x ;\n x\n=( x )+ 1 ;" = .ok [⟨.kwVar, "var", ⟨0, 3, 1, 1⟩⟩,
      ⟨.identifier, "x", ⟨6, 7, 1, 5⟩⟩, ⟨.semicolon, ";", ⟨8, 9, 1, 7⟩⟩,
      ⟨.identifier, "x", ⟨11, 12, 2, 2⟩⟩, ⟨.equals, "=", ⟨13, 14, 3, 1⟩⟩,
      ⟨.leftParen, "(", ⟨14, 15, 3, 2⟩⟩, ⟨.identifier, "x", ⟨16, 17, 3, 4⟩⟩,
      ⟨.rightParen, ")", ⟨18, 19, 3, 6⟩⟩, ⟨.plus, "+", ⟨19, 20, 3, 7⟩⟩,
      ⟨.integer, "1", ⟨21, 22, 3, 9⟩⟩, ⟨.semicolon, ";", ⟨23, 24, 3, 11⟩⟩] := by cbv
  exact ⟨_, _, _, _, rfl, rfl, ha, hb, by decide, rfl, layout_changes_places_only ha hb rfl⟩

end Imperative
