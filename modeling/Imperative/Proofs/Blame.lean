import Imperative.Proofs.ParserComparison
import Imperative.Proofs.ParserSoundness
import Imperative.Proofs.Tiling

/-!
# Where failures of parsing come from

Parsing takes tokens off the front of what is left to read, and looks at most one item further.
So all it can complain about is a token in front of the first fault, the end of a text that has
no fault, or the first fault itself: `ParseError.Blames`.  The spans of the tree it gives are
made of the spans of such tokens.

Both facts are one comparison of a parser with itself (`Parser.provenance`), in which every
token, span and failure carries the reason why it is there.

* `Parser.blames_of_parse`: every failure of a parser is about something that it can meet.
* `Parser.moved_of_parse`: a tree has no spans but those of tokens and those made of them.
* `Module.parse_agrees_with_lex`: a text that is read while it is parsed and a text that is read
  beforehand fail for the same fault, or parsing fails in front of it.
-/

namespace Imperative

namespace Parser

/-- The parser comes to these items when it takes tokens only. -/
def Reaches (s : Parser) (items : List Item) : Prop :=
  ∃ ts : List Token, s.items = ts.map .ok ++ items

/-- The parser comes to the token without passing a fault. -/
def Meets (s : Parser) (t : Token) : Prop :=
  (∃ rest, s.Reaches (.ok t :: rest)) ∨ s.Reaches [] ∧ t = s.final

end Parser

/-- The failure is about something that the parser comes to. -/
def ParseError.Blames (s : Parser) : ParseError → Prop
  | .lexical fault => ∃ rest, s.Reaches (.error fault :: rest)
  | .unexpected _ found => s.Meets found
  | .tooDeep _ span => ∃ t, s.Meets t ∧ t.span = span
  | .integerTooLarge literal => s.Meets literal

namespace Parser

variable {s : Parser} {t : Token} {items rest : List Item} {f : Span → Span}

theorem Reaches.tail (h : s.Reaches (.ok t :: rest)) : s.Reaches rest := by
  obtain ⟨ts, split⟩ := h
  refine ⟨ts ++ [t], ?_⟩
  rw [split, List.map_append, List.append_assoc]
  rfl

/-- The map leaves alone the spans of all tokens that the parser meets, and all spans that are
made of spans it leaves alone. -/
structure KeepsSpans (s : Parser) (f : Span → Span) : Prop where
  token : ∀ t, s.Meets t → f t.span = t.span
  through : ∀ first last, f first = first → f last = last →
    f (first.through last) = first.through last
  collapse : ∀ span, f span = span → f span.collapse = span.collapse

/-- A parser on its way from `s`, compared with itself. -/
structure OnItsWay (s : Parser) (f : Span → Span) (s₁ s₁' : Parser) : Prop where
  same : s₁ = s₁'
  reaches : s.Reaches s₁.items
  final : s₁.final = s.final
  previous : ∀ first, f first = first → f (first.through s₁.previous) = first.through s₁.previous

open Parse in
/-- The comparison of a parser with itself that says where everything comes from. -/
def provenance (s : Parser) (f : Span → Span) (keeps : s.KeepsSpans f) : Comparison where
  state := s.OnItsWay f
  token t t' := t = t' ∧ s.Meets t
  span span span' := span = span' ∧ f span = span
  failure e e' := e = e' ∧ e.Blames s
  left := f
  right := id
  left_eq_right := by
    rintro span _ ⟨rfl, fixed⟩
    exact fixed
  kind_eq h := congrArg Token.kind h.1
  lexeme_eq h := congrArg Token.lexeme h.1
  span_of_token := by
    rintro t _ ⟨rfl, met⟩
    exact ⟨rfl, keeps.token t met⟩
  through := by
    rintro first _ last _ ⟨rfl, hfirst⟩ ⟨rfl, hlast⟩
    exact ⟨rfl, keeps.through first last hfirst hlast⟩
  collapse := by
    rintro span _ ⟨rfl, fixed⟩
    exact ⟨rfl, keeps.collapse span fixed⟩
  through_previous := by
    rintro s₁ _ first _ ⟨rfl, -, -, previous⟩ ⟨rfl, fixed⟩
    exact ⟨rfl, previous first fixed⟩
  depth_eq h := congrArg Parser.depth h.same
  withDepth := by
    rintro s₁ _ depth ⟨rfl, reaches, final, previous⟩
    exact ⟨rfl, reaches, final, previous⟩
  procedures_eq h := congrArg Parser.procedures h.same
  withProcedures := by
    rintro s₁ _ procedures ⟨rfl, reaches, final, previous⟩
    exact ⟨rfl, reaches, final, previous⟩
  current := by
    rintro ⟨items, final, last, procedures, depth⟩ _ ⟨rfl, reaches, same, previous⟩
    match items with
    | [] => exact ⟨⟨rfl, .inr ⟨reaches, same⟩⟩, rfl, reaches, same, previous⟩
    | .ok t :: rest => exact ⟨⟨rfl, .inl ⟨rest, reaches⟩⟩, rfl, reaches, same, previous⟩
    | .error fault :: rest => exact ⟨rfl, rest, reaches⟩
  nextKind := by
    rintro ⟨items, final, last, procedures, depth⟩ _ ⟨rfl, reaches, same, previous⟩
    match items with
    | [] | [.ok t] | .ok t :: .ok next :: rest => exact ⟨rfl, rfl, reaches, same, previous⟩
    | .error fault :: rest => exact ⟨rfl, rest, reaches⟩
    | .ok t :: .error fault :: rest => exact ⟨rfl, rest, reaches.tail⟩
  advance := by
    rintro ⟨items, final, last, procedures, depth⟩ _ ⟨rfl, reaches, same, previous⟩
    have taken : ∀ t, s.Meets t → ∀ first, f first = first →
        f (first.through t.span) = first.through t.span :=
      fun t met first fixed => keeps.through first t.span fixed (keeps.token t met)
    match items with
    | [] =>
      have met : s.Meets final := .inr ⟨reaches, same⟩
      exact ⟨⟨rfl, met⟩, rfl, reaches, same, taken final met⟩
    | .ok t :: rest =>
      have met : s.Meets t := .inl ⟨rest, reaches⟩
      exact ⟨⟨rfl, met⟩, rfl, reaches.tail, same, taken t met⟩
    | .error fault :: rest => exact ⟨rfl, rest, reaches⟩
  unexpected := by
    rintro t _ expected ⟨rfl, met⟩
    exact ⟨rfl, met⟩
  tooDeep := by
    rintro t _ limit ⟨rfl, met⟩
    exact ⟨rfl, t, met, rfl⟩
  integerTooLarge := by
    rintro t _ ⟨rfl, met⟩
    exact ⟨rfl, met⟩

/-- How parsing ends for a parser that has taken nothing yet. -/
theorem endsAlike_parse (keeps : s.KeepsSpans f) (fresh : s.previous = {}) :
    Parse.EndsAlike (s.OnItsWay f) (fun e e' => e = e' ∧ e.Blames s)
      (fun m m' => m.moved f = m'.moved id) s.parse s.parse := by
  refine Parse.Comparison.program (c := s.provenance f keeps) s.budget ⟨rfl, ⟨[], rfl⟩, rfl, ?_⟩
  intro first fixed
  -- the empty span of a parser that has taken nothing does not reach anywhere
  rw [fresh, show first.through {} = first from by rw [Span.through, Nat.zero_max], fixed]

/-- Every failure of a parser is about something that it comes to. -/
theorem blames_of_parse {e : ParseError} (fresh : s.previous = {}) (h : s.parse.1 = .error e) :
    e.Blames s := by
  have keeps : s.KeepsSpans id := ⟨fun _ _ => rfl, fun _ _ _ _ => rfl, fun _ _ => rfl⟩
  have ends := endsAlike_parse keeps fresh
  generalize s.parse = outcome at h ends
  obtain ⟨_, _⟩ := outcome
  subst h
  exact ends.2

/-- The spans of a tree are among those that a map leaves alone, if those of the tokens are. -/
theorem moved_of_parse {m : Module} (keeps : s.KeepsSpans f) (fresh : s.previous = {})
    (h : s.parse.1 = .ok m) : m.moved f = m := by
  have ends := endsAlike_parse keeps fresh
  generalize s.parse = outcome at h ends
  obtain ⟨_, _⟩ := outcome
  subst h
  exact ends.1.trans m.moved_id

/-! ## In front of the first fault -/

theorem Reaches.mem (h : s.Reaches items) {item : Item} (hi : item ∈ items) : item ∈ s.items := by
  obtain ⟨ts, split⟩ := h
  rw [split]
  exact List.mem_append_right _ hi

/-- A parser that comes to a fault meets only the tokens in front of it. -/
theorem Meets.mem_of_fault {fault : Fault} {ts : List Token} (h : s.Meets t)
    (items : s.items = ts.map .ok ++ .error fault :: rest) : t ∈ ts := by
  rcases h with ⟨rest', us, split⟩ | ⟨⟨us, split⟩, -⟩
  · rw [items] at split
    rcases List.append_eq_append_iff.mp split with ⟨between, front, back⟩ | ⟨between, front, back⟩
    · -- the tokens taken would go beyond the fault
      cases between with
      | nil => cases back
      | cons item between =>
        obtain ⟨rfl, -⟩ := List.cons.inj back
        have mem : Except.error fault ∈ us.map Except.ok := by simp [front]
        simp at mem
    · cases between with
      | nil => cases back
      | cons item between =>
        obtain ⟨rfl, -⟩ := List.cons.inj back
        have mem : (Except.ok t : Item) ∈ ts.map Except.ok := by simp [front]
        simpa using mem
  · have mem : Except.error fault ∈ s.items := by simp [items]
    rw [split] at mem
    simp at mem

end Parser

/-- The label of a failure of parsing marks its span. -/
theorem ParseError.label_diagnostic (e : ParseError) :
    e.diagnostic.label.offset = e.span.start ∧ e.diagnostic.label.length = e.span.length := by
  cases e <;> exact ⟨rfl, rfl⟩

/-- A failure that is not the fault itself is about a token. -/
theorem ParseError.Blames.exists_meets {s : Parser} {e : ParseError} (h : e.Blames s)
    (syntactic : ∀ fault, e ≠ .lexical fault) : ∃ t, s.Meets t ∧ e.span = t.span := by
  cases e with
  | lexical fault => exact absurd rfl (syntactic fault)
  | unexpected expected found => exact ⟨found, h, rfl⟩
  | tooDeep limit span =>
    obtain ⟨t, met, rfl⟩ := h
    exact ⟨t, met, rfl⟩
  | integerTooLarge literal => exact ⟨literal, h, rfl⟩

/-- A fault that parsing reports is the one that lexing reports. -/
theorem lex_of_blames {text : String} {fault : Fault}
    (h : (ParseError.lexical fault).Blames (Parser.ofString text)) : lex text = .error fault := by
  obtain ⟨rest, ts, items⟩ := h
  exact lex_eq_error_iff.mpr ⟨ts, rest, items⟩

/-- A token that is met in front of the first fault ends where the fault starts, or before. -/
theorem Parser.Meets.ends_before {text : String} {fault : Fault} {t : Token}
    (h : (Parser.ofString text).Meets t) (failed : lex text = .error fault) :
    t.span.start + t.span.length ≤ fault.span.start := by
  obtain ⟨ts, rest, items⟩ := lex_eq_error_iff.mp failed
  have mem : (Except.ok t : Item) ∈ ts.map Except.ok := List.mem_map_of_mem (h.mem_of_fault items)
  have tiles := tiles_items text
  rw [items] at tiles
  have order : t.span.stop ≤ fault.span.start :=
    (List.pairwise_append.mp tiles.ordered).2.2 _ mem _ List.mem_cons_self
  obtain ⟨_, _, _, -, covers⟩ := tiles.liesIn (List.mem_append_left _ mem)
  have nonempty : t.span.start ≤ t.span.stop := covers.start_le_stop
  rw [Span.length]
  omega

/-- **Parsing and lexing agree on failure.**  If lexing fails, so does parsing: with the very same
fault, or with another failure, whose label ends where the fault starts or before.  If lexing
succeeds, parsing reports no fault. -/
theorem Module.parse_agrees_with_lex (text : String) :
    (∀ fault, lex text = .error fault → ∃ e, Module.parse text = .error e ∧
      (e = .lexical fault ∨ (∀ other, e ≠ .lexical other) ∧
        e.diagnostic.label.offset + e.diagnostic.label.length ≤ fault.diagnostic.label.offset)) ∧
    ∀ tokens, lex text = .ok tokens → ∀ fault, Module.parse text ≠ .error (.lexical fault) := by
  refine ⟨fun fault failed => ?_, fun tokens lexed fault failed => ?_⟩
  · cases h : Module.parse text with
    | ok m =>
      obtain ⟨tokens, lexed, -⟩ := Module.exists_derivation_of_parse h
      rw [failed] at lexed
      cases lexed
    | error e =>
      have blames : e.Blames (Parser.ofString text) := Parser.blames_of_parse rfl h
      refine ⟨e, rfl, ?_⟩
      by_cases syntactic : ∀ other, e ≠ .lexical other
      · obtain ⟨t, met, span⟩ := blames.exists_meets syntactic
        refine .inr ⟨syntactic, ?_⟩
        rw [e.label_diagnostic.1, e.label_diagnostic.2, span]
        exact met.ends_before failed
      · obtain ⟨other, rfl⟩ := not_forall_not.mp syntactic
        have same := lex_of_blames blames
        rw [failed] at same
        cases same
        exact .inl rfl
  · have same := lex_of_blames (Parser.blames_of_parse rfl failed)
    rw [lexed] at same
    cases same

/-- Parsing stops at a parenthesis in front of the fault, and never comes to the fault. -/
theorem Module.parse_agrees_with_lex_parenthesis :
    ∃ (text : String) (fault : Fault), text = ";) $" ∧ lex text = .error fault ∧
      Module.parse text ≠ .error (.lexical fault) ∧
      ∃ e, Module.parse text = .error e ∧
        (e = .lexical fault ∨ (∀ other, e ≠ .lexical other) ∧
          e.diagnostic.label.offset + e.diagnostic.label.length ≤
            fault.diagnostic.label.offset) := by
  have failed : lex ";) $" = .error ⟨'$', ⟨3, 4, 1, 4⟩⟩ := by cbv
  have early : Module.parse ";) $" =
      .error (.unexpected .statement ⟨.rightParen, ")", ⟨1, 2, 1, 2⟩⟩) := by cbv
  refine ⟨_, _, rfl, failed, ?_, (Module.parse_agrees_with_lex _).1 _ failed⟩
  rw [early]
  simp

end Imperative
