import Imperative.Proofs.Tiling

/-!
# The alphabet

A text is read in items, and whether a character belongs to the language is asked only where an
item starts.  Blanks, numbers and words are passed in runs, so it is not obvious that such a run
cannot hide a foreign character.  It cannot: a text lexes if and only if every one of its
characters is of the alphabet, and otherwise the fault is about the first that is not.

Nothing is read here.  The text is tiled by its items (`Tiles`), every character of a blank or of
a token is of the alphabet (`Token.Spells.admits`), and no character of a fault is
(`Fault.refuses_iff`).

* `Tiles.admits`: tokens and blanks cover characters of the alphabet only.
* `Tiles.front_of_fault`: what lies in front of the first fault is of the alphabet.
* `lex_fails_at_first_foreign`: what lexing says about any text.
-/

namespace Imperative

namespace Text

/-- The punctuation marks. -/
def marks : List Char :=
  ['+', '-', '*', '/', '(', ')', '=', ';', '\x7b', '\x7d', ',']

/-- Whether a character is of the alphabet: a blank, a letter or digit of ASCII, or a punctuation
mark. -/
def admits (c : Char) : Bool :=
  isBlank c || c.isAlphanum || marks.contains c

end Text

/-- The characters that are read as marks are the punctuation marks. -/
theorem ofPunctuation?_eq_none_iff (c : Char) :
    Token.Kind.ofPunctuation? c = none ↔ c ∉ Text.marks := by
  unfold Token.Kind.ofPunctuation?
  split <;> simp_all [Text.marks]

/-- A character is refused if and only if it is not of the alphabet. -/
theorem Fault.refuses_iff (c : Char) : Fault.Refuses c ↔ Text.admits c = false := by
  rw [Fault.Refuses, ← Token.Kind.ofPunctuation?_eq_none_iff_text?, ofPunctuation?_eq_none_iff]
  simp only [Text.admits, Char.isAlphanum, Bool.or_eq_false_iff, List.contains_eq_mem,
    decide_eq_false_iff_not]
  tauto

theorem Text.admits_of_isWhiteSpace {c : Char} (h : Text.IsWhiteSpace c) :
    Text.admits c = true := by
  simp [Text.admits, Text.isBlank_iff.mpr h]

theorem Text.admits_of_isAlphanum {c : Char} (h : c.isAlphanum = true) :
    Text.admits c = true := by
  simp [Text.admits, h]

/-- Every character of a token is of the alphabet. -/
theorem Token.Spells.admits {t : Token} {word behind : List Char} (h : t.Spells word behind) :
    ∀ c ∈ word, Text.admits c = true := by
  intro c hc
  rcases (Token.spells_iff.mp h).2 with ⟨⟨-, digits, -⟩, -⟩ |
    ⟨⟨⟨first, tail, rfl, letter, letters⟩, -⟩, -⟩ | ⟨mark, rfl, kind⟩
  · have digit := digits c hc
    exact Text.admits_of_isAlphanum (by simp [Char.isAlphanum, digit])
  · rcases List.mem_cons.mp hc with rfl | hc
    · exact Text.admits_of_isAlphanum (by simp [Char.isAlphanum, letter])
    · exact Text.admits_of_isAlphanum (letters c hc)
  · obtain rfl := List.mem_singleton.mp hc
    have found : c ∈ Text.marks := by
      by_contra missing
      rw [(ofPunctuation?_eq_none_iff c).mpr missing] at kind
      cases kind
    simp [Text.admits, found]

namespace Tiles

variable {before blanks word behind rest : List Char} {t : Token} {tokens : List Token}
  {fault : Fault} {items : List Item}

/-- Blanks, and a token behind them, hold no foreign character. -/
theorem admits_of_mem_tile (gap : ∀ c ∈ blanks, Text.IsWhiteSpace c)
    (spells : t.Spells word behind) : ∀ c ∈ blanks ++ word, Text.admits c = true := by
  intro c hc
  rcases List.mem_append.mp hc with hc | hc
  · exact Text.admits_of_isWhiteSpace (gap c hc)
  · exact spells.admits c hc

/-- A text that consists of tokens and blanks has no foreign character. -/
theorem admits (h : Tiles before (tokens.map .ok) rest) : ∀ c ∈ rest, Text.admits c = true := by
  induction tokens generalizing before rest with
  | nil =>
    cases h with
    | nil gap => exact fun c hc => Text.admits_of_isWhiteSpace (gap c hc)
  | cons t tokens ih =>
    rw [List.map_cons] at h
    cases h with
    | cons gap spells covers tiles =>
      intro c hc
      rcases List.mem_append.mp hc with hc | hc
      · exact admits_of_mem_tile gap spells c hc
      · exact ih tiles c hc

/-- In front of the first fault there is no foreign character.  The fault is one, and its span
belongs to it alone. -/
theorem front_of_fault (h : Tiles before (tokens.map .ok ++ .error fault :: items) rest) :
    ∃ front behind, rest = front ++ fault.char :: behind ∧
      (∀ c ∈ front, Text.admits c = true) ∧ Text.admits fault.char = false ∧
      fault.span.Covers (before ++ front) [fault.char] := by
  induction tokens generalizing before rest with
  | nil =>
    rw [List.map_nil, List.nil_append] at h
    cases h with
    | @cons _ blanks word behind _ _ gap spells covers tiles =>
      obtain ⟨rfl, refuses⟩ := spells
      refine ⟨blanks, behind, by simp, fun c hc => ?_, (Fault.refuses_iff _).mp refuses, covers⟩
      exact Text.admits_of_isWhiteSpace (gap c hc)
  | cons t tokens ih =>
    rw [List.map_cons, List.cons_append] at h
    cases h with
    | @cons _ blanks word behind _ _ gap spells covers tiles =>
      obtain ⟨front, behind', rfl, clean, foreign, place⟩ := ih tiles
      refine ⟨blanks ++ word ++ front, behind', by simp, fun c hc => ?_, foreign, ?_⟩
      · rcases List.mem_append.mp hc with hc | hc
        · exact admits_of_mem_tile gap spells c hc
        · exact clean c hc
      · rw [← List.append_assoc, ← List.append_assoc]
        exact place

end Tiles

variable {text : String}

theorem admits_of_lex_eq_ok {tokens : List Token} (h : lex text = .ok tokens) :
    ∀ c ∈ text.toList, Text.admits c = true :=
  (tiles_of_lex_eq_ok h).admits

/-- A text fails at a foreign character, and there is none in front of it. -/
theorem front_of_lex_eq_error {fault : Fault} (h : lex text = .error fault) :
    ∃ front behind, text.toList = front ++ fault.char :: behind ∧
      (∀ c ∈ front, Text.admits c = true) ∧ Text.admits fault.char = false ∧
      fault.span.Covers front [fault.char] := by
  obtain ⟨tokens, rest, items⟩ := lex_eq_error_iff.mp h
  have tiles := tiles_items text
  rw [items] at tiles
  exact tiles.front_of_fault

/-- **Lexing succeeds within the alphabet and fails at the first character outside it.**  A text
lexes if and only if all its characters are of the alphabet.  If `c` is the first that is not,
then the fault is about `c`, with the line and the column of `c`, and its label marks the bytes of
`c` and no others. -/
theorem lex_fails_at_first_foreign (text : String) :
    ((∃ tokens, lex text = .ok tokens) ↔ ∀ c ∈ text.toList, Text.admits c = true) ∧
    ∀ before c behind, text.toList = before ++ c :: behind →
      (∀ d ∈ before, Text.admits d = true) → Text.admits c = false →
      ∃ fault, lex text = .error fault ∧ fault.char = c ∧
        fault.span.line = 1 + before.count '\n' ∧
        fault.span.column = 1 + (before.reverse.takeWhile (· ≠ '\n')).length ∧
        fault.diagnostic.code = "lexer::invalid_char" ∧
        fault.diagnostic.label.offset = (String.ofList before).utf8ByteSize ∧
        fault.diagnostic.label.length = c.utf8Size := by
  refine ⟨⟨fun ⟨tokens, lexed⟩ => admits_of_lex_eq_ok lexed, fun clean => ?_⟩, ?_⟩
  · cases h : lex text with
    | ok tokens => exact ⟨tokens, rfl⟩
    | error fault =>
      obtain ⟨front, behind, split, -, foreign, -⟩ := front_of_lex_eq_error h
      have admitted : Text.admits fault.char = true := clean _ (by simp [split])
      rw [foreign] at admitted
      cases admitted
  · intro before c behind split clean foreign
    cases h : lex text with
    | ok tokens =>
      have admitted : Text.admits c = true := admits_of_lex_eq_ok h c (by simp [split])
      rw [foreign] at admitted
      cases admitted
    | error fault =>
      obtain ⟨front, behind', split', clean', foreign', covers⟩ := front_of_lex_eq_error h
      -- both are the first foreign character of the text, so they are the same
      have stop : ∀ d ∈ (c :: behind).head?, Text.admits d = false := by simp [foreign]
      have stop' : ∀ d ∈ (fault.char :: behind').head?, Text.admits d = false := by simp [foreign']
      have first := takeWhile_dropWhile_append clean stop
      have first' := takeWhile_dropWhile_append clean' stop'
      rw [← split'] at first'
      rw [← split] at first
      obtain rfl : front = before := first'.1.symm.trans first.1
      obtain ⟨rfl, rfl⟩ : fault.char = c ∧ behind' = behind :=
        List.cons.inj (first'.2.symm.trans first.2)
      have size : fault.span.stop = fault.span.start + fault.char.utf8Size := by
        rw [covers.stop_eq, covers.start_eq, String.ofList_append, String.utf8ByteSize_append,
          ← String.singleton_eq_ofList, String.utf8ByteSize_singleton]
      have length : fault.diagnostic.label.length = fault.span.stop - fault.span.start := rfl
      exact ⟨fault, rfl, rfl, covers.line_eq, covers.column_eq, rfl, covers.start_eq, by omega⟩

/-- Behind a newline and a word, a letter that is not of ASCII: it takes two bytes and one column,
and the foreign character behind it is not reported. -/
theorem lex_fails_at_first_foreign_letter :
    ∃ (text : String) (fault : Fault), text = "x;\n yé $" ∧ lex text = .error fault ∧
      fault.char = 'é' ∧ fault.span.line = 2 ∧ fault.span.column = 3 ∧
      fault.diagnostic.label.offset = 5 ∧ fault.diagnostic.label.length = 2 := by
  have split : "x;\n yé $".toList = ['x', ';', '\n', ' ', 'y'] ++ 'é' :: [' ', '$'] := by cbv
  have clean : ∀ d ∈ ['x', ';', '\n', ' ', 'y'], Text.admits d = true :=
    List.all_eq_true.mp (by decide)
  obtain ⟨fault, failed, char, line, column, -, offset, length⟩ :=
    (lex_fails_at_first_foreign "x;\n yé $").2 _ _ _ split clean (by decide)
  refine ⟨_, fault, rfl, failed, char, ?_, ?_, ?_, ?_⟩
  · rw [line]
    decide
  · rw [column]
    decide
  · rw [offset]
    cbv
  · rw [length]
    decide

end Imperative
