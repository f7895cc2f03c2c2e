import Imperative.Proofs.Lexemes
import Imperative.Proofs.Places
import Mathlib

/-!
# Texts are tiled by their items

Every text is a sequence of items with blanks before, between and behind them, and of nothing
else.  `Tiles before items rest` says so of the text `rest` that follows `before`: every item
stands where its span says, and is of the kind that its characters and the character behind
them ask for.  Nothing in it speaks of a reader, of a longest match or of a position that is
kept.

* `Token.Spells`: what a token is, from its characters and from what follows them.  A number or
  a word ends where it cannot go on.  A keyword or a mark is of the kind that has this text
  (`Token.Kind.text?`).
* `Token.Kind.eq_ofWord_iff` and `Token.Kind.ofPunctuation?_eq_some_iff`: the two tables by which
  a reader finds kinds, from characters to kinds, are the inverses of that one.
* `Text.isBlank_iff`: the ranges by which a reader finds blanks hold the characters of White_Space.
* `Cursor.next?_eq_some_iff`: what one reading step does.  A step and a tile are the same thing,
  so a text is tiled by what is read off it, and by nothing else (`tiles_iff`).
* `lex_eq_ok_iff_tiles`: lexing succeeds with the tokens that tile the text.
-/

namespace Imperative

namespace Token

/-- The kinds of the twelve keywords. -/
def Kind.keywords : List Kind :=
  [kwVar, kwInt, kwFloat, kwReturn, kwIf, kwElse, kwDef, kwFor, kwWhile, kwDo, kwBreak, kwContinue]

/-- The text of a kind that has only one: a punctuation mark or a keyword. -/
def Kind.text? : Kind → Option String
  | plus => some "+"
  | minus => some "-"
  | times => some "*"
  | slash => some "/"
  | leftParen => some "("
  | rightParen => some ")"
  | equals => some "="
  | semicolon => some ";"
  | leftBrace => some "\x7b"
  | rightBrace => some "\x7d"
  | comma => some ","
  | kwVar => some "var"
  | kwInt => some "int"
  | kwFloat => some "float"
  | kwReturn => some "return"
  | kwIf => some "if"
  | kwElse => some "else"
  | kwDef => some "def"
  | kwFor => some "for"
  | kwWhile => some "while"
  | kwDo => some "do"
  | kwBreak => some "break"
  | kwContinue => some "continue"
  | integer | identifier | endOfInput => none

/-- A run of digits that ends where no digit follows. -/
def IsNumber (word behind : List Char) : Prop :=
  word ≠ [] ∧ (∀ c ∈ word, c.isDigit = true) ∧ ∀ c ∈ behind.head?, c.isDigit = false

/-- A letter and letters or digits, which end where neither follows. -/
def IsWord (word behind : List Char) : Prop :=
  (∃ c tail, word = c :: tail ∧ c.isAlpha = true ∧ ∀ d ∈ tail, d.isAlphanum = true) ∧
    ∀ c ∈ behind.head?, c.isAlphanum = false

/-- The token has the text `word`, and is of the kind that this text asks for in front of
`behind`. -/
structure Spells (t : Token) (word behind : List Char) : Prop where
  lexeme_eq : t.lexeme = String.ofList word
  integer_iff : t.kind = .integer ↔ IsNumber word behind
  word_iff : t.kind ∈ Kind.keywords ∨ t.kind = .identifier ↔ IsWord word behind
  /-- A word is the keyword that has its text, if there is one, and else an identifier. -/
  keyword_iff : IsWord word behind →
    ∀ k ∈ Kind.keywords, t.kind = k ↔ k.text? = some (String.ofList word)
  /-- What is neither a number nor a word is one character, and the mark that has it as its text. -/
  mark : ¬ IsNumber word behind → ¬ IsWord word behind →
    ∃ c, word = [c] ∧ t.kind.text? = some (String.ofList [c])

end Token

/-- The character has the property White_Space.  These are its code points, one by one. -/
def Text.IsWhiteSpace (c : Char) : Prop :=
  c.toNat ∈ [0x0009, 0x000A, 0x000B, 0x000C, 0x000D, 0x0020, 0x0085, 0x00A0, 0x1680, 0x2000, 0x2001,
    0x2002, 0x2003, 0x2004, 0x2005, 0x2006, 0x2007, 0x2008, 0x2009, 0x200A, 0x2028, 0x2029, 0x202F,
    0x205F, 0x3000]

/-- No token starts with the character, and it is not blank either. -/
def Fault.Refuses (ch : Char) : Prop :=
  Text.isBlank ch = false ∧ ch.isDigit = false ∧ ch.isAlpha = false ∧
    ∀ k : Token.Kind, k.text? ≠ some (String.ofList [ch])

namespace Item

/-- Where an item stands. -/
def span : Item → Span
  | .ok t => t.span
  | .error f => f.span

/-- The item is what the characters `word` are in front of `behind`. -/
def Spells : Item → List Char → List Char → Prop
  | .ok t, word, behind => t.Spells word behind
  | .error f, word, _ => word = [f.char] ∧ Fault.Refuses f.char

end Item

/-- The text `rest`, which follows `before`, consists of the items and of blanks around them. -/
inductive Tiles : List Char → List Item → List Char → Prop
  | nil {before blanks : List Char} (gap : ∀ c ∈ blanks, Text.IsWhiteSpace c) :
      Tiles before [] blanks
  | cons {before blanks word behind : List Char} {item : Item} {items : List Item}
      (gap : ∀ c ∈ blanks, Text.IsWhiteSpace c) (spells : item.Spells word behind)
      (covers : item.span.Covers (before ++ blanks) word)
      (rest : Tiles (before ++ blanks ++ word) items behind) :
      Tiles before (item :: items) (blanks ++ word ++ behind)

/-! ## Tables of kinds -/

namespace Token.Kind

variable {k : Kind} {word : List Char}

theorem eq_toList_of_some {text : String} (h : some text = some (String.ofList word)) :
    word = text.toList := by
  obtain rfl := Option.some.inj h
  exact String.toList_ofList.symm

/-- The text of a keyword is a word, and the text of a mark is one character. -/
theorem shape_of_text? (h : k.text? = some (String.ofList word)) :
    (k ∈ keywords ∧ ∃ c tail, word = c :: tail ∧ c.isAlpha = true ∧ ∀ d ∈ tail, d.isAlphanum = true)
      ∨ k ∉ keywords ∧ ∃ c, word = [c] := by
  cases k with
  | integer | identifier | endOfInput => cases h
  | plus | minus | times | slash | leftParen | rightParen | equals | semicolon | leftBrace
  | rightBrace | comma => exact .inr ⟨by decide, _, eq_toList_of_some h⟩
  | kwVar | kwInt | kwFloat | kwReturn | kwIf | kwElse | kwDef | kwFor | kwWhile | kwDo | kwBreak
  | kwContinue =>
    obtain rfl := eq_toList_of_some h
    exact .inl ⟨by decide, _, _, rfl, rfl, List.all_eq_true.mp rfl⟩

/-- What is read as a keyword is the text of that keyword. -/
theorem ofKeyword?_eq_some_iff {text : String} :
    ofKeyword? text = some k ↔ k ∈ keywords ∧ k.text? = some text := by
  constructor
  · intro h
    unfold ofKeyword? at h
    split at h <;> cases h <;> exact ⟨by decide, rfl⟩
  · rintro ⟨hk, htext⟩
    cases k with
    | kwVar | kwInt | kwFloat | kwReturn | kwIf | kwElse | kwDef | kwFor | kwWhile | kwDo | kwBreak
    | kwContinue =>
      cases htext
      rfl
    | _ => exact absurd hk (by decide)

/-- **The kind of a word** is the keyword that has this text, or else it is an identifier. -/
theorem eq_ofWord_iff {text : String} :
    k = ofWord text ↔
      (k ∈ keywords ∨ k = identifier) ∧ ∀ k' ∈ keywords, k = k' ↔ k'.text? = some text := by
  have found : ∀ k' ∈ keywords, ofKeyword? text = some k' ↔ k'.text? = some text := by
    intro k' hk'
    simp [ofKeyword?_eq_some_iff, hk']
  unfold ofWord
  cases h : ofKeyword? text with
  | none =>
    have hnone : ∀ k' ∈ keywords, k'.text? ≠ some text := by
      intro k' hk' htext
      rw [(found k' hk').mpr htext] at h
      cases h
    constructor
    · rintro rfl
      refine ⟨.inr rfl, fun k' hk' => iff_of_false ?_ (hnone k' hk')⟩
      rintro rfl
      exact absurd hk' (by decide)
    · rintro ⟨hk | hk, htexts⟩
      · exact absurd ((htexts k hk).mp rfl) (hnone k hk)
      · exact hk
  | some keyword =>
    obtain ⟨hkeyword, htext⟩ := ofKeyword?_eq_some_iff.mp h
    constructor
    · rintro rfl
      refine ⟨.inl hkeyword, fun k' hk' => ?_⟩
      rw [← found k' hk', h, Option.some.injEq]
    · rintro ⟨-, htexts⟩
      exact (htexts keyword hkeyword).mpr htext

/-- **The kind of a mark** is the one that has this character as its text. -/
theorem ofPunctuation?_eq_some_iff {c : Char} :
    ofPunctuation? c = some k ↔ k.text? = some (String.ofList [c]) := by
  constructor
  · intro h
    unfold ofPunctuation? at h
    split at h <;> cases h <;> rfl
  · intro h
    cases k with
    | integer | identifier | endOfInput => cases h
    | plus | minus | times | slash | leftParen | rightParen | equals | semicolon | leftBrace
    | rightBrace | comma =>
      cases eq_toList_of_some h
      rfl
    | _ =>
      -- a keyword has more characters than one
      cases eq_toList_of_some h

theorem ofPunctuation?_eq_none_iff_text? {c : Char} :
    ofPunctuation? c = none ↔ ∀ k : Kind, k.text? ≠ some (String.ofList [c]) := by
  simp only [Option.eq_none_iff_forall_ne_some, ne_eq, ofPunctuation?_eq_some_iff]

end Token.Kind

/-! ## Classes of characters -/

section Characters

variable {c : Char}

/-- The ranges in which a reader looks for blanks hold the characters of White_Space. -/
theorem Text.isBlank_iff : isBlank c = true ↔ IsWhiteSpace c := by
  simp only [isBlank, blankRanges, IsWhiteSpace, List.any_cons, List.any_nil, List.mem_cons,
    List.not_mem_nil, Bool.or_false, or_false, Bool.or_eq_true, Bool.and_eq_true,
    decide_eq_true_eq]
  omega

theorem Text.forall_isBlank_iff {chars : List Char} :
    (∀ c ∈ chars, isBlank c = true) ↔ ∀ c ∈ chars, IsWhiteSpace c :=
  forall₂_congr fun _ _ => isBlank_iff

theorem isAlpha_eq_false_of_isDigit (h : c.isDigit = true) : c.isAlpha = false := by
  simp only [Char.isDigit, Char.isAlpha, Char.isUpper, Char.isLower] at *
  grind

theorem isBlank_eq_false_of_isAlphanum (h : c.isAlphanum = true) : Text.isBlank c = false := by
  have range : 48 ≤ c.toNat ∧ c.toNat ≤ 122 := by
    simp only [Char.isAlphanum, Char.isAlpha, Char.isUpper, Char.isLower, Char.isDigit,
      Bool.or_eq_true, Bool.and_eq_true, decide_eq_true_eq, ge_iff_le, UInt32.le_iff_toNat_le] at h
    change (65 ≤ c.toNat ∧ c.toNat ≤ 90 ∨ 97 ≤ c.toNat ∧ c.toNat ≤ 122) ∨
      48 ≤ c.toNat ∧ c.toNat ≤ 57 at h
    omega
  simp only [Text.isBlank, Text.blankRanges, List.any_cons, List.any_nil, Bool.or_false]
  grind

/-- A punctuation mark is neither blank nor part of a number or a word. -/
theorem of_ofPunctuation?_eq_some {k : Token.Kind} (h : Token.Kind.ofPunctuation? c = some k) :
    Text.isBlank c = false ∧ c.isDigit = false ∧ c.isAlpha = false ∧
      k ∉ Token.Kind.keywords ∧ k ≠ .identifier ∧ k ≠ .integer := by
  unfold Token.Kind.ofPunctuation? at h
  split at h <;> cases h <;> decide

end Characters

/-! ## Runs of characters -/

section Runs

variable {α : Type} {test : α → Bool} {run behind : List α}

/-- A run that cannot go on is the longest one. -/
theorem takeWhile_dropWhile_append (hrun : ∀ c ∈ run, test c = true)
    (hstop : ∀ c ∈ behind.head?, test c = false) :
    (run ++ behind).takeWhile test = run ∧ (run ++ behind).dropWhile test = behind := by
  rw [List.takeWhile_append_of_pos hrun, List.dropWhile_append_of_pos hrun]
  cases behind with
  | nil => simp
  | cons c behind =>
    have stops : test c = false := hstop c rfl
    simp [stops]

/-- A longest run cannot go on. -/
theorem test_eq_false_of_head?_dropWhile {l : List α} {c : α} (h : c ∈ (l.dropWhile test).head?) :
    test c = false := by
  have stops := List.head?_dropWhile_not test l
  rw [h] at stops
  exact stops

end Runs

/-! ## Tokens and their characters -/

namespace Token

variable {t : Token} {word behind : List Char}

theorem not_isWord_of_isNumber (h : IsNumber word behind) : ¬ IsWord word behind := by
  rintro ⟨⟨c, tail, rfl, letter, -⟩, -⟩
  rw [isAlpha_eq_false_of_isDigit (h.2.1 c List.mem_cons_self)] at letter
  cases letter

theorem ofWord_mem_keywords (word : String) :
    Kind.ofWord word ∈ Kind.keywords ∨ Kind.ofWord word = .identifier :=
  (Kind.eq_ofWord_iff.mp rfl).1

theorem ofWord_ne_integer (word : String) : Kind.ofWord word ≠ .integer := by
  intro h
  have hword := ofWord_mem_keywords word
  rw [h] at hword
  exact absurd hword (by decide)

/-- A token is a number, a word or a mark, and a reader finds its kind in its tables. -/
theorem spells_iff :
    t.Spells word behind ↔ t.lexeme = String.ofList word ∧
      (IsNumber word behind ∧ t.kind = .integer ∨
        IsWord word behind ∧ t.kind = .ofWord (String.ofList word) ∨
        ∃ c, word = [c] ∧ Kind.ofPunctuation? c = some t.kind) := by
  constructor
  · intro h
    refine ⟨h.lexeme_eq, ?_⟩
    by_cases number : IsNumber word behind
    · exact .inl ⟨number, h.integer_iff.mpr number⟩
    · by_cases name : IsWord word behind
      · exact .inr (.inl ⟨name, Kind.eq_ofWord_iff.mpr ⟨h.word_iff.mpr name, h.keyword_iff name⟩⟩)
      · obtain ⟨c, hword, text⟩ := h.mark number name
        exact .inr (.inr ⟨c, hword, Kind.ofPunctuation?_eq_some_iff.mpr text⟩)
  · rintro ⟨lexeme, ⟨number, kind⟩ | ⟨name, kind⟩ | ⟨c, rfl, mark⟩⟩
    · have noName := not_isWord_of_isNumber number
      refine ⟨lexeme, by simp [kind, number], ?_, fun h => absurd h noName,
        fun h => absurd number h⟩
      simp [kind, noName, Kind.keywords]
    · have noNumber : ¬ IsNumber word behind := fun h => not_isWord_of_isNumber h name
      obtain ⟨isWord, keyword⟩ := Kind.eq_ofWord_iff.mp kind
      refine ⟨lexeme, ?_, iff_of_true isWord name, fun _ => keyword, fun _ h => absurd name h⟩
      simp [kind, noNumber, ofWord_ne_integer]
    · obtain ⟨-, noDigit, noLetter, noKeyword, noIdentifier, noInteger⟩ :=
        of_ofPunctuation?_eq_some mark
      have noNumber : ¬ IsNumber [c] behind := by simp [IsNumber, noDigit]
      have noName : ¬ IsWord [c] behind := by simp [IsWord, noLetter]
      exact ⟨lexeme, by simp [noInteger, noNumber], by simp [noKeyword, noIdentifier, noName],
        fun h => absurd h noName, fun _ _ => ⟨c, rfl, Kind.ofPunctuation?_eq_some_iff.mp mark⟩⟩

end Token

/-- An item has characters, and the first of them is not blank. -/
theorem Item.Spells.exists_cons {item : Item} {word behind : List Char}
    (h : item.Spells word behind) : ∃ ch tail, word = ch :: tail ∧ Text.isBlank ch = false := by
  cases item with
  | error f => exact ⟨f.char, [], h.1, h.2.1⟩
  | ok t =>
    rcases (Token.spells_iff.mp h).2 with
      ⟨⟨nonempty, digits, -⟩, -⟩ | ⟨⟨⟨c, tail, rfl, letter, -⟩, -⟩, -⟩ | ⟨c, rfl, mark⟩
    · obtain ⟨c, tail, rfl⟩ := List.exists_cons_of_ne_nil nonempty
      have digit := digits c List.mem_cons_self
      exact ⟨c, tail, rfl, isBlank_eq_false_of_isAlphanum (by simp [Char.isAlphanum, digit])⟩
    · exact ⟨c, tail, rfl, isBlank_eq_false_of_isAlphanum (by simp [Char.isAlphanum, letter])⟩
    · exact ⟨c, [], rfl, (of_ofPunctuation?_eq_some mark).1⟩

/-! ## Reading steps are tiles -/

namespace Cursor

variable {c d : Cursor} {item : Item}

/-- The item with which a character starts is made of that character and of characters behind
it. -/
theorem spells_itemAt {ch : Char} (rest : List Char) (visible : Text.isBlank ch = false)
    (h : c.itemAt ch rest = (item, d)) :
    ∃ word, ch :: rest = word ++ d.rest ∧ item.Spells word d.rest ∧
      item.span = Span.between c.position (c.position.after word) ∧
      d.position = c.position.after word := by
  unfold itemAt at h
  split at h
  · next digit =>
    cases h
    refine ⟨_, by simp [List.takeWhile_append_dropWhile], ?_, rfl, rfl⟩
    refine Token.spells_iff.mpr ⟨rfl, .inl ⟨⟨by simp, ?_, ?_⟩, rfl⟩⟩
    · intro c hc
      rcases List.mem_cons.mp hc with rfl | hc
      · exact digit
      · exact List.mem_takeWhile_imp hc
    · exact fun c hc => test_eq_false_of_head?_dropWhile hc
  · next noDigit =>
    split at h
    · next letter =>
      cases h
      refine ⟨_, by simp [List.takeWhile_append_dropWhile], ?_, rfl, rfl⟩
      refine Token.spells_iff.mpr ⟨rfl, .inr (.inl ⟨⟨⟨ch, _, rfl, letter, ?_⟩, ?_⟩, rfl⟩)⟩
      · exact fun c hc => List.mem_takeWhile_imp hc
      · exact fun c hc => test_eq_false_of_head?_dropWhile hc
    · next noLetter =>
      split at h
      · next kind mark =>
        cases h
        exact ⟨[ch], rfl, Token.spells_iff.mpr ⟨rfl, .inr (.inr ⟨ch, rfl, mark⟩)⟩, rfl, rfl⟩
      · next noMark =>
        cases h
        refine ⟨[ch], rfl, ⟨rfl, visible, ?_, ?_, ?_⟩, rfl, rfl⟩
        · simpa using noDigit
        · simpa using noLetter
        · exact Token.Kind.ofPunctuation?_eq_none_iff_text?.mp noMark

/-- What the first characters are is the item with which the first of them starts. -/
theorem itemAt_of_spells {ch : Char} {tail : List Char} (spells : item.Spells (ch :: tail) d.rest)
    (span : item.span = Span.between c.position (c.position.after (ch :: tail)))
    (position : d.position = c.position.after (ch :: tail)) :
    c.itemAt ch (tail ++ d.rest) = (item, d) := by
  obtain ⟨behind, _⟩ := d
  subst position
  cases item with
  | error f =>
    obtain ⟨char, place⟩ := f
    obtain ⟨word, -, noDigit, noLetter, noText⟩ := spells
    cases word
    have noMark := Token.Kind.ofPunctuation?_eq_none_iff_text?.mpr noText
    change place = Span.between c.position (c.position.after [char]) at span
    subst span
    simp only [itemAt, noDigit, noLetter, noMark, Bool.false_eq_true, if_false, List.nil_append]
    rfl
  | ok t =>
    obtain ⟨kind, lexeme, place⟩ := t
    obtain ⟨rfl, cases⟩ := Token.spells_iff.mp spells
    change place = _ at span
    subst span
    rcases cases with ⟨⟨-, digits, stop⟩, rfl⟩ | ⟨⟨⟨_, _, ⟨⟩, letter, letters⟩, stop⟩, rfl⟩ |
      ⟨_, ⟨⟩, mark⟩
    · obtain ⟨run, rest⟩ := takeWhile_dropWhile_append
        (fun c hc => digits c (List.mem_cons_of_mem _ hc)) stop
      have digit : ch.isDigit = true := digits ch List.mem_cons_self
      simp only [itemAt, digit, if_true, run, rest]
      rfl
    · obtain ⟨run, rest⟩ := takeWhile_dropWhile_append letters stop
      have noDigit : ch.isDigit = false := by
        cases digit : ch.isDigit with
        | false => rfl
        | true => rw [isAlpha_eq_false_of_isDigit digit] at letter; cases letter
      simp only [itemAt, noDigit, letter, Bool.false_eq_true, if_false, if_true, run, rest]
      rfl
    · obtain ⟨-, noDigit, noLetter, -⟩ := of_ofPunctuation?_eq_some mark
      simp only at mark
      simp only [itemAt, noDigit, noLetter, mark, Bool.false_eq_true, if_false, List.nil_append]
      rfl

/-- Nothing is read exactly if only blanks are left. -/
theorem next?_eq_none_iff : c.next? = none ↔ ∀ ch ∈ c.rest, Text.isBlank ch = true := by
  rw [← List.dropWhile_eq_nil_iff]
  simp only [next?, skip]
  cases c.rest.dropWhile Text.isBlank <;> simp

/-- One reading step passes blanks, takes the characters of an item, and stands behind them. -/
theorem next?_eq_some_iff :
    c.next? = some (item, d) ↔
      ∃ blanks word, c.rest = blanks ++ word ++ d.rest ∧
        (∀ ch ∈ blanks, Text.isBlank ch = true) ∧ item.Spells word d.rest ∧
        item.span = Span.between (c.position.after blanks) (c.position.after (blanks ++ word)) ∧
        d.position = c.position.after (blanks ++ word) := by
  constructor
  · intro h
    simp only [next?] at h
    split at h
    · cases h
    · next ch rest found =>
      have visible : Text.isBlank ch = false := test_eq_false_of_head?_dropWhile
        (l := c.rest) (by rw [show c.rest.dropWhile Text.isBlank = ch :: rest from found]; rfl)
      obtain ⟨word, split, spells, span, position⟩ :=
        spells_itemAt rest visible (Option.some.inj h)
      refine ⟨c.rest.takeWhile Text.isBlank, word, ?_, fun _ => List.mem_takeWhile_imp, spells, ?_,
        ?_⟩
      · rw [List.append_assoc, ← split, ← found]
        exact List.takeWhile_append_dropWhile.symm
      · rw [Position.after_append]
        exact span
      · rw [Position.after_append]
        exact position
  · rintro ⟨blanks, word, split, gap, spells, span, position⟩
    obtain ⟨ch, tail, rfl, visible⟩ := spells.exists_cons
    have stop : ∀ x ∈ (ch :: tail ++ d.rest).head?, Text.isBlank x = false := by
      rintro x ⟨⟩
      exact visible
    rw [List.append_assoc] at split
    obtain ⟨run, rest⟩ := takeWhile_dropWhile_append gap stop
    rw [Position.after_append] at span position
    have skipped : c.skip Text.isBlank = ⟨ch :: (tail ++ d.rest), c.position.after blanks⟩ := by
      rw [skip, split, run, rest, List.cons_append]
    rw [next?, skipped]
    exact congrArg some (itemAt_of_spells spells span position)

/-- **A text is tiled in one way**, by the items that are read off it. -/
theorem tiles_iff {before : List Char} {items : List Item}
    (hc : c.position = Position.start.after before) :
    Tiles before items c.rest ↔ c.items = items := by
  constructor
  · intro h
    generalize hrest : c.rest = rest at h
    induction h generalizing c with
    | nil gap =>
      refine items_of_next?_eq_none (next?_eq_none_iff.mpr ?_)
      rw [hrest]
      exact Text.forall_isBlank_iff.mpr gap
    | @cons before blanks word behind item items gap spells covers rest ih =>
      have position : c.position.after (blanks ++ word) =
          Position.start.after (before ++ blanks ++ word) := by
        rw [hc, ← Position.after_append, List.append_assoc]
      have read : c.next? = some (item, ⟨behind, c.position.after (blanks ++ word)⟩) := by
        refine next?_eq_some_iff.mpr
          ⟨blanks, word, hrest, Text.forall_isBlank_iff.mpr gap, spells, ?_, rfl⟩
        rw [Span.covers_iff.mp covers, position, hc, ← Position.after_append]
      rw [items_of_next?_eq_some read, ih position rfl]
  · rintro rfl
    induction hn : c.rest.length using Nat.strongRecOn generalizing c before with
    | ind n ih =>
      cases found : c.next? with
      | none =>
        rw [items_of_next?_eq_none found]
        exact .nil (Text.forall_isBlank_iff.mp (next?_eq_none_iff.mp found))
      | some next =>
        obtain ⟨item, d⟩ := next
        have shorter : d.rest.length < n := hn ▸ next?_rest_lt found
        obtain ⟨blanks, word, split, gap, spells, span, position⟩ := next?_eq_some_iff.mp found
        rw [hc, ← Position.after_append, ← List.append_assoc] at position
        rw [hc, ← Position.after_append, ← Position.after_append, ← List.append_assoc] at span
        rw [items_of_next?_eq_some found, split]
        exact .cons (Text.forall_isBlank_iff.mp gap) spells (Span.covers_iff.mpr span)
          (ih _ shorter position rfl)

end Cursor

/-! ## Where items stand -/

namespace Tiles

variable {before rest : List Char} {items : List Item} {item : Item}

theorem liesIn (h : Tiles before items rest) (hi : item ∈ items) :
    item.span.LiesIn (before ++ rest) := by
  induction h with
  | nil => cases hi
  | @cons before blanks word behind first items gap spells covers rest ih =>
    have whole : before ++ (blanks ++ word ++ behind) = before ++ blanks ++ word ++ behind := by
      simp only [List.append_assoc]
    rw [whole]
    rcases List.mem_cons.mp hi with rfl | hi
    · exact ⟨before ++ blanks, word, behind, rfl, covers⟩
    · exact ih hi

theorem size_le_start (h : Tiles before items rest) (hi : item ∈ items) :
    (String.ofList before).utf8ByteSize ≤ item.span.start := by
  induction h with
  | nil => cases hi
  | cons gap spells covers rest ih =>
    rcases List.mem_cons.mp hi with rfl | hi
    · rw [covers.start_eq, String.ofList_append, String.utf8ByteSize_append]
      exact Nat.le_add_right _ _
    · have later := ih hi
      rw [List.append_assoc, String.ofList_append, String.utf8ByteSize_append] at later
      omega

/-- Items stand one behind the other. -/
theorem ordered (h : Tiles before items rest) :
    items.Pairwise fun x y => x.span.stop ≤ y.span.start := by
  induction h with
  | nil => exact .nil
  | cons gap spells covers rest ih =>
    refine List.pairwise_cons.mpr ⟨fun later hlater => ?_, ih⟩
    rw [covers.stop_eq]
    exact rest.size_le_start hlater

end Tiles

/-- Every text is tiled by its items. -/
theorem tiles_items (text : String) : Tiles [] (Cursor.ofString text).items text.toList :=
  (Cursor.tiles_iff (c := .ofString text) rfl).mpr rfl

/-- A text that lexes is tiled by its tokens. -/
theorem tiles_of_lex_eq_ok {text : String} {tokens : List Token} (h : lex text = .ok tokens) :
    Tiles [] (tokens.map .ok) text.toList := by
  rw [← items_of_lex_eq_ok h]
  exact tiles_items text

/-- **What the tokens of a text are.**  Lexing succeeds with exactly those tokens of which the
text consists, blanks apart. -/
theorem lex_eq_ok_iff_tiles (text : String) (tokens : List Token) :
    lex text = .ok tokens ↔ Tiles [] (tokens.map .ok) text.toList := by
  rw [show text.toList = (Cursor.ofString text).rest from rfl, Cursor.tiles_iff rfl]
  exact ⟨items_of_lex_eq_ok, lex_eq_ok⟩

end Imperative
