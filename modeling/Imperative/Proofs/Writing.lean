import Imperative.Proofs.Layout
import Imperative.Proofs.Tiling

/-!
# Writing tokens down

Tokens are written one behind the other, with blanks before, between and behind them.  Reading
gives them back if and only if no two of them run together.  Two neighbours run together when
nothing stands between them and the first could go on with the second: a word in front of a word
or a number, and a number in front of a number.  A number in front of a word does not go on, and
punctuation never does.

* `Lexeme`: what a token is made of when it is written, its place apart.
* `Lexeme.write`: the text of lexemes with blanks around them.
* `Lexeme.endsAt_write_iff`: a lexeme ends where it is written if and only if it may touch what
  comes next.
* `lex_write_iff`: reading undoes writing.
-/

namespace Imperative

/-- The characters `word` can be written as a token of the kind: the text that the kind has, a
run of digits, or a letter and letters or digits that are no keyword. -/
inductive Token.Kind.Writes : Token.Kind → List Char → Prop
  | fixed {kind : Kind} {word : List Char} (text : kind.text? = some (String.ofList word)) :
      Writes kind word
  | integer {word : List Char} (nonempty : word ≠ []) (digits : ∀ c ∈ word, c.isDigit = true) :
      Writes .integer word
  | identifier {c : Char} {tail : List Char} (letter : c.isAlpha = true)
      (letters : ∀ d ∈ tail, d.isAlphanum = true)
      (free : ∀ kind ∈ Kind.keywords, kind.text? ≠ some (String.ofList (c :: tail))) :
      Writes .identifier (c :: tail)

/-- A token as it is written, wherever it stands. -/
structure Lexeme where
  kind : Token.Kind
  word : List Char
  writes : kind.Writes word

/-- A run of blanks, which may be empty. -/
structure Blanks where
  chars : List Char
  blank : ∀ c ∈ chars, Text.isBlank c = true

namespace Lexeme

/-- The kind and the text of the token. -/
def spelling (l : Lexeme) : Token.Kind × String :=
  (l.kind, String.ofList l.word)

/-- The lexeme is a keyword or an identifier. -/
def IsWord (l : Lexeme) : Prop :=
  l.kind ∈ Token.Kind.keywords ∨ l.kind = .identifier

/-- The lexeme is a run of digits. -/
def IsNumber (l : Lexeme) : Prop :=
  l.kind = .integer

/-- The second lexeme may be written behind the first with nothing between them. -/
def MayTouch (l next : Lexeme) : Prop :=
  ¬ (l.IsWord ∧ (next.IsWord ∨ next.IsNumber)) ∧ ¬ (l.IsNumber ∧ next.IsNumber)

/-- The text of lexemes, each with the blanks in front of it, and of the blanks behind them. -/
def write : List (Blanks × Lexeme) → Blanks → List Char
  | [], last => last.chars
  | (gap, l) :: written, last => gap.chars ++ l.word ++ write written last

/-- Neighbours that may not touch have blanks between them. -/
def Separated (written : List (Blanks × Lexeme)) : Prop :=
  written.IsChain fun x y => y.1.chars = [] → x.2.MayTouch y.2

/-! ## The characters of a lexeme -/

variable {l : Lexeme}

/-- A lexeme is a number, a word that is read as its kind, or a mark that is. -/
theorem cases_of_writes (l : Lexeme) :
    (l.IsNumber ∧ ¬ l.IsWord ∧ l.word ≠ [] ∧ ∀ c ∈ l.word, c.isDigit = true)
    ∨ (¬ l.IsNumber ∧ l.IsWord ∧ l.kind = .ofWord (String.ofList l.word)
      ∧ ∃ c tail, l.word = c :: tail ∧ c.isAlpha = true ∧ ∀ d ∈ tail, d.isAlphanum = true)
    ∨ (¬ l.IsNumber ∧ ¬ l.IsWord
      ∧ ∃ c, l.word = [c] ∧ Token.Kind.ofPunctuation? c = some l.kind) := by
  obtain ⟨kind, word, writes⟩ := l
  have named : kind = .ofWord (String.ofList word) →
      kind ≠ .integer ∧ (kind ∈ Token.Kind.keywords ∨ kind = .identifier) := by
    rintro rfl
    exact ⟨Token.ofWord_ne_integer _, Token.ofWord_mem_keywords _⟩
  simp only [IsNumber, IsWord]
  cases writes with
  | integer nonempty digits => exact .inl ⟨rfl, by decide, nonempty, digits⟩
  | fixed text =>
    rcases Token.Kind.shape_of_text? text with ⟨member, letters⟩ | ⟨-, c, rfl⟩
    · have keyword := Token.Kind.ofKeyword?_eq_some_iff.mpr ⟨member, text⟩
      have spelt : kind = .ofWord (String.ofList word) := by
        rw [Token.Kind.ofWord, keyword, Option.getD_some]
      exact .inr (.inl ⟨(named spelt).1, (named spelt).2, spelt, letters⟩)
    · have mark := Token.Kind.ofPunctuation?_eq_some_iff.mpr text
      obtain ⟨-, -, -, noKeyword, noIdentifier, noInteger⟩ := of_ofPunctuation?_eq_some mark
      exact .inr (.inr ⟨noInteger, not_or.mpr ⟨noKeyword, noIdentifier⟩, c, rfl, mark⟩)
  | @identifier c tail letter letters free =>
    have spelt : .identifier = Token.Kind.ofWord (String.ofList (c :: tail)) := by
      cases found : Token.Kind.ofKeyword? (String.ofList (c :: tail)) with
      | none => rw [Token.Kind.ofWord, found, Option.getD_none]
      | some kind =>
        obtain ⟨keyword, text⟩ := Token.Kind.ofKeyword?_eq_some_iff.mp found
        exact absurd text (free kind keyword)
    exact .inr (.inl ⟨(named spelt).1, (named spelt).2, spelt, c, tail, rfl, letter, letters⟩)

/-- The first character of a lexeme tells what the lexeme is. -/
theorem exists_head (l : Lexeme) :
    ∃ c tail, l.word = c :: tail ∧ Text.isBlank c = false ∧ (c.isDigit = true ↔ l.IsNumber)
      ∧ (c.isAlphanum = true ↔ l.IsWord ∨ l.IsNumber) := by
  rcases l.cases_of_writes with ⟨number, noWord, nonempty, digits⟩ |
    ⟨noNumber, name, -, c, tail, word, letter, -⟩ | ⟨noNumber, noWord, c, word, mark⟩
  · obtain ⟨c, tail, word⟩ := List.exists_cons_of_ne_nil nonempty
    have digit : c.isDigit = true := digits c (word ▸ List.mem_cons_self)
    have alphanum : c.isAlphanum = true := by simp [Char.isAlphanum, digit]
    exact ⟨c, tail, word, isBlank_eq_false_of_isAlphanum alphanum, by simp [digit, number],
      by simp [alphanum, number]⟩
  · have alphanum : c.isAlphanum = true := by simp [Char.isAlphanum, letter]
    have noDigit : ¬ c.isDigit = true := by
      intro digit
      rw [isAlpha_eq_false_of_isDigit digit] at letter
      cases letter
    exact ⟨c, tail, word, isBlank_eq_false_of_isAlphanum alphanum, by simp [noDigit, noNumber],
      by simp [alphanum, name]⟩
  · obtain ⟨visible, noDigit, noLetter, -⟩ := of_ofPunctuation?_eq_some mark
    exact ⟨c, [], word, visible, by simp [noDigit, noNumber],
      by simp [Char.isAlphanum, noDigit, noLetter, noWord, noNumber]⟩

/-! ## Where a lexeme ends -/

/-- The lexeme cannot go on with the characters behind it. -/
def EndsAt (l : Lexeme) (behind : List Char) : Prop :=
  ∀ c ∈ behind.head?, ¬ (l.IsWord ∧ c.isAlphanum = true) ∧ ¬ (l.IsNumber ∧ c.isDigit = true)

/-- What has the spelling of a lexeme is a token if and only if it ends where the lexeme does. -/
theorem spells_iff_endsAt {t : Token} {behind : List Char} (h : t.spelling = l.spelling) :
    t.Spells l.word behind ↔ l.EndsAt behind := by
  have kind : t.kind = l.kind := congrArg Prod.fst h
  have lexeme : t.lexeme = String.ofList l.word := congrArg Prod.snd h
  constructor
  · intro spells c next
    constructor
    · rintro ⟨name, alphanum⟩
      have stop := (spells.word_iff.mp (kind ▸ name)).2 c next
      rw [alphanum] at stop
      cases stop
    · rintro ⟨number, digit⟩
      have stop := (spells.integer_iff.mp (kind.trans number)).2.2 c next
      rw [digit] at stop
      cases stop
  · intro ends
    refine Token.spells_iff.mpr ⟨lexeme, ?_⟩
    rcases l.cases_of_writes with ⟨number, -, nonempty, digits⟩ |
      ⟨-, name, spelt, letters⟩ | ⟨-, -, mark⟩
    · refine .inl ⟨⟨nonempty, digits, fun c next => ?_⟩, kind.trans number⟩
      exact Bool.eq_false_iff.mpr fun digit => (ends c next).2 ⟨number, digit⟩
    · refine .inr (.inl ⟨⟨letters, fun c next => ?_⟩, kind.trans spelt⟩)
      exact Bool.eq_false_iff.mpr fun alphanum => (ends c next).1 ⟨name, alphanum⟩
    · exact .inr (.inr (kind ▸ mark))

/-- Every lexeme ends in front of a blank. -/
theorem endsAt_of_blank {behind : List Char} (h : ∀ c ∈ behind.head?, Text.isBlank c = true) :
    l.EndsAt behind := by
  intro c next
  have blank := h c next
  constructor
  · rintro ⟨-, alphanum⟩
    rw [isBlank_eq_false_of_isAlphanum alphanum] at blank
    cases blank
  · rintro ⟨-, digit⟩
    rw [isBlank_eq_false_of_isAlphanum (by simp [Char.isAlphanum, digit])] at blank
    cases blank

/-- A lexeme ends in front of others if and only if there are blanks between it and the first of
them, or the two may touch. -/
theorem endsAt_write_iff (l : Lexeme) (written : List (Blanks × Lexeme)) (last : Blanks) :
    l.EndsAt (write written last) ↔
      ∀ x ∈ written.head?, x.1.chars = [] → l.MayTouch x.2 := by
  rcases written with _ | ⟨⟨⟨_ | ⟨b, gap⟩, blank⟩, next⟩, written⟩
  · have ends : l.EndsAt (write [] last) :=
      endsAt_of_blank fun c hc => last.blank c (List.mem_of_mem_head? hc)
    simp [ends]
  · obtain ⟨c, tail, word, -, digit, alphanum⟩ := next.exists_head
    have head : (write ((⟨[], blank⟩, next) :: written) last).head? = some c := by
      simp [write, word]
    simp only [EndsAt, head, List.head?_cons, Option.mem_some_iff, forall_eq', MayTouch, alphanum,
      digit, forall_const]
  · have ends : l.EndsAt (b :: gap ++ next.word ++ write written last) := by
      refine endsAt_of_blank ?_
      rintro c ⟨⟩
      exact blank b List.mem_cons_self
    exact iff_of_true ends (by rintro x ⟨⟩ ⟨⟩)

end Lexeme

/-! ## Reading what was written -/

open Lexeme

/-- Two runs of blanks in front of a character that is not blank are the same. -/
theorem blanks_unique {gap gap' rest rest' : List Char}
    (hgap : ∀ c ∈ gap, Text.isBlank c = true) (hgap' : ∀ c ∈ gap', Text.isBlank c = true)
    (hrest : ∀ c ∈ rest.head?, Text.isBlank c = false)
    (hrest' : ∀ c ∈ rest'.head?, Text.isBlank c = false) (h : gap ++ rest = gap' ++ rest') :
    gap = gap' ∧ rest = rest' := by
  have left := takeWhile_dropWhile_append hgap hrest
  have right := takeWhile_dropWhile_append hgap' hrest'
  rw [h] at left
  exact ⟨left.1.symm.trans right.1, left.2.symm.trans right.2⟩

/-- A token that is spelt like the first lexeme of a text tiles just this lexeme and the blanks in
front of it. -/
theorem of_tiles_cons {before rest : List Char} {gap : Blanks} {l : Lexeme} {t : Token}
    {items : List Item} (h : Tiles before (.ok t :: items) (gap.chars ++ l.word ++ rest))
    (same : t.spelling = l.spelling) :
    t.Spells l.word rest ∧ Tiles (before ++ gap.chars ++ l.word) items rest := by
  generalize htext : gap.chars ++ l.word ++ rest = text at h
  cases h with
  | @cons _ blanks word behind _ _ blank spells covers tiles =>
    have lexeme : String.ofList l.word = String.ofList word :=
      (congrArg Prod.snd same).symm.trans (Token.Spells.lexeme_eq spells)
    obtain rfl : l.word = word := String.ofList_injective lexeme
    obtain ⟨c, tail, word, visible, -⟩ := l.exists_head
    have head : ∀ rest, ∀ x ∈ (l.word ++ rest).head?, Text.isBlank x = false := by
      rw [word]
      rintro rest x ⟨⟩
      exact visible
    rw [List.append_assoc, List.append_assoc] at htext
    obtain ⟨rfl, hrest⟩ :=
      blanks_unique gap.blank (Text.forall_isBlank_iff.mpr blank) (head _) (head _) htext
    obtain rfl := List.append_cancel_left hrest
    exact ⟨spells, tiles⟩

/-- Tokens spelt like lexemes tile what was written if and only if no two of these run
together. -/
theorem tiles_write_iff (before : List Char) (written : List (Blanks × Lexeme)) (last : Blanks) :
    (∃ tokens : List Token, Tiles before (tokens.map .ok) (write written last)
      ∧ tokens.map Token.spelling = written.map (·.2.spelling)) ↔ Separated written := by
  induction written generalizing before with
  | nil => exact ⟨fun _ => .nil, fun _ => ⟨[], .nil (Text.forall_isBlank_iff.mp last.blank), rfl⟩⟩
  | cons first written ih =>
    obtain ⟨gap, l⟩ := first
    rw [Separated, List.isChain_cons, ← l.endsAt_write_iff written last,
      ← Separated, ← ih (before ++ gap.chars ++ l.word)]
    constructor
    · rintro ⟨tokens, tiles, spelt⟩
      cases tokens with
      | nil => cases spelt
      | cons t tokens =>
        obtain ⟨same, spelt⟩ := List.cons.inj spelt
        obtain ⟨spells, tiles⟩ := of_tiles_cons tiles same
        exact ⟨(spells_iff_endsAt same).mp spells, tokens, tiles, spelt⟩
    · rintro ⟨ends, tokens, tiles, spelt⟩
      let t : Token := ⟨l.kind, .ofList l.word, Span.between
        (Position.start.after (before ++ gap.chars))
        (Position.start.after (before ++ gap.chars ++ l.word))⟩
      have white := Text.forall_isBlank_iff.mp gap.blank
      refine ⟨t :: tokens, .cons white ?_ (Span.covers_iff.mpr rfl) tiles, ?_⟩
      · exact (spells_iff_endsAt (t := t) rfl).mpr ends
      · rw [List.map_cons, spelt]
        rfl

/-- **Reading undoes writing.**  Tokens are written down in any order and with any blanks around
them.  Reading the text gives tokens of the same kinds and texts in the same order, if and only
if there are blanks between every two neighbours of which the first could go on with the second. -/
theorem lex_write_iff (written : List (Blanks × Lexeme)) (last : Blanks) :
    (∃ tokens, lex (String.ofList (write written last)) = .ok tokens
      ∧ tokens.map Token.spelling = written.map (·.2.spelling)) ↔ Separated written := by
  rw [← tiles_write_iff [] written last]
  refine exists_congr fun tokens => and_congr_left fun _ => ?_
  generalize htext : String.ofList (write written last) = text
  have chars : write written last = (Cursor.ofString text).rest := by
    rw [← htext]
    exact String.toList_ofList.symm
  rw [chars, Cursor.tiles_iff rfl]
  exact ⟨items_of_lex_eq_ok, lex_eq_ok⟩

-- A number ends in front of a word, but a word goes on with a number.
example : (lex "12ab").map (·.map Token.spelling) =
    .ok [(.integer, "12"), (.identifier, "ab")] := by cbv

example : (lex "ab12").map (·.map Token.spelling) = .ok [(.identifier, "ab12")] := by cbv

end Imperative
