import Imperative.Text.Blank
import Imperative.Token

/-!
# Reading tokens off a text

A *cursor* is the rest of a text together with the position at which that rest starts.
Reading with it skips blanks and then takes one *item*: the longest token that starts
there, or the fault that no token does.  A fault takes its character with it, so that
reading can go on behind it.

`Cursor.next?` is the single reading step.  It gives nothing exactly at the end of the
text, and otherwise leaves a strictly shorter rest (`Cursor.next?_rest_lt`); that is why
the sequence of all items, `Cursor.items`, is a list.  The end of the text is not an item.
It is described by `Cursor.endToken`, an empty token behind the last character, which is
the same wherever in the text one asks for it.
-/

namespace Imperative

/-- What reading finds in a text: a token, or a character with which none starts. -/
abbrev Item := Except Fault Token

/-- The unread rest of a text and the position where it starts. -/
structure Cursor where
  rest : List Char
  position : Position
  deriving DecidableEq, Repr

namespace Cursor

/-- The cursor in front of a whole text. -/
def ofString (text : String) : Cursor :=
  ⟨text.toList, .start⟩

/-- Passes the characters up to the first one that fails the test. -/
def skip (c : Cursor) (test : Char → Bool) : Cursor :=
  ⟨c.rest.dropWhile test, c.position.after (c.rest.takeWhile test)⟩

/-- The cursor behind the last character. -/
def finish (c : Cursor) : Cursor :=
  ⟨[], c.position.after c.rest⟩

/-- The token that marks the end of the text. -/
def endToken (c : Cursor) : Token :=
  ⟨.endOfInput, "", Span.between c.finish.position c.finish.position⟩

/-- The token with text `text`, which starts at the cursor, and the cursor behind it. -/
def take (c : Cursor) (kind : Token.Kind) (text rest : List Char) : Item × Cursor :=
  (.ok ⟨kind, String.ofList text, Span.between c.position (c.position.after text)⟩,
    ⟨rest, c.position.after text⟩)

/-- The fault at the character `ch`, which stands at the cursor, and the cursor behind it. -/
def refuse (c : Cursor) (ch : Char) (rest : List Char) : Item × Cursor :=
  (.error ⟨ch, Span.between c.position (c.position.advance ch)⟩,
    ⟨rest, c.position.advance ch⟩)

/-- The item that starts with the character `ch`, followed by `rest`: the longest run of
digits, the longest word of a letter and letters or digits, or a punctuation mark. -/
def itemAt (c : Cursor) (ch : Char) (rest : List Char) : Item × Cursor :=
  if ch.isDigit then
    c.take .integer (ch :: rest.takeWhile Char.isDigit) (rest.dropWhile Char.isDigit)
  else if ch.isAlpha then
    let word := ch :: rest.takeWhile Char.isAlphanum
    c.take (.ofWord (String.ofList word)) word (rest.dropWhile Char.isAlphanum)
  else
    match Token.Kind.ofPunctuation? ch with
    | some kind => c.take kind [ch] rest
    | none => c.refuse ch rest

/-- The next item of the text and the cursor behind it, or nothing at the end. -/
def next? (c : Cursor) : Option (Item × Cursor) :=
  let c := c.skip Text.isBlank
  match c.rest with
  | [] => none
  | ch :: rest => some (c.itemAt ch rest)

/-! ## Reading ends

Every item takes at least one character, so the rest gets shorter with each of them. -/

/-- What is left behind an item is no longer than what followed its first character. -/
theorem length_rest_itemAt_le (c : Cursor) (ch : Char) (rest : List Char) :
    (c.itemAt ch rest).2.rest.length ≤ rest.length := by
  unfold itemAt
  split
  · exact (List.dropWhile_suffix _).length_le
  · split
    · exact (List.dropWhile_suffix _).length_le
    · split <;> exact Nat.le_refl _

/-- Every item leaves a strictly shorter rest. -/
theorem next?_rest_lt {c d : Cursor} {item : Item} (h : c.next? = some (item, d)) :
    d.rest.length < c.rest.length := by
  have skipped : (c.skip Text.isBlank).rest.length ≤ c.rest.length :=
    (List.dropWhile_suffix _).length_le
  simp only [next?] at h
  split at h
  · cases h
  · next ch rest hrest =>
    have taken := length_rest_itemAt_le (c.skip Text.isBlank) ch rest
    rw [Option.some.inj h] at taken
    rw [hrest, List.length_cons] at skipped
    simp only at taken
    omega

/-- Puts the items of the rest, last one first, in front of those already read. -/
def itemsOnto (read : List Item) (c : Cursor) : List Item :=
  match _found : c.next? with
  | none => read
  | some (item, d) => itemsOnto (item :: read) d
termination_by c.rest.length
decreasing_by exact next?_rest_lt _found

/-- All items of the rest, tokens and faults, in the order of the text. -/
def items (c : Cursor) : List Item :=
  (itemsOnto [] c).reverse

/-- What was read before stays behind what is read now. -/
theorem itemsOnto_eq_append (read : List Item) (c : Cursor) :
    itemsOnto read c = itemsOnto [] c ++ read := by
  induction hn : c.rest.length using Nat.strongRecOn generalizing read c with
  | ind n ih =>
    rw [itemsOnto.eq_def read c, itemsOnto.eq_def [] c]
    split
    · rfl
    · next item d hd =>
      have shorter : d.rest.length < n := hn ▸ next?_rest_lt hd
      rw [ih _ shorter (item :: read) d rfl, ih _ shorter [item] d rfl, List.append_assoc,
        List.singleton_append]

/-- At the end of the text there is no item. -/
theorem items_of_next?_eq_none {c : Cursor} (h : c.next? = none) : c.items = [] := by
  rw [items, itemsOnto.eq_def]
  split
  · rfl
  · next hd => rw [h] at hd; cases hd

/-- The items of a text are the next one and those behind it. -/
theorem items_of_next?_eq_some {c d : Cursor} {item : Item} (h : c.next? = some (item, d)) :
    c.items = item :: d.items := by
  rw [items, itemsOnto.eq_def]
  split
  · next hd => rw [h] at hd; cases hd
  · next hd =>
    rw [h] at hd
    cases hd
    rw [itemsOnto_eq_append, List.reverse_append, items]
    rfl

/-- Reads tokens up to the end of the text or the first fault, and gives the cursor behind
the last thing read.  The tokens read before come in reverse order. -/
def tokensOnto (read : List Token) (c : Cursor) : Except Fault (List Token) × Cursor :=
  match _found : c.next? with
  | none => (.ok read.reverse, c.finish)
  | some (.error fault, d) => (.error fault, d)
  | some (.ok token, d) => tokensOnto (token :: read) d
termination_by c.rest.length
decreasing_by exact next?_rest_lt _found

/-- The tokens of the rest, or its first fault, and the cursor behind what was read. -/
def tokens (c : Cursor) : Except Fault (List Token) × Cursor :=
  c.tokensOnto []

end Cursor

end Imperative
