import Imperative.Program

/-!
# Items and tokens of a text

A parser reads the items of a text, tokens and faults alike, while `lex` gives the tokens
or the first fault.  Both come from the same reading step, and `lex_eq_items` says how the
second follows from the first: it is the list of items with the first fault, if there is
one, brought to the front.  The end of the text is not an item (`kind_ne_endOfInput`).
-/

namespace Imperative

namespace Cursor

/-- Reading tokens is collecting the items up to the first fault. -/
theorem tokensOnto_eq (read : List Token) (c : Cursor) :
    (c.tokensOnto read).1 = (c.items.mapM id).map (read.reverse ++ ·) := by
  induction hn : c.rest.length using Nat.strongRecOn generalizing read c with
  | ind n ih =>
    rw [tokensOnto.eq_def]
    split
    · next none => 
      rw [items_of_next?_eq_none none]
      simp [Except.map, pure, Except.pure]
    · next fault d found =>
      rw [items_of_next?_eq_some found, List.mapM_cons]
      rfl
    · next token d found =>
      have shorter : d.rest.length < n := hn ▸ next?_rest_lt found
      rw [ih _ shorter (token :: read) d rfl, items_of_next?_eq_some found, List.mapM_cons]
      cases d.items.mapM id with
      | error fault => rfl
      | ok tokens => simp [Except.map, bind, Except.bind, pure, Except.pure]

/-- A word is never the mark of the end. -/
theorem ofWord_ne_endOfInput (word : String) : Token.Kind.ofWord word ≠ .endOfInput := by
  unfold Token.Kind.ofWord Token.Kind.ofKeyword?
  split <;> decide

theorem ofPunctuation?_ne_endOfInput {c : Char} {k : Token.Kind}
    (h : Token.Kind.ofPunctuation? c = some k) : k ≠ .endOfInput := by
  unfold Token.Kind.ofPunctuation? at h
  split at h <;> cases h <;> decide

/-- The token with which a character starts is not the mark of the end. -/
theorem kind_itemAt_ne_endOfInput (c : Cursor) (ch : Char) (rest : List Char) {t : Token}
    (h : (c.itemAt ch rest).1 = .ok t) : t.kind ≠ .endOfInput := by
  unfold itemAt at h
  split at h
  · cases h
    simp
  · split at h
    · cases h
      exact ofWord_ne_endOfInput _
    · split at h
      · next k hk =>
        cases h
        exact ofPunctuation?_ne_endOfInput hk
      · cases h

theorem kind_next?_ne_endOfInput {c d : Cursor} {t : Token}
    (h : c.next? = some (.ok t, d)) : t.kind ≠ .endOfInput := by
  simp only [next?] at h
  split at h
  · cases h
  · next ch rest _ =>
    exact kind_itemAt_ne_endOfInput _ ch rest (congrArg Prod.fst (Option.some.inj h))

/-- The end of a text is not an item of it. -/
theorem kind_ne_endOfInput {c : Cursor} {t : Token} (h : .ok t ∈ c.items) :
    t.kind ≠ .endOfInput := by
  induction hn : c.rest.length using Nat.strongRecOn generalizing c with
  | ind n ih =>
    cases found : c.next? with
    | none =>
      rw [items_of_next?_eq_none found] at h
      cases h
    | some next =>
      obtain ⟨item, d⟩ := next
      rw [items_of_next?_eq_some found] at h
      rcases List.mem_cons.mp h with rfl | h
      · exact kind_next?_ne_endOfInput found
      · exact ih _ (hn ▸ next?_rest_lt found) h rfl

end Cursor

/-- The tokens of a text are its items, if no fault is among them. -/
theorem lex_eq_items (text : String) : lex text = (Cursor.ofString text).items.mapM id := by
  have tokens : lex text = ((Cursor.ofString text).tokensOnto []).1 := rfl
  rw [tokens, Cursor.tokensOnto_eq]
  cases (Cursor.ofString text).items.mapM id <;> rfl

/-- Without a fault among the items, lexing succeeds with all of them. -/
theorem lex_eq_ok {text : String} {tokens : List Token}
    (h : (Cursor.ofString text).items = tokens.map .ok) : lex text = .ok tokens := by
  rw [lex_eq_items, h]
  clear h
  induction tokens with
  | nil => rfl
  | cons t ts ih =>
    rw [List.map_cons, List.mapM_cons, ih]
    rfl

/-- If lexing succeeds, the items are the tokens. -/
theorem items_of_lex_eq_ok {text : String} {tokens : List Token} (h : lex text = .ok tokens) :
    (Cursor.ofString text).items = tokens.map .ok := by
  rw [lex_eq_items] at h
  generalize (Cursor.ofString text).items = items at h
  induction items generalizing tokens with
  | nil =>
    cases h
    rfl
  | cons item items ih =>
    rw [List.mapM_cons] at h
    cases item with
    | error fault => cases h
    | ok t =>
      cases hrest : items.mapM id with
      | error fault =>
        rw [hrest] at h
        cases h
      | ok ts =>
        rw [hrest] at h
        cases h
        rw [ih hrest, List.map_cons]

/-- Lexing fails with the first fault among the items. -/
theorem lex_eq_error_iff {text : String} {fault : Fault} :
    lex text = .error fault ↔
      ∃ (tokens : List Token) (rest : List Item),
        (Cursor.ofString text).items = tokens.map .ok ++ .error fault :: rest := by
  rw [lex_eq_items]
  generalize (Cursor.ofString text).items = items
  induction items with
  | nil =>
    constructor
    · rintro ⟨⟩
    · rintro ⟨tokens, rest, h⟩
      simp at h
  | cons item items ih =>
    rw [List.mapM_cons]
    cases item with
    | error first =>
      constructor
      · rintro ⟨⟩
        exact ⟨[], items, rfl⟩
      · rintro ⟨tokens, rest, h⟩
        cases tokens with
        | nil => cases h; rfl
        | cons t tokens => cases h
    | ok t =>
      have later : (do let b ← id (Except.ok t : Item); return b :: (← items.mapM id)) =
          Except.error fault ↔ items.mapM id = .error fault := by
        cases items.mapM id with
        | error first => rfl
        | ok tokens => exact ⟨fun h => (by cases h), fun h => (by cases h)⟩
      rw [later, ih]
      constructor
      · rintro ⟨tokens, rest, rfl⟩
        exact ⟨t :: tokens, rest, rfl⟩
      · rintro ⟨tokens, rest, h⟩
        cases tokens with
        | nil => cases h
        | cons u tokens =>
          cases h
          exact ⟨tokens, rest, rfl⟩

end Imperative
