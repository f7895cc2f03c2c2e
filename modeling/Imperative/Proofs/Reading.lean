import Imperative.Proofs.Grammar

/-!
# What a parser takes

The steps of parsing seen from outside.  A run that succeeds takes a stretch of tokens off
the front of what is left to read, and nothing else: `Parser.Reads s ts s'` says that `ts`
is that stretch, in order and without gaps, when the parser `s` has become `s'`.  The facts
compose along `Reads.trans`, so a rule that calls other rules takes the concatenation of
what they take.

Below the statements nothing is numbered, and `Parser.Takes` adds that to `Reads`.

Looking ahead takes nothing.  What it tells about the tokens that are still to come is
kept as a fact about the list of items (`Parse.current_ok`, `Parse.nextKind_ok`), and
`Parse.advance_ok` turns such a fact into one token taken.

The end token is given for ever and never leaves the parser, so it must not be counted as
taken.  The only thing needed for that is that it is of its own kind, which every lemma
here asks of the parser it starts with.
-/

namespace Imperative

/-- The tokens `ts` were taken between `s` and `s'`. -/
structure Parser.Reads (s : Parser) (ts : List Token) (s' : Parser) : Prop where
  items : s.items = ts.map .ok ++ s'.items
  final : s'.final = s.final
  previous : s'.previous = (ts.getLast?.map Token.span).getD s.previous

/-- The tokens `ts` were taken between `s` and `s'`, and no procedure was numbered. -/
structure Parser.Takes (s : Parser) (ts : List Token) (s' : Parser) : Prop
    extends Parser.Reads s ts s' where
  procedures : s'.procedures = s.procedures

/-- The token behind the last item marks the end. -/
def Parser.Ends (s : Parser) : Prop :=
  s.final.kind = .endOfInput

namespace Parser

variable {s s' s'' : Parser} {ts us : List Token} {t : Token}

theorem Reads.refl (s : Parser) : s.Reads [] s := ⟨rfl, rfl, rfl⟩

theorem Takes.refl (s : Parser) : s.Takes [] s := ⟨.refl s, rfl⟩

theorem Reads.trans (h : s.Reads ts s') (h' : s'.Reads us s'') : s.Reads (ts ++ us) s'' where
  items := by rw [h.items, h'.items, List.map_append, List.append_assoc]
  final := h'.final.trans h.final
  previous := by
    rw [h'.previous, h.previous, List.getLast?_append]
    cases us.getLast? <;> rfl

theorem Takes.trans (h : s.Takes ts s') (h' : s'.Takes us s'') : s.Takes (ts ++ us) s'' :=
  ⟨h.toReads.trans h'.toReads, h'.procedures.trans h.procedures⟩

theorem Reads.ends (h : s.Reads ts s') (hs : s.Ends) : s'.Ends := by
  rw [Ends, h.final, hs]

/-- The span from the first token taken to the last one covers all of them. -/
theorem Reads.through_previous (h : s.Reads (t :: ts) s') :
    t.span.through s'.previous = Token.cover (t :: ts) := by
  rw [h.previous, List.getLast?_cons]
  rfl

end Parser

namespace Parse

variable {α β : Type} {s s' : Parser} {t : Token}

/-! ## Sequencing -/

/-- A sequence of two steps hands the first result to the second step, unless it fails. -/
theorem run_bind (p : Parse α) (f : α → Parse β) (s : Parser) :
    (p >>= f).run s = match p.run s with
      | (.ok a, s') => (f a).run s'
      | (.error e, s') => (.error e, s') := by
  change (ExceptT.bindCont f (p.run s).1) (p.run s).2 = _
  rcases p.run s with ⟨_ | _, _⟩ <;> rfl

/-- A sequence that succeeds has two steps that do. -/
theorem of_bind {p : Parse α} {f : α → Parse β} {b : β}
    (h : (p >>= f).run s = (.ok b, s')) :
    ∃ a s₁, p.run s = (.ok a, s₁) ∧ (f a).run s₁ = (.ok b, s') := by
  rw [run_bind] at h
  split at h
  · next a s₁ hp => exact ⟨a, s₁, hp, h⟩
  · cases h

/-- A choice between two first steps, with the same second step behind both. -/
theorem of_ite_bind {c : Prop} [Decidable c] {p q : Parse α} {f : α → Parse β} {b : β}
    (h : (if c then p >>= f else q >>= f).run s = (.ok b, s')) :
    ∃ a s₁, (if c then p else q).run s = (.ok a, s₁) ∧ (f a).run s₁ = (.ok b, s') := by
  split at h
  · next hc =>
    obtain ⟨a, s₁, h₁, k₁⟩ := of_bind h
    exact ⟨a, s₁, by rw [if_pos hc, h₁], k₁⟩
  · next hc =>
    obtain ⟨a, s₁, h₁, k₁⟩ := of_bind h
    exact ⟨a, s₁, by rw [if_neg hc, h₁], k₁⟩

/-- A parser that fails on purpose does not succeed. -/
theorem not_unexpected_ok {expected : Expectation} {a : α}
    (h : (unexpected expected t).run s = (.ok a, s')) : False := by
  cases h

/-! ## Looking at tokens -/

/-- The current token is the first item, or the end token when there is none. -/
theorem current_ok (h : current.run s = (.ok t, s')) :
    s' = s ∧ (s.items = [] ∧ t = s.final ∨ ∃ rest, s.items = .ok t :: rest) := by
  obtain ⟨p, s₁, h₁, h⟩ := of_bind h
  cases h₁
  split at h
  · next hnil =>
    cases h
    exact ⟨rfl, .inl ⟨hnil, rfl⟩⟩
  · next u rest hcons =>
    cases h
    exact ⟨rfl, .inr ⟨rest, hcons⟩⟩
  · cases h

/-- A current token that is not the end token is the first item. -/
theorem current_ok_of_ne (h : current.run s = (.ok t, s')) (hs : s.Ends)
    (ht : t.kind ≠ .endOfInput) : s' = s ∧ ∃ rest, s.items = .ok t :: rest := by
  obtain ⟨rfl, ⟨-, rfl⟩ | hrest⟩ := current_ok h
  · exact absurd hs ht
  · exact ⟨rfl, hrest⟩

theorem tooDeep_ok {a : α} (h : tooDeep.run s = (.ok a, s')) : False := by
  obtain ⟨u, s₁, -, h⟩ := of_bind h
  cases h

/-- The kind looked at is that of the current token. -/
theorem kind_ok {k : Token.Kind} (h : kind.run s = (.ok k, s')) :
    ∃ t, current.run s = (.ok t, s') ∧ t.kind = k := by
  obtain ⟨t, s₁, h₁, h⟩ := of_bind h
  cases h
  exact ⟨t, h₁, rfl⟩

theorem state_of_kind_ok {k : Token.Kind} (h : kind.run s = (.ok k, s')) : s' = s := by
  obtain ⟨t, ht, -⟩ := kind_ok h
  exact (current_ok ht).1

theorem state_of_nextKind_ok {k : Token.Kind} (h : nextKind.run s = (.ok k, s')) : s' = s := by
  obtain ⟨u, s₁, h₁, k₁⟩ := of_bind h
  obtain ⟨rfl, -⟩ := current_ok h₁
  obtain ⟨p, s₂, h₂, k₂⟩ := of_bind k₁
  cases h₂
  split at k₂ <;> cases k₂ <;> rfl

/-! ## Taking tokens -/

/-- Taking the first item. -/
theorem advance_ok {u : Token} {rest : List Item} (h : advance.run s = (.ok t, s'))
    (hs : s.items = .ok u :: rest) : t = u ∧ s.Takes [u] s' := by
  obtain ⟨v, s₁, h₁, h⟩ := of_bind h
  obtain ⟨rfl, ⟨hnil, -⟩ | ⟨rest', hcons⟩⟩ := current_ok h₁
  · rw [hs] at hnil
    cases hnil
  · rw [hs] at hcons
    cases hcons
    obtain ⟨_, s₂, h₂, h⟩ := of_bind h
    cases h₂
    cases h
    exact ⟨rfl, ⟨by simp [hs], rfl, rfl⟩, rfl⟩

/-- Asking for a token of a kind takes one of that kind. -/
theorem expect_ok {k : Token.Kind} (h : (expect k).run s = (.ok t, s')) (hs : s.Ends)
    (hk : k ≠ .endOfInput) : t.kind = k ∧ s.Takes [t] s' := by
  obtain ⟨u, s₁, h₁, k₁⟩ := of_bind h
  split at k₁
  · next hu =>
    obtain ⟨rfl, rest, hrest⟩ := current_ok_of_ne h₁ hs (hu ▸ hk)
    obtain ⟨rfl, taken⟩ := advance_ok k₁ hrest
    exact ⟨hu, taken⟩
  · cases k₁

/-- A span that is finished reaches to the last token taken. -/
theorem finish_ok {first span : Span} (h : (finish first).run s = (.ok span, s')) :
    s' = s ∧ span = first.through s.previous := by
  obtain ⟨p, s₁, h₁, h⟩ := of_bind h
  cases h₁
  cases h
  exact ⟨rfl, rfl⟩

/-- What starts with the current token, once taken, starts with that token. -/
theorem head_eq_of_reads {u : Token} {ts : List Token} {rest : List Item}
    (hrest : s.items = .ok t :: rest) (h : s.Reads (u :: ts) s') : u = t := by
  have items := h.items
  rw [hrest] at items
  cases items
  rfl

/-- The start of what comes next is the span of the first token taken from there. -/
theorem start_ok {first : Span} {s₁ : Parser} (h : start.run s = (.ok first, s₁)) :
    s₁ = s ∧ ∀ ⦃t : Token⦄ ⦃ts : List Token⦄ ⦃s' : Parser⦄,
      s.Reads (t :: ts) s' → t.span = first := by
  obtain ⟨u, s₂, h₂, k₂⟩ := of_bind h
  cases k₂
  obtain ⟨rfl, ⟨hnil, -⟩ | ⟨rest, hrest⟩⟩ := current_ok h₂
  · refine ⟨rfl, fun t ts s' read => ?_⟩
    have items := read.items
    rw [hnil] at items
    cases items
  · refine ⟨rfl, fun t ts s' read => ?_⟩
    rw [head_eq_of_reads hrest read]

/-! ## Nesting

Levels of nesting are counted in a field of their own, so a step one level deeper takes
what the step itself takes. -/

theorem enter_ok (h : enter.run s = (.ok (), s')) : ∃ depth, s' = { s with depth } := by
  obtain ⟨p, s₁, h₁, h⟩ := of_bind h
  cases h₁
  split at h
  · obtain ⟨_, s₂, h₂, -⟩ := of_bind h
    exact (tooDeep_ok h₂).elim
  · cases h
    exact ⟨_, rfl⟩

theorem leave_ok {levels : Nat} (h : (leave levels).run s = (.ok (), s')) :
    ∃ depth, s' = { s with depth } := by
  cases h
  exact ⟨_, rfl⟩

theorem nested_ok {p : Parse α} {a : α} (h : (nested p).run s = (.ok a, s')) :
    ∃ depth s₁ depth', p.run { s with depth } = (.ok a, s₁) ∧
      s' = { s₁ with depth := depth' } := by
  obtain ⟨_, s₁, h₁, k₁⟩ := of_bind h
  obtain ⟨depth, rfl⟩ := enter_ok h₁
  have outcome : ((p.run { s with depth }).1,
      { (p.run { s with depth }).2 with
        depth := (p.run { s with depth }).2.depth - 1 }) = (.ok a, s') := k₁
  obtain ⟨ok, state⟩ := Prod.mk.inj outcome
  exact ⟨depth, _, _, Prod.ext ok rfl, state.symm⟩

end Parse

end Imperative
