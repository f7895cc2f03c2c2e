import Imperative.Proofs.LexerUse
import Imperative.Proofs.ParserProgress
import Imperative.Proofs.ProcedureNumbers

/-!
# Parsing from a lexer

A `Parser` has all items of its text before it.  A *reader* has only a lexer, which it asks for one
token after the other, and two places for tokens that it has looked at and not taken: one for the
current token, and one for the token behind it.  How often it asks cannot be seen from a parser, and it
matters: a lexer gives the end of its text for ever, so a reader that went on asking would not stop.

## The same steps

A reader parses by the steps of a parser (`Parse.Steps.reading`), with operations of its own for single
steps.  What is in its two places and what its lexer has yet to give are, in this order, what a parser
has before it, and then a reader comes to the same result as a parser, and stands where the parser
stands (`Reading.steps_agree`).

## Counting answers

A lexer owes its items and the end once (`Lexer.Owes`).  Each answer that a reader gets is one of
those, as long as it asks for nothing behind the end; so the answers that it has got and those that are
owed to it are always the same number together.  That the end is not taken, and nothing looked at
behind it, is what `Steps.Progresses` says of the rules, so the two halves meet in
`Reader.parse_agrees`, which carries the number through a whole call and from one call to the next.
-/

namespace Imperative

/-- A parser that asks a lexer for its tokens. -/
structure Reader where
  lexer : Lexer
  /-- The current token, once it has been looked at. -/
  held : Option Token := none
  /-- The token behind the current one, once that has been looked at. -/
  ahead : Option Token := none
  previous : Span := {}
  procedures : Nat := 0
  depth : Nat := 0
  /-- How often the lexer was asked. -/
  reads : Nat := 0

/-- Parsing from a lexer: a reader goes in, and comes out again with a result or a failure. -/
abbrev Reading := ExceptT ParseError (StateM Reader)

namespace Reading

/-- The next answer of the lexer. -/
def ask : Reading Token := do
  let reader ← get
  set { reader with lexer := reader.lexer.next.2, reads := reader.reads + 1 }
  match reader.lexer.next.1 with
  | .ok token => return token
  | .error fault => throw (.lexical fault)

/-- Takes the token behind the current one, from its place or else from the lexer. -/
def pull : Reading Token := do
  let reader ← get
  match reader.ahead with
  | none => ask
  | some token =>
    set { reader with ahead := none }
    return token

/-- Takes the current token, from its place or else as the one behind what was taken before. -/
def take : Reading Token := do
  let reader ← get
  match reader.held with
  | none => pull
  | some token =>
    set { reader with held := none }
    return token

/-- Takes the current token, and puts it into its place. -/
def current : Reading Token := do
  let token ← take
  modify fun reader => { reader with held := some token }
  return token

/-- The kind of the current token. -/
def kind : Reading Token.Kind :=
  return (← current).kind

/-- Takes the token behind the current one, and puts it into its place. -/
def peek : Reading Token := do
  let token ← pull
  modify fun reader => { reader with ahead := some token }
  return token

/-- The kind of the token behind the current one.  Both stay in their places. -/
def nextKind : Reading Token.Kind := do
  let _ ← current
  return (← peek).kind

/-- Takes the current token for good. -/
def advance : Reading Token := do
  let token ← take
  modify fun reader => { reader with previous := token.span }
  return token

/-- Fails because the current token is nested too deep. -/
def tooDeep {α : Type} : Reading α := do
  let token ← current
  throw (.tooDeep maxNesting token.span)

/-- Takes one level of nesting. -/
def enter : Reading Unit := do
  if maxNesting ≤ (← get).depth then tooDeep
  modify fun reader => { reader with depth := reader.depth + 1 }

/-- Gives levels of nesting back. -/
def leave (levels : Nat) : Reading Unit :=
  modify fun reader => { reader with depth := reader.depth - levels }

/-- Parses one level deeper, and gives that level back whether or not this succeeds. -/
def nested {α : Type} (inner : Reading α) : Reading α := do
  enter
  ExceptT.mk do
    let outcome ← inner.run
    modify fun reader => { reader with depth := reader.depth - 1 }
    return outcome

/-- The span from `first` to the end of the last token taken. -/
def finish (first : Span) : Reading Span :=
  return first.through (← get).previous

/-- The next number for a procedure. -/
def freshId : Reading ProcedureId := do
  let reader ← get
  set { reader with procedures := reader.procedures + 1 }
  return ⟨reader.procedures⟩

/-- Parses the operators and operands that follow `lhs`, with `levels` levels taken for them. -/
def chainAfter (operator? : Token.Kind → Option BinaryOp) (operand : Reading Expr) :
    Nat → Nat → Expr → Reading Expr
  | 0, _, _ => tooDeep
  | budget + 1, levels, lhs => do
    match operator? (← kind) with
    | none =>
      leave levels
      return lhs
    | some op =>
      let _ ← advance
      enter
      let rhs ← operand
      chainAfter operator? operand budget (levels + 1)
        (.binary op lhs rhs (lhs.span.through rhs.span))

/-- Parses operands joined by operators of one level. -/
def chain (operator? : Token.Kind → Option BinaryOp) (operand : Reading Expr) (budget : Nat) :
    Reading Expr := do
  let lhs ← operand
  chainAfter operator? operand budget 0 lhs

end Reading

/-- The same steps, made by a reader. -/
def Parse.Steps.reading : {α : Type} → {p : Parse α} → Steps p → Reading α
  | _, _, .result a => pure a
  | _, _, .failure e => throw e
  | _, _, .spent => Reading.tooDeep
  | _, _, .current => Reading.current
  | _, _, .nextKind => Reading.nextKind
  | _, _, .advance => Reading.advance
  | _, _, .finish first => Reading.finish first
  | _, _, .freshId => Reading.freshId
  | _, _, .bind first next => first.reading >>= fun a => (next a).reading
  | _, _, .nested inner => Reading.nested inner.reading
  | _, _, .chain operator? operand budget => Reading.chain operator? operand.reading budget

/-! ## What a lexer owes -/

namespace Lexer

variable {l : Lexer} {final : Token} {unread : List Item}

/-- What a lexer owes: its items and then the end, or nothing if it has given all of that. -/
def Owes (l : Lexer) (final : Token) (unread : List Item) : Prop :=
  l.cursor.endToken = final
    ∧ (unread = l.cursor.items ++ [.ok final] ∨ unread = [] ∧ l.cursor.items = [])

/-- An answer is the first thing owed, and the others are owed behind it. -/
theorem Owes.next {item : Item} (h : l.Owes final (item :: unread)) :
    l.next.1 = item ∧ l.next.2.Owes final unread := by
  obtain ⟨rfl, hunread | ⟨hnil, -⟩⟩ := h
  · cases hnext : l.cursor.next? with
    | none =>
      have hfinish : l.cursor.finish.next? = none :=
        Cursor.next?_eq_none_iff.mpr (by rintro ch ⟨⟩)
      rw [Cursor.items_of_next?_eq_none hnext] at hunread
      obtain ⟨rfl, rfl⟩ := List.cons.inj hunread
      rw [next_of_none hnext]
      exact ⟨rfl, rfl, .inr ⟨rfl, Cursor.items_of_next?_eq_none hfinish⟩⟩
    | some found =>
      rw [Cursor.items_of_next?_eq_some hnext] at hunread
      obtain ⟨rfl, rfl⟩ := List.cons.inj hunread
      rw [next_of_some hnext]
      exact ⟨rfl, endToken_of_next? hnext, .inl rfl⟩
  · cases hnil

theorem Owes.length_le (h : l.Owes final unread) : unread.length ≤ l.cursor.items.length + 1 := by
  obtain ⟨-, rfl | ⟨rfl, -⟩⟩ := h
  · rw [List.length_append, List.length_singleton]
  · exact Nat.zero_le _

end Lexer

/-! ## Agreement -/

namespace Reader

variable {α : Type} {r : Reader} {s : Parser} {n : Nat}

/-- The tokens in the two places. -/
def buffer (r : Reader) : List Token :=
  r.held.toList ++ r.ahead.toList

/-- What there is to read, up to the end, is in the two places or owed by the lexer; `n` answers were
given or are owed. -/
def Feeds (r : Reader) (final : Token) (n : Nat) (stream : List Item) : Prop :=
  ∃ unread, r.lexer.Owes final unread ∧ stream = r.buffer.map .ok ++ unread
    ∧ n = r.reads + unread.length

/-- The reader `r` stands where the parser `s` stands. -/
structure Serves (r : Reader) (s : Parser) (n : Nat) : Prop where
  feeds : r.Feeds s.final n (s.items ++ [.ok s.final])
  ends : s.Ends
  tokens : ∀ t, .ok t ∈ s.items → t.kind ≠ .endOfInput
  previous : r.previous = s.previous
  procedures : r.procedures = s.procedures
  depth : r.depth = s.depth

/-- A reader and a parser come to the same. -/
structure Agrees (n : Nat) (x : Except ParseError α × Reader) (y : Except ParseError α × Parser) :
    Prop where
  result : x.1 = y.1
  serves : x.2.Serves y.2 n

/-- Only what there is to read has changed. -/
theorem Serves.of_feeds {lexer : Lexer} {held ahead : Option Token} {reads : Nat}
    {items : List Item} (h : r.Serves s n)
    (hfeeds : ({ r with lexer, held, ahead, reads } : Reader).Feeds s.final n
      (items ++ [.ok s.final]))
    (hitems : items ⊆ s.items) :
    ({ r with lexer, held, ahead, reads } : Reader).Serves { s with items } n :=
  ⟨hfeeds, h.ends, fun t ht => h.tokens t (hitems ht), h.previous, h.procedures, h.depth⟩

/-- Only the levels of nesting have changed. -/
theorem Serves.withDepth (h : r.Serves s n) (change : Nat → Nat) :
    ({ r with depth := change r.depth } : Reader).Serves { s with depth := change s.depth } n :=
  ⟨h.feeds, h.ends, h.tokens, h.previous, h.procedures, congrArg change h.depth⟩

end Reader

namespace Reading

open Parse (Steps)
open Reader (Agrees)

variable {α β : Type} {r : Reader} {s : Parser} {n : Nat} {final t : Token} {fault : Fault}
  {item : Item} {rest : List Item}

theorem run_bind (p : Reading α) (f : α → Reading β) (r : Reader) :
    (p >>= f).run r = match p.run r with
      | (.ok a, r') => (f a).run r'
      | (.error e, r') => (.error e, r') := by
  change (ExceptT.bindCont f (p.run r).1) (p.run r).2 = _
  rcases p.run r with ⟨_ | _, _⟩ <;> rfl

theorem agrees_bind {p : Parse α} {f : α → Parse β} {q : Reading α} {g : α → Reading β}
    (h : Agrees n (q.run r) (p.run s))
    (hnext : ∀ a r' s', p.run s = (.ok a, s') → r'.Serves s' n →
      Agrees n ((g a).run r') ((f a).run s')) :
    Agrees n ((q >>= g).run r) ((p >>= f).run s) := by
  obtain ⟨hresult, hserves⟩ := h
  rw [run_bind, Parse.run_bind]
  rcases hq : q.run r with ⟨x, r'⟩
  rcases hp : p.run s with ⟨y, s'⟩
  rw [hq, hp] at hresult hserves
  obtain rfl : x = y := hresult
  rcases x with e | a
  · exact ⟨rfl, hserves⟩
  · exact hnext a r' s' hp hserves

/-! ### Taking what there is to read -/

/-- Taking what stands behind the current token: this is where the lexer is asked. -/
theorem run_pull (h : r.Feeds final n (r.held.toList.map .ok ++ item :: rest)) :
    ∃ lexer reads, pull.run r = (item.mapError .lexical, { r with lexer, ahead := none, reads })
      ∧ ({ r with lexer, ahead := none, reads } : Reader).Feeds final n
        (r.held.toList.map .ok ++ rest) := by
  obtain ⟨lexer, held, ahead, previous, procedures, depth, reads⟩ := r
  obtain ⟨unread, howes, hstream, hn⟩ := h
  rw [Reader.buffer, List.map_append, List.append_assoc] at hstream
  have hbehind := List.append_cancel_left hstream
  rcases ahead with _ | t
  · change item :: rest = unread at hbehind
    rw [← hbehind] at howes hn
    obtain ⟨rfl, hrest⟩ := howes.next
    refine ⟨lexer.next.2, reads + 1, ?_, rest, hrest, by simp [Reader.buffer], ?_⟩
    · show (match lexer.next.1 with | .ok t => _ | .error fault => _ : Reading Token).run _ = _
      rcases lexer.next.1 with fault | t <;> rfl
    · rw [hn, List.length_cons, Nat.add_assoc, Nat.add_comm 1]
  · obtain ⟨rfl, hrest⟩ := List.cons.inj hbehind
    exact ⟨lexer, reads, rfl, unread, howes, by simp [Reader.buffer, hrest], hn⟩

theorem run_take (h : r.Feeds final n (item :: rest)) :
    ∃ lexer ahead reads,
      take.run r = (item.mapError .lexical, { r with lexer, held := none, ahead, reads })
      ∧ ({ r with lexer, held := none, ahead, reads } : Reader).Feeds final n rest := by
  obtain ⟨lexer, held, ahead, previous, procedures, depth, reads⟩ := r
  rcases held with _ | t
  · obtain ⟨lexer', reads', hrun, hrest⟩ := run_pull h
    exact ⟨lexer', none, reads', hrun, hrest⟩
  · obtain ⟨unread, howes, hstream, hn⟩ := h
    obtain ⟨rfl, rfl⟩ := List.cons.inj hstream
    exact ⟨lexer, ahead, reads, rfl, unread, howes, rfl, hn⟩

theorem run_current_ok (h : r.Feeds final n (.ok t :: rest)) :
    ∃ lexer ahead reads, current.run r = (.ok t, { r with lexer, held := some t, ahead, reads })
      ∧ ({ r with lexer, held := some t, ahead, reads } : Reader).Feeds final n (.ok t :: rest) := by
  obtain ⟨lexer, ahead, reads, hrun, unread, howes, rfl, hn⟩ := run_take h
  refine ⟨lexer, ahead, reads, ?_, unread, howes, rfl, hn⟩
  rw [current, run_bind, hrun]
  rfl

theorem run_current_error (h : r.Feeds final n (.error fault :: rest)) :
    ∃ lexer ahead reads,
      current.run r = (.error (.lexical fault), { r with lexer, held := none, ahead, reads })
      ∧ ({ r with lexer, held := none, ahead, reads } : Reader).Feeds final n rest := by
  obtain ⟨lexer, ahead, reads, hrun, hfeeds⟩ := run_take h
  refine ⟨lexer, ahead, reads, ?_, hfeeds⟩
  rw [current, run_bind, hrun]
  rfl

theorem run_peek_ok (h : r.Feeds final n (r.held.toList.map .ok ++ .ok t :: rest)) :
    ∃ lexer reads, peek.run r = (.ok t, { r with lexer, ahead := some t, reads })
      ∧ ({ r with lexer, ahead := some t, reads } : Reader).Feeds final n
        (r.held.toList.map .ok ++ .ok t :: rest) := by
  obtain ⟨lexer, reads, hrun, unread, howes, hstream, hn⟩ := run_pull h
  refine ⟨lexer, reads, ?_, unread, howes, ?_, hn⟩
  · rw [peek, run_bind, hrun]
    rfl
  · have hrest : rest = unread := by simpa [Reader.buffer] using hstream
    simp [Reader.buffer, hrest]

theorem run_peek_error (h : r.Feeds final n (r.held.toList.map .ok ++ .error fault :: rest)) :
    ∃ lexer reads, peek.run r = (.error (.lexical fault), { r with lexer, ahead := none, reads })
      ∧ ({ r with lexer, ahead := none, reads } : Reader).Feeds final n
        (r.held.toList.map .ok ++ rest) := by
  obtain ⟨lexer, reads, hrun, hfeeds⟩ := run_pull h
  refine ⟨lexer, reads, ?_, hfeeds⟩
  rw [peek, run_bind, hrun]
  rfl

/-! ### Single steps -/

theorem current_agrees (h : r.Serves s n) : Agrees n (current.run r) (Parse.current.run s) := by
  obtain ⟨items, final, previous, procedures, depth⟩ := s
  rcases items with _ | ⟨fault | t, rest⟩
  · obtain ⟨lexer, ahead, reads, hrun, hheld⟩ := run_current_ok h.feeds
    rw [hrun]
    exact ⟨rfl, h.of_feeds hheld (List.Subset.refl _)⟩
  · obtain ⟨lexer, ahead, reads, hrun, hbehind⟩ := run_current_error h.feeds
    rw [hrun]
    exact ⟨rfl, h.of_feeds hbehind (List.subset_cons_self _ _)⟩
  · obtain ⟨lexer, ahead, reads, hrun, hheld⟩ := run_current_ok h.feeds
    rw [hrun]
    exact ⟨rfl, h.of_feeds hheld (List.Subset.refl _)⟩

theorem kind_agrees (h : r.Serves s n) : Agrees n (kind.run r) (Parse.kind.run s) :=
  agrees_bind (current_agrees h) fun _ _ _ _ h' => ⟨rfl, h'⟩

/-- Behind the end a lexer has nothing that it owes, so nothing may be looked at there. -/
theorem nextKind_agrees (h : r.Serves s n)
    (hfine : ∀ m ∈ Parse.moveAt .looksBehind s, m.Fine) :
    Agrees n (nextKind.run r) (Parse.nextKind.run s) := by
  obtain ⟨items, final, previous, procedures, depth⟩ := s
  rcases items with _ | ⟨fault | t, rest⟩
  · exact absurd h.ends (hfine (.looksBehind final) (List.mem_singleton_self _))
  · obtain ⟨lexer, ahead, reads, hrun, hbehind⟩ := run_current_error h.feeds
    rw [nextKind, run_bind, hrun]
    exact ⟨rfl, h.of_feeds hbehind (List.subset_cons_self _ _)⟩
  · obtain ⟨lexer, ahead, reads, hrun, hheld⟩ := run_current_ok h.feeds
    have h₁ := h.of_feeds hheld (List.Subset.refl _)
    rw [nextKind, run_bind, hrun]
    show Agrees n ((peek >>= _).run _) _
    rw [run_bind]
    -- what stands behind the current token is the end, a fault or a token
    rcases rest with _ | ⟨fault | next, rest⟩
    · obtain ⟨lexer', reads', hpeek, hplaced⟩ := run_peek_ok h₁.feeds
      rw [hpeek]
      exact ⟨rfl, h₁.of_feeds hplaced (List.Subset.refl _)⟩
    · obtain ⟨lexer', reads', hpeek, hbehind⟩ := run_peek_error h₁.feeds
      rw [hpeek]
      exact ⟨rfl, h₁.of_feeds hbehind (List.cons_subset_cons _ (List.subset_cons_self _ _))⟩
    · obtain ⟨lexer', reads', hpeek, hplaced⟩ := run_peek_ok h₁.feeds
      rw [hpeek]
      exact ⟨rfl, h₁.of_feeds hplaced (List.Subset.refl _)⟩

/-- The end stays in its place: if it were taken, the lexer would be asked for it again. -/
theorem advance_agrees (h : r.Serves s n) (hfine : ∀ m ∈ Parse.moveAt .takes s, m.Fine) :
    Agrees n (advance.run r) (Parse.advance.run s) := by
  obtain ⟨items, final, previous, procedures, depth⟩ := s
  rcases items with _ | ⟨fault | t, rest⟩
  · exact absurd h.ends (hfine (.takes final) (List.mem_singleton_self _))
  · obtain ⟨lexer, ahead, reads, hrun, hbehind⟩ := run_take h.feeds
    rw [advance, run_bind, hrun]
    exact ⟨rfl, h.of_feeds hbehind (List.subset_cons_self _ _)⟩
  · obtain ⟨lexer, ahead, reads, hrun, hbehind⟩ := run_take h.feeds
    have htaken := h.of_feeds hbehind (List.subset_cons_self _ _)
    rw [advance, run_bind, hrun]
    exact ⟨rfl, htaken.feeds, htaken.ends, htaken.tokens, rfl, htaken.procedures, htaken.depth⟩

theorem tooDeep_agrees (h : r.Serves s n) :
    Agrees n ((tooDeep : Reading α).run r) ((Parse.tooDeep : Parse α).run s) :=
  agrees_bind (current_agrees h) fun _ _ _ _ h' => ⟨rfl, h'⟩

theorem enter_agrees (h : r.Serves s n) : Agrees n (enter.run r) (Parse.enter.run s) := by
  rw [enter, Parse.enter, run_bind, Parse.run_bind]
  change Agrees n ((if maxNesting ≤ r.depth then _ else _ : Reading Unit).run r)
    ((if maxNesting ≤ s.depth then _ else _ : Parse Unit).run s)
  rw [h.depth]
  split
  · exact agrees_bind (tooDeep_agrees h) fun _ r' s' _ h' => ⟨rfl, h'.withDepth (· + 1)⟩
  · exact ⟨rfl, h.withDepth (· + 1)⟩

theorem leave_agrees (h : r.Serves s n) (levels : Nat) :
    Agrees n ((leave levels).run r) ((Parse.leave levels).run s) :=
  ⟨rfl, h.withDepth (· - levels)⟩

theorem finish_agrees (h : r.Serves s n) (first : Span) :
    Agrees n ((finish first).run r) ((Parse.finish first).run s) := by
  refine ⟨?_, h⟩
  show Except.ok (first.through r.previous) = .ok (first.through s.previous)
  rw [h.previous]

theorem freshId_agrees (h : r.Serves s n) : Agrees n (freshId.run r) (Parse.freshId.run s) := by
  refine ⟨?_, h.feeds, h.ends, h.tokens, h.previous, congrArg (· + 1) h.procedures, h.depth⟩
  show Except.ok (ProcedureId.mk r.procedures) = .ok ⟨s.procedures⟩
  rw [h.procedures]

/-! ### All steps -/

theorem nested_agrees {p : Parse α} {q : Reading α} (h : r.Serves s n)
    (hinner : ∀ r' s', Parse.enter.run s = (.ok (), s') → r'.Serves s' n →
      Agrees n (q.run r') (p.run s')) :
    Agrees n ((nested q).run r) ((Parse.nested p).run s) := by
  refine agrees_bind (enter_agrees h) fun _ r' s' hrun h' => ?_
  obtain ⟨hresult, hserves⟩ := hinner r' s' hrun h'
  exact ⟨hresult, hserves.withDepth (· - 1)⟩

theorem chainAfter_agrees {operator? : Token.Kind → Option BinaryOp} {p : Parse Expr}
    {q : Reading Expr} {inside : Parser → List Parse.Move}
    (hinside : ∀ r s, r.Serves s n → (∀ m ∈ inside s, m.Fine) → Agrees n (q.run r) (p.run s))
    {budget : Nat} (levels : Nat) (lhs : Expr) (h : r.Serves s n)
    (hfine : ∀ m ∈ Parse.chainMoves operator? p inside budget s, m.Fine) :
    Agrees n ((chainAfter operator? q budget levels lhs).run r)
      ((Parse.chainAfter operator? p budget levels lhs).run s) := by
  induction budget generalizing levels lhs r s with
  | zero => exact (hfine .spends (List.mem_singleton_self _)).elim
  | succ budget ih =>
    refine agrees_bind (kind_agrees h) fun k r₁ s₁ h₁ hr₁ => ?_
    rw [Parse.chainMoves, Parse.behind_of_ok h₁] at hfine
    cases hk : operator? k with
    | none => exact agrees_bind (leave_agrees hr₁ levels) fun _ r₂ s₂ _ hr₂ => ⟨rfl, hr₂⟩
    | some op =>
      simp only [hk, List.forall_mem_append] at hfine
      obtain ⟨hoperator, hbehind⟩ := hfine
      refine agrees_bind (advance_agrees hr₁ hoperator) fun _ r₂ s₂ h₂ hr₂ => ?_
      refine agrees_bind (enter_agrees hr₂) fun _ r₃ s₃ h₃ hr₃ => ?_
      rw [Parse.behind_of_ok h₂, Parse.behind_of_ok h₃] at hbehind
      obtain ⟨hoperand, hrest⟩ := List.forall_mem_append.mp hbehind
      refine agrees_bind (hinside r₃ s₃ hr₃ hoperand) fun rhs r₄ s₄ h₄ hr₄ => ?_
      rw [Parse.behind_of_ok h₄] at hrest
      exact ih _ _ hr₄ hrest

/-- **Steps agree.**  With fine moves only, a reader comes to the same as a parser, and the number of
answers that it has got or is owed stays the same. -/
theorem steps_agree {p : Parse α} (steps : Steps p) (h : r.Serves s n)
    (hfine : ∀ m ∈ steps.moves s, m.Fine) : Agrees n (steps.reading.run r) (p.run s) := by
  induction steps generalizing r s with
  | result | failure => exact ⟨rfl, h⟩
  | spent => exact (hfine .spends (List.mem_singleton_self _)).elim
  | current => exact current_agrees h
  | nextKind => exact nextKind_agrees h hfine
  | advance => exact advance_agrees h hfine
  | finish first => exact finish_agrees h first
  | freshId => exact freshId_agrees h
  | bind first next hfirst hnext =>
    obtain ⟨hhere, hbehind⟩ := List.forall_mem_append.mp hfine
    refine agrees_bind (hfirst h hhere) fun a r₁ s₁ h₁ hr₁ => hnext a hr₁ ?_
    rwa [Parse.behind_of_ok h₁] at hbehind
  | nested inner hinner =>
    refine nested_agrees h fun r₁ s₁ h₁ hr₁ => hinner hr₁ ?_
    rwa [Steps.moves, Parse.behind_of_ok h₁] at hfine
  | chain operator? operand budget hoperand =>
    obtain ⟨hhere, hbehind⟩ := List.forall_mem_append.mp hfine
    refine agrees_bind (hoperand h hhere) fun lhs r₁ s₁ h₁ hr₁ => ?_
    rw [Parse.behind_of_ok h₁] at hbehind
    exact chainAfter_agrees (fun _ _ => hoperand) 0 lhs hr₁ hbehind

end Reading

/-! ## Calls -/

namespace Reader

variable {r : Reader} {s : Parser} {n : Nat}

/-- The reader in front of what a lexer has to give. -/
def ofLexer (l : Lexer) : Reader :=
  { lexer := l }

/-- The parser for what is in the two places, without the end, and with the lexer. -/
def parser (r : Reader) : Parser where
  items := (r.buffer.filter (·.kind ≠ .endOfInput)).map .ok ++ r.lexer.cursor.items
  final := r.lexer.cursor.endToken
  previous := r.previous
  procedures := r.procedures
  depth := r.depth

/-- Parses a program, and gives the reader as it is afterwards. -/
def parse (r : Reader) : Except ParseError Module × Reader :=
  (Parse.Steps.program r.parser.budget).reading.run r

/-- The reader behind so many calls, whatever they came to. -/
def after (r : Reader) : Nat → Reader
  | 0 => r
  | calls + 1 => r.parse.2.after calls

theorem filter_tokens {ts : List Token} (h : ∀ t ∈ ts, t.kind ≠ .endOfInput) :
    ts.filter (·.kind ≠ .endOfInput) = ts :=
  List.filter_eq_self.mpr fun t ht => decide_eq_true (h t ht)

theorem Serves.items_eq (h : r.Serves s n) : r.parser.items = s.items := by
  obtain ⟨unread, ⟨-, hunread⟩, hstream, -⟩ := h.feeds
  show (r.buffer.filter (·.kind ≠ .endOfInput)).map .ok ++ r.lexer.cursor.items = s.items
  rcases hunread with rfl | ⟨rfl, hnil⟩
  · rw [← List.append_assoc] at hstream
    have hitems := List.append_cancel_right hstream
    have htokens : ∀ t ∈ r.buffer, t.kind ≠ .endOfInput := by
      intro t ht
      refine h.tokens t ?_
      rw [hitems]
      exact List.mem_append_left _ (List.mem_map_of_mem ht)
    rw [filter_tokens htokens, hitems]
  · -- the end is in one of the two places, and before it stand the items
    rw [List.append_nil] at hstream
    obtain ⟨ts, last, hbuffer, hts, hlast⟩ := List.map_eq_append_iff.mp hstream.symm
    obtain rfl : last = [s.final] := by simpa using hlast
    have htokens : ∀ t ∈ ts, t.kind ≠ .endOfInput := by
      intro t ht
      refine h.tokens t ?_
      rw [← hts]
      exact List.mem_map_of_mem ht
    have hend : s.final.kind = .endOfInput := h.ends
    rw [hbuffer, List.filter_append, filter_tokens htokens, hnil, ← hts]
    simp [hend]

theorem Serves.parser_eq (h : r.Serves s n) : r.parser = s := by
  obtain ⟨unread, ⟨hend, -⟩, -⟩ := h.feeds
  calc r.parser
      = ⟨r.parser.items, r.lexer.cursor.endToken, r.previous, r.procedures, r.depth⟩ := rfl
    _ = s := by rw [h.items_eq, hend, h.previous, h.procedures, h.depth]

/-- What was asked is part of the answers, and what is owed is no more than the lexer has. -/
theorem Serves.reads_le (h : r.Serves s n) :
    r.reads ≤ n ∧ n ≤ r.reads + r.lexer.cursor.items.length + 1 := by
  obtain ⟨unread, howes, -, rfl⟩ := h.feeds
  have hlength := howes.length_le
  omega

theorem ofLexer_serves (l : Lexer) :
    (ofLexer l).Serves (.ofCursor l.cursor) (l.cursor.items.length + 1) where
  feeds := ⟨_, ⟨rfl, .inl rfl⟩, rfl, by simp [ofLexer]⟩
  ends := rfl
  tokens _ := Cursor.kind_ne_endOfInput
  previous := rfl
  procedures := rfl
  depth := rfl

/-- **A whole call** of a reader comes to the same as one of a parser. -/
theorem parse_agrees (h : r.Serves s n) : Agrees n r.parse s.parse := by
  have hroom : s.items.length < s.budget - 1 := by
    rw [Parser.budget]
    omega
  rw [parse, h.parser_eq]
  exact Reading.steps_agree _ h (Parse.program_progresses s.budget s h.ends hroom).fine

theorem after_serves (h : r.Serves s n) (calls : Nat) : (r.after calls).Serves (s.after calls) n := by
  induction calls generalizing r s with
  | zero => exact h
  | succ calls ih => exact ih (parse_agrees h).serves

end Reader

/-- **Parsing makes progress and ends.**  Take any lexer, and a call behind any number of other calls.
From every state in it, every rule ends by what there is to read, if it has two more of a budget than
there are items: it does not use the budget up, never takes the end of the text, and has taken a token
if it succeeds, unless it reads a list of statements.  The whole call does not use up the budget that
it has.  A reader comes to the same, and asks its lexer at most once for each item that the lexer has
left, and once more for the end. -/
theorem Parser.parsing_progresses (l : Lexer) (calls : Nat) {p : Parser} {r : Reader}
    (hp : p = (Parser.ofCursor l.cursor).after calls) (hr : r = (Reader.ofLexer l).after calls) :
    (∀ m ∈ p.moments, ∀ rule : Parse.Rule, ∀ budget, m.parser.items.length + 2 ≤ budget →
      (rule.steps budget).Advances m.parser rule.least)
      ∧ (Parse.Steps.program p.budget).Advances p 0
      ∧ r.parser = p ∧ r.parse.1 = p.parse.1 ∧ r.parse.2.parser = p.parse.2
      ∧ r.parse.2.reads ≤ r.reads + r.lexer.cursor.items.length + 1 := by
  have hserves : r.Serves p (l.cursor.items.length + 1) := by
    rw [hp, hr]
    exact Reader.after_serves (Reader.ofLexer_serves l) calls
  have hcall := Reader.parse_agrees hserves
  refine ⟨fun m hm rule budget hbudget => ?_, ?_, hserves.parser_eq, hcall.result,
    hcall.serves.parser_eq, hcall.serves.reads_le.1.trans hserves.reads_le.2⟩
  · have hsame : m.parser.final = p.final := (course_counts.moments _ p m hm).final
    have hends : m.parser.Ends := by rw [Ends, hsame, hserves.ends]
    exact (rule.progresses budget).advances hends (by omega)
  · refine (Parse.program_progresses p.budget).advances hserves.ends ?_
    rw [Parser.budget]
    omega

/-- The first call stops at a fault, and the second at the end of the text, which it looks at and does
not take.  For that the second call asks as often as it may. -/
theorem Parser.parsing_progresses_faulty :
    ∃ (p q : Parser) (r : Reader), p = .ofCursor (.ofString "x = $ ; f(2") ∧ q = p.after 1
      ∧ r = (Reader.ofLexer (.ofString "x = $ ; f(2")).after 1
      ∧ (Parse.Rule.statement.steps 6).Advances q 1
      ∧ r.lexer.cursor.items.length = 4 ∧ r.parse.1.isOk = false
      ∧ r.parse.2.reads = r.reads + 5
      ∧ r.parse.2.reads ≤ r.reads + r.lexer.cursor.items.length + 1 := by
  obtain ⟨p, hp⟩ : ∃ p : Parser, p = .ofCursor (.ofString "x = $ ; f(2") := ⟨_, rfl⟩
  obtain ⟨r, hr⟩ : ∃ r : Reader, r = (Reader.ofLexer (.ofString "x = $ ; f(2")).after 1 := ⟨_, rfl⟩
  have hlast : (p.after 1).items.length + 2 ≤ 6 := by rw [hp]; decide +kernel
  have hleft : r.lexer.cursor.items.length = 4 := by rw [hr]; decide +kernel
  have hfails : r.parse.1.isOk = false := by rw [hr]; decide +kernel
  have hreads : r.parse.2.reads = r.reads + 5 := by rw [hr]; decide +kernel
  have hfirst := Parser.parsing_progresses (.ofString "x = $ ; f(2") 0 hp rfl
  have hsecond := Parser.parsing_progresses (.ofString "x = $ ; f(2") 1 rfl hr
  refine ⟨p, p.after 1, r, hp, rfl, hr, ?_, hleft, hfails, hreads, hsecond.2.2.2.2.2⟩
  exact hfirst.1 ⟨p.after 1, 0⟩ ((Parse.Steps.program p.budget).mem_moments p) .statement 6 hlast

end Imperative
