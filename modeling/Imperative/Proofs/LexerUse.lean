import Imperative.Proofs.Tiling

/-!
# Using one lexer in all its ways

Token by token, as an enumeration, as one list, or only looking at the next character: all uses
of a lexer share one cursor.  What a text has to give is one sequence without an end, the
*results*: its items, and then the end of the text for ever (`Lexer.results_eq`).  Every use
takes the next of the results, and none is lost or taken twice.

How far the uses have come is told by an *account*: the number of results that were taken, and
whether the enumeration has ended.  A lexer that was used is the fresh lexer moved on by as many
results as were taken, apart from the mark that the enumeration has ended; so what it gives next,
and where it stands, is known from the account alone.

* `Lexer.Takes`: what one use gives and what it does to the account.
* `Lexer.takes_use`: what one use of a lexer does.
* `Lexer.takesAll_useAll`: what all uses together do.
-/

namespace Imperative

namespace Lexer

/-- The ways to use a lexer. -/
inductive Use where
  | next | advance | tokens | peek
  deriving DecidableEq, Repr

/-- What a use gives. -/
inductive Answer where
  | item (item : Item)
  | element (element : Option Item)
  | tokens (tokens : Except Fault (List Token))
  | char (char : Option Char)

/-- One use of a lexer. -/
def use (l : Lexer) : Use → Answer × Lexer
  | .next => (.item l.next.1, l.next.2)
  | .advance => (.element l.advance?.1, l.advance?.2)
  | .tokens => (.tokens l.tokens.1, l.tokens.2)
  | .peek => (.char l.peek?, l)

/-- Uses of a lexer, one after the other. -/
def useAll (l : Lexer) : List Use → List Answer × Lexer
  | [] => ([], l)
  | u :: us => ((l.use u).1 :: ((l.use u).2.useAll us).1, ((l.use u).2.useAll us).2)

/-- The lexer after reading `n` times, token by token. -/
def after (l : Lexer) : Nat → Lexer
  | 0 => l
  | n + 1 => (l.after n).next.2

/-- What reading token by token gives, from the first time on. -/
def results (l : Lexer) (n : Nat) : Item :=
  (l.after n).next.1

/-! ## Accounts -/

/-- How many results were taken, and whether the enumeration has ended. -/
structure Account where
  taken : Nat := 0
  ended : Bool := false

/-- The number of bytes up to the end of the last of the first `n` results. -/
def passed (results : Nat → Item) : Nat → Nat
  | 0 => 0
  | n + 1 => (results n).span.stop

/-- The tokens `read` are the results from the `n`-th on, and the end of the text is not among
them. -/
def Reads (results : Nat → Item) (n : Nat) (read : List Token) : Prop :=
  ∀ i t, read[i]? = some t → results (n + i) = .ok t ∧ t.kind ≠ .endOfInput

/-- What a use gives on a text with the given results, and what it does to the account. -/
inductive Takes (text : List Char) (results : Nat → Item) :
    Account → Use → Answer → Account → Prop
  | next {n : Nat} {ended : Bool} :
      Takes text results ⟨n, ended⟩ .next (.item (results n)) ⟨n + 1, ended⟩
  | advanceEnded {n : Nat} : Takes text results ⟨n, true⟩ .advance (.element none) ⟨n, true⟩
  | advanceToken {n : Nat} {t : Token} (h : results n = .ok t) (ht : t.kind ≠ .endOfInput) :
      Takes text results ⟨n, false⟩ .advance (.element (some (.ok t))) ⟨n + 1, false⟩
  | advanceFault {n : Nat} {fault : Fault} (h : results n = .error fault) :
      Takes text results ⟨n, false⟩ .advance (.element (some (.error fault))) ⟨n + 1, true⟩
  | advanceEnd {n : Nat} {t : Token} (h : results n = .ok t) (ht : t.kind = .endOfInput) :
      Takes text results ⟨n, false⟩ .advance (.element none) ⟨n + 1, true⟩
  | tokensEnded {n : Nat} : Takes text results ⟨n, true⟩ .tokens (.tokens (.ok [])) ⟨n, true⟩
  | tokensFault {n : Nat} {read : List Token} {fault : Fault} (hread : Reads results n read)
      (h : results (n + read.length) = .error fault) :
      Takes text results ⟨n, false⟩ .tokens (.tokens (.error fault)) ⟨n + read.length + 1, true⟩
  | tokensEnd {n : Nat} {read : List Token} {t : Token} (hread : Reads results n read)
      (h : results (n + read.length) = .ok t) (ht : t.kind = .endOfInput) :
      Takes text results ⟨n, false⟩ .tokens (.tokens (.ok read)) ⟨n + read.length + 1, true⟩
  | peek {n : Nat} {ended : Bool} {before behind : List Char} (split : text = before ++ behind)
      (h : (String.ofList before).utf8ByteSize = passed results n) :
      Takes text results ⟨n, ended⟩ .peek (.char behind.head?) ⟨n, ended⟩

/-- What uses give one after the other, and what they do to the account. -/
inductive TakesAll (text : List Char) (results : Nat → Item) :
    Account → List Use → List Answer → Account → Prop
  | nil {a : Account} : TakesAll text results a [] [] a
  | cons {a b c : Account} {u : Use} {us : List Use} {answer : Answer} {answers : List Answer}
      (first : Takes text results a u answer b) (rest : TakesAll text results b us answers c) :
      TakesAll text results a (u :: us) (answer :: answers) c

/-! ## Reading token by token -/

variable {l : Lexer} {text : String}

theorem next_of_none (h : l.cursor.next? = none) :
    l.next = (.ok l.cursor.endToken, { l with cursor := l.cursor.finish }) := by
  rw [next, h]

theorem next_of_some {item : Item} {c : Cursor} (h : l.cursor.next? = some (item, c)) :
    l.next = (item, { l with cursor := c }) := by
  rw [next, h]

/-- Reading token by token neither looks at the mark of the enumeration nor changes it. -/
theorem next_withFinished (l : Lexer) (ended : Bool) :
    ({ l with finished := ended } : Lexer).next =
      (l.next.1, { l.next.2 with finished := ended }) := by
  cases h : l.cursor.next? with
  | none => rw [next_of_none h, next_of_none (l := { l with finished := ended }) h]
  | some found => rw [next_of_some h, next_of_some (l := { l with finished := ended }) h]

theorem after_succ (l : Lexer) (n : Nat) : l.after (n + 1) = l.next.2.after n := by
  induction n with
  | zero => rfl
  | succ n ih => rw [after, ih, ← after]

theorem results_succ (l : Lexer) (n : Nat) : l.results (n + 1) = l.next.2.results n := by
  rw [results, after_succ, results]

/-- The end of a text is the same from everywhere in it. -/
theorem endToken_of_next? {c d : Cursor} {item : Item} (h : c.next? = some (item, d)) :
    d.endToken = c.endToken := by
  obtain ⟨blanks, word, split, -, -, -, position⟩ := Cursor.next?_eq_some_iff.mp h
  have same : d.finish = c.finish := by
    rw [Cursor.finish, Cursor.finish, split, Position.after_append, position]
  rw [Cursor.endToken, Cursor.endToken, same]

/-- The results are the items, and then the end of the text for ever. -/
theorem results_eq (l : Lexer) (n : Nat) :
    l.results n = l.cursor.items[n]?.getD (.ok l.cursor.endToken) := by
  induction n generalizing l with
  | zero =>
    cases h : l.cursor.next? with
    | none =>
      rw [Cursor.items_of_next?_eq_none h, results, after, next_of_none h]
      rfl
    | some found =>
      rw [Cursor.items_of_next?_eq_some h, results, after, next_of_some h]
      rfl
  | succ n ih =>
    rw [results_succ, ih]
    cases h : l.cursor.next? with
    | none =>
      have none : l.cursor.finish.next? = none :=
        Cursor.next?_eq_none_iff.mpr (by rintro ch ⟨⟩)
      rw [next_of_none h, Cursor.items_of_next?_eq_none h, Cursor.items_of_next?_eq_none none]
      rfl
    | some found =>
      rw [next_of_some h, Cursor.items_of_next?_eq_some h, endToken_of_next? h,
        List.getElem?_cons_succ]

/-- The lexer has read `before` of the text, and stands behind it. -/
structure StandsBehind (l : Lexer) (text before : List Char) : Prop where
  split : text = before ++ l.cursor.rest
  position_eq : l.cursor.position = Position.start.after before

/-- Reading goes on behind what was read, up to the end of the result. -/
theorem StandsBehind.next {text before : List Char} (h : l.StandsBehind text before) :
    ∃ more, l.next.2.StandsBehind text (before ++ more)
      ∧ l.next.2.cursor.position.offset = l.next.1.span.stop := by
  cases found : l.cursor.next? with
  | none =>
    rw [next_of_none found]
    refine ⟨l.cursor.rest, ⟨?_, ?_⟩, rfl⟩
    · rw [Cursor.finish, List.append_nil, ← h.split]
    · rw [Cursor.finish, h.position_eq, ← Position.after_append]
  | some result =>
    obtain ⟨item, c⟩ := result
    rw [next_of_some found]
    obtain ⟨blanks, word, split, -, -, span, position⟩ := Cursor.next?_eq_some_iff.mp found
    refine ⟨blanks ++ word, ⟨?_, ?_⟩, ?_⟩
    · rw [h.split, split, List.append_assoc, List.append_assoc, List.append_assoc]
    · rw [position, h.position_eq, ← Position.after_append]
    · rw [span, position]
      rfl

/-- After `n` results the lexer stands behind the last of them. -/
theorem standsBehind_after (text : String) (n : Nat) :
    ∃ before, ((ofString text).after n).StandsBehind text.toList before
      ∧ (String.ofList before).utf8ByteSize = passed (ofString text).results n := by
  induction n with
  | zero => exact ⟨[], ⟨rfl, rfl⟩, rfl⟩
  | succ n ih =>
    obtain ⟨before, stands, -⟩ := ih
    obtain ⟨more, stands, offset⟩ := stands.next
    refine ⟨before ++ more, stands, ?_⟩
    rw [stands.position_eq, Position.start_after] at offset
    exact offset

/-! ## One use -/

theorem advance?_eq (h : l.finished = false) :
    l.advance? = match l.next.1 with
      | .error fault => (some (.error fault), { l.next.2 with finished := true })
      | .ok t =>
        if t.kind = .endOfInput then (none, { l.next.2 with finished := true })
        else (some (.ok t), l.next.2) := by
  rw [advance?, h]
  cases found : l.cursor.next? with
  | none =>
    rw [next_of_none found]
    rfl
  | some result =>
    obtain ⟨item, c⟩ := result
    rw [next_of_some found]
    cases item with
    | error fault => rfl
    | ok t =>
      have ht : t.kind ≠ .endOfInput := Cursor.kind_next?_ne_endOfInput found
      simp [ht, h]

theorem after_after (l : Lexer) (n k : Nat) : (l.after n).after k = l.after (n + k) := by
  induction k with
  | zero => rfl
  | succ k ih => rw [after, ih, Nat.add_succ, after]

theorem results_after (l : Lexer) (n k : Nat) : (l.after n).results k = l.results (n + k) := by
  rw [results, after_after, results]

/-- A token in front of the results that follow it. -/
theorem Reads.cons {t : Token} {read : List Token} (first : l.next.1 = .ok t)
    (ht : t.kind ≠ .endOfInput) (rest : Reads l.next.2.results 0 read) :
    Reads l.results 0 (t :: read) := by
  intro i u hi
  rw [Nat.zero_add]
  cases i with
  | zero =>
    cases hi
    exact ⟨first, ht⟩
  | succ i =>
    have later := rest i u hi
    rwa [Nat.zero_add, ← results_succ] at later

/-- Reading all tokens takes results up to the first that is a fault or the end. -/
theorem tokensOnto_eq_results (l : Lexer) (before : List Token) :
    ∃ read, Reads l.results 0 read
      ∧ (l.cursor.tokensOnto before).2 = (l.after (read.length + 1)).cursor
      ∧ ((∃ fault, l.results read.length = .error fault
          ∧ (l.cursor.tokensOnto before).1 = .error fault)
        ∨ ∃ t, l.results read.length = .ok t ∧ t.kind = .endOfInput
          ∧ (l.cursor.tokensOnto before).1 = .ok (before.reverse ++ read)) := by
  induction hn : l.cursor.rest.length using Nat.strongRecOn generalizing l before with
  | ind n ih =>
    rw [Cursor.tokensOnto.eq_def]
    split
    · next found =>
      have first := next_of_none found
      refine ⟨[], by rintro i t ⟨⟩, ?_, .inr ⟨l.cursor.endToken, ?_, rfl, ?_⟩⟩
      · exact (congrArg (·.2.cursor) first).symm
      · exact congrArg Prod.fst first
      · rw [List.append_nil]
    · next fault d found =>
      have first := next_of_some found
      refine ⟨[], by rintro i t ⟨⟩, ?_, .inl ⟨fault, congrArg Prod.fst first, rfl⟩⟩
      exact (congrArg (·.2.cursor) first).symm
    · next t d found =>
      have first := next_of_some found
      have cursor : l.next.2.cursor = d := congrArg (·.2.cursor) first
      have shorter : l.next.2.cursor.rest.length < n := by
        rw [cursor, ← hn]
        exact Cursor.next?_rest_lt found
      obtain ⟨read, reads, stops, result⟩ := ih _ shorter l.next.2 (t :: before) rfl
      rw [cursor, ← after_succ] at stops
      rw [cursor, ← results_succ] at result
      refine ⟨t :: read, ?_, stops, ?_⟩
      · exact reads.cons (congrArg Prod.fst first) (Cursor.kind_next?_ne_endOfInput found)
      · rwa [List.reverse_cons, List.append_assoc] at result

/-- The fresh lexer of a text, moved on as the account says. -/
def atAccount (text : String) (a : Account) : Lexer :=
  { (ofString text).after a.taken with finished := a.ended }

theorem next_atAccount (text : String) (n : Nat) (ended : Bool) :
    (atAccount text ⟨n, ended⟩).next =
      ((ofString text).results n, atAccount text ⟨n + 1, ended⟩) :=
  next_withFinished ((ofString text).after n) ended

/-- The next element of the enumeration is the next result, unless this is the end. -/
theorem takes_advance (text : String) (n : Nat) :
    ∃ b, Takes text.toList (ofString text).results ⟨n, false⟩ .advance
        (.element (atAccount text ⟨n, false⟩).advance?.1) b
      ∧ (atAccount text ⟨n, false⟩).advance?.2 = atAccount text b := by
  rw [advance?_eq rfl, next_atAccount]
  cases h : (ofString text).results n with
  | error fault => exact ⟨⟨n + 1, true⟩, .advanceFault h, rfl⟩
  | ok t =>
    by_cases ht : t.kind = .endOfInput
    · simp only [ht, if_true]
      exact ⟨⟨n + 1, true⟩, .advanceEnd h ht, rfl⟩
    · simp only [ht, if_false]
      exact ⟨⟨n + 1, false⟩, .advanceToken h ht, rfl⟩

/-- The rest of the enumeration is made of results, up to the first that ends it. -/
theorem takes_tokens (text : String) (n : Nat) :
    ∃ b, Takes text.toList (ofString text).results ⟨n, false⟩ .tokens
        (.tokens (atAccount text ⟨n, false⟩).tokens.1) b
      ∧ (atAccount text ⟨n, false⟩).tokens.2 = atAccount text b := by
  obtain ⟨read, reads, stops, result⟩ := tokensOnto_eq_results ((ofString text).after n) []
  have reads : Reads (ofString text).results n read := by
    intro i t hi
    have later := reads i t hi
    rwa [Nat.zero_add, results_after] at later
  rw [results_after] at result
  rw [after_after] at stops
  have tokens : (atAccount text ⟨n, false⟩).tokens =
      ((((ofString text).after n).cursor.tokensOnto []).1,
        atAccount text ⟨n + read.length + 1, true⟩) :=
    congrArg (fun c => ((((ofString text).after n).cursor.tokensOnto []).1, Lexer.mk c true)) stops
  rw [tokens]
  refine ⟨⟨n + read.length + 1, true⟩, ?_, rfl⟩
  rcases result with ⟨fault, h, result⟩ | ⟨t, h, ht, result⟩
  · rw [result]
    exact .tokensFault reads h
  · rw [result]
    exact .tokensEnd reads h ht

/-- **What one use does**, to a lexer that stands where the account says. -/
theorem takes_use (text : String) (a : Account) (u : Use) :
    ∃ b, Takes text.toList (ofString text).results a u ((atAccount text a).use u).1 b
      ∧ ((atAccount text a).use u).2 = atAccount text b := by
  obtain ⟨n, ended⟩ := a
  cases u with
  | next =>
    rw [use, next_atAccount]
    exact ⟨⟨n + 1, ended⟩, .next, rfl⟩
  | peek =>
    obtain ⟨before, stands, size⟩ := standsBehind_after text n
    exact ⟨⟨n, ended⟩, .peek stands.split size, rfl⟩
  | advance =>
    cases ended with
    | true => exact ⟨⟨n, true⟩, .advanceEnded, rfl⟩
    | false => exact takes_advance text n
  | tokens =>
    cases ended with
    | true => exact ⟨⟨n, true⟩, .tokensEnded, rfl⟩
    | false => exact takes_tokens text n

/-- What uses do one after the other. -/
theorem takesAll_useAll (text : String) (a : Account) (us : List Use) :
    ∃ b, TakesAll text.toList (ofString text).results a us ((atAccount text a).useAll us).1 b
      ∧ ((atAccount text a).useAll us).2 = atAccount text b := by
  induction us generalizing a with
  | nil => exact ⟨a, .nil, rfl⟩
  | cons u us ih =>
    obtain ⟨b, first, stands⟩ := takes_use text a u
    obtain ⟨c, rest, ends⟩ := ih b
    rw [useAll, stands]
    exact ⟨c, .cons first rest, ends⟩

/-- **One lexer, any use.**  The results of a text are its items and then, for ever, one empty token
at the end of the text.  Whatever uses are made of a lexer, each takes the next of these results, as
`Takes` says of its kind.  Afterwards the lexer has read the text up to the end of the last result
that was taken; bytes, line and column are those at the end of what was read. -/
theorem uses_take_results_in_order (text : String) (us : List Use) :
    let results := (ofString text).results
    let l := ((ofString text).useAll us).2
    (∃ (items : List Item) (final : Token), (∀ t, .ok t ∈ items → t.kind ≠ .endOfInput)
        ∧ final.kind = .endOfInput ∧ final.lexeme = "" ∧ final.span.Covers text.toList []
        ∧ ∀ n, results n = items[n]?.getD (.ok final))
      ∧ ∃ (a : Account) (before : List Char),
        TakesAll text.toList results {} us ((ofString text).useAll us).1 a
        ∧ l.finished = a.ended
        ∧ text.toList = before ++ l.cursor.rest
        ∧ (String.ofList before).utf8ByteSize = passed results a.taken
        ∧ l.cursor.position.offset = (String.ofList before).utf8ByteSize
        ∧ l.cursor.position.line = 1 + before.count '\n'
        ∧ l.cursor.position.column = 1 + (before.reverse.takeWhile (· ≠ '\n')).length := by
  intro results l
  constructor
  · refine ⟨(Cursor.ofString text).items, (Cursor.ofString text).endToken,
      fun t ht => Cursor.kind_ne_endOfInput ht, rfl, rfl, Span.covers_iff.mpr ?_,
      (ofString text).results_eq⟩
    rw [List.append_nil]
    rfl
  · obtain ⟨a, takes, stands⟩ := takesAll_useAll text {} us
    obtain ⟨before, ⟨split, position⟩, size⟩ := standsBehind_after text a.taken
    have stands : l = atAccount text a := stands
    have cursor : l.cursor = ((ofString text).after a.taken).cursor := by
      rw [stands]
      rfl
    rw [Position.start_after, ← cursor] at position
    rw [← cursor] at split
    refine ⟨a, before, takes, congrArg Lexer.finished stands, split, size, ?_, ?_, ?_⟩
    · rw [position]
    · rw [position]
    · rw [position]

end Lexer

end Imperative
