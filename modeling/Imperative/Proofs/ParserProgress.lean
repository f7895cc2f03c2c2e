import Imperative.Proofs.NestingAccounts

/-!
# Parsing makes progress

The end of a text can be looked at again and again, and nothing keeps a loop from doing so for ever but
that it asks for a token before each round and takes it.  The rules are bounded by a budget, so they
come to an end in any case; what has to be shown is that the end is never that of the budget.

What a parser does with its tokens and its budget are its *moves* (`Parse.Steps.moves`).  A rule
*proceeds* if none of its moves is of a kind that should not occur: it does not take the end of the
text, does not look behind it, and does not use its budget up (`Parse.Steps.Proceeds`).  This is said
together with what is known behind the rule, so that rules can be put in a row, and the one thing that
has to be known is how many items a rule takes at least.

* `Parse.Steps.Progresses`: with fewer than so many items left, a rule proceeds, and takes so many of
  them at least.  There is one lemma for each rule, up to `Parse.program_progresses`.
* `Parse.Steps.reads_of_ok`: the tokens that a rule takes are those that are gone behind it.
* `Parse.Rule.progresses`: what follows for the rules that call each other, all at once.
-/

namespace Imperative

namespace Parse

variable {α β : Type} {p : Parse α} {s u v : Parser} {t : Token}

/-! ## Moves -/

/-- What a parser does with a token or with its budget. -/
inductive Move where
  /-- The current token is taken. -/
  | takes (t : Token)
  /-- The parser looks behind the current token. -/
  | looksBehind (t : Token)
  /-- The budget is used up. -/
  | spends
  deriving DecidableEq

/-- The move is not made at the end of the text, nor at the end of the budget. -/
def Move.Fine : Move → Prop
  | takes t | looksBehind t => t.kind ≠ .endOfInput
  | spends => False

/-- The token that a move takes. -/
def Move.taken? : Move → Option Token
  | takes t => some t
  | looksBehind _ | spends => none

/-- The tokens that the moves take. -/
def taken (moves : List Move) : List Token :=
  moves.filterMap Move.taken?

theorem taken_append (moves moves' : List Move) :
    taken (moves ++ moves') = taken moves ++ taken moves' :=
  List.filterMap_append

/-- The move at the current token, if there is one and not a fault. -/
def moveAt (move : Token → Move) (s : Parser) : List Move :=
  current.behind s [] fun t _ => [move t]

/-- The moves in a chain whose first operand has been read; `inside` are those in an operand. -/
def chainMoves (operator? : Token.Kind → Option BinaryOp) (operand : Parse Expr)
    (inside : Parser → List Move) : Nat → Parser → List Move
  | 0, _ => [.spends]
  | budget + 1, s => kind.behind s [] fun k s₁ =>
    match operator? k with
    | none => []
    | some _ => moveAt .takes s₁ ++ advance.behind s₁ [] fun _ s₂ => enter.behind s₂ [] fun _ s₃ =>
        inside s₃ ++ operand.behind s₃ [] fun _ s₄ => chainMoves operator? operand inside budget s₄

/-- All moves of a parser that starts in the given state. -/
def Steps.moves : {α : Type} → {p : Parse α} → Steps p → Parser → List Move
  | _, _, .result _, _ | _, _, .failure _, _ | _, _, .current, _ | _, _, .finish _, _
  | _, _, .freshId, _ => []
  | _, _, .spent, _ => [.spends]
  | _, _, .nextKind, s => moveAt .looksBehind s
  | _, _, .advance, s => moveAt .takes s
  | _, _, @bind _ _ p _ first next, s =>
    first.moves s ++ p.behind s [] fun a u => (next a).moves u
  | _, _, .nested inner, s => enter.behind s [] fun _ u => inner.moves u
  | _, _, @chain operator? p operand budget, s =>
    operand.moves s ++ p.behind s [] fun _ u =>
      chainMoves operator? p (fun v => operand.moves v) budget u

/-! ## Proceeding -/

/-- Between `s` and `u` at least `n` items were left behind. -/
structure Passes (s : Parser) (n : Nat) (u : Parser) : Prop where
  ends : u.Ends
  left : u.items.length + n ≤ s.items.length

theorem Passes.trans {m n : Nat} (h : Passes s m u) (h' : Passes u n v) : Passes s (m + n) v := by
  refine ⟨h'.ends, ?_⟩
  have := h.left
  have := h'.left
  omega

theorem Passes.mono {m n : Nat} (h : Passes s n u) (hm : m ≤ n) : Passes s m u := by
  refine ⟨h.ends, ?_⟩
  have := h.left
  omega

theorem Passes.refl (hs : s.Ends) : Passes s 0 s :=
  ⟨hs, Nat.le_refl _⟩

/-- The parser `s` has `t` as its current token. -/
def Shows (s : Parser) (t : Token) : Prop :=
  current.run s = (.ok t, s)

/-- The move at a token that is there. -/
theorem moveAt_of_shows (ht : Shows s t) (move : Token → Move) : moveAt move s = [move t] :=
  behind_of_ok ht

/-- The moves are fine, and a success leads to what is wanted. -/
structure Goes (moves : List Move) (outcome : Except ParseError α × Parser)
    (wanted : α → Parser → Prop) : Prop where
  fine : ∀ m ∈ moves, m.Fine
  leads : ∀ a u, outcome = (.ok a, u) → wanted a u

section Goes

variable {f : α → Parse β} {here : List Move} {next : α → Parser → List Move}
  {wanted : α → Parser → Prop} {goal : β → Parser → Prop}

theorem Goes.bind (h : Goes here (p.run s) wanted)
    (hnext : ∀ a u, wanted a u → Goes (next a u) ((f a).run u) goal) :
    Goes (here ++ p.behind s [] next) ((p >>= f).run s) goal := by
  refine ⟨forall_mem_append_behind h.fine fun a u hrun => (hnext a u (h.leads a u hrun)).fine, ?_⟩
  intro b v hrun
  obtain ⟨a, u, hfirst, hlast⟩ := of_bind hrun
  exact (hnext a u (h.leads a u hfirst)).leads b v hlast

/-- The first part makes no moves. -/
theorem Goes.look_bind (hnext : ∀ a u, p.run s = (.ok a, u) → Goes (next a u) ((f a).run u) goal) :
    Goes (p.behind s [] next) ((p >>= f).run s) goal :=
  Goes.bind ⟨List.forall_mem_nil _, fun _ _ hrun => hrun⟩ hnext

theorem Goes.mono {outcome : Except ParseError α × Parser} {wanted' : α → Parser → Prop}
    (h : Goes here outcome wanted) (hwanted : ∀ a u, wanted a u → wanted' a u) :
    Goes here outcome wanted' :=
  ⟨h.fine, fun a u hrun => hwanted a u (h.leads a u hrun)⟩

end Goes

/-- From `s` on the steps go well, and a success leads to what is wanted. -/
abbrev Steps.Proceeds (steps : Steps p) (s : Parser) (wanted : α → Parser → Prop) : Prop :=
  Goes (steps.moves s) (p.run s) wanted

namespace Steps.Proceeds

variable {f : α → Parse β} {steps : Steps p} {next : ∀ a, Steps (f a)}
  {wanted : α → Parser → Prop} {goal : β → Parser → Prop}

/-! ### Sequences and choices -/

theorem bind (h : steps.Proceeds s wanted)
    (hnext : ∀ a u, wanted a u → (next a).Proceeds u goal) :
    (Steps.bind steps next).Proceeds s goal :=
  Goes.bind h hnext

theorem result {a : α} (h : wanted a s) : (Steps.result a).Proceeds s wanted := by
  refine ⟨List.forall_mem_nil _, ?_⟩
  intro b u hrun
  cases hrun
  exact h

theorem result_bind {a : α} (h : (next a).Proceeds s goal) :
    (Steps.bind (.result a) next).Proceeds s goal := by
  have here : (Steps.result a).Proceeds s fun b u => b = a ∧ u = s := result ⟨rfl, rfl⟩
  refine here.bind ?_
  rintro _ _ ⟨rfl, rfl⟩
  exact h

/-- A sequence whose first result is put into another form. -/
theorem map_bind {γ : Type} {g : α → γ} {f : γ → Parse β} {next : ∀ c, Steps (f c)}
    (h : steps.Proceeds s wanted) (hnext : ∀ a u, wanted a u → (next (g a)).Proceeds u goal) :
    (Steps.bind (Steps.bind steps fun a => .result (g a)) next).Proceeds s goal := by
  have here : (Steps.bind steps fun a => .result (g a)).Proceeds s
      fun c u => ∃ a, c = g a ∧ wanted a u :=
    h.bind fun a u ha => result ⟨a, rfl, ha⟩
  refine here.bind ?_
  rintro _ u ⟨a, rfl, ha⟩
  exact hnext a u ha

theorem failure (e : ParseError) :
    (Steps.failure e : Steps (throw e : Parse α)).Proceeds s wanted := by
  refine ⟨List.forall_mem_nil _, ?_⟩
  intro a u hrun
  cases hrun

theorem choice {c : Prop} [decision : Decidable c] {q : Parse α} {no : Steps q}
    (hyes : c → steps.Proceeds s wanted) (hno : ¬c → no.Proceeds s wanted) :
    (Steps.choice (c := c) steps no).Proceeds s wanted := by
  cases decision with
  | isTrue hc => exact hyes hc
  | isFalse hc => exact hno hc

/-- Two ways to begin, with the same behind both. -/
theorem branch {c : Prop} [decision : Decidable c] {q : Parse α} {no : Steps q}
    (wanted : α → Parser → Prop) (hyes : c → steps.Proceeds s wanted)
    (hno : ¬c → no.Proceeds s wanted) (hnext : ∀ a u, wanted a u → (next a).Proceeds u goal) :
    (Steps.choice (c := c) (.bind steps next) (.bind no next)).Proceeds s goal :=
  choice (fun hc => (hyes hc).bind hnext) fun hc => (hno hc).bind hnext

/-! ### Single steps -/

theorem current_bind {f : Token → Parse β} {next : ∀ t, Steps (f t)}
    (h : ∀ t, Shows s t → (next t).Proceeds s goal) :
    (Steps.bind .current next).Proceeds s goal := by
  have looks : Steps.current.Proceeds s fun t u => u = s ∧ Shows s t := by
    refine ⟨List.forall_mem_nil _, fun t u hrun => ?_⟩
    obtain ⟨rfl, -⟩ := current_ok hrun
    exact ⟨rfl, hrun⟩
  refine looks.bind ?_
  rintro t _ ⟨rfl, ht⟩
  exact h t ht

theorem kind_bind {f : Token.Kind → Parse β} {next : ∀ k, Steps (f k)}
    (h : ∀ t, Shows s t → (next t.kind).Proceeds s goal) :
    (Steps.bind .kind next).Proceeds s goal := by
  have looks : Steps.kind.Proceeds s fun k u => u = s ∧ ∃ t, Shows s t ∧ t.kind = k :=
    current_bind fun t ht => result ⟨rfl, t, ht, rfl⟩
  refine looks.bind ?_
  rintro _ _ ⟨rfl, t, ht, rfl⟩
  exact h t ht

theorem start_bind {f : Span → Parse β} {next : ∀ span, Steps (f span)}
    (h : ∀ span, (next span).Proceeds s goal) : (Steps.bind .start next).Proceeds s goal := by
  have looks : Steps.start.Proceeds s fun _ u => u = s := current_bind fun _ _ => result rfl
  refine looks.bind ?_
  rintro span _ rfl
  exact h span

theorem finish_bind {first : Span} {f : Span → Parse β} {next : ∀ span, Steps (f span)}
    (h : ∀ span, (next span).Proceeds s goal) :
    (Steps.bind (.finish first) next).Proceeds s goal := by
  have looks : (Steps.finish first).Proceeds s fun _ u => u = s :=
    ⟨List.forall_mem_nil _, fun span u hrun => (finish_ok hrun).1⟩
  refine looks.bind ?_
  rintro span _ rfl
  exact h span

theorem freshId_bind {n : Nat} {f : ProcedureId → Parse β} {next : ∀ id, Steps (f id)}
    (hs : Passes s n u) (h : ∀ id v, Passes s n v → (next id).Proceeds v goal) :
    (Steps.bind .freshId next).Proceeds u goal := by
  have counts : Steps.freshId.Proceeds u fun _ v => Passes s n v := by
    refine ⟨List.forall_mem_nil _, fun id v hrun => ?_⟩
    cases hrun
    exact ⟨hs.ends, hs.left⟩
  exact counts.bind h

theorem nextKind_bind {f : Token.Kind → Parse β} {next : ∀ k, Steps (f k)} (ht : Shows s t)
    (hend : t.kind ≠ .endOfInput) (h : ∀ k, (next k).Proceeds s goal) :
    (Steps.bind .nextKind next).Proceeds s goal := by
  have looks : Steps.nextKind.Proceeds s fun _ u => u = s := by
    refine ⟨?_, fun k u hrun => state_of_nextKind_ok hrun⟩
    rw [Steps.moves, moveAt_of_shows ht]
    exact List.forall_mem_singleton.mpr hend
  refine looks.bind ?_
  rintro k _ rfl
  exact h k

/-- Taking a token that is not the end leaves one more item behind. -/
theorem advance {n : Nat} (hs : Passes s n u) (ht : Shows u t) (hend : t.kind ≠ .endOfInput) :
    Steps.advance.Proceeds u fun t' v => t' = t ∧ Passes s (n + 1) v := by
  refine ⟨?_, fun t' v hrun => ?_⟩
  · rw [Steps.moves, moveAt_of_shows ht]
    exact List.forall_mem_singleton.mpr hend
  · obtain ⟨-, rest, hrest⟩ := current_ok_of_ne ht hs.ends hend
    obtain ⟨rfl, taken⟩ := advance_ok hrun hrest
    refine ⟨rfl, hs.trans ⟨taken.ends hs.ends, ?_⟩⟩
    simp [taken.items]

theorem advance_bind {n : Nat} {f : Token → Parse β} {next : ∀ t, Steps (f t)} (hs : Passes s n u)
    (ht : Shows u t) (hend : t.kind ≠ .endOfInput)
    (h : ∀ v, Passes s (n + 1) v → (next t).Proceeds v goal) :
    (Steps.bind .advance next).Proceeds u goal := by
  refine (advance hs ht hend).bind ?_
  rintro _ v ⟨rfl, hv⟩
  exact h v hv

theorem expect_bind {n : Nat} {k : Token.Kind} {f : Token → Parse β} {next : ∀ t, Steps (f t)}
    (hs : Passes s n u) (hend : k ≠ .endOfInput)
    (h : ∀ t v, Passes s (n + 1) v → (next t).Proceeds v goal) :
    (Steps.bind (.expect k) next).Proceeds u goal := by
  have takes : (Steps.expect k).Proceeds u fun _ v => Passes s (n + 1) v := by
    refine current_bind fun t ht => choice (fun hk => ?_) fun _ => failure _
    exact (advance hs ht (hk ▸ hend)).mono fun _ _ h => h.2
  exact takes.bind fun t v hv => h t v hv

/-- Levels of nesting have nothing to do with what is left to read. -/
theorem nested (h : ∀ depth, steps.Proceeds { s with depth } fun a u =>
      ∀ depth', wanted a { u with depth := depth' }) :
    (Steps.nested steps).Proceeds s wanted := by
  refine ⟨?_, fun a u hrun => ?_⟩
  · refine forall_mem_behind fun _ u hrun => ?_
    obtain ⟨depth, rfl⟩ := enter_ok hrun
    exact (h depth).fine
  · obtain ⟨depth, v, depth', hinner, rfl⟩ := nested_ok hrun
    exact (h depth).leads a v hinner depth'

end Steps.Proceeds

/-! ## Rules -/

/-- With fewer than `room` items left the steps proceed, and leave at least `n` of them behind. -/
def Steps.Progresses (steps : Steps p) (room n : Nat) : Prop :=
  ∀ s : Parser, s.Ends → s.items.length < room → steps.Proceeds s fun _ u => Passes s n u

namespace Steps.Progresses

variable {steps : Steps p} {room m n : Nat}

/-- What progresses does so behind the items that were left behind before. -/
theorem behind (h : steps.Progresses room n) (hs : Passes s m u) (hroom : s.items.length < room + m) :
    steps.Proceeds u fun _ v => Passes s (m + n) v := by
  have hleft := hs.left
  exact (h u hs.ends (by omega)).mono fun _ v hv => hs.trans hv

theorem mono {room' : Nat} (h : steps.Progresses room n) (hroom : room' ≤ room) (hm : m ≤ n) :
    steps.Progresses room' m := by
  intro s hs hleft
  exact (h s hs (by omega)).mono fun _ u hu => hu.mono hm

theorem nested (h : steps.Progresses room n) : (Steps.nested steps).Progresses room n := by
  intro s hs hroom
  refine .nested fun depth => (h { s with depth } hs hroom).mono fun _ u hu depth' => ?_
  exact ⟨hu.ends, hu.left⟩

/-- Without room there is nothing to show. -/
theorem of_no_room : steps.Progresses 0 n := by
  intro s hs hroom
  exact absurd hroom (Nat.not_lt_zero _)

end Steps.Progresses

section Expressions

variable {operator? : Token.Kind → Option BinaryOp} {q : Parse Expr} {inner : Steps q}
  {room budget : Nat}

/-- Every round of a chain takes an operator, so a budget above the number of items is enough. -/
theorem chainAfter_goes (hend : operator? .endOfInput = none) (h : inner.Progresses room 1)
    (hb : budget ≤ room) (levels : Nat) (lhs : Expr) (hs : s.Ends) (hleft : s.items.length < budget) :
    Goes (chainMoves operator? q (fun v => inner.moves v) budget s)
      ((chainAfter operator? q budget levels lhs).run s) fun _ u => Passes s 0 u := by
  induction budget generalizing s levels lhs with
  | zero => exact absurd hleft (Nat.not_lt_zero _)
  | succ budget ih =>
    refine .look_bind fun k s₁ hk => ?_
    obtain ⟨t, ht, rfl⟩ := kind_ok hk
    obtain rfl := state_of_kind_ok hk
    cases hop : operator? t.kind with
    | none =>
      refine ⟨List.forall_mem_nil _, fun e u hrun => ?_⟩
      cases hrun
      exact ⟨hs, Nat.le_refl _⟩
    | some op =>
      have htend : t.kind ≠ .endOfInput := by
        intro hkind
        rw [hkind, hend] at hop
        cases hop
      refine Goes.bind (Steps.Proceeds.advance (.refl hs) ht htend) fun _ s₂ h₂ => ?_
      refine .look_bind fun _ s₃ h₃ => ?_
      obtain ⟨depth, rfl⟩ := enter_ok h₃
      have h₃ : Passes s₁ 1 { s₂ with depth } := ⟨h₂.2.ends, h₂.2.left⟩
      refine Goes.bind (h.behind h₃ (by omega)) fun rhs s₄ h₄ => ?_
      have hleft₄ := h₄.left
      refine (ih (by omega) _ _ h₄.ends (by omega)).mono fun _ u hu => ?_
      exact (h₄.trans hu).mono (Nat.zero_le _)

theorem chain_progresses (hend : operator? .endOfInput = none) (h : inner.Progresses budget 1) :
    (Steps.chain operator? inner budget).Progresses budget 1 := by
  intro s hs hleft
  refine Goes.bind (h s hs hleft) fun lhs s₁ h₁ => ?_
  have hleft₁ := h₁.left
  refine (chainAfter_goes hend h le_rfl 0 lhs h₁.ends (by omega)).mono fun _ u hu => ?_
  exact h₁.trans hu

theorem expressionOf_progresses (h : inner.Progresses budget 1) :
    (Steps.expressionOf inner budget).Progresses budget 1 :=
  chain_progresses rfl (chain_progresses rfl h)

theorem parenthesised_progresses (h : inner.Progresses room 1) :
    (Steps.parenthesised inner).Progresses (room + 1) 3 := by
  intro s hs hleft
  refine .expect_bind (.refl hs) (by decide) fun _ s₁ h₁ => ?_
  refine (h.behind h₁ (by omega)).bind fun _ s₂ h₂ => ?_
  exact .expect_bind h₂ (by decide) fun _ s₃ h₃ => .result h₃

theorem argumentsAfter_progresses (h : inner.Progresses room 1) (hb : budget ≤ room)
    (read : List Expr) : (Steps.argumentsAfter inner budget read).Progresses budget 0 := by
  induction budget generalizing read with
  | zero => exact .of_no_room
  | succ budget ih =>
    intro s hs hleft
    refine .kind_bind fun t ht => .choice (fun hcomma => ?_) fun _ => .result (.refl hs)
    refine .advance_bind (.refl hs) ht (by simp [hcomma]) fun s₁ h₁ => ?_
    refine (h.behind h₁ (by omega)).bind fun e s₂ h₂ => ?_
    refine ((ih (by omega) (e :: read)).behind h₂ (by omega)).mono fun _ u hu => ?_
    exact hu.mono (Nat.zero_le _)

theorem call_progresses (h : inner.Progresses budget 1) :
    (Steps.call inner budget).Progresses (budget + 2) 3 := by
  intro s hs hleft
  refine .expect_bind (.refl hs) (by decide) fun _ s₁ h₁ => ?_
  refine .expect_bind h₁ (by decide) fun _ s₂ h₂ => ?_
  refine .kind_bind fun t ht => .choice (fun _ => ?_) fun _ => ?_
  · exact .result_bind (.expect_bind h₂ (by decide) fun _ s₃ h₃ => .result h₃)
  · refine (h.behind h₂ (by omega)).bind fun e s₃ h₃ => ?_
    refine ((argumentsAfter_progresses h le_rfl [e]).behind h₃ (by omega)).bind fun _ s₄ h₄ => ?_
    exact .expect_bind h₄ (by decide) fun _ s₅ h₅ => .result (h₅.mono (by omega))

theorem literal_progresses (t : Token) (room : Nat) : (Steps.literal t).Progresses room 0 := by
  intro s hs hleft
  exact .choice (fun _ => .result (.refl hs)) fun _ => .failure _

/-- **Factors progress.**  Whatever stands inside a factor stands behind a token of it. -/
theorem factor_progresses (budget : Nat) : (Steps.factor budget).Progresses budget 1 := by
  induction budget with
  | zero => exact .of_no_room
  | succ budget ih =>
    refine .nested ?_
    intro s hs hleft
    have hinner := expressionOf_progresses ih
    refine .current_bind fun t ht => ?_
    obtain ⟨k, lexeme, span⟩ := t
    cases k with
    | plus | minus =>
      refine .advance_bind (.refl hs) ht (by simp) fun s₁ h₁ => ?_
      exact (ih.behind h₁ (by omega)).bind fun _ s₂ h₂ => .result (h₂.mono (by omega))
    | integer =>
      refine .advance_bind (.refl hs) ht (by simp) fun s₁ h₁ => ?_
      exact ((literal_progresses _ budget).behind h₁ (by omega)).bind fun _ s₂ h₂ => .result h₂
    | leftParen =>
      exact ((parenthesised_progresses hinner) s hs hleft).mono fun _ u hu => hu.mono (by omega)
    | identifier =>
      refine .nextKind_bind ht (by simp) fun k => .choice (fun _ => ?_) fun _ => ?_
      · refine ((call_progresses hinner) s hs (by omega)).bind fun _ s₁ h₁ => ?_
        exact .finish_bind fun _ => .result (h₁.mono (by omega))
      · exact .advance_bind (.refl hs) ht (by simp) fun s₁ h₁ => .result h₁
    | _ => exact .failure _

theorem expression_progresses (budget : Nat) : (Steps.expression budget).Progresses budget 1 :=
  expressionOf_progresses (factor_progresses budget)

end Expressions

section Statements

variable {p : Parse Stmt} {l : Parse (List Stmt)} {one : Steps p} {list : Steps l} {room budget : Nat}

theorem dataType_progresses (room : Nat) : Steps.dataType.Progresses room 1 := by
  intro s hs hleft
  refine .current_bind fun t ht => ?_
  obtain ⟨k, lexeme, span⟩ := t
  cases k with
  | kwInt | kwFloat | kwVar =>
    exact .advance_bind (.refl hs) ht (by simp) fun s₁ h₁ => .result h₁
  | _ => exact .failure _

theorem parameter_progresses (room : Nat) : Steps.parameter.Progresses room 2 := by
  intro s hs hleft
  refine .start_bind fun _ => (dataType_progresses _ s hs hleft).bind fun _ s₁ h₁ => ?_
  exact .expect_bind h₁ (by decide) fun _ s₂ h₂ => .finish_bind fun _ => .result h₂

theorem parametersAfter_progresses (budget : Nat) (read : List Param) :
    (Steps.parametersAfter budget read).Progresses budget 0 := by
  induction budget generalizing read with
  | zero => exact .of_no_room
  | succ budget ih =>
    intro s hs hleft
    refine .kind_bind fun t ht => .choice (fun hcomma => ?_) fun _ => .result (.refl hs)
    refine .advance_bind (.refl hs) ht (by simp [hcomma]) fun s₁ h₁ => ?_
    refine ((parameter_progresses budget).behind h₁ (by omega)).bind fun next s₂ h₂ => ?_
    refine ((ih (next :: read)).behind h₂ (by omega)).mono fun _ u hu => ?_
    exact hu.mono (Nat.zero_le _)

theorem parameters_progresses (budget : Nat) : (Steps.parameters budget).Progresses budget 0 := by
  intro s hs hleft
  refine .kind_bind fun t ht => .choice (fun _ => .result (.refl hs)) fun _ => ?_
  refine (parameter_progresses _ s hs hleft).bind fun first s₁ h₁ => ?_
  refine ((parametersAfter_progresses budget [first]).behind h₁ (by omega)).mono fun _ u hu => ?_
  exact hu.mono (Nat.zero_le _)

theorem braced_progresses (h : list.Progresses room 0) :
    (Steps.braced list).Progresses (room + 1) 2 := by
  intro s hs hleft
  refine .expect_bind (.refl hs) (by decide) fun _ s₁ h₁ => ?_
  refine (h.behind h₁ (by omega)).bind fun _ s₂ h₂ => ?_
  exact .expect_bind h₂ (by decide) fun _ s₃ h₃ => .result h₃

theorem compound_progresses (h : list.Progresses room 0) :
    (Steps.compound list).Progresses (room + 1) 2 := by
  intro s hs hleft
  refine .start_bind fun _ => ((braced_progresses h).nested s hs hleft).bind fun _ s₁ h₁ => ?_
  exact .finish_bind fun _ => .result h₁

theorem simple_progresses (budget : Nat) : (Steps.simple budget).Progresses (budget + 1) 0 := by
  intro s hs hleft
  have hvalue := expression_progresses budget
  refine .current_bind fun t ht => ?_
  obtain ⟨k, lexeme, span⟩ := t
  cases k with
  | identifier =>
    refine .nextKind_bind ht (by simp) fun k => .choice (fun _ => ?_) fun _ => ?_
    · refine (call_progresses hvalue s hs (by omega)).bind fun _ s₁ h₁ => ?_
      exact .finish_bind fun _ => .result (h₁.mono (Nat.zero_le _))
    · refine .advance_bind (.refl hs) ht (by simp) fun s₁ h₁ => ?_
      refine .expect_bind h₁ (by decide) fun _ s₂ h₂ => ?_
      refine (hvalue.behind h₂ (by omega)).bind fun _ s₃ h₃ => ?_
      exact .finish_bind fun _ => .result (h₃.mono (Nat.zero_le _))
  | kwInt | kwFloat | kwVar =>
    refine (dataType_progresses _ s hs hleft).bind fun _ s₁ h₁ => ?_
    refine .expect_bind h₁ (by decide) fun _ s₂ h₂ => ?_
    exact .finish_bind fun _ => .result (h₂.mono (Nat.zero_le _))
  | semicolon | rightParen => exact .result (.refl hs)
  | _ => exact .failure _

/-- A jump takes its first token without asking which it is. -/
theorem jump_proceeds (hs : s.Ends) (hleft : s.items.length < budget + 1) (ht : Shows s t)
    (hend : t.kind ≠ .endOfInput) :
    (Steps.jump budget).Proceeds s fun _ u => Passes s 1 u := by
  refine .advance_bind (.refl hs) ht hend fun s₁ h₁ => ?_
  obtain ⟨k, lexeme, span⟩ := t
  cases k with
  | kwReturn =>
    refine ((expression_progresses budget).behind h₁ (by omega)).bind fun _ s₂ h₂ => ?_
    exact .finish_bind fun _ => .result (h₂.mono (by omega))
  | kwBreak | kwContinue => exact .finish_bind fun _ => .result h₁
  | _ => exact .failure _

theorem conditional_progresses (h : one.Progresses budget 1) :
    (Steps.conditional one budget).Progresses (budget + 1) 1 := by
  intro s hs hleft
  have htest := parenthesised_progresses (expression_progresses budget)
  refine .expect_bind (.refl hs) (by decide) fun _ s₁ h₁ => ?_
  refine (htest.behind h₁ (by omega)).bind fun _ s₂ h₂ => ?_
  refine (h.behind h₂ (by omega)).bind fun _ s₃ h₃ => ?_
  refine .kind_bind fun t ht => .choice (fun helse => ?_) fun _ => ?_
  · refine .advance_bind h₃ ht (by simp [helse]) fun s₄ h₄ => ?_
    refine .map_bind (h.behind h₄ (by omega)) fun _ s₅ h₅ => ?_
    exact .finish_bind fun _ => .result (h₅.mono (by omega))
  · exact .result_bind (.finish_bind fun _ => .result (h₃.mono (by omega)))

theorem whileLoop_progresses (h : one.Progresses budget 1) :
    (Steps.whileLoop one budget).Progresses (budget + 1) 1 := by
  intro s hs hleft
  have htest := parenthesised_progresses (expression_progresses budget)
  refine .expect_bind (.refl hs) (by decide) fun _ s₁ h₁ => ?_
  refine (htest.behind h₁ (by omega)).bind fun _ s₂ h₂ => ?_
  refine (h.behind h₂ (by omega)).bind fun _ s₃ h₃ => ?_
  exact .finish_bind fun _ => .result (h₃.mono (by omega))

theorem doWhile_progresses (h : one.Progresses budget 1) :
    (Steps.doWhile one budget).Progresses (budget + 1) 1 := by
  intro s hs hleft
  have htest := parenthesised_progresses (expression_progresses budget)
  refine .expect_bind (.refl hs) (by decide) fun _ s₁ h₁ => ?_
  refine (h.behind h₁ (by omega)).bind fun _ s₂ h₂ => ?_
  refine .expect_bind h₂ (by decide) fun _ s₃ h₃ => ?_
  refine (htest.behind h₃ (by omega)).bind fun _ s₄ h₄ => ?_
  refine .expect_bind h₄ (by decide) fun _ s₅ h₅ => ?_
  exact .finish_bind fun _ => .result (h₅.mono (by omega))

theorem forLoop_progresses (h : one.Progresses budget 1) :
    (Steps.forLoop one budget).Progresses (budget + 1) 1 := by
  intro s hs hleft
  have hsimple := simple_progresses budget
  refine .expect_bind (.refl hs) (by decide) fun _ s₁ h₁ => ?_
  refine .expect_bind h₁ (by decide) fun _ s₂ h₂ => ?_
  refine (hsimple.behind h₂ (by omega)).bind fun _ s₃ h₃ => ?_
  refine .expect_bind h₃ (by decide) fun _ s₄ h₄ => ?_
  refine ((expression_progresses budget).behind h₄ (by omega)).bind fun _ s₅ h₅ => ?_
  refine .expect_bind h₅ (by decide) fun _ s₆ h₆ => ?_
  refine (hsimple.behind h₆ (by omega)).bind fun _ s₇ h₇ => ?_
  refine .expect_bind h₇ (by decide) fun _ s₈ h₈ => ?_
  refine (h.behind h₈ (by omega)).bind fun _ s₉ h₉ => ?_
  exact .finish_bind fun _ => .result (h₉.mono (by omega))

theorem statementOf_progresses (h : one.Progresses budget 1) :
    (Steps.statementOf one budget).Progresses (budget + 1) 1 := by
  intro s hs hleft
  refine .current_bind fun t ht => ?_
  obtain ⟨k, lexeme, span⟩ := t
  cases k with
  | kwIf => exact conditional_progresses h s hs hleft
  | kwWhile => exact whileLoop_progresses h s hs hleft
  | kwDo => exact doWhile_progresses h s hs hleft
  | kwFor => exact forLoop_progresses h s hs hleft
  | kwReturn | kwBreak | kwContinue =>
    refine (jump_proceeds hs hleft ht (by simp)).bind fun _ s₁ h₁ => ?_
    exact .expect_bind h₁ (by decide) fun _ s₂ h₂ => .result (h₂.mono (by omega))
  | identifier | kwInt | kwFloat | kwVar | semicolon =>
    refine (simple_progresses budget s hs hleft).bind fun _ s₁ h₁ => ?_
    exact .expect_bind h₁ (by decide) fun _ s₂ h₂ => .result h₂
  | _ => exact .failure _

theorem blockOf_progresses (h : one.Progresses room 1) (hlist : list.Progresses (room - 1) 0) :
    (Steps.blockOf one list).Progresses room 1 := by
  intro s hs hleft
  refine .kind_bind fun t ht => .choice (fun _ => ?_) fun _ => h s hs hleft
  exact (compound_progresses hlist s hs (by omega)).mono fun _ u hu => hu.mono (by omega)

theorem procedure_progresses (h : list.Progresses room 0) (hb : room ≤ budget + 2) :
    (Steps.procedure list budget).Progresses (room + 1) 1 := by
  intro s hs hleft
  have hbody := (braced_progresses h).nested
  refine .expect_bind (.refl hs) (by decide) fun first s₁ h₁ => .kind_bind fun t ht => ?_
  refine .branch (fun _ u => Passes s 1 u) (fun _ => ?_) (fun _ => .result h₁) fun _ s₂ h₂ => ?_
  · refine ((dataType_progresses (room + 1)).behind h₁ (by omega)).bind fun _ s₂ h₂ => ?_
    exact .result (h₂.mono (by omega))
  · refine .expect_bind h₂ (by decide) fun _ s₃ h₃ => .expect_bind h₃ (by decide) fun _ s₄ h₄ => ?_
    refine ((parameters_progresses budget).behind h₄ (by omega)).bind fun _ s₅ h₅ => ?_
    refine .expect_bind h₅ (by decide) fun _ s₆ h₆ => ?_
    refine (hbody.behind h₆ (by omega)).bind fun _ s₇ h₇ => .freshId_bind h₇ fun _ s₈ h₈ => ?_
    exact .finish_bind fun _ => .result (h₈.mono (by omega))

theorem statementsAfter_progresses (h : one.Progresses room 1) (hlist : list.Progresses (room - 1) 0)
    (hb : budget ≤ room) (read : List Stmt) :
    (Steps.statementsAfter one list budget read).Progresses budget 0 := by
  induction budget generalizing read with
  | zero => exact .of_no_room
  | succ budget ih =>
    intro s hs hleft
    -- whatever the item is, the rest of the list comes behind it
    have hrest : ∀ item : Stmt, ∀ u, Passes s 1 u →
        (Steps.statementsAfter one list budget (item :: read)).Proceeds u fun _ v => Passes s 0 v := by
      intro item u hu
      refine ((ih (by omega) (item :: read)).behind hu (by omega)).mono fun _ v hv => ?_
      exact hv.mono (Nat.zero_le _)
    refine .kind_bind fun t ht => ?_
    obtain ⟨k, lexeme, span⟩ := t
    cases k with
    | rightBrace | endOfInput => exact .result (.refl hs)
    | leftBrace =>
      refine (compound_progresses hlist s hs (by omega)).bind fun item s₁ h₁ => ?_
      exact hrest item s₁ (h₁.mono (by omega))
    | kwDef =>
      have hprocedure : (Steps.procedure list budget).Progresses (budget + 1) 1 :=
        procedure_progresses (hlist.mono (by omega) le_rfl) (by omega)
      exact (hprocedure s hs hleft).bind hrest
    | _ => exact (h s hs (by omega)).bind hrest

/-- **Statements progress**, and so do lists of them, which begin without taking a token and need one
more of the budget for that. -/
theorem statement_and_statements_progress (budget : Nat) :
    (Steps.statementAndStatements budget).1.Progresses budget 1
      ∧ (Steps.statementAndStatements budget).2.Progresses (budget - 1) 0 := by
  induction budget with
  | zero => exact ⟨.of_no_room, .of_no_room⟩
  | succ budget ih =>
    obtain ⟨hone, hlist⟩ := ih
    refine ⟨(statementOf_progresses (blockOf_progresses hone hlist)).nested, ?_⟩
    exact statementsAfter_progresses hone hlist le_rfl []

theorem program_progresses (budget : Nat) : (Steps.program budget).Progresses (budget - 1) 0 := by
  intro s hs hleft
  refine ((statement_and_statements_progress budget).2 s hs hleft).bind fun _ s₁ h₁ => ?_
  refine .current_bind fun t ht => .choice (fun _ => .result h₁) fun _ => .failure _

end Statements

/-! ## What is taken -/

theorem taken_looksBehind (s : Parser) : taken (moveAt .looksBehind s) = [] := by
  unfold moveAt behind
  split <;> rfl

/-- A token that is taken and is not the end leaves the items that were to be read. -/
theorem reads_of_advance_ok {t : Token} (hs : s.Ends) (hfine : ∀ m ∈ moveAt .takes s, m.Fine)
    (h : advance.run s = (.ok t, u)) : s.Reads (taken (moveAt .takes s)) u := by
  obtain ⟨t', s₁, hcurrent, -⟩ := of_bind h
  obtain ⟨rfl, -⟩ := current_ok hcurrent
  rw [moveAt_of_shows hcurrent] at hfine ⊢
  have hend : t'.kind ≠ .endOfInput := hfine _ (List.mem_singleton_self _)
  obtain ⟨-, rest, hrest⟩ := current_ok_of_ne hcurrent hs hend
  exact (advance_ok h hrest).2.toReads

theorem reads_of_chainAfter_ok {operator? : Token.Kind → Option BinaryOp} {operand : Parse Expr}
    {inside : Parser → List Move}
    (hinside : ∀ s e u, s.Ends → (∀ m ∈ inside s, m.Fine) → operand.run s = (.ok e, u) →
      s.Reads (taken (inside s)) u)
    {budget levels : Nat} {lhs e : Expr} (hs : s.Ends)
    (hfine : ∀ m ∈ chainMoves operator? operand inside budget s, m.Fine)
    (h : (chainAfter operator? operand budget levels lhs).run s = (.ok e, u)) :
    s.Reads (taken (chainMoves operator? operand inside budget s)) u := by
  induction budget generalizing levels lhs s with
  | zero => exact (tooDeep_ok h).elim
  | succ budget ih =>
    obtain ⟨k, s₁, h₁, h⟩ := of_bind h
    rw [state_of_kind_ok h₁] at h h₁
    rw [chainMoves, behind_of_ok h₁] at hfine ⊢
    cases hk : operator? k with
    | none =>
      simp only [hk] at h
      obtain ⟨_, s₂, h₂, h⟩ := of_bind h
      cases h₂
      cases h
      exact ⟨rfl, rfl, rfl⟩
    | some op =>
      simp only [hk] at h hfine ⊢
      obtain ⟨_, s₂, h₂, h⟩ := of_bind h
      obtain ⟨_, s₃, h₃, h⟩ := of_bind h
      obtain ⟨_, s₄, h₄, h₅⟩ := of_bind h
      simp only [behind_of_ok h₂, behind_of_ok h₃, behind_of_ok h₄, List.forall_mem_append,
        taken_append] at hfine ⊢
      obtain ⟨hoperator, hoperand, hrest⟩ := hfine
      have readOperator := reads_of_advance_ok hs hoperator h₂
      obtain ⟨depth, rfl⟩ := enter_ok h₃
      have hends : ({ s₂ with depth } : Parser).Ends := readOperator.ends hs
      have readOperand := hinside _ _ _ hends hoperand h₄
      have readOperand' : s₂.Reads (taken (inside { s₂ with depth })) s₄ :=
        ⟨readOperand.items, readOperand.final, readOperand.previous⟩
      exact readOperator.trans (readOperand'.trans (ih (readOperand.ends hends) hrest h₅))

/-- **What is taken is gone, and nothing else is.**  Steps that never take the end leave the items that
stand behind the tokens they have taken. -/
theorem Steps.reads_of_ok (steps : Steps p) (hs : s.Ends) (hfine : ∀ m ∈ steps.moves s, m.Fine) {a : α}
    (h : p.run s = (.ok a, u)) : s.Reads (taken (steps.moves s)) u := by
  induction steps generalizing s u with
  | result | freshId =>
    cases h
    exact ⟨rfl, rfl, rfl⟩
  | failure => cases h
  | spent => exact (tooDeep_ok h).elim
  | current =>
    obtain ⟨rfl, -⟩ := current_ok h
    exact .refl _
  | nextKind =>
    obtain rfl := state_of_nextKind_ok h
    rw [moves, taken_looksBehind]
    exact .refl _
  | advance => exact reads_of_advance_ok hs hfine h
  | finish =>
    obtain ⟨rfl, -⟩ := finish_ok h
    exact .refl _
  | bind first next hfirst hnext =>
    obtain ⟨b, s₁, h₁, h⟩ := of_bind h
    rw [moves, behind_of_ok h₁] at hfine ⊢
    obtain ⟨hhere, hbehind⟩ := List.forall_mem_append.mp hfine
    have read := hfirst hs hhere h₁
    rw [taken_append]
    exact read.trans (hnext b (read.ends hs) hbehind h)
  | nested inner hinner =>
    obtain ⟨_, s₁, h₁, -⟩ := of_bind h
    rw [run_nested_of_ok h₁] at h
    rw [moves, behind_of_ok h₁] at hfine ⊢
    obtain ⟨depth, rfl⟩ := enter_ok h₁
    obtain ⟨hok, rfl⟩ := Prod.mk.inj h
    have read := hinner (s := { s with depth }) hs hfine (Prod.ext hok rfl)
    exact ⟨read.items, read.final, read.previous⟩
  | chain operator? operand budget hoperand =>
    obtain ⟨lhs, s₁, h₁, h⟩ := of_bind h
    rw [moves, behind_of_ok h₁] at hfine ⊢
    obtain ⟨hhere, hbehind⟩ := List.forall_mem_append.mp hfine
    have read := hoperand hs hhere h₁
    rw [taken_append]
    refine read.trans (reads_of_chainAfter_ok ?_ (read.ends hs) hbehind h)
    exact fun v e w hv hinside => hoperand hv hinside

/-- From `s` on the steps come to an end by what there is to read: the budget is not used up, the end
of the text is not taken, and a success has taken at least `n` tokens, which are gone. -/
structure Steps.Advances (steps : Steps p) (s : Parser) (n : Nat) : Prop where
  unspent : .spends ∉ steps.moves s
  tokens : ∀ t ∈ taken (steps.moves s), t.kind ≠ .endOfInput
  takes : ∀ a u, p.run s = (.ok a, u) →
    s.items = (taken (steps.moves s)).map .ok ++ u.items ∧ n ≤ (taken (steps.moves s)).length

theorem kind_ne_of_mem_taken {moves : List Move} (hfine : ∀ m ∈ moves, m.Fine) :
    ∀ t ∈ taken moves, t.kind ≠ .endOfInput := by
  intro t ht
  obtain ⟨m, hm, hmove⟩ := List.mem_filterMap.mp ht
  have hmove' := hfine m hm
  cases m with
  | takes t' =>
    cases hmove
    exact hmove'
  | looksBehind | spends => cases hmove

theorem Steps.Progresses.advances {steps : Steps p} {room n : Nat} (h : steps.Progresses room n)
    (hs : s.Ends) (hroom : s.items.length < room) : steps.Advances s n := by
  obtain ⟨hfine, hleads⟩ := h s hs hroom
  refine ⟨fun hspends => hfine _ hspends, kind_ne_of_mem_taken hfine, fun a u hrun => ?_⟩
  have hitems := (steps.reads_of_ok hs hfine hrun).items
  have hleft := (hleads a u hrun).left
  rw [hitems, List.length_append, List.length_map] at hleft
  exact ⟨hitems, by omega⟩

/-! ## The rules that call each other -/

/-- The rules that lead back to themselves, directly or through others. -/
inductive Rule where
  | statements | statement | compound | procedure | call | expression | term | factor

namespace Rule

/-- What a rule reads. -/
def Result : Rule → Type
  | statements => List Stmt
  | statement | compound | procedure => Stmt
  | call => String × List Expr
  | expression | term | factor => Expr

/-- The parser of a rule, with a budget for it and for all that it calls. -/
def parser (budget : Nat) : (rule : Rule) → Parse rule.Result
  | statements => Parse.statements budget
  | statement => Parse.statement budget
  | compound => Parse.compound (Parse.statements budget)
  | procedure => Parse.procedure (Parse.statements budget) budget
  | call => Parse.call (Parse.expression budget) budget
  | expression => Parse.expression budget
  | term => Parse.chain multiplicative? (Parse.factor budget) budget
  | factor => Parse.factor budget

/-- The steps of a rule. -/
def steps (budget : Nat) : (rule : Rule) → Steps (rule.parser budget)
  | statements => (Steps.statementAndStatements budget).2
  | statement => (Steps.statementAndStatements budget).1
  | compound => .compound (Steps.statementAndStatements budget).2
  | procedure => .procedure (Steps.statementAndStatements budget).2 budget
  | call => .call (.expression budget) budget
  | expression => .expression budget
  | term => .chain multiplicative? (.factor budget) budget
  | factor => .factor budget

/-- The number of tokens that a rule takes at least.  Only a list of statements can be empty. -/
def least : Rule → Nat
  | statements => 0
  | _ => 1

/-- **All rules progress**, with two more of a budget than there are items. -/
theorem progresses (rule : Rule) (budget : Nat) :
    (rule.steps budget).Progresses (budget - 1) rule.least := by
  obtain ⟨hstatement, hstatements⟩ := statement_and_statements_progress budget
  have hexpression := expression_progresses budget
  have hfactor := factor_progresses budget
  cases rule with
  | statements => exact hstatements
  | statement => exact hstatement.mono (by omega) le_rfl
  | compound => exact (compound_progresses hstatements).mono (by omega) (by decide)
  | procedure => exact (procedure_progresses hstatements (by omega)).mono (by omega) le_rfl
  | call => exact (call_progresses hexpression).mono (by omega) (by decide)
  | expression => exact hexpression.mono (by omega) le_rfl
  | term => exact (chain_progresses rfl hfactor).mono (by omega) le_rfl
  | factor => exact hfactor.mono (by omega) le_rfl

/-- One more than the number of items is too little, even if there are none. -/
example : .spends ∈ (statements.steps 1).moves (.ofString "") := by
  decide +kernel

end Rule

end Parse

end Imperative
