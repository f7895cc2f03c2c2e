import Imperative.Proofs.NestingAccounts

/-!
# What becomes of a parser

A parser that fails is not thrown away: what it has taken is taken, and what it has counted stays
counted.  So what can be said of a parser over several calls has to be said whatever the outcome of
each.

`Parse.Follows R p` says that `p` leads from a parser to one that is related to it, whether `p`
succeeds or fails.  A `Parse.Course` is a relation that composes and that every single step of parsing
follows, and then everything that is made of such steps follows it (`Course.follows`), a whole call of
the parser included (`Course.parse`).  So does every state on the way (`Course.moments`).
-/

namespace Imperative

namespace Parse

variable {α β : Type} {R : Parser → Parser → Prop} {p : Parse α} {s u : Parser}

/-- Whatever the outcome, the parser afterwards is related to the one before. -/
def Follows (R : Parser → Parser → Prop) (p : Parse α) : Prop :=
  ∀ s, R s (p.run s).2

theorem Follows.of_run {x : Except ParseError α} (h : Follows R p) (hrun : p.run s = (x, u)) :
    R s u := by
  have hend := h s
  rwa [hrun] at hend

/-- A relation between a parser and what becomes of it, which every single step follows. -/
structure Course (R : Parser → Parser → Prop) : Prop where
  refl (s : Parser) : R s s
  trans {s s' s'' : Parser} : R s s' → R s' s'' → R s s''
  current : Follows R current
  nextKind : Follows R nextKind
  advance : Follows R advance
  withDepth (s : Parser) (depth : Nat) : R s { s with depth }
  number (s : Parser) : R s { s with procedures := s.procedures + 1 }

namespace Course

variable (c : Course R)
include c

theorem bind {p : Parse α} {f : α → Parse β} (hp : Follows R p) (hf : ∀ a, Follows R (f a)) :
    Follows R (p >>= f) := by
  intro s
  have first := hp s
  rw [run_bind]
  generalize p.run s = r at first
  rcases r with ⟨e | a, u⟩
  · exact first
  · exact c.trans first (hf a u)

theorem result (a : α) : Follows R (pure a) :=
  c.refl

theorem failure (e : ParseError) : Follows R (throw e : Parse α) :=
  c.refl

theorem deep : Follows R (tooDeep : Parse α) :=
  c.bind c.current fun _ => c.failure _

theorem kind : Follows R Parse.kind :=
  c.bind c.current fun _ => c.result _

theorem enter : Follows R Parse.enter := by
  intro s
  rw [Parse.enter, run_bind]
  change R s ((if maxNesting ≤ s.depth then _ else _ : Parse Unit).run s).2
  split
  · refine c.bind c.deep ?_ s
    exact fun _ u => c.withDepth u _
  · exact c.withDepth s _

theorem leave (levels : Nat) : Follows R (Parse.leave levels) :=
  fun s => c.withDepth s _

theorem nested {p : Parse α} (hp : Follows R p) : Follows R (Parse.nested p) :=
  c.bind c.enter fun _ s => c.trans (hp s) (c.withDepth _ _)

theorem chainAfter (operator? : Token.Kind → Option BinaryOp) {operand : Parse Expr}
    (h : Follows R operand) (budget levels : Nat) (lhs : Expr) :
    Follows R (Parse.chainAfter operator? operand budget levels lhs) := by
  induction budget generalizing levels lhs with
  | zero => exact c.deep
  | succ budget ih =>
    refine c.bind c.kind fun k => ?_
    cases operator? k with
    | none => exact c.bind (c.leave levels) fun _ => c.result lhs
    | some op => exact c.bind c.advance fun _ => c.bind c.enter fun _ => c.bind h fun _ => ih _ _

/-- What is made of single steps follows the course. -/
theorem follows {p : Parse α} (steps : Steps p) : Follows R p := by
  induction steps with
  | result a => exact c.result a
  | failure e => exact c.failure e
  | spent => exact c.deep
  | current => exact c.current
  | nextKind => exact c.nextKind
  | advance => exact c.advance
  | finish first => exact c.refl
  | freshId => exact c.number
  | bind _ _ first next => exact c.bind first next
  | nested _ inner => exact c.nested inner
  | chain operator? _ budget operand =>
    exact c.bind operand fun lhs => c.chainAfter operator? operand budget 0 lhs

/-- **What becomes of a parser** is related to it, whatever parsing came to. -/
theorem parse (p : Parser) : R p p.parse.2 :=
  c.follows (Steps.program p.budget) p

/-! ## All moments -/

theorem around (h : Follows R p) (s : Parser) : ∀ m ∈ Parse.around p s, R s m.parser :=
  List.forall_mem_cons.mpr ⟨c.refl s, List.forall_mem_singleton.mpr (h s)⟩

/-- The moments of a first part, and of what is behind it. -/
theorem append_behind {here : List Moment} {next : α → Parser → List Moment} (h : Follows R p)
    (hhere : ∀ m ∈ here, R s m.parser) (hnext : ∀ a u, ∀ m ∈ next a u, R u m.parser) :
    ∀ m ∈ here ++ p.behind s [] next, R s m.parser :=
  forall_mem_append_behind hhere fun a u hrun m hm => c.trans (h.of_run hrun) (hnext a u m hm)

theorem chainMoments (operator? : Token.Kind → Option BinaryOp) {operand : Parse Expr}
    {inside : Parser → List Moment} (h : Follows R operand)
    (hinside : ∀ s, ∀ m ∈ inside s, R s m.parser) (budget levels : Nat) (s : Parser) :
    ∀ m ∈ Parse.chainMoments operator? operand inside budget levels s, R s m.parser := by
  induction budget generalizing levels s with
  | zero => exact c.around c.deep s
  | succ budget ih =>
    refine c.append_behind c.kind (c.around c.kind s) fun k s₁ => ?_
    cases operator? k with
    | none =>
      exact List.forall_mem_cons.mpr
        ⟨c.refl s₁, List.forall_mem_singleton.mpr (c.leave levels s₁)⟩
    | some op =>
      refine c.append_behind c.advance (c.around c.advance s₁) fun _ s₂ => ?_
      refine c.append_behind c.enter (c.around c.enter s₂) fun _ s₃ => ?_
      exact c.append_behind h (hinside s₃) fun _ s₄ => ih (levels + 1) s₄

/-- **At all moments** a parser is related to the one at the start. -/
theorem moments (steps : Steps p) (s : Parser) : ∀ m ∈ steps.moments s, R s m.parser := by
  induction steps generalizing s with
  | result a => exact c.around (c.result a) s
  | failure e => exact c.around (c.failure e) s
  | spent => exact c.around c.deep s
  | current => exact c.around c.current s
  | nextKind => exact c.around c.nextKind s
  | advance => exact c.around c.advance s
  | finish first => exact c.around (c.follows (.finish first)) s
  | freshId => exact c.around (c.follows .freshId) s
  | bind first next hfirst hnext => exact c.append_behind (c.follows first) (hfirst s) hnext
  | nested inner hinner =>
    refine c.append_behind c.enter (c.around c.enter s) fun _ u => ?_
    have hend := c.follows inner u
    refine List.forall_mem_append.mpr ⟨hinner u, List.forall_mem_cons.mpr ⟨hend, ?_⟩⟩
    exact List.forall_mem_singleton.mpr (c.trans hend (c.leave 1 _))
  | chain operator? operand budget hoperand =>
    refine c.append_behind (c.follows operand) (hoperand s) fun _ u => ?_
    exact c.chainMoments operator? (c.follows operand) hoperand budget 0 u

end Course
end Parse
end Imperative
