import Imperative.Proofs.ParserSteps

/-!
# Levels of nesting, taken and given back

A parser counts the levels of nesting that are taken.  There are two ways to take and give back:
`Parse.nested` gives its one level back whatever happens inside, and an operator chain takes a level
with each operator, and gives all of them back only when it ends.  A chain that fails keeps its levels,
the next call starts with them, and nothing ever gives them back.

Giving back is subtraction, so two things have to be shown of a parser at all times: it has not taken
more levels than are allowed, and it has taken those that it gives back.

* `Parse.Steps.moments` are all the states that a parser goes through, with the levels that it is about
  to give back in them.  They are sound (`Parse.Steps.sound_of_mem_moments`).
* `Parse.Steps.openChains` are the chains that are open where a parser fails, with the number of
  operators taken in each.  Their sum is what a failure leaves taken, and a success leaves nothing
  (`Parse.Steps.depth_run`).
-/

namespace Imperative

namespace Parse

variable {α β : Type} {p : Parse α} {s u : Parser}

/-- A moment: the parser as it is then, and how many levels it gives back next. -/
structure Moment where
  parser : Parser
  giving : Nat

/-- No more levels are taken than are allowed, and those that are given back next are taken. -/
structure Moment.Sound (m : Moment) : Prop where
  limit : m.parser.depth ≤ maxNesting
  taken : m.giving ≤ m.parser.depth

theorem Moment.Sound.of_depth_le (h : s.depth ≤ maxNesting) : Sound ⟨s, 0⟩ :=
  ⟨h, Nat.zero_le _⟩

/-- The moments before and behind a single step. -/
def around (p : Parse α) (s : Parser) : List Moment :=
  [⟨s, 0⟩, ⟨(p.run s).2, 0⟩]

/-- What there is behind `p`, or something else if `p` fails. -/
def behind {γ : Type} (p : Parse α) (s : Parser) (failed : γ) (next : α → Parser → γ) : γ :=
  match p.run s with
  | (.ok a, u) => next a u
  | (.error _, _) => failed

section Behind

variable {γ : Type} {failed : γ} {next : α → Parser → γ}

theorem behind_of_ok {a : α} (h : p.run s = (.ok a, u)) : p.behind s failed next = next a u := by
  rw [behind, h]

theorem behind_of_error {e : ParseError} (h : p.run s = (.error e, u)) :
    p.behind s failed next = failed := by
  rw [behind, h]

theorem forall_mem_behind {next : α → Parser → List γ} {P : γ → Prop}
    (hnext : ∀ a u, p.run s = (.ok a, u) → ∀ x ∈ next a u, P x) : ∀ x ∈ p.behind s [] next, P x := by
  rcases h : p.run s with ⟨e | a, u⟩
  · rw [behind_of_error h]
    exact List.forall_mem_nil _
  · rw [behind_of_ok h]
    exact hnext a u h

/-- What holds of all that there is in the first part and behind it holds of the whole. -/
theorem forall_mem_append_behind {here : List γ} {next : α → Parser → List γ} {P : γ → Prop}
    (hhere : ∀ x ∈ here, P x) (hnext : ∀ a u, p.run s = (.ok a, u) → ∀ x ∈ next a u, P x) :
    ∀ x ∈ here ++ p.behind s [] next, P x :=
  List.forall_mem_append.mpr ⟨hhere, forall_mem_behind hnext⟩

end Behind

/-! ## What a parser goes through -/

/-- The moments in a chain whose first operand has been read and of which `levels` operators have been
taken; `inside` are those in an operand. -/
def chainMoments (operator? : Token.Kind → Option BinaryOp) (operand : Parse Expr)
    (inside : Parser → List Moment) : Nat → Nat → Parser → List Moment
  | 0, _, s => around (tooDeep : Parse Expr) s
  | budget + 1, levels, s => around kind s ++ kind.behind s [] fun k s₁ =>
    match operator? k with
    | none => [⟨s₁, levels⟩, ⟨((leave levels).run s₁).2, 0⟩]
    | some _ => around advance s₁ ++ advance.behind s₁ [] fun _ s₂ =>
        around enter s₂ ++ enter.behind s₂ [] fun _ s₃ =>
        inside s₃ ++ operand.behind s₃ [] fun _ s₄ =>
        chainMoments operator? operand inside budget (levels + 1) s₄

/-- The operators taken in a chain and in the chains inside it, if it fails behind its first operand
and behind `levels` operators; `inside` are those inside an operand. -/
def chainOpen (operator? : Token.Kind → Option BinaryOp) (operand : Parse Expr)
    (inside : Parser → List Nat) : Nat → Nat → Parser → List Nat
  | 0, levels, _ => [levels]
  | budget + 1, levels, s => kind.behind s [levels] fun k s₁ =>
    match operator? k with
    | none => []
    | some _ => advance.behind s₁ [levels] fun _ s₂ => enter.behind s₂ [levels] fun _ s₃ =>
        operand.behind s₃ ((levels + 1) :: inside s₃) fun _ s₄ =>
        chainOpen operator? operand inside budget (levels + 1) s₄

namespace Steps

/-- All moments of a parser that starts in the given state. -/
def moments : {α : Type} → {p : Parse α} → Steps p → Parser → List Moment
  | _, _, .result a, s => around (pure a) s
  | α, _, .failure e, s => around (throw e : Parse α) s
  | α, _, .spent, s => around (Parse.tooDeep : Parse α) s
  | _, _, .current, s => around Parse.current s
  | _, _, .nextKind, s => around Parse.nextKind s
  | _, _, .advance, s => around Parse.advance s
  | _, _, .finish first, s => around (Parse.finish first) s
  | _, _, .freshId, s => around Parse.freshId s
  | _, _, @bind _ _ p _ first next, s =>
    first.moments s ++ p.behind s [] fun a u => (next a).moments u
  | _, _, @nested _ p inner, s => around enter s ++ enter.behind s [] fun _ u =>
      inner.moments u ++ [⟨(p.run u).2, 1⟩, ⟨((leave 1).run (p.run u).2).2, 0⟩]
  | _, _, @chain operator? p operand budget, s =>
    operand.moments s ++ p.behind s [] fun _ u =>
      chainMoments operator? p (fun v => operand.moments v) budget 0 u

/-- The chains that are open where a parser that starts in the given state fails, from the outermost
to the innermost, each with the number of operators taken in it.  There are none if it succeeds. -/
def openChains : {α : Type} → {p : Parse α} → Steps p → Parser → List Nat
  | _, _, .result _, _ | _, _, .failure _, _ | _, _, .spent, _ | _, _, .current, _
  | _, _, .nextKind, _ | _, _, .advance, _ | _, _, .finish _, _ | _, _, .freshId, _ => []
  | _, _, @bind _ _ p _ first next, s =>
    p.behind s (first.openChains s) fun a u => (next a).openChains u
  | _, _, .nested inner, s => enter.behind s [] fun _ u => inner.openChains u
  | _, _, @chain operator? p operand budget, s =>
    p.behind s (0 :: operand.openChains s) fun _ u =>
      chainOpen operator? p (fun v => operand.openChains v) budget 0 u

end Steps

/-! ## Single steps -/

theorem depth_current (s : Parser) : (current.run s).2.depth = s.depth := by
  rcases s with ⟨_ | ⟨_ | _, _⟩, _, _, _, _⟩ <;> rfl

theorem depth_kind (s : Parser) : (kind.run s).2.depth = s.depth := by
  rcases s with ⟨_ | ⟨_ | _, _⟩, _, _, _, _⟩ <;> rfl

theorem depth_nextKind (s : Parser) : (nextKind.run s).2.depth = s.depth := by
  rcases s with ⟨_ | ⟨_ | _, _ | ⟨_ | _, _⟩⟩, _, _, _, _⟩ <;> rfl

theorem depth_advance (s : Parser) : (advance.run s).2.depth = s.depth := by
  rcases s with ⟨_ | ⟨_ | _, _⟩, _, _, _, _⟩ <;> rfl

theorem depth_tooDeep (s : Parser) : ((tooDeep : Parse α).run s).2.depth = s.depth := by
  rcases s with ⟨_ | ⟨_ | _, _⟩, _, _, _, _⟩ <;> rfl

/-- What is known of the parser behind a step, where the outcome is known too. -/
theorem depth_of_run {r : Except ParseError α} {n : Nat} (hrun : (p.run s).2.depth = n)
    (h : p.run s = (r, u)) : u.depth = n := by
  rw [← hrun, h]

/-- A level is taken, or there is a failure that takes none. -/
theorem enter_cases (s : Parser) :
    (s.depth < maxNesting ∧ enter.run s = (.ok (), { s with depth := s.depth + 1 }))
      ∨ ∃ e u, enter.run s = (.error e, u) ∧ u.depth = s.depth := by
  rw [enter, run_bind]
  change (_ ∧ (if maxNesting ≤ s.depth then _ else _ : Parse Unit).run s = _)
    ∨ ∃ e u, (if maxNesting ≤ s.depth then _ else _ : Parse Unit).run s = _ ∧ _
  by_cases h : maxNesting ≤ s.depth
  · rw [if_pos h, run_bind]
    rcases hdeep : (tooDeep : Parse Unit).run s with ⟨e | a, u⟩
    · exact .inr ⟨e, u, rfl, depth_of_run (depth_tooDeep s) hdeep⟩
    · exact (tooDeep_ok hdeep).elim
  · rw [if_neg h]
    exact .inl ⟨Nat.lt_of_not_le h, rfl⟩

theorem depth_of_enter_ok (h : enter.run s = (.ok (), u)) :
    u.depth = s.depth + 1 ∧ u.depth ≤ maxNesting := by
  rcases enter_cases s with ⟨hlt, hrun⟩ | ⟨e, v, hrun, -⟩
  · cases hrun.symm.trans h
    exact ⟨rfl, hlt⟩
  · cases hrun.symm.trans h

theorem depth_of_enter_error {e : ParseError} (h : enter.run s = (.error e, u)) :
    u.depth = s.depth := by
  rcases enter_cases s with ⟨-, hrun⟩ | ⟨e', v, hrun, hv⟩
  · cases hrun.symm.trans h
  · cases hrun.symm.trans h
    exact hv

theorem run_nested_of_ok (h : enter.run s = (.ok (), u)) :
    (nested p).run s = ((p.run u).1, ((leave 1).run (p.run u).2).2) := by
  rw [nested, run_bind, h]
  rfl

/-! ## What is left taken -/

/-- The account of a sequence: either its first part fails, or its second part settles it. -/
theorem depth_run_bind {f : α → Parse β} {d : Nat} {failed : List Nat}
    {next : α → Parser → List Nat}
    (hfailed : ∀ e u, p.run s = (.error e, u) → u.depth = d + failed.sum)
    (hnext : ∀ a u, p.run s = (.ok a, u) → ((f a).run u).2.depth = d + (next a u).sum) :
    ((p >>= f).run s).2.depth = d + (p.behind s failed next).sum := by
  rw [run_bind]
  rcases h : p.run s with ⟨e | a, u⟩
  · rw [behind_of_error h]
    exact hfailed e u h
  · rw [behind_of_ok h]
    exact hnext a u h

/-- A chain that has taken `levels` levels gives them back, or leaves what is open; `d` is the depth at
which the chain began. -/
theorem depth_run_chainAfter (operator? : Token.Kind → Option BinaryOp) {operand : Parse Expr}
    {inside : Parser → List Nat}
    (hrun : ∀ s, (operand.run s).2.depth = s.depth + (inside s).sum)
    (hok : ∀ s e u, operand.run s = (.ok e, u) → inside s = [])
    (budget levels d : Nat) (lhs : Expr) (hs : s.depth = d + levels) :
    ((chainAfter operator? operand budget levels lhs).run s).2.depth =
      d + (chainOpen operator? operand inside budget levels s).sum := by
  induction budget generalizing levels lhs s with
  | zero => exact (depth_tooDeep s).trans hs
  | succ budget ih =>
    refine depth_run_bind (fun e u h => (depth_of_run (depth_kind s) h).trans hs) fun k s₁ h₁ => ?_
    have hs₁ := (depth_of_run (depth_kind s) h₁).trans hs
    cases operator? k with
    | none =>
      -- the chain ends, and what it gives back it has taken
      show s₁.depth - levels = d
      rw [hs₁, Nat.add_sub_cancel]
    | some op =>
      refine depth_run_bind (fun e u h => (depth_of_run (depth_advance s₁) h).trans hs₁) fun t s₂ h₂ => ?_
      have hs₂ := (depth_of_run (depth_advance s₁) h₂).trans hs₁
      refine depth_run_bind (fun e u h => (depth_of_enter_error h).trans hs₂) fun _ s₃ h₃ => ?_
      have hs₃ : s₃.depth = d + (levels + 1) := by
        rw [(depth_of_enter_ok h₃).1, hs₂, Nat.add_assoc]
      refine depth_run_bind (fun e u h => ?_) fun rhs s₄ h₄ => ?_
      · rw [depth_of_run (hrun s₃) h, hs₃, List.sum_cons, Nat.add_assoc]
      · refine ih _ _ ?_
        rw [depth_of_run (hrun s₃) h₄, hok s₃ rhs s₄ h₄, hs₃]
        rfl

/-- A chain that ends leaves nothing open. -/
theorem chainOpen_of_ok {operator? : Token.Kind → Option BinaryOp} {operand : Parse Expr}
    {inside : Parser → List Nat} {budget levels : Nat} {lhs e : Expr}
    (h : (chainAfter operator? operand budget levels lhs).run s = (.ok e, u)) :
    chainOpen operator? operand inside budget levels s = [] := by
  induction budget generalizing levels lhs s with
  | zero => exact (tooDeep_ok h).elim
  | succ budget ih =>
    obtain ⟨k, s₁, h₁, h⟩ := of_bind h
    rw [chainOpen, behind_of_ok h₁]
    cases hk : operator? k with
    | none => rfl
    | some op =>
      simp only [hk] at h
      obtain ⟨_, s₂, h₂, h⟩ := of_bind h
      obtain ⟨_, s₃, h₃, h⟩ := of_bind h
      obtain ⟨_, s₄, h₄, h⟩ := of_bind h
      simp only [behind_of_ok h₂, behind_of_ok h₃, behind_of_ok h₄]
      exact ih h

namespace Steps

/-- What succeeds leaves nothing open. -/
theorem openChains_of_ok (steps : Steps p) {a : α} (h : p.run s = (.ok a, u)) :
    steps.openChains s = [] := by
  induction steps generalizing s u with
  | result | failure | spent | current | nextKind | advance | finish | freshId => rfl
  | bind first next _ hnext =>
    obtain ⟨b, s₁, h₁, h⟩ := of_bind h
    rw [openChains, behind_of_ok h₁]
    exact hnext b h
  | nested inner hinner =>
    obtain ⟨_, s₁, h₁, -⟩ := of_bind h
    rw [run_nested_of_ok h₁] at h
    rw [openChains, behind_of_ok h₁]
    exact hinner (Prod.ext (Prod.mk.inj h).1 rfl)
  | chain operator? operand budget _ =>
    obtain ⟨lhs, s₁, h₁, h⟩ := of_bind h
    rw [openChains, behind_of_ok h₁]
    exact chainOpen_of_ok h

/-- **What is left taken** is what the chains have taken that are left open. -/
theorem depth_run (steps : Steps p) (s : Parser) :
    (p.run s).2.depth = s.depth + (steps.openChains s).sum := by
  induction steps generalizing s with
  | result | failure | finish | freshId => rfl
  | spent => exact depth_tooDeep s
  | current => exact depth_current s
  | nextKind => exact depth_nextKind s
  | advance => exact depth_advance s
  | bind first next hfirst hnext =>
    refine depth_run_bind (fun e u h => ?_) fun a u h => ?_
    · exact depth_of_run (hfirst s) h
    · rw [hnext a u, depth_of_run (hfirst s) h, first.openChains_of_ok h]
      rfl
  | @nested _ q inner hinner =>
    refine depth_run_bind (fun e u h => depth_of_enter_error h) fun _ u h => ?_
    have hgiven : (q.run u).2.depth = s.depth + (inner.openChains u).sum + 1 := by
      rw [hinner u, (depth_of_enter_ok h).1, Nat.add_right_comm]
    show (q.run u).2.depth - 1 = _
    rw [hgiven, Nat.add_sub_cancel]
  | chain operator? operand budget hoperand =>
    refine depth_run_bind (fun e u h => ?_) fun lhs u h => ?_
    · rw [depth_of_run (hoperand s) h, List.sum_cons, Nat.zero_add]
    · refine depth_run_chainAfter operator? hoperand (fun s e u h => operand.openChains_of_ok h)
        budget 0 s.depth lhs ?_
      rw [depth_of_run (hoperand s) h, operand.openChains_of_ok h]
      rfl

end Steps

/-! ## All moments -/

theorem mem_around (p : Parse α) (s : Parser) : ⟨(p.run s).2, 0⟩ ∈ around p s :=
  List.mem_cons_of_mem _ (List.mem_singleton_self _)

/-- The end of a sequence is among its moments. -/
theorem mem_append_behind {f : α → Parse β} {here : List Moment} {next : α → Parser → List Moment}
    (hhere : ⟨(p.run s).2, 0⟩ ∈ here)
    (hnext : ∀ a u, p.run s = (.ok a, u) → ⟨((f a).run u).2, 0⟩ ∈ next a u) :
    ⟨((p >>= f).run s).2, 0⟩ ∈ here ++ p.behind s [] next := by
  rw [run_bind]
  rcases h : p.run s with ⟨e | a, u⟩
  · rw [h] at hhere
    exact List.mem_append_left _ hhere
  · rw [behind_of_ok h]
    exact List.mem_append_right _ (hnext a u h)

theorem mem_chainMoments (operator? : Token.Kind → Option BinaryOp) {operand : Parse Expr}
    {inside : Parser → List Moment} (hinside : ∀ s, ⟨(operand.run s).2, 0⟩ ∈ inside s)
    (budget levels : Nat) (lhs : Expr) :
    ⟨((chainAfter operator? operand budget levels lhs).run s).2, 0⟩ ∈
      chainMoments operator? operand inside budget levels s := by
  induction budget generalizing levels lhs s with
  | zero => exact mem_around _ s
  | succ budget ih =>
    refine mem_append_behind (mem_around _ s) fun k s₁ _ => ?_
    cases operator? k with
    | none => exact List.mem_cons_of_mem _ (List.mem_singleton_self _)
    | some op =>
      refine mem_append_behind (mem_around _ s₁) fun _ s₂ _ => ?_
      refine mem_append_behind (mem_around _ s₂) fun _ s₃ _ => ?_
      exact mem_append_behind (hinside s₃) fun _ s₄ _ => ih _ _

/-- The end of a parser is among its moments. -/
theorem Steps.mem_moments (steps : Steps p) (s : Parser) :
    ⟨(p.run s).2, 0⟩ ∈ steps.moments s := by
  induction steps generalizing s with
  | result | failure | spent | current | nextKind | advance | finish | freshId =>
    exact mem_around _ s
  | bind first next hfirst hnext => exact mem_append_behind (hfirst s) fun a u _ => hnext a u
  | nested inner _ =>
    refine mem_append_behind (mem_around _ s) fun _ u _ => List.mem_append_right _ ?_
    exact List.mem_cons_of_mem _ (List.mem_singleton_self _)
  | chain operator? operand budget hoperand =>
    exact mem_append_behind (hoperand s) fun lhs u _ =>
      mem_chainMoments operator? hoperand budget 0 lhs

theorem sound_around (hs : s.depth ≤ maxNesting) (hrun : (p.run s).2.depth ≤ maxNesting) :
    ∀ m ∈ around p s, m.Sound :=
  List.forall_mem_cons.mpr ⟨.of_depth_le hs, List.forall_mem_singleton.mpr (.of_depth_le hrun)⟩

theorem sound_around_enter (hs : s.depth ≤ maxNesting) : ∀ m ∈ around enter s, m.Sound := by
  refine sound_around hs ?_
  rcases enter_cases s with ⟨hlt, hrun⟩ | ⟨e, u, hrun, hu⟩
  · rw [hrun]
    exact hlt
  · rw [hrun]
    exact hu.trans_le hs

/-- Levels are given back that are taken. -/
theorem sound_leave {levels : Nat} (hs : s.depth ≤ maxNesting) (hlevels : levels ≤ s.depth) :
    ∀ m ∈ [Moment.mk s levels, ⟨((leave levels).run s).2, 0⟩], m.Sound := by
  have hgiven : ((leave levels).run s).2.depth ≤ maxNesting := (Nat.sub_le _ _).trans hs
  exact List.forall_mem_cons.mpr
    ⟨⟨hs, hlevels⟩, List.forall_mem_singleton.mpr (.of_depth_le hgiven)⟩

theorem sound_chainMoments (operator? : Token.Kind → Option BinaryOp) {operand : Parse Expr}
    {inside : Parser → List Moment}
    (hinside : ∀ s, s.depth ≤ maxNesting → ∀ m ∈ inside s, m.Sound)
    (hok : ∀ s e u, operand.run s = (.ok e, u) → u.depth = s.depth)
    (budget levels : Nat) (hs : s.depth ≤ maxNesting) (hlevels : levels ≤ s.depth) :
    ∀ m ∈ chainMoments operator? operand inside budget levels s, m.Sound := by
  induction budget generalizing levels s with
  | zero => exact sound_around hs ((depth_tooDeep s).trans_le hs)
  | succ budget ih =>
    refine forall_mem_append_behind (sound_around hs ((depth_kind s).trans_le hs)) fun k s₁ h₁ => ?_
    have hs₁ := depth_of_run (depth_kind s) h₁
    rw [← hs₁] at hs hlevels
    cases operator? k with
    | none => exact sound_leave hs hlevels
    | some op =>
      refine forall_mem_append_behind (sound_around hs ((depth_advance s₁).trans_le hs)) fun _ s₂ h₂ => ?_
      rw [← depth_of_run (depth_advance s₁) h₂] at hs hlevels
      refine forall_mem_append_behind (sound_around_enter hs) fun _ s₃ h₃ => ?_
      obtain ⟨hs₃, hle⟩ := depth_of_enter_ok h₃
      refine forall_mem_append_behind (hinside s₃ hle) fun rhs s₄ h₄ => ?_
      have hs₄ := hok s₃ rhs s₄ h₄
      exact ih (levels + 1) (hs₄.trans_le hle) (by omega)

namespace Steps

/-- What succeeds leaves nothing taken. -/
theorem depth_of_ok (steps : Steps p) {a : α} (h : p.run s = (.ok a, u)) : u.depth = s.depth := by
  rw [depth_of_run (steps.depth_run s) h, steps.openChains_of_ok h]
  rfl

/-- **All moments are sound** of a parser that starts with no more levels than are allowed. -/
theorem sound_of_mem_moments (steps : Steps p) (hs : s.depth ≤ maxNesting) :
    ∀ m ∈ steps.moments s, m.Sound := by
  induction steps generalizing s with
  | result | failure | finish | freshId => exact sound_around hs hs
  | spent => exact sound_around hs ((depth_tooDeep s).trans_le hs)
  | current => exact sound_around hs ((depth_current s).trans_le hs)
  | nextKind => exact sound_around hs ((depth_nextKind s).trans_le hs)
  | advance => exact sound_around hs ((depth_advance s).trans_le hs)
  | bind first next hfirst hnext =>
    refine forall_mem_append_behind (hfirst hs) fun a u h => hnext a ?_
    exact (first.depth_of_ok h).trans_le hs
  | nested inner hinner =>
    refine forall_mem_append_behind (sound_around_enter hs) fun _ u h => ?_
    obtain ⟨hu, hle⟩ := depth_of_enter_ok h
    refine List.forall_mem_append.mpr ⟨hinner hle, sound_leave ?_ ?_⟩
    · exact (hinner hle _ (inner.mem_moments u)).limit
    · -- what is inside leaves at least the level that was taken for it, failed or not
      rw [inner.depth_run u]
      omega
  | chain operator? operand budget hoperand =>
    refine forall_mem_append_behind (hoperand hs) fun lhs u h => ?_
    refine sound_chainMoments operator? (fun s => hoperand) (fun s e u => operand.depth_of_ok)
      budget 0 ?_ (Nat.zero_le _)
    exact (operand.depth_of_ok h).trans_le hs

end Steps

end Parse

/-! ## Over several calls -/

namespace Parser

/-- The parser behind so many calls, whatever they came to. -/
def after (p : Parser) : Nat → Parser
  | 0 => p
  | calls + 1 => p.parse.2.after calls

/-- The moments of a call. -/
def moments (p : Parser) : List Parse.Moment :=
  (Parse.Steps.program p.budget).moments p

theorem depth_after_le {p : Parser} (h : p.depth ≤ maxNesting) (calls : Nat) :
    (p.after calls).depth ≤ maxNesting := by
  induction calls generalizing p with
  | zero => exact h
  | succ calls ih =>
    have steps := Parse.Steps.program p.budget
    exact ih (steps.sound_of_mem_moments h _ (steps.mem_moments p)).limit

end Parser

/-- **Levels of nesting are accounted for.**  Over any number of calls of a parser, failed ones
included, there is no moment at which it has taken more levels than are allowed, or gives back more
than it has taken.  Whatever is made of the steps of parsing leaves as many levels taken as it has found
if it succeeds, and if it fails those that were taken for operators in the chains that it leaves open. -/
theorem Parser.nesting_accounted (c : Cursor) (calls : Nat) :
    (∀ m ∈ ((Parser.ofCursor c).after calls).moments,
      m.parser.depth ≤ maxNesting ∧ m.giving ≤ m.parser.depth)
      ∧ ∀ {α : Type} {p : Parse α} (steps : Parse.Steps p) (s : Parser),
        (∀ a u, p.run s = (.ok a, u) → u.depth = s.depth)
        ∧ ∀ e u, p.run s = (.error e, u) → u.depth = s.depth + (steps.openChains s).sum := by
  refine ⟨fun m hm => ?_, fun steps s => ⟨fun a u => steps.depth_of_ok, fun e u => ?_⟩⟩
  · have hstart : ((Parser.ofCursor c).after calls).depth ≤ maxNesting :=
      depth_after_le (Nat.zero_le _) calls
    have hsound := (Parse.Steps.program _).sound_of_mem_moments hstart m hm
    exact ⟨hsound.limit, hsound.taken⟩
  · exact Parse.depth_of_run (steps.depth_run s)

/-- Two chains stay open when the first call fails.  The second call succeeds two levels higher than it
would in a new parser, and leaves these two taken. -/
theorem Parser.nesting_accounted_reused :
    ∃ p : Parser, p = .ofCursor (.ofString "x = 1 + 2 * ; y = 3 * 4 - 5;")
      ∧ p.parse.1.isOk = false ∧ (Parse.Steps.program p.budget).openChains p = [1, 1]
      ∧ (p.after 1).depth = 2
      ∧ (p.after 1).parse.1.isOk = true ∧ (p.after 2).depth = 2
      ∧ ∃ m ∈ (p.after 1).moments, m.giving = 1 ∧ m.parser.depth = 4
        ∧ m.parser.depth ≤ maxNesting := by
  obtain ⟨p, hp⟩ : ∃ p : Parser, p = .ofCursor (.ofString "x = 1 + 2 * ; y = 3 * 4 - 5;") :=
    ⟨_, rfl⟩
  have hfails : p.parse.1.isOk = false := by rw [hp]; decide +kernel
  have hopen : (Parse.Steps.program p.budget).openChains p = [1, 1] := by rw [hp]; decide +kernel
  have hsucceeds : (p.after 1).parse.1.isOk = true := by rw [hp]; decide +kernel
  have hgives : (p.after 1).moments.any fun m => m.giving = 1 ∧ m.parser.depth = 4 := by
    rw [hp]; decide +kernel
  obtain ⟨hmoments, haccounts⟩ := Parser.nesting_accounted
    (.ofString "x = 1 + 2 * ; y = 3 * 4 - 5;") 1
  rw [← hp] at hmoments
  have hfirst : (p.after 1).depth = 2 := by
    rcases h : p.parse.1 with e | m
    · rw [(haccounts (Parse.Steps.program _) p).2 e (p.after 1) (Prod.ext h rfl), hopen, hp]
      rfl
    · rw [h] at hfails
      cases hfails
  have hsecond : (p.after 2).depth = (p.after 1).depth := by
    rcases h : (p.after 1).parse.1 with e | m
    · rw [h] at hsucceeds
      cases hsucceeds
    · exact (haccounts (Parse.Steps.program _) (p.after 1)).1 m (p.after 2) (Prod.ext h rfl)
  obtain ⟨m, hm, hany⟩ := List.any_eq_true.mp hgives
  obtain ⟨hgiving, hdepth⟩ := of_decide_eq_true hany
  exact ⟨p, hp, hfails, hopen, hfirst, hsucceeds, hsecond.trans hfirst, m, hm, hgiving, hdepth,
    (hmoments m hm).1⟩

end Imperative
