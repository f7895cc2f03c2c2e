import Imperative.Proofs.CallIndependence

/-!
# Execution in big steps

The machine makes small steps and keeps the rest of the work in a continuation.  Seen from outside,
an expression is evaluated first and its value is handed on (`Machine.halts_eval_iff`), and a
statement is executed first and its flow is handed on (`Machine.halts_exec_iff`).  This is putting
one continuation under another, with the addition that an expression never ends with a flow, nor a
statement with a value.

## Loops

The three loops share the continuations `test`, `round` and `again`, which lead back to themselves.
`Loop.Pass` is one round of a loop, `Loop.Rounds` is what happens from one test on, round by round,
and `Loop.Turns` what happens from one body on.  That this is what the machine does is
`Machine.halts_loop_iff` and `Machine.halts_body_iff`.

A run of the machine gives the rounds by induction on its fuel, so the pieces of a run are needed
with their fuel as well (`Machine.HaltsWithin`): a later test is reached with less of it.
-/

namespace Imperative

namespace Machine

variable {table : ProcedureTable} {stack t u : CallStack} {o : Outcome} {n : Nat}

/-! ## First one thing, and then the rest -/

/-- An expression does not end with a flow: a flow would be handed to what stands under the
expression, and nothing stands there that could take one. -/
theorem not_halts_eval_flow {e : Expr} {f : Flow} :
    ¬ Halts table ⟨.eval e .done, stack⟩ (.flow f) t := by
  intro h
  let invocation : Invocation := ⟨⟨⟨0⟩, "", [], none, 0⟩, [], {}⟩
  -- put under the expression what ends with anything but that flow
  have other : ∃ o t', Halts table ⟨.flow f (.invoked invocation .done), t⟩ o t' ∧ o ≠ .flow f := by
    rcases endCall_cases invocation f .done with ⟨v, hend⟩ | ⟨e, hend⟩
    · exact ⟨.value v, (dropRecord t).2, .later (hend t) (.now rfl), nofun⟩
    · exact ⟨.failure e, (dropRecord t).2, .now (hend t), nofun⟩
  obtain ⟨o, t', hother, hne⟩ := other
  have again : Halts table ⟨.eval e .done, stack⟩ o t' :=
    (h.onto_iff .done (.invoked invocation .done)).mpr hother
  exact hne (again.unique h).1

/-- A statement does not end with a value. -/
theorem not_halts_exec_value {s : Stmt} {v : Value} :
    ¬ Halts table ⟨.exec s .done, stack⟩ (.value v) t := by
  intro h
  have discarded : Halts table ⟨.value v (.discard .done), t⟩ (.flow .completed) t :=
    .later rfl (.now rfl)
  have again : Halts table ⟨.exec s .done, stack⟩ (.flow .completed) t :=
    (h.onto_iff (.discard .done) .done).mpr discarded
  exact nomatch (again.unique h).1

/-- An expression is evaluated first, and the rest has no more fuel than the whole. -/
theorem HaltsWithin.of_eval {e : Expr} {k : ValueCont}
    (h : HaltsWithin table n ⟨.eval e k, stack⟩ o t) :
    (∃ error, Halts table ⟨.eval e .done, stack⟩ (.failure error) t ∧ o = .failure error) ∨
      ∃ v u, Halts table ⟨.eval e .done, stack⟩ (.value v) u ∧
        HaltsWithin table n ⟨.value v k, u⟩ o t := by
  obtain ⟨o', u, hfirst, hrest⟩ := resumesWithin_of_onto (c := .eval e .done) k .done h
  cases o' with
  | failure error =>
    obtain ⟨rfl, rfl⟩ := hrest
    exact .inl ⟨error, hfirst, rfl⟩
  | value v => exact .inr ⟨v, u, hfirst, hrest⟩
  | flow f => exact (not_halts_eval_flow hfirst).elim

/-- A statement is executed first, and the rest has no more fuel than the whole. -/
theorem HaltsWithin.of_exec {s : Stmt} {k : FlowCont}
    (h : HaltsWithin table n ⟨.exec s k, stack⟩ o t) :
    (∃ error, Halts table ⟨.exec s .done, stack⟩ (.failure error) t ∧ o = .failure error) ∨
      ∃ f u, Halts table ⟨.exec s .done, stack⟩ (.flow f) u ∧
        HaltsWithin table n ⟨.flow f k, u⟩ o t := by
  obtain ⟨o', u, hfirst, hrest⟩ := resumesWithin_of_onto (c := .exec s .done) .done k h
  cases o' with
  | failure error =>
    obtain ⟨rfl, rfl⟩ := hrest
    exact .inl ⟨error, hfirst, rfl⟩
  | value v => exact (not_halts_exec_value hfirst).elim
  | flow f => exact .inr ⟨f, u, hfirst, hrest⟩

/-- **An expression is evaluated first**, and its value is handed on. -/
theorem halts_eval_iff {e : Expr} {k : ValueCont} :
    Halts table ⟨.eval e k, stack⟩ o t ↔
      (∃ error, Halts table ⟨.eval e .done, stack⟩ (.failure error) t ∧ o = .failure error) ∨
        ∃ v u, Halts table ⟨.eval e .done, stack⟩ (.value v) u ∧
          Halts table ⟨.value v k, u⟩ o t := by
  let c : Control := .eval e .done
  constructor
  · intro h
    obtain ⟨n, h⟩ := halts_iff_within.mp h
    rcases h.of_eval with hfailed | ⟨v, u, hfirst, hrest⟩
    · exact .inl hfailed
    · exact .inr ⟨v, u, hfirst, hrest.halts⟩
  · rintro (⟨error, hfirst, rfl⟩ | ⟨v, u, hfirst, hrest⟩)
    · exact halts_onto_of_resumes (c := c) k .done hfirst ⟨rfl, rfl⟩
    · exact halts_onto_of_resumes (c := c) k .done hfirst hrest

/-- **A statement is executed first**, and its flow is handed on. -/
theorem halts_exec_iff {s : Stmt} {k : FlowCont} :
    Halts table ⟨.exec s k, stack⟩ o t ↔
      (∃ error, Halts table ⟨.exec s .done, stack⟩ (.failure error) t ∧ o = .failure error) ∨
        ∃ f u, Halts table ⟨.exec s .done, stack⟩ (.flow f) u ∧
          Halts table ⟨.flow f k, u⟩ o t := by
  let c : Control := .exec s .done
  constructor
  · intro h
    obtain ⟨n, h⟩ := halts_iff_within.mp h
    rcases h.of_exec with hfailed | ⟨f, u, hfirst, hrest⟩
    · exact .inl hfailed
    · exact .inr ⟨f, u, hfirst, hrest.halts⟩
  · rintro (⟨error, hfirst, rfl⟩ | ⟨f, u, hfirst, hrest⟩)
    · exact halts_onto_of_resumes (c := c) .done k hfirst ⟨rfl, rfl⟩
    · exact halts_onto_of_resumes (c := c) .done k hfirst hrest

/-- A flow that is handed to nobody is the outcome. -/
theorem halts_flow_done_iff {f : Flow} :
    Halts table ⟨.flow f .done, stack⟩ o t ↔ o = .flow f ∧ t = stack :=
  halts_iff_of_halt rfl

/-- A call as a statement is the call as an expression, its value forgotten. -/
theorem halts_call_iff {name : String} {args : List Expr} {resolved : Option ProcedureSymbol}
    {site : Span} {k : FlowCont} :
    Halts table ⟨.exec (.call name args resolved site) k, stack⟩ o t ↔
      Halts table ⟨.eval (.call name args resolved site) (.discard k), stack⟩ o t := by
  rw [halts_iff_ends, halts_iff_ends]
  rfl

theorem halts_pass_iff {span : Span} :
    Halts table ⟨.exec (.pass span) .done, stack⟩ o t ↔ o = .flow .completed ∧ t = stack :=
  (halts_iff_of_next rfl).trans halts_flow_done_iff

/-! ## Lists of statements -/

/-- A statement that hands control back early is the last one of its list that is executed. -/
theorem halts_sequence_of_ne {f : Flow} (hf : f ≠ .completed) (ss : List Stmt) :
    Halts table ⟨.flow f (.sequence ss .done), stack⟩ o t ↔ o = .flow f ∧ t = stack := by
  have hstep : step table ⟨.flow f (.sequence ss .done), stack⟩ =
      .next [] ⟨.flow f .done, stack⟩ := by
    cases f with
    | completed => exact (hf rfl).elim
    | returned v => rfl
    | broke => rfl
    | continued => rfl
  rw [halts_iff_of_next hstep, halts_flow_done_iff]

theorem halts_sequence_nil {f : Flow} :
    Halts table ⟨.flow f (.sequence [] .done), stack⟩ o t ↔ o = .flow f ∧ t = stack := by
  by_cases hf : f = .completed
  · subst hf
    rw [halts_iff_of_next rfl, halts_flow_done_iff]
  · exact halts_sequence_of_ne hf []

/-- A list of statements that is begun is first its first statement. -/
theorem halts_sequence_cons {s : Stmt} {ss : List Stmt} :
    Halts table ⟨.flow .completed (.sequence (s :: ss) .done), stack⟩ o t ↔
      (∃ error, Halts table ⟨.exec s .done, stack⟩ (.failure error) t ∧ o = .failure error) ∨
        ∃ f u, Halts table ⟨.exec s .done, stack⟩ (.flow f) u ∧
          Halts table ⟨.flow f (.sequence ss .done), u⟩ o t := by
  rw [halts_iff_of_next rfl, halts_exec_iff]

theorem halts_compound_iff {ss : List Stmt} {span : Span} :
    Halts table ⟨.exec (.compound ss span) .done, stack⟩ o t ↔
      Halts table ⟨.flow .completed (.sequence ss .done), stack⟩ o t :=
  halts_iff_of_next rfl

end Machine

/-! ## Loops -/

/-- What a loop hands back after a round that ended with the flow, unless it goes on. -/
def Flow.leaves : Flow → Option Flow
  | .broke => some .completed
  | .returned v => some (.returned v)
  | .completed | .continued => none

namespace Loop

/-- What follows a round: a loop without a step does nothing there. -/
def afterRound (loop : Loop) : Stmt :=
  loop.step.getD (.pass {})

/-- One round of a loop, from the body to what follows it: it ends the loop with an outcome, or it
leads to the next test. -/
inductive Pass (table : ProcedureTable) (loop : Loop) (stack : CallStack) :
    Option Outcome → CallStack → Prop
  | failed {e : RuntimeError} {t : CallStack}
      (body : Machine.Halts table ⟨.exec loop.body .done, stack⟩ (.failure e) t) :
      Pass table loop stack (some (.failure e)) t
  | left {f g : Flow} {t : CallStack}
      (body : Machine.Halts table ⟨.exec loop.body .done, stack⟩ (.flow f) t)
      (leaves : f.leaves = some g) :
      Pass table loop stack (some (.flow g)) t
  | stepFailed {f : Flow} {e : RuntimeError} {u t : CallStack}
      (body : Machine.Halts table ⟨.exec loop.body .done, stack⟩ (.flow f) u)
      (stays : f.leaves = none)
      (after : Machine.Halts table ⟨.exec loop.afterRound .done, u⟩ (.failure e) t) :
      Pass table loop stack (some (.failure e)) t
  | stepped {f g : Flow} {u t : CallStack}
      (body : Machine.Halts table ⟨.exec loop.body .done, stack⟩ (.flow f) u)
      (stays : f.leaves = none)
      (after : Machine.Halts table ⟨.exec loop.afterRound .done, u⟩ (.flow g) t) :
      Pass table loop stack none t

/-- What happens from one test of a loop on. -/
inductive Rounds (table : ProcedureTable) (loop : Loop) : CallStack → Outcome → CallStack → Prop
  | failed {e : RuntimeError} {stack t : CallStack}
      (test : Machine.Halts table ⟨.eval loop.test .done, stack⟩ (.failure e) t) :
      Rounds table loop stack (.failure e) t
  | finished {v : Value} {stack t : CallStack}
      (test : Machine.Halts table ⟨.eval loop.test .done, stack⟩ (.value v) t)
      (no : v.isTruthy = false) :
      Rounds table loop stack (.flow .completed) t
  | last {v : Value} {o : Outcome} {stack u t : CallStack}
      (test : Machine.Halts table ⟨.eval loop.test .done, stack⟩ (.value v) u)
      (yes : v.isTruthy = true) (pass : Pass table loop u (some o) t) :
      Rounds table loop stack o t
  | again {v : Value} {o : Outcome} {stack u u' t : CallStack}
      (test : Machine.Halts table ⟨.eval loop.test .done, stack⟩ (.value v) u)
      (yes : v.isTruthy = true) (pass : Pass table loop u none u')
      (rest : Rounds table loop u' o t) :
      Rounds table loop stack o t

/-- One round of a loop, and what happens from the next test on if there is one. -/
def Turns (table : ProcedureTable) (loop : Loop) (stack : CallStack) (o : Outcome)
    (t : CallStack) : Prop :=
  loop.Pass table stack (some o) t ∨
    ∃ u, loop.Pass table stack none u ∧ loop.Rounds table u o t

end Loop

namespace Machine

variable {table : ProcedureTable} {stack t u : CallStack} {o : Outcome} {n : Nat} {loop : Loop}

/-! ### The steps of a loop -/

theorem step_test_of_truthy {v : Value} (h : v.isTruthy = true) :
    step table ⟨.value v (.test loop .done), stack⟩ =
      .next [] ⟨.exec loop.body (.round loop .done), stack⟩ := by
  simp only [step, stepValue, h, go, if_true]

theorem halts_test_of_not {v : Value} (h : v.isTruthy = false) :
    Halts table ⟨.value v (.test loop .done), stack⟩ o t ↔ o = .flow .completed ∧ t = stack := by
  have hstep : step table ⟨.value v (.test loop .done), stack⟩ =
      .next [] ⟨.flow .completed .done, stack⟩ := by
    simp only [step, stepValue, h, go, Bool.false_eq_true, if_false]
  rw [halts_iff_of_next hstep, halts_flow_done_iff]

theorem halts_round_of_leaves {f g : Flow} (h : f.leaves = some g) :
    Halts table ⟨.flow f (.round loop .done), stack⟩ o t ↔ o = .flow g ∧ t = stack := by
  have hstep : step table ⟨.flow f (.round loop .done), stack⟩ =
      .next [] ⟨.flow g .done, stack⟩ := by
    cases f <;> cases h <;> rfl
  rw [halts_iff_of_next hstep, halts_flow_done_iff]

/-- A round that does not leave a loop without a step leads to the test. -/
theorem step_round_of_stays_none {f : Flow} (h : f.leaves = none) {test : Expr} {body : Stmt} :
    step table ⟨.flow f (.round ⟨test, body, none⟩ .done), stack⟩ =
      .next [] ⟨.eval test (.test ⟨test, body, none⟩ .done), stack⟩ := by
  cases f <;> cases h <;> rfl

/-- A round that does not leave a loop with a step leads to the step. -/
theorem step_round_of_stays_some {f : Flow} (h : f.leaves = none) {test : Expr}
    {body after : Stmt} :
    step table ⟨.flow f (.round ⟨test, body, some after⟩ .done), stack⟩ =
      .next [] ⟨.exec after (.again ⟨test, body, some after⟩ .done), stack⟩ := by
  cases f <;> cases h <;> rfl

/-- Behind a round that does not leave the loop comes what follows a round, and then the test. -/
theorem halts_round_of_stays {f : Flow} (h : f.leaves = none) :
    Halts table ⟨.flow f (.round loop .done), stack⟩ o t ↔
      Halts table ⟨.exec loop.afterRound (.again loop .done), stack⟩ o t := by
  obtain ⟨test, body, after⟩ := loop
  cases after with
  | some stmt => exact halts_iff_of_next (step_round_of_stays_some h)
  | none =>
    rw [halts_iff_of_next (step_round_of_stays_none h)]
    -- the empty statement takes two steps to the test
    symm
    calc Halts table ⟨.exec (.pass {}) (.again ⟨test, body, none⟩ .done), stack⟩ o t
        ↔ Halts table ⟨.flow .completed (.again ⟨test, body, none⟩ .done), stack⟩ o t :=
          halts_iff_of_next rfl
      _ ↔ Halts table ⟨.eval test (.test ⟨test, body, none⟩ .done), stack⟩ o t :=
          halts_iff_of_next rfl

/-- Behind a round that does not leave the loop, the next test has less fuel. -/
theorem HaltsWithin.of_round {f : Flow}
    (h : HaltsWithin table n ⟨.flow f (.round loop .done), stack⟩ o t) (hf : f.leaves = none) :
    (∃ error, Halts table ⟨.exec loop.afterRound .done, stack⟩ (.failure error) t
        ∧ o = .failure error) ∨
      ∃ g u, Halts table ⟨.exec loop.afterRound .done, stack⟩ (.flow g) u
        ∧ ∃ m < n, HaltsWithin table m ⟨.eval loop.test (.test loop .done), u⟩ o t := by
  obtain ⟨test, body, after⟩ := loop
  cases after with
  | none =>
    refine .inr ⟨.completed, stack, .later rfl (.now rfl), ?_⟩
    exact h.of_next (step_round_of_stays_none hf)
  | some stmt =>
    obtain ⟨m, hm, h⟩ := h.of_next (step_round_of_stays_some hf)
    rcases h.of_exec with hfailed | ⟨g, u, hg, h⟩
    · exact .inl hfailed
    · obtain ⟨m', hm', h⟩ := h.of_next rfl
      exact .inr ⟨g, u, hg, m', Nat.lt_trans hm' hm, h⟩

/-- A run of the body and of what follows it is a round, and then a run from the next test on. -/
theorem HaltsWithin.pass
    (h : HaltsWithin table n ⟨.exec loop.body (.round loop .done), stack⟩ o t) :
    loop.Pass table stack (some o) t ∨
      ∃ u, loop.Pass table stack none u
        ∧ ∃ m < n, HaltsWithin table m ⟨.eval loop.test (.test loop .done), u⟩ o t := by
  rcases h.of_exec with ⟨error, hbody, rfl⟩ | ⟨f, u, hbody, h⟩
  · exact .inl (.failed hbody)
  · cases hf : f.leaves with
    | some g =>
      obtain ⟨rfl, rfl⟩ := (halts_round_of_leaves hf).mp h.halts
      exact .inl (.left hbody hf)
    | none =>
      rcases h.of_round hf with ⟨error, hafter, rfl⟩ | ⟨g, u', hafter, hrest⟩
      · exact .inl (.stepFailed hbody hf hafter)
      · exact .inr ⟨u', .stepped hbody hf hafter, hrest⟩

/-- A run from a test on goes round by round. -/
theorem HaltsWithin.rounds
    (h : HaltsWithin table n ⟨.eval loop.test (.test loop .done), stack⟩ o t) :
    loop.Rounds table stack o t := by
  -- the next test comes with less fuel
  induction n using Nat.strongRecOn generalizing stack with
  | ind n ih =>
    rcases h.of_eval with ⟨error, htest, rfl⟩ | ⟨v, u, htest, h⟩
    · exact .failed htest
    · cases hv : v.isTruthy with
      | false =>
        obtain ⟨rfl, rfl⟩ := (halts_test_of_not hv).mp h.halts
        exact .finished htest hv
      | true =>
        obtain ⟨m, hm, h⟩ := h.of_next (step_test_of_truthy hv)
        rcases h.pass with hlast | ⟨u', hpass, m', hm', hrest⟩
        · exact .last htest hv hlast
        · exact .again htest hv hpass (ih m' (Nat.lt_trans hm' hm) hrest)

/-! ### Loops in big steps -/

/-- A round that ends the loop. -/
theorem halts_of_pass_some (h : loop.Pass table stack (some o) t) :
    Halts table ⟨.exec loop.body (.round loop .done), stack⟩ o t := by
  rw [halts_exec_iff]
  cases h with
  | failed hbody => exact .inl ⟨_, hbody, rfl⟩
  | left hbody hf => exact .inr ⟨_, _, hbody, (halts_round_of_leaves hf).mpr ⟨rfl, rfl⟩⟩
  | stepFailed hbody hf hafter =>
    refine .inr ⟨_, _, hbody, (halts_round_of_stays hf).mpr ?_⟩
    exact halts_exec_iff.mpr (.inl ⟨_, hafter, rfl⟩)

/-- A round that leads to the next test. -/
theorem halts_of_pass_none (h : loop.Pass table stack none u)
    (hrest : Halts table ⟨.eval loop.test (.test loop .done), u⟩ o t) :
    Halts table ⟨.exec loop.body (.round loop .done), stack⟩ o t := by
  rw [halts_exec_iff]
  cases h with
  | stepped hbody hf hafter =>
    refine .inr ⟨_, _, hbody, (halts_round_of_stays hf).mpr ?_⟩
    exact halts_exec_iff.mpr (.inr ⟨_, _, hafter, .later rfl hrest⟩)

/-- **A loop in big steps**, from a test on. -/
theorem halts_loop_iff :
    Halts table ⟨.eval loop.test (.test loop .done), stack⟩ o t ↔ loop.Rounds table stack o t := by
  constructor
  · intro h
    obtain ⟨n, h⟩ := halts_iff_within.mp h
    exact h.rounds
  · intro h
    induction h with
    | failed htest => exact halts_eval_iff.mpr (.inl ⟨_, htest, rfl⟩)
    | finished htest hv =>
      exact halts_eval_iff.mpr (.inr ⟨_, _, htest, (halts_test_of_not hv).mpr ⟨rfl, rfl⟩⟩)
    | last htest hv hpass =>
      exact halts_eval_iff.mpr (.inr ⟨_, _, htest,
        .later (step_test_of_truthy hv) (halts_of_pass_some hpass)⟩)
    | again htest hv hpass _ ih =>
      exact halts_eval_iff.mpr (.inr ⟨_, _, htest,
        .later (step_test_of_truthy hv) (halts_of_pass_none hpass ih)⟩)

/-- **A loop in big steps**, from a body on. -/
theorem halts_body_iff :
    Halts table ⟨.exec loop.body (.round loop .done), stack⟩ o t ↔ loop.Turns table stack o t := by
  constructor
  · intro h
    obtain ⟨n, h⟩ := halts_iff_within.mp h
    rcases h.pass with hlast | ⟨u, hpass, m, -, hrest⟩
    · exact .inl hlast
    · exact .inr ⟨u, hpass, hrest.rounds⟩
  · rintro (hlast | ⟨u, hpass, hrest⟩)
    · exact halts_of_pass_some hlast
    · exact halts_of_pass_none hpass (halts_loop_iff.mpr hrest)

theorem halts_whileLoop_iff {test : Expr} {body : Stmt} {span : Span} :
    Halts table ⟨.exec (.whileLoop test body span) .done, stack⟩ o t ↔
      Loop.Rounds table ⟨test, body, none⟩ stack o t :=
  (halts_iff_of_next rfl).trans halts_loop_iff

theorem halts_doWhile_iff {test : Expr} {body : Stmt} {span : Span} :
    Halts table ⟨.exec (.doWhile test body span) .done, stack⟩ o t ↔
      Loop.Turns table ⟨test, body, none⟩ stack o t :=
  (halts_iff_of_next rfl).trans halts_body_iff

/-- What the first part of a head gives is not looked at, only that it ended. -/
theorem halts_forLoop_iff {init : Stmt} {test : Expr} {after body : Stmt} {span : Span} :
    Halts table ⟨.exec (.forLoop init test after body span) .done, stack⟩ o t ↔
      (∃ error, Halts table ⟨.exec init .done, stack⟩ (.failure error) t ∧ o = .failure error) ∨
        ∃ f u, Halts table ⟨.exec init .done, stack⟩ (.flow f) u ∧
          Loop.Rounds table ⟨test, body, some after⟩ u o t := by
  rw [halts_iff_of_next rfl, halts_exec_iff]
  refine or_congr_right (exists₂_congr fun f u => and_congr_right fun _ => ?_)
  exact (halts_iff_of_next rfl).trans halts_loop_iff

end Machine
end Imperative
