import Imperative.Proofs.Actions

/-!
# What is left to do

`Machine.Halts table s o t` says that the machine, started in `s`, comes to a halt with the
outcome `o` and the stack `t`, in however many steps.  It is `Machine.run` without the fuel and
without the observer (`Machine.halts_iff_run`).  `Machine.HaltsWithin` keeps the fuel.

## Putting one continuation under another

A continuation ends in `done`, one for values and one for flows.  `onto` puts two other
continuations in their places.  The machine never looks below what it is doing, so a run with
more left to do is first the run with less, and then the rest, with no more fuel than the whole
(`Machine.resumesWithin_of_onto`); and a run with less and a rest make a run with more
(`Machine.halts_onto_of_resumes`).  This is what makes the run from `⟨.eval e .done, stack⟩` the
evaluation of `e`, wherever in a program `e` stands.
-/

namespace Imperative

namespace Machine

/-- The machine comes to a halt, with the outcome and the stack. -/
inductive Halts (table : ProcedureTable) : MachineState → Outcome → CallStack → Prop
  | now {s : MachineState} {events : List Event} {o : Outcome} {t : CallStack}
      (h : step table s = .halt events o t) : Halts table s o t
  | later {s s' : MachineState} {events : List Event} {o : Outcome} {t : CallStack}
      (h : step table s = .next events s') (rest : Halts table s' o t) : Halts table s o t

variable {table : ProcedureTable} {s s' : MachineState} {o o' : Outcome} {t t' : CallStack}

theorem halts_iff_run {σ : Type} (observe : σ → Event → σ) (seen : σ) :
    Halts table s o t ↔ ∃ fuel seen', run observe table fuel seen s = some (seen', o, t) := by
  constructor
  · intro h
    induction h generalizing seen with
    | @now s events o t h => exact ⟨1, events.foldl observe seen, by rw [run, h]⟩
    | @later s s' events o t h _ ih =>
      obtain ⟨fuel, seen', hrun⟩ := ih (events.foldl observe seen)
      exact ⟨fuel + 1, seen', by rw [run, h]; exact hrun⟩
  · rintro ⟨fuel, seen', h⟩
    induction fuel generalizing seen s with
    | zero => cases h
    | succ fuel ih =>
      rw [run] at h
      split at h
      · next hstep => exact .later hstep (ih _ h)
      · next hstep =>
        cases h
        exact .now hstep

/-- What comes after one step. -/
theorem halts_iff_of_next {events : List Event} (h : step table s = .next events s') :
    Halts table s o t ↔ Halts table s' o t := by
  constructor
  · rintro (hhalt | ⟨hnext, rest⟩)
    · rw [h] at hhalt
      cases hhalt
    · rw [h] at hnext
      cases hnext
      exact rest
  · exact .later h

theorem halts_iff_of_halt {events : List Event} (h : step table s = .halt events o' t') :
    Halts table s o t ↔ o = o' ∧ t = t' := by
  constructor
  · rintro (hhalt | ⟨hnext, _⟩)
    · rw [h] at hhalt
      cases hhalt
      exact ⟨rfl, rfl⟩
    · rw [h] at hnext
      cases hnext
  · rintro ⟨rfl, rfl⟩
    exact .now h

/-- The machine comes to one halt only. -/
theorem Halts.unique (h : Halts table s o t) (h' : Halts table s o' t') : o = o' ∧ t = t' := by
  induction h with
  | now hstep =>
    obtain ⟨ho, ht⟩ := (halts_iff_of_halt hstep).mp h'
    exact ⟨ho.symm, ht.symm⟩
  | later hstep _ ih => exact ih ((halts_iff_of_next hstep).mp h')

/-! ## Runs with fuel -/

variable {n : Nat}

/-- The machine comes to a halt within `n` steps, with the outcome and the stack. -/
def HaltsWithin (table : ProcedureTable) (n : Nat) (s : MachineState) (o : Outcome)
    (t : CallStack) : Prop :=
  run (fun _ _ => ()) table n () s = some ((), o, t)

theorem halts_iff_within : Halts table s o t ↔ ∃ n, HaltsWithin table n s o t := by
  rw [halts_iff_run (fun _ _ => ()) ()]
  exact ⟨fun ⟨n, (), h⟩ => ⟨n, h⟩, fun ⟨n, h⟩ => ⟨n, (), h⟩⟩

theorem HaltsWithin.halts (h : HaltsWithin table n s o t) : Halts table s o t :=
  halts_iff_within.mpr ⟨n, h⟩

theorem not_haltsWithin_zero : ¬ HaltsWithin table 0 s o t := by
  intro h
  cases h

/-- What comes after one step has one step less to go. -/
theorem HaltsWithin.of_next {events : List Event} (h : HaltsWithin table n s o t)
    (hstep : step table s = .next events s') :
    ∃ m < n, HaltsWithin table m s' o t := by
  cases n with
  | zero => exact (not_haltsWithin_zero h).elim
  | succ m =>
    rw [HaltsWithin, run, hstep] at h
    exact ⟨m, Nat.lt_succ_self m, h⟩

end Machine

/-! ## Putting one continuation under another -/

mutual

/-- The continuation with others in the places of its ends. -/
def ValueCont.onto : ValueCont → ValueCont → FlowCont → ValueCont
  | .done, kv, _ => kv
  | .assign name site next, kv, kf => .assign name site (next.onto kv kf)
  | .discard next, kv, kf => .discard (next.onto kv kf)
  | .choose body otherwise next, kv, kf => .choose body otherwise (next.onto kv kf)
  | .test loop next, kv, kf => .test loop (next.onto kv kf)
  | .giveBack site next, kv, kf => .giveBack site (next.onto kv kf)
  | .unary op site next, kv, kf => .unary op site (next.onto kv kf)
  | .leftOperand op rhs site next, kv, kf => .leftOperand op rhs site (next.onto kv kf)
  | .rightOperand op lhs site next, kv, kf => .rightOperand op lhs site (next.onto kv kf)
  | .argument invocation record param pending next, kv, kf =>
    .argument invocation record param pending (next.onto kv kf)

/-- The continuation with others in the places of its ends. -/
def FlowCont.onto : FlowCont → ValueCont → FlowCont → FlowCont
  | .done, _, kf => kf
  | .sequence rest next, kv, kf => .sequence rest (next.onto kv kf)
  | .round loop next, kv, kf => .round loop (next.onto kv kf)
  | .again loop next, kv, kf => .again loop (next.onto kv kf)
  | .invoked invocation next, kv, kf => .invoked invocation (next.onto kv kf)

end

/-- The control with other continuations in the places of the ends. -/
def Control.onto (kv : ValueCont) (kf : FlowCont) : Control → Control
  | .eval e next => .eval e (next.onto kv kf)
  | .exec s next => .exec s (next.onto kv kf)
  | .value v next => .value v (next.onto kv kf)
  | .flow f next => .flow f (next.onto kv kf)

/-- The action with other continuations in the places of the ends.  A value or a flow that was
the last word is now handed on. -/
def Action.onto (kv : ValueCont) (kf : FlowCont) : Action → Action
  | .go control => .go (control.onto kv kf)
  | .halt (.failure e) => .halt (.failure e)
  | .halt (.value v) => kv.action v
  | .halt (.flow f) => kf.action f
  | .read name site next => .read name site (next.onto kv kf)
  | .bind name v site next => .bind name v site (next.onto kv kf)
  | .giveBack v site next => .giveBack v site (next.onto kv kf)
  | .enter invocation record next => .enter invocation record (next.onto kv kf)
  | .leave invocation f next => .leave invocation f (next.onto kv kf)

/-- The step with other continuations in the places of the ends. -/
def Transition.onto (table : ProcedureTable) (kv : ValueCont) (kf : FlowCont) :
    Transition → Transition
  | .next events s => .next events ⟨s.control.onto kv kf, s.stack⟩
  | .halt events (.failure e) stack => .halt events (.failure e) stack
  | .halt _ (.value v) stack => Machine.step table ⟨.value v kv, stack⟩
  | .halt _ (.flow f) stack => Machine.step table ⟨.flow f kf, stack⟩

section Onto

variable (table : ProcedureTable) (kv : ValueCont) (kf : FlowCont)

namespace Action

theorem operate_onto (result : Except ValueError Value) (operator : String) (site : Span)
    (next : ValueCont) :
    operate result operator site (next.onto kv kf) =
      (operate result operator site next).onto kv kf := by
  cases result <;> rfl

theorem supply_onto (invocation : Invocation) (record : Record)
    (pending : List (String × Expr)) (next : ValueCont) :
    supply invocation record pending (next.onto kv kf) =
      (supply invocation record pending next).onto kv kf := by
  cases pending <;> rfl

theorem beginCall_onto (name : String) (args : List Expr)
    (resolved : Option ProcedureSymbol) (site : Span) (next : ValueCont) :
    beginCall table name args resolved site (next.onto kv kf) =
      (beginCall table name args resolved site next).onto kv kf := by
  cases resolved with
  | none => rfl
  | some symbol =>
    simp only [beginCall]
    cases table.find? symbol.id with
    | none => rfl
    | some procedure => exact supply_onto ..

/-- What an action does to the stack does not depend on what is left to do. -/
theorem perform_onto (a : Action) (stack : CallStack) :
    (a.onto kv kf).perform stack = (a.perform stack).onto table kv kf := by
  cases a with
  | go control => rfl
  | halt outcome =>
    cases outcome with
    | failure e => rfl
    | value v => exact (Machine.step_eq_perform table ⟨.value v kv, stack⟩).symm
    | flow f => exact (Machine.step_eq_perform table ⟨.flow f kf, stack⟩).symm
  | read name site next =>
    simp only [onto, perform, Machine.readName]
    cases stack.top? with
    | none => rfl
    | some record =>
      dsimp only
      cases record.get? name <;> rfl
  | bind name v site next =>
    simp only [onto, perform, Machine.update]
    cases stack.modifyTop? (·.set name v) <;> rfl
  | giveBack v site next =>
    simp only [onto, perform, Machine.update]
    cases stack.modifyTop? (fun r => { r with returned := some v }) <;> rfl
  | enter invocation record next =>
    simp only [onto, perform, Machine.enterBody]
    cases stack.push? record <;> rfl
  | leave invocation f next =>
    simp only [onto, perform, Machine.endCall]
    cases f <;> cases invocation.symbol.returnType <;> rfl

end Action

theorem ValueCont.action_onto (v : Value) (k : ValueCont) :
    (k.onto kv kf).action v = (k.action v).onto kv kf := by
  cases k with
  | choose body otherwise next =>
    cases otherwise <;> rw [onto, action, action] <;> split <;> rfl
  | test loop next =>
    rw [onto, action, action]
    split <;> rfl
  | unary => exact Action.operate_onto ..
  | rightOperand => exact Action.operate_onto ..
  | argument => exact Action.supply_onto ..
  | _ => rfl

theorem FlowCont.action_onto (f : Flow) (k : FlowCont) :
    (k.onto kv kf).action f = (k.action f).onto kv kf := by
  cases k with
  | sequence rest next => cases f <;> cases rest <;> rfl
  | round loop next =>
    obtain ⟨test, body, step⟩ := loop
    cases f <;> cases step <;> rfl
  | _ => rfl

/-- What is done next does not depend on what is left to do after it. -/
theorem Control.action_onto (c : Control) :
    (c.onto kv kf).action table = (c.action table).onto kv kf := by
  cases c with
  | eval e k =>
    cases e with
    | call => exact Action.beginCall_onto ..
    | _ => rfl
  | exec s k =>
    cases s with
    | call name args resolved site =>
      exact Action.beginCall_onto table kv kf name args resolved site (.discard k)
    | _ => rfl
  | value v k => exact ValueCont.action_onto kv kf v k
  | flow f k => exact FlowCont.action_onto kv kf f k

namespace Machine

theorem step_onto (c : Control) (stack : CallStack) :
    step table ⟨c.onto kv kf, stack⟩ = (step table ⟨c, stack⟩).onto table kv kf := by
  rw [step_eq_perform, step_eq_perform, c.action_onto, Action.perform_onto]

/-- How a run goes on that has come to an end with less to do. -/
def Resumes (table : ProcedureTable) (kv : ValueCont) (kf : FlowCont) :
    Outcome → CallStack → Outcome → CallStack → Prop
  | .failure e, u, o, t => o = .failure e ∧ t = u
  | .value v, u, o, t => Halts table ⟨.value v kv, u⟩ o t
  | .flow f, u, o, t => Halts table ⟨.flow f kf, u⟩ o t

/-- How a run goes on that has come to an end with less to do, within `n` steps. -/
def ResumesWithin (table : ProcedureTable) (n : Nat) (kv : ValueCont) (kf : FlowCont) :
    Outcome → CallStack → Outcome → CallStack → Prop
  | .failure e, u, o, t => o = .failure e ∧ t = u
  | .value v, u, o, t => HaltsWithin table n ⟨.value v kv, u⟩ o t
  | .flow f, u, o, t => HaltsWithin table n ⟨.flow f kf, u⟩ o t

variable {table} {o : Outcome} {stack t : CallStack} {n : Nat}

theorem ResumesWithin.mono {m : Nat} {o' : Outcome} {u : CallStack}
    (h : ResumesWithin table m kv kf o' u o t) (hle : m ≤ n) :
    ResumesWithin table n kv kf o' u o t := by
  cases o' with
  | failure e => exact h
  | value v => exact run_of_le hle h
  | flow f => exact run_of_le hle h

theorem ResumesWithin.resumes {o' : Outcome} {u : CallStack}
    (h : ResumesWithin table n kv kf o' u o t) : Resumes table kv kf o' u o t := by
  cases o' with
  | failure e => exact h
  | value v => exact HaltsWithin.halts h
  | flow f => exact HaltsWithin.halts h

/-- **A run with more left to do** is the run with less, and then the rest, which has no more fuel
than the whole run had. -/
theorem resumesWithin_of_onto {c : Control} (h : HaltsWithin table n ⟨c.onto kv kf, stack⟩ o t) :
    ∃ o' u, Halts table ⟨c, stack⟩ o' u ∧ ResumesWithin table n kv kf o' u o t := by
  induction n generalizing c stack with
  | zero => exact (not_haltsWithin_zero h).elim
  | succ n ih =>
    rw [HaltsWithin, run, step_onto] at h
    cases hc : step table ⟨c, stack⟩ with
    | next events s' =>
      rw [hc] at h
      obtain ⟨o', u, hhalts, hresumes⟩ := ih h
      exact ⟨o', u, .later hc hhalts, hresumes.mono kv kf (Nat.le_succ n)⟩
    | halt events o' u =>
      refine ⟨o', u, .now hc, ?_⟩
      rw [hc] at h
      cases o' with
      | failure e =>
        cases h
        exact ⟨rfl, rfl⟩
      | value v => exact h
      | flow f => exact h

theorem resumes_of_halts_onto {c : Control} (h : Halts table ⟨c.onto kv kf, stack⟩ o t) :
    ∃ o' u, Halts table ⟨c, stack⟩ o' u ∧ Resumes table kv kf o' u o t := by
  obtain ⟨n, hwithin⟩ := halts_iff_within.mp h
  obtain ⟨o', u, hfirst, hrest⟩ := resumesWithin_of_onto kv kf hwithin
  exact ⟨o', u, hfirst, hrest.resumes kv kf⟩

/-- A run with less left to do and a rest are a run with more. -/
theorem halts_onto_of_resumes {c : Control} {o' : Outcome} {u : CallStack}
    (h : Halts table ⟨c, stack⟩ o' u) (hr : Resumes table kv kf o' u o t) :
    Halts table ⟨c.onto kv kf, stack⟩ o t := by
  generalize hs : (⟨c, stack⟩ : MachineState) = s at h
  induction h generalizing c stack with
  | @now s events o' u hstep =>
    subst hs
    have honto := step_onto table kv kf c stack
    rw [hstep] at honto
    cases o' with
    | failure e =>
      obtain ⟨rfl, rfl⟩ := hr
      exact .now honto
    | value v =>
      cases hr with
      | now h => exact .now (honto.trans h)
      | later h rest => exact .later (honto.trans h) rest
    | flow f =>
      cases hr with
      | now h => exact .now (honto.trans h)
      | later h rest => exact .later (honto.trans h) rest
  | @later s s' events o' u hstep rest ih =>
    subst hs
    have honto := step_onto table kv kf c stack
    rw [hstep] at honto
    exact .later honto (ih hr rfl)

/-- The rest of a run whose first part is known. -/
theorem Halts.onto_iff {c : Control} {o' : Outcome} {u : CallStack}
    (h : Halts table ⟨c, stack⟩ o' u) :
    Halts table ⟨c.onto kv kf, stack⟩ o t ↔ Resumes table kv kf o' u o t := by
  constructor
  · intro honto
    obtain ⟨o'', u', h', hr⟩ := resumes_of_halts_onto kv kf honto
    obtain ⟨rfl, rfl⟩ := h.unique h'
    exact hr
  · exact halts_onto_of_resumes kv kf h

end Machine

end Onto

end Imperative
