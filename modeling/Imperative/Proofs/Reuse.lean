import Imperative.Proofs.AnalysisEffect
import Imperative.Proofs.DepthLimit

/-!
# Interpreters and resolvers can be used again

An interpreter empties its stack before and after every run, and a resolver starts every walk from
an empty chain of scopes.  So it makes no difference for which modules they have been used before,
nor whether these came through.  With the checker of jumps it would make one: a walk that fails
leaves its surroundings behind.  Analysis takes a new checker and a new resolver each time.

A *workbench* holds one interpreter and one resolver.  The modules that come in are run, resolved
or analysed there in any order.

* `Interpreter.stack_of_interpret`: a run leaves an empty stack with the same limit behind.
* `Workbench.Does.clear`, `Workbench.reports_iff_of_clear`: one job, and what is reported of it.
* `Workbench.reports_as_new`: every job of every session is reported as on a new workbench.
-/

namespace Imperative

/-! ## Runs -/

/-- No run changes how many records the stack takes. -/
theorem Machine.Halts.limit_eq {table : ProcedureTable} {s : MachineState} {o : Outcome}
    {t : CallStack} (h : Halts table s o t) : t.limit = s.stack.limit := by
  induction h with
  | @now s _ _ _ hstep =>
    have hlimit := limit_step table s
    rwa [hstep] at hlimit
  | @later s _ _ _ _ hstep _ ih =>
    have hlimit := limit_step table s
    rw [hstep] at hlimit
    exact ih.trans hlimit

namespace Interpreter

variable {i j : Interpreter} {m : Module} {σ : Type} {observe : σ → Event → σ} {seen : σ}
  {fuel : Nat} {run : Run σ}

theorem limit_conclude (o : Outcome) (stack : CallStack) :
    (conclude o stack).2.2.limit = stack.limit := by
  cases o with
  | failure e => rfl
  | value v | flow f =>
    rw [conclude]
    cases hpop : stack.pop? with
    | none => rfl
    | some popped => exact CallStack.limit_of_pop? hpop

/-- A run leaves an empty stack behind, which takes as many records as before. -/
theorem stack_of_interpret (hrun : i.interpret observe seen fuel m = some run) :
    run.interpreter.stack = .empty i.stack.limit := by
  cases hpush : i.stack.cleared.push? programRecord with
  | none =>
    rw [interpret, hpush] at hrun
    cases hrun
    rfl
  | some pushed =>
    have hstart : pushed.limit = i.stack.limit := (CallStack.records_of_push? hpush).2
    rw [interpret, hpush] at hrun
    dsimp only at hrun
    split at hrun
    · cases hrun
    · next seen' o t hmachine =>
      cases hrun
      have hhalts := (Machine.halts_iff_run observe _).mpr ⟨fuel, seen', hmachine⟩
      have hend : (conclude o t).2.2.limit = i.stack.limit := by
        rw [limit_conclude, hhalts.limit_eq]
        exact hstart
      exact congrArg CallStack.empty hend

/-- The procedures of the module that was run last make no difference. -/
theorem interpret_congr (h : i.stack = j.stack) :
    i.interpret observe seen fuel m = j.interpret observe seen fuel m := by
  rw [interpret, interpret, h]

end Interpreter

/-! ## Sessions -/

/-- What can be done with a module. -/
inductive Workbench.Job where
  | run (m : Module)
  | resolve (m : Module)
  | analyze (m : Module)

/-- What comes out of a job: the result of a run, or the module with its marks and the verdict. -/
inductive Workbench.Report where
  | result (result : Except RuntimeError Record)
  | marked (m : Module) (verdict : Verdict)

/-- An interpreter and a resolver that are used for one module after the other. -/
structure Workbench where
  interpreter : Interpreter
  resolver : Resolver := {}

namespace Workbench

/-- A workbench on which nothing was done. -/
def new (limit : Nat) : Workbench :=
  { interpreter := .new limit }

/-- A job is done, with the report and the workbench as it is afterwards.  Running is done when the
run comes to an end. -/
inductive Does : Workbench → Job → Report → Workbench → Prop
  | run {b : Workbench} {m : Module} {σ : Type} {observe : σ → Event → σ} {seen : σ} {fuel : Nat}
      {run : Run σ} (h : b.interpreter.interpret observe seen fuel m = some run) :
      Does b (.run m) (.result run.result) { b with interpreter := run.interpreter }
  | resolve {b : Workbench} {m : Module} :
      Does b (.resolve m) (.marked (b.resolver.resolve m).1.1 (b.resolver.resolve m).1.2)
        { b with resolver := (b.resolver.resolve m).2 }
  | analyze {b : Workbench} {m : Module} :
      Does b (.analyze m) (.marked m.analyze.module m.analyze.verdict) b

/-- A job can be done, with the report. -/
def Reports (b : Workbench) (job : Job) (report : Report) : Prop :=
  ∃ b', b.Does job report b'

/-- A job that was done, with the workbench as it was left. -/
structure Deed where
  job : Job
  report : Report
  after : Workbench

/-- The jobs are done one after the other. -/
def Session (b : Workbench) : List Deed → Prop
  | [] => True
  | d :: ds => b.Does d.job d.report d.after ∧ d.after.Session ds

/-- The stack is empty and takes up to `limit` records. -/
def Clear (limit : Nat) (b : Workbench) : Prop :=
  b.interpreter.stack = .empty limit

variable {limit : Nat} {b b' : Workbench} {job : Job} {report report' : Report}

/-- A job leaves the stack empty. -/
theorem Does.clear (h : b.Does job report b') (hb : b.Clear limit) : b'.Clear limit := by
  cases h with
  | run hrun =>
    have hstack := Interpreter.stack_of_interpret hrun
    rw [hb] at hstack
    exact hstack
  | resolve => exact hb
  | analyze => exact hb

/-- What can be reported of a job depends on the limit of the stack only. -/
theorem Reports.of_clear (h : b.Reports job report) (hb : b.Clear limit) (hb' : b'.Clear limit) :
    b'.Reports job report := by
  obtain ⟨_, h⟩ := h
  cases h with
  | run hrun =>
    rw [Interpreter.interpret_congr (hb.trans hb'.symm)] at hrun
    exact ⟨_, .run hrun⟩
  | @resolve m =>
    rw [b.resolver.resolve_eq_resolve b'.resolver m]
    exact ⟨_, .resolve⟩
  | analyze => exact ⟨_, .analyze⟩

/-- There is only one report of a job. -/
theorem Reports.unique (h : b.Reports job report) (h' : b.Reports job report') :
    report = report' := by
  obtain ⟨_, h⟩ := h
  obtain ⟨_, h'⟩ := h'
  cases h with
  | run hrun =>
    cases h' with
    | run hrun' =>
      have hgives := Interpreter.gives_of_interpret hrun
      rw [hgives.unique (Interpreter.gives_of_interpret hrun')]
  | resolve =>
    cases h'
    rfl
  | analyze =>
    cases h'
    rfl

/-- What one workbench has reported is what another with an empty stack reports. -/
theorem reports_iff_of_clear (h : b.Reports job report) (hb : b.Clear limit)
    (hb' : b'.Clear limit) : b'.Reports job report' ↔ report' = report := by
  constructor
  · intro h'
    exact (h'.of_clear hb' hb).unique h
  · rintro rfl
    exact h.of_clear hb hb'

/-- The jobs of a session leave the stack empty, and they are reported as on every workbench with
an empty stack. -/
theorem Session.of_mem {other : Workbench} (hother : other.Clear limit) :
    ∀ {b : Workbench} {deeds : List Deed}, b.Clear limit → b.Session deeds → ∀ d ∈ deeds,
      d.after.Clear limit ∧ ∀ report, other.Reports d.job report ↔ report = d.report
  | _, [], _, _, _, hd => by cases hd
  | b, e :: ds, hb, hsession, d, hd => by
    obtain ⟨hdone, hrest⟩ := hsession
    have hafter := hdone.clear hb
    rcases List.mem_cons.mp hd with rfl | hd
    · exact ⟨hafter, fun _ => reports_iff_of_clear ⟨_, hdone⟩ hb hother⟩
    · exact Session.of_mem hother hafter hrest d hd

/-- **A workbench is as good as new after every job.**  Whatever modules are run, resolved and
analysed on one workbench, and whether they come through or not, the stack is empty after each job,
and the report of the job is the one that a new workbench with the same limit gives. -/
theorem reports_as_new (limit : Nat) (deeds : List Deed) (h : (new limit).Session deeds) :
    ∀ d ∈ deeds, d.after.interpreter.stack.isEmpty = true
      ∧ ∀ report, (new limit).Reports d.job report ↔ report = d.report := by
  intro d hd
  have hnew : (new limit).Clear limit := rfl
  obtain ⟨hclear, hreports⟩ := Session.of_mem hnew hnew h d hd
  refine ⟨?_, hreports⟩
  rw [hclear]
  rfl

/-- A procedure that calls itself without end. -/
def endless : Module where
  body :=
    [.procedure ⟨0⟩ "f" [] none [.call "f" [] (some ⟨⟨0⟩, "f", [], none, 1⟩) default] default,
      .call "f" [] (some ⟨⟨0⟩, "f", [], none, 1⟩) default]

/-- A procedure in which an unknown name stands. -/
def unknown : Module where
  body :=
    [.procedure ⟨0⟩ "f" [] none [.assign "x" (.number 1 default) default] default]

/-- A procedure that gives a number back, under the number that the other two have. -/
def answering : Module where
  body :=
    [.procedure ⟨0⟩ "g" [] (some .integer) [.giveBack (.number 7 default) default] default,
      .assign "y" (.call "g" [] (some ⟨⟨0⟩, "g", [], some .integer, 1⟩) default) default]

/-- A run that was stopped by the stack and a walk that stopped in the scope of a procedure make no
difference to the run that follows. -/
theorem reports_as_new_after_failures :
    ∃ (e : RuntimeError) (e' : AnalysisError) (m : Module) (record : Record)
      (b₁ b₂ b₃ : Workbench),
      (new 3).Session [⟨.run endless, .result (.error e), b₁⟩,
        ⟨.resolve unknown, .marked m (.error e'), b₂⟩, ⟨.run answering, .result (.ok record), b₃⟩]
      ∧ b₃.interpreter.stack.isEmpty = true
      ∧ ∀ report, (new 3).Reports (.run answering) report ↔ report = .result (.ok record) := by
  have hnew : (new 3).Clear 3 := rfl
  obtain ⟨run, e, hrun, he⟩ : ∃ run e, (new 3).interpreter.interpret (fun _ _ => ()) () 40 endless
      = some run ∧ run.result = .error e := ⟨_, _, rfl, rfl⟩
  obtain ⟨run', record, hrun', hrecord⟩ : ∃ run record, (new 3).interpreter.interpret
      (fun _ _ => ()) () 40 answering = some run ∧ run.result = .ok record := ⟨_, _, rfl, rfl⟩
  -- What is reported on a new workbench is reported after the jobs before, too.
  have first : (new 3).Reports (.run endless) (.result (.error e)) := he ▸ ⟨_, .run hrun⟩
  obtain ⟨m, e', second⟩ : ∃ m e', (new 3).Reports (.resolve unknown) (.marked m (.error e')) :=
    ⟨_, _, _, .resolve⟩
  have third : (new 3).Reports (.run answering) (.result (.ok record)) := hrecord ▸ ⟨_, .run hrun'⟩
  obtain ⟨b₁, h₁⟩ := first
  have hb₁ := h₁.clear hnew
  obtain ⟨b₂, h₂⟩ := second.of_clear hnew hb₁
  obtain ⟨b₃, h₃⟩ := third.of_clear hnew (h₂.clear hb₁)
  have session : (new 3).Session [⟨.run endless, .result (.error e), b₁⟩,
      ⟨.resolve unknown, .marked m (.error e'), b₂⟩,
      ⟨.run answering, .result (.ok record), b₃⟩] := ⟨h₁, h₂, h₃, trivial⟩
  refine ⟨e, e', m, record, b₁, b₂, b₃, session, ?_⟩
  exact reports_as_new 3 _ session ⟨.run answering, .result (.ok record), b₃⟩ (by simp)

end Workbench

end Imperative
