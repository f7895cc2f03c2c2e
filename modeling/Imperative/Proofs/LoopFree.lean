import Imperative.Proofs.BigSteps
import Imperative.Proofs.DepthLimit
import Imperative.Proofs.Reuse
import Imperative.Proofs.UnboundReads

/-!
# Programs without loops

A program without loops comes to an end under every limit of the call stack, and it is the limit that
sees to it: procedures may call themselves and each other, from arguments, tests and returned values,
so the trees that are still to be run do not get smaller.  What does is the pair of the room that is
left on the stack and the tree.  A body is entered with less room (`Machine.terminates_call`), and
everything else goes on with a smaller tree on a stack with as much room as before, since expressions
leave the stack as it is and statements change its innermost record only
(`Machine.terminates_eval`, `Machine.terminates_exec`).

## Recursion without bound

A module recurses without bound when no number of records is enough for it
(`Module.RecursesWithoutBound`).  If one interpreter runs it to another end than a full stack, then
that run has a peak (`Machine.Halts.exists_peak`), and runs under higher limits go no higher.  So a
module without loops recurses without bound exactly if every interpreter stops it with a full stack.
-/

namespace Imperative

/-! ## Statements without loops -/

mutual

/-- No loop stands in the statement, nor in the bodies of the procedures in it. -/
def Stmt.loopFree : Stmt → Bool
  | .compound body _ | .procedure _ _ _ _ body _ => Stmt.allLoopFree body
  | .conditional _ body otherwise _ => body.loopFree && Stmt.loopFree? otherwise
  | .whileLoop .. | .doWhile .. | .forLoop .. => false
  | .declaration .. | .assign .. | .call .. | .giveBack .. | .breakLoop _ | .continueLoop _
  | .pass _ => true

/-- No loop stands in the statements. -/
def Stmt.allLoopFree : List Stmt → Bool
  | [] => true
  | s :: ss => s.loopFree && Stmt.allLoopFree ss

/-- No loop stands in a statement that may be absent. -/
def Stmt.loopFree? : Option Stmt → Bool
  | none => true
  | some s => s.loopFree

end

/-- No loop stands in the module, nor in the bodies of its procedures. -/
def Module.loopFree (m : Module) : Bool :=
  Stmt.allLoopFree m.body

mutual

theorem Stmt.loopFree_procedures (s : Stmt) (h : s.loopFree = true) :
    ∀ q ∈ s.procedures, Stmt.allLoopFree q.body = true := by
  match s with
  | .compound body _ => exact Stmt.loopFree_allProcedures body h
  | .procedure _ _ _ _ body _ =>
    exact List.forall_mem_cons.mpr ⟨h, Stmt.loopFree_allProcedures body h⟩
  | .conditional _ body otherwise _ =>
    obtain ⟨hbody, hotherwise⟩ := Bool.and_eq_true_iff.mp h
    intro q hq
    rcases List.mem_append.mp hq with hq | hq
    · exact Stmt.loopFree_procedures body hbody q hq
    · match otherwise with
      | none => cases hq
      | some s => exact Stmt.loopFree_procedures s hotherwise q hq
  | .whileLoop .. | .doWhile .. | .forLoop .. => cases h
  | .declaration .. | .assign .. | .call .. | .giveBack .. | .breakLoop _ | .continueLoop _
  | .pass _ => exact List.forall_mem_nil _

theorem Stmt.loopFree_allProcedures (ss : List Stmt) (h : Stmt.allLoopFree ss = true) :
    ∀ q ∈ Stmt.allProcedures ss, Stmt.allLoopFree q.body = true := by
  match ss with
  | [] => exact List.forall_mem_nil _
  | s :: ss =>
    obtain ⟨hs, hss⟩ := Bool.and_eq_true_iff.mp h
    intro q hq
    rcases List.mem_append.mp hq with hq | hq
    · exact Stmt.loopFree_procedures s hs q hq
    · exact Stmt.loopFree_allProcedures ss hss q hq

end

/-- The bodies of the procedures hold no loops. -/
def ProcedureTable.LoopFree (table : ProcedureTable) : Prop :=
  ∀ id q, table.find? id = some q → Stmt.allLoopFree q.body = true

theorem Module.loopFree_table {m : Module} (h : m.loopFree = true) :
    (ProcedureTable.ofModule m).LoopFree := by
  intro id q hq
  have hmem : q ∈ (Stmt.allProcedures m.body).reverse := List.mem_of_find?_eq_some hq
  exact Stmt.loopFree_allProcedures m.body h q (List.mem_reverse.mp hmem)

/-! ## Coming to an end -/

/-- A stack that has taken a record is still within its limit. -/
theorem CallStack.length_le_of_push? {stack pushed : CallStack} {record : Record}
    (h : stack.push? record = some pushed) : pushed.records.length ≤ pushed.limit := by
  have hfree : ¬ stack.limit ≤ stack.records.length := by
    rw [← CallStack.push?_eq_none_iff stack record, h]
    exact Option.some_ne_none pushed
  obtain ⟨hrecords, hlimit⟩ := CallStack.records_of_push? h
  rw [hrecords, hlimit]
  exact Nat.lt_of_not_le hfree

/-- The stack holds a record, and takes at most `n` more. -/
def CallStack.TakesAtMost (n : Nat) (stack : CallStack) : Prop :=
  stack.records ≠ [] ∧ stack.limit ≤ stack.records.length + n

/-- A stack takes less once it has taken a record. -/
theorem CallStack.TakesAtMost.push {n : Nat} {stack pushed : CallStack} {record : Record}
    (h : stack.TakesAtMost n) (hpush : stack.push? record = some pushed) :
    ∃ m < n, pushed.TakesAtMost m := by
  obtain ⟨-, hroom⟩ := h
  obtain ⟨hrecords, hlimit⟩ := CallStack.records_of_push? hpush
  have hlength : pushed.records.length = stack.records.length + 1 := by
    rw [hrecords, List.length_cons]
  have hwithin := CallStack.length_le_of_push? hpush
  refine ⟨n - 1, by omega, ?_, by omega⟩
  rw [hrecords]
  exact List.cons_ne_nil _ _

namespace Machine

/-- The machine comes to a halt. -/
def Terminates (table : ProcedureTable) (s : MachineState) : Prop :=
  ∃ o t, Halts table s o t

variable {table : ProcedureTable} {stack : CallStack} {n : Nat}

theorem terminates_iff_ends {s : MachineState} :
    Terminates table s ↔ ∃ o t, Ends table o t (step table s) :=
  exists₂_congr fun _ _ => halts_iff_ends

theorem terminates_of_next {s s' : MachineState} {events : List Event}
    (hstep : step table s = .next events s') (h : Terminates table s') : Terminates table s := by
  obtain ⟨o, t, h⟩ := h
  exact ⟨o, t, .later hstep h⟩

theorem terminates_value_done {v : Value} : Terminates table ⟨.value v .done, stack⟩ :=
  ⟨.value v, stack, .now rfl⟩

theorem terminates_flow_done {f : Flow} : Terminates table ⟨.flow f .done, stack⟩ :=
  ⟨.flow f, stack, .now rfl⟩

theorem ends_update (change : Record → Record) (f : Flow) (site : Span) :
    ∃ o t, Ends table o t (update change f site .done stack) := by
  rw [update]
  split
  · exact terminates_flow_done
  · exact ⟨_, stack, rfl, rfl⟩

theorem ends_operate (result : Except ValueError Value) (operator : String) (site : Span) :
    ∃ o t, Ends table o t (operate result operator site .done stack) := by
  cases result with
  | ok v => exact terminates_value_done
  | error e => exact ⟨_, stack, rfl, rfl⟩

/-- An expression that comes to an end leaves the rest of the work to the same stack. -/
theorem Terminates.eval_onto {e : Expr} {k : ValueCont} (hne : stack.records ≠ [])
    (he : Terminates table ⟨.eval e .done, stack⟩)
    (hk : ∀ v, Terminates table ⟨.value v k, stack⟩) : Terminates table ⟨.eval e k, stack⟩ := by
  obtain ⟨o, u, he⟩ := he
  cases o with
  | failure error => exact ⟨_, u, halts_eval_iff.mpr (.inl ⟨error, he, rfl⟩)⟩
  | value v =>
    obtain rfl := he.stack_eq_of_eval hne nofun
    obtain ⟨o, t, hrest⟩ := hk v
    exact ⟨o, t, halts_eval_iff.mpr (.inr ⟨v, u, he, hrest⟩)⟩
  | flow f => exact (not_halts_eval_flow he).elim

/-- A statement that comes to an end leaves the rest of the work to a stack that takes as much. -/
theorem Terminates.exec_onto {s : Stmt} {k : FlowCont} (hstack : stack.TakesAtMost n)
    (hs : Terminates table ⟨.exec s .done, stack⟩)
    (hk : ∀ f u, u.TakesAtMost n → Terminates table ⟨.flow f k, u⟩) :
    Terminates table ⟨.exec s k, stack⟩ := by
  obtain ⟨o, u, hs⟩ := hs
  cases o with
  | failure error => exact ⟨_, u, halts_exec_iff.mpr (.inl ⟨error, hs, rfl⟩)⟩
  | value v => exact (not_halts_exec_value hs).elim
  | flow f =>
    obtain ⟨hne, hroom⟩ := hstack
    obtain ⟨r, below, hrecords⟩ := List.exists_cons_of_ne_nil hne
    obtain ⟨hlimit, r', -, hrecords'⟩ := hs.grows_of_exec hrecords nofun
    have hu : u.TakesAtMost n := by
      rw [CallStack.TakesAtMost, hlimit, hrecords']
      rw [hrecords] at hroom
      exact ⟨List.cons_ne_nil _ _, hroom⟩
    obtain ⟨o, t, hrest⟩ := hk f u hu
    exact ⟨o, t, halts_exec_iff.mpr (.inr ⟨f, u, hs, hrest⟩)⟩

/-! ## Calls -/

/-- The bodies of the procedures come to an end on stacks that take at most `n` records. -/
def BodiesTerminate (table : ProcedureTable) (n : Nat) : Prop :=
  ∀ id q, table.find? id = some q → ∀ stack : CallStack, stack.TakesAtMost n →
    Terminates table ⟨.flow .completed (.sequence q.body .done), stack⟩

theorem ends_enterBody {invocation : Invocation} {record : Record}
    (hbody : ∀ pushed, stack.push? record = some pushed →
      Terminates table ⟨.flow .completed (.sequence invocation.body .done), pushed⟩) :
    ∃ o t, Ends table o t (enterBody invocation record .done stack) := by
  rw [enterBody]
  cases hpush : stack.push? record with
  | none => exact ⟨_, stack, rfl, rfl⟩
  | some pushed =>
    obtain ⟨o', u, hu⟩ := hbody pushed hpush
    -- whatever the body comes to, the end of the call makes an end of it
    have hblind : Blind table .done (.invoked invocation .done) := blind_invoked invocation
    obtain ⟨o, hresumes⟩ := hblind o'
    obtain ⟨t, ht⟩ := hresumes u
    let c : Control := .flow .completed (.sequence invocation.body .done)
    exact ⟨o, t, halts_onto_of_resumes (c := c) .done (.invoked invocation .done) hu ht⟩

theorem ends_supply (hne : stack.records ≠ []) {pending : List (String × Expr)}
    (hargs : ∀ p ∈ pending, Terminates table ⟨.eval p.2 .done, stack⟩) {invocation : Invocation}
    (hbody : ∀ record pushed, stack.push? record = some pushed →
      Terminates table ⟨.flow .completed (.sequence invocation.body .done), pushed⟩)
    (record : Record) :
    ∃ o t, Ends table o t (supply invocation record pending .done stack) := by
  induction pending generalizing record with
  | nil => exact ends_enterBody (hbody record)
  | cons p pending ih =>
    obtain ⟨harg, hrest⟩ := List.forall_mem_cons.mp hargs
    refine harg.eval_onto hne fun v => ?_
    exact terminates_iff_ends.mpr (ih hrest (record.set p.1 v))

/-- A call whose arguments come to an end comes to an end itself: its body is entered with less room on
the stack, or not at all. -/
theorem terminates_call (hbodies : ∀ m < n, BodiesTerminate table m) (hstack : stack.TakesAtMost n)
    {args : List Expr} (hargs : ∀ arg ∈ args, Terminates table ⟨.eval arg .done, stack⟩)
    (name : String) (resolved : Option ProcedureSymbol) (site : Span) :
    Terminates table ⟨.eval (.call name args resolved site) .done, stack⟩ := by
  simp only [terminates_iff_ends, step, stepEval, beginCall]
  cases resolved with
  | none => exact ⟨_, stack, rfl, rfl⟩
  | some symbol =>
    cases hfind : table.find? symbol.id with
    | none =>
      simp only [hfind]
      exact ⟨_, stack, rfl, rfl⟩
    | some procedure =>
      simp only [hfind]
      refine ends_supply hstack.1 (fun p hp => hargs p.2 (List.of_mem_zip hp).2) ?_ _
      intro record pushed hpush
      obtain ⟨m, hm, hpushed⟩ := hstack.push hpush
      exact hbodies m hm symbol.id procedure hfind pushed hpushed

/-! ## Expressions and statements -/

mutual

/-- Expressions come to an end if the bodies of procedures do so with less room. -/
theorem terminates_eval (hbodies : ∀ m < n, BodiesTerminate table m)
    (hstack : stack.TakesAtMost n) (e : Expr) : Terminates table ⟨.eval e .done, stack⟩ := by
  match e with
  | .number n _ => exact terminates_of_next rfl terminates_value_done
  | .var name site =>
    simp only [terminates_iff_ends, step, stepEval, readName]
    split
    · exact ⟨_, stack, rfl, rfl⟩
    · split
      · exact terminates_value_done
      · exact ⟨_, stack, rfl, rfl⟩
  | .unary op operand site =>
    have hoperand := terminates_eval hbodies hstack operand
    refine terminates_of_next rfl (hoperand.eval_onto hstack.1 fun v => ?_)
    exact terminates_iff_ends.mpr (ends_operate ..)
  | .binary op lhs rhs site =>
    have hlhs := terminates_eval hbodies hstack lhs
    have hrhs := terminates_eval hbodies hstack rhs
    refine terminates_of_next rfl (hlhs.eval_onto hstack.1 fun v => ?_)
    refine terminates_of_next rfl (hrhs.eval_onto hstack.1 fun w => ?_)
    exact terminates_iff_ends.mpr (ends_operate ..)
  | .call name args resolved site =>
    exact terminates_call hbodies hstack (terminates_evalAll hbodies hstack args) name resolved site

theorem terminates_evalAll (hbodies : ∀ m < n, BodiesTerminate table m)
    (hstack : stack.TakesAtMost n) (es : List Expr) :
    ∀ e ∈ es, Terminates table ⟨.eval e .done, stack⟩ := by
  match es with
  | [] => exact List.forall_mem_nil _
  | e :: es =>
    exact List.forall_mem_cons.mpr
      ⟨terminates_eval hbodies hstack e, terminates_evalAll hbodies hstack es⟩

end

mutual

/-- Statements without loops come to an end if the bodies of procedures do so with less room. -/
theorem terminates_exec (hbodies : ∀ m < n, BodiesTerminate table m) {stack : CallStack}
    (hstack : stack.TakesAtMost n) (s : Stmt) (hs : s.loopFree = true) :
    Terminates table ⟨.exec s .done, stack⟩ := by
  match s with
  | .compound body _ =>
    exact terminates_of_next rfl (terminates_sequence hbodies hstack .completed body hs)
  | .declaration name type site =>
    exact terminates_iff_ends.mpr (ends_update ..)
  | .assign name value site =>
    have hvalue := terminates_eval hbodies hstack value
    refine terminates_of_next rfl (hvalue.eval_onto hstack.1 fun v => ?_)
    exact terminates_iff_ends.mpr (ends_update ..)
  | .call name args resolved site =>
    have hcall := terminates_eval hbodies hstack (.call name args resolved site)
    simp only [Terminates, halts_call_iff]
    exact hcall.eval_onto hstack.1 fun v => terminates_of_next rfl terminates_flow_done
  | .conditional test body otherwise _ =>
    obtain ⟨hbody, hotherwise⟩ := Bool.and_eq_true_iff.mp hs
    have htest := terminates_eval hbodies hstack test
    refine terminates_of_next rfl (htest.eval_onto hstack.1 fun v => ?_)
    simp only [terminates_iff_ends, step, stepValue]
    split
    · exact terminates_exec hbodies hstack body hbody
    · match otherwise with
      | none => exact terminates_flow_done
      | some s => exact terminates_exec hbodies hstack s hotherwise
  | .giveBack value site =>
    have hvalue := terminates_eval hbodies hstack value
    refine terminates_of_next rfl (hvalue.eval_onto hstack.1 fun v => ?_)
    exact terminates_iff_ends.mpr (ends_update ..)
  | .breakLoop _ | .continueLoop _ | .pass _ | .procedure .. =>
    exact terminates_of_next rfl terminates_flow_done
  | .whileLoop .. | .doWhile .. | .forLoop .. => cases hs

theorem terminates_sequence (hbodies : ∀ m < n, BodiesTerminate table m) {stack : CallStack}
    (hstack : stack.TakesAtMost n) (f : Flow) (ss : List Stmt)
    (hss : Stmt.allLoopFree ss = true) :
    Terminates table ⟨.flow f (.sequence ss .done), stack⟩ := by
  by_cases hf : f = .completed
  · subst hf
    match ss with
    | [] => exact terminates_of_next rfl terminates_flow_done
    | s :: ss =>
      obtain ⟨hs, hss⟩ := Bool.and_eq_true_iff.mp hss
      have hfirst := terminates_exec hbodies hstack s hs
      refine terminates_of_next rfl (hfirst.exec_onto hstack fun f u hu => ?_)
      exact terminates_sequence hbodies hu f ss hss
  · exact ⟨_, _, (halts_sequence_of_ne hf ss).mpr ⟨rfl, rfl⟩⟩

end

/-- Bodies without loops come to an end, however much room there is. -/
theorem bodiesTerminate (htable : table.LoopFree) (n : Nat) : BodiesTerminate table n := by
  induction n using Nat.strongRecOn with
  | ind n ih =>
    intro id q hq stack hstack
    exact terminates_sequence ih hstack .completed q.body (htable id q hq)

end Machine

/-- The program comes to an end once its record is on the stack. -/
theorem Module.terminates_start {m : Module} (hm : m.loopFree = true) {stack pushed : CallStack}
    (hpush : stack.push? Interpreter.programRecord = some pushed) :
    Machine.Terminates (.ofModule m) (Interpreter.start m pushed) := by
  have hstack : pushed.TakesAtMost pushed.limit := by
    refine ⟨?_, Nat.le_add_left ..⟩
    rw [(CallStack.records_of_push? hpush).1]
    exact List.cons_ne_nil _ _
  exact Machine.terminates_sequence (fun n _ => Machine.bodiesTerminate (Module.loopFree_table hm) n)
    hstack .completed m.body hm

/-! ## Full stacks -/

namespace Machine

variable {table : ProcedureTable} {s s' : MachineState} {limit : Nat}

/-- The machine says that the stack is full only where it is. -/
theorem full_of_exhaustedAt {events : List Event} {o : Outcome} {t : CallStack}
    (h : step table s = .halt events o t) (ho : o.ExhaustedAt limit) :
    limit = t.limit ∧ limit ≤ s.stack.records.length := by
  obtain ⟨name, site, rfl⟩ := ho
  rw [step_eq_perform] at h
  cases ha : s.control.action table with
  | go control =>
    rw [ha] at h
    cases h
  | halt outcome =>
    rw [ha] at h
    cases h
    rcases Control.cause_of_action ha with ⟨_, hcause⟩ | ⟨operator, error, hcause⟩
    · cases hcause
    · cases error <;> cases hcause
  | read y site k =>
    rw [ha, Action.perform, readName] at h
    split at h
    · cases h
    · split at h <;> cases h
  | bind y v site k | giveBack v site k =>
    rw [ha, Action.perform, update] at h
    split at h <;> cases h
  | enter invocation record k =>
    rw [ha, Action.perform, enterBody] at h
    cases hpush : s.stack.push? record with
    | none =>
      rw [hpush] at h
      cases h
      exact ⟨rfl, (CallStack.push?_eq_none_iff _ _).mp hpush⟩
    | some pushed =>
      rw [hpush] at h
      cases h
  | leave invocation f k =>
    rw [ha, Action.perform, endCall] at h
    split at h
    split at h <;> cases h

/-- A run that is stopped by the limit of its stack has filled the stack. -/
theorem Halts.full {o : Outcome} {t : CallStack} (h : Halts table s o t) (ho : o.ExhaustedAt limit) :
    limit = s.stack.limit ∧ ∃ s', Reaches table s s' ∧ limit ≤ s'.stack.records.length := by
  obtain ⟨s', events, hreach, hlast⟩ := h.exists_last
  obtain ⟨hlimit, hfull⟩ := full_of_exhaustedAt hlast ho
  exact ⟨hlimit.trans h.limit_eq, s', hreach, hfull⟩

/-- A step keeps the stack within its limit. -/
theorem length_step_le (h : s.stack.records.length ≤ s.stack.limit) :
    (step table s).stack.records.length ≤ s.stack.limit := by
  rw [step_eq_perform]
  by_cases henters : ∃ invocation record next, s.control.action table = .enter invocation record next
  · obtain ⟨invocation, record, next, ha⟩ := henters
    rw [ha, Action.perform, enterBody]
    cases hpush : s.stack.push? record with
    | none => exact h
    | some pushed =>
      have hwithin := CallStack.length_le_of_push? hpush
      rwa [(CallStack.records_of_push? hpush).2] at hwithin
  · have hother : ∀ invocation record next, s.control.action table ≠ .enter invocation record next :=
      fun invocation record next ha => henters ⟨invocation, record, next, ha⟩
    exact (Action.length_perform_le hother s.stack).trans h

/-- A run keeps the stack within its limit. -/
theorem length_le_of_reaches (hreach : Reaches table s s')
    (h : s.stack.records.length ≤ s.stack.limit) :
    s'.stack.limit = s.stack.limit ∧ s'.stack.records.length ≤ s.stack.limit := by
  induction hreach with
  | refl => exact ⟨rfl, h⟩
  | @tail s₁ s₂ _ hstep ih =>
    obtain ⟨events, hstep⟩ := hstep
    obtain ⟨hlimit, hlength⟩ := ih
    have hlimit' := limit_step table s₁
    have hlength' : (step table s₁).stack.records.length ≤ s₁.stack.limit :=
      length_step_le (hlimit.symm ▸ hlength)
    rw [hstep] at hlimit' hlength'
    exact ⟨hlimit'.trans hlimit, hlength'.trans hlimit.le⟩

end Machine

/-! ## Recursion without bound -/

/-- No number of records is enough for the module: whatever the number, some interpreter comes to have
as many on its stack. -/
def Module.RecursesWithoutBound (m : Module) : Prop :=
  ∀ n, ∃ (i : Interpreter) (s : MachineState), i.Visits m s ∧ n ≤ s.stack.records.length

namespace Interpreter

variable {i : Interpreter} {m : Module} {pushed t : CallStack} {o : Outcome}

/-- The peak of a run that was not stopped by the limit decides what other interpreters come to. -/
theorem exists_peak_of_halts (hpush : i.stack.cleared.push? programRecord = some pushed)
    (h : Machine.Halts (.ofModule m) (start m pushed) o t) (ho : ∀ limit, ¬ o.ExhaustedAt limit) :
    ∃ peak, IsGreatest (Machine.heights (.ofModule m) (start m pushed)) peak
      ∧ ∀ (j : Interpreter) (pushed' : CallStack),
        j.stack.cleared.push? programRecord = some pushed' →
        Machine.Threshold (.ofModule m) (start m pushed).control o t peak pushed' := by
  obtain ⟨peak, hpeak, hthreshold⟩ := h.exists_peak ho
  refine ⟨peak, hpeak, fun j pushed' hpush' => ?_⟩
  have hrecords : pushed.records = [programRecord] := (CallStack.records_of_push? hpush).1
  have hrecords' : pushed'.records = [programRecord] := (CallStack.records_of_push? hpush').1
  have hshares : pushed.Shares 1 pushed' := .refl (hrecords ▸ le_rfl) (hrecords'.trans hrecords.symm)
  exact hthreshold pushed' hshares (CallStack.length_le_of_push? hpush')

/-- If one interpreter does not stop the module with a full stack, no interpreter comes to have more
records on its stack than a fixed number. -/
theorem exists_height_bound (hpush : i.stack.cleared.push? programRecord = some pushed)
    (h : Machine.Halts (.ofModule m) (start m pushed) o t) (ho : ∀ limit, ¬ o.ExhaustedAt limit) :
    ∃ bound, ∀ (j : Interpreter) (s : MachineState), j.Visits m s →
      s.stack.records.length ≤ bound := by
  obtain ⟨peak, -, hthreshold⟩ := exists_peak_of_halts hpush h ho
  refine ⟨max peak pushed.limit, ?_⟩
  rintro j s ⟨pushed', hpush', hreach⟩
  obtain ⟨hsame, -⟩ := hthreshold j pushed' hpush'
  by_cases hlow : pushed'.limit < peak
  · have hwithin := (Machine.length_le_of_reaches hreach (CallStack.length_le_of_push? hpush')).2
    exact le_max_of_le_left (hwithin.trans hlow.le)
  · -- the run of `j` comes to the same end, and its own peak is within the limit of `i`
    obtain ⟨t', h', -⟩ := hsame (Nat.le_of_not_lt hlow)
    obtain ⟨peak', hpeak', hthreshold'⟩ := exists_peak_of_halts hpush' h' ho
    have hs : s.stack.records.length ≤ peak' := hpeak'.2 ⟨s, hreach, rfl⟩
    refine le_max_of_le_right (hs.trans (Nat.le_of_not_lt fun hhigh => ?_))
    obtain ⟨o', u, hstopped, ho'⟩ := (hthreshold' i pushed hpush).2 hhigh
    obtain ⟨rfl, -⟩ := h.unique hstopped
    exact ho _ ho'

theorem exhaustedAt_of_conclude {name : String} {limit : Nat} {site : Span}
    (h : (conclude o t).1 = .error ⟨.stackExhausted name limit, site⟩) : o.ExhaustedAt limit := by
  cases o with
  | failure e =>
    cases h
    exact ⟨name, site, rfl⟩
  | value v | flow f =>
    rw [conclude] at h
    split at h <;> cases h

/-- An interpreter that stops the module with a full stack has filled it. -/
theorem exists_full_of_gives (hpush : i.stack.cleared.push? programRecord = some pushed)
    {name : String} {site : Span}
    (h : i.Gives m (.error ⟨.stackExhausted name i.stack.limit, site⟩)) :
    ∃ s, i.Visits m s ∧ i.stack.limit ≤ s.stack.records.length := by
  obtain ⟨fuel, run, hrun, hresult⟩ := h Unit (fun _ _ => ()) ()
  obtain ⟨o, t, hhalts, hconclude⟩ := exists_halts_of_interpret hrun hpush
  have ho : o.ExhaustedAt i.stack.limit := exhaustedAt_of_conclude (hconclude.symm.trans hresult)
  obtain ⟨-, s, hreach, hfull⟩ := hhalts.full ho
  exact ⟨s, ⟨pushed, hpush, hreach⟩, hfull⟩

end Interpreter

/-- **Programs without loops come to an end**, with a record or a failure, under every limit of the
stack, whatever their calls are marked with; and they recurse without bound exactly if every
interpreter stops them with a failure that says that the stack is full. -/
theorem Module.loopFree_terminates (m : Module) (hm : m.loopFree = true) :
    (∀ i : Interpreter, ∃ result, i.Gives m result)
      ∧ (m.RecursesWithoutBound ↔ ∀ i : Interpreter, ∃ name site,
        i.Gives m (.error ⟨.stackExhausted name i.stack.limit, site⟩)) := by
  refine ⟨fun i => ?_, fun hdeep i => ?_, fun hstopped n => ?_⟩
  · cases hpush : i.stack.cleared.push? Interpreter.programRecord with
    | none => exact ⟨_, Interpreter.gives_of_full hpush m⟩
    | some pushed =>
      obtain ⟨o, t, h⟩ := Module.terminates_start hm hpush
      exact ⟨_, Interpreter.gives_of_halts hpush h⟩
  · cases hpush : i.stack.cleared.push? Interpreter.programRecord with
    | none => exact ⟨_, _, Interpreter.gives_of_full hpush m⟩
    | some pushed =>
      obtain ⟨o, t, h⟩ := Module.terminates_start hm hpush
      by_cases ho : ∃ limit, o.ExhaustedAt limit
      · obtain ⟨limit, ho⟩ := ho
        obtain ⟨rfl, -⟩ := h.full ho
        obtain ⟨name, site, rfl⟩ := ho
        have hlimit : pushed.limit = i.stack.limit := (CallStack.records_of_push? hpush).2
        exact ⟨name, site, hlimit ▸ Interpreter.gives_of_halts hpush h⟩
      · obtain ⟨bound, hbound⟩ := Interpreter.exists_height_bound hpush h (not_exists.mp ho)
        obtain ⟨j, s, hvisits, hhigh⟩ := hdeep (bound + 1)
        exact absurd (hbound j s hvisits) (Nat.not_le_of_lt hhigh)
  · -- a stack that takes the program and `n` records besides is filled, too
    have hpush : ∃ pushed, (Interpreter.new (n + 1)).stack.cleared.push? Interpreter.programRecord
        = some pushed := ⟨_, rfl⟩
    obtain ⟨pushed, hpush⟩ := hpush
    obtain ⟨name, site, hgives⟩ := hstopped (Interpreter.new (n + 1))
    obtain ⟨s, hvisits, hfull⟩ := Interpreter.exists_full_of_gives hpush hgives
    exact ⟨_, s, hvisits, Nat.le_of_succ_le hfull⟩

/-! ### A procedure that calls itself -/

namespace Workbench

/-- The call of the procedure that calls itself. -/
def callItself : Stmt :=
  .call "f" [] (some ⟨⟨0⟩, "f", [], none, 1⟩) default

/-- The call puts one more record on the stack, and then it is to be made again. -/
theorem reaches_callItself {stack pushed : CallStack} (k : FlowCont)
    (hpush : stack.push? { name := "f", kind := .procedure, level := 2 } = some pushed) :
    ∃ k', Machine.Reaches (.ofModule endless) ⟨.exec callItself k, stack⟩
      ⟨.exec callItself k', pushed⟩ := by
  let invocation : Invocation := ⟨⟨⟨0⟩, "f", [], none, 1⟩, [callItself], default⟩
  have hstep : ∃ events, Machine.step (.ofModule endless) ⟨.exec callItself k, stack⟩ = .next events
      ⟨.flow .completed (.sequence [callItself] (.invoked invocation (.discard k))), pushed⟩ := by
    change ∃ events, Machine.enterBody invocation _ (.discard k) stack = _
    rw [Machine.enterBody, hpush]
    exact ⟨_, rfl⟩
  exact ⟨_, .head hstep (.single ⟨_, rfl⟩)⟩

/-- So the stack gets as high as its limit allows. -/
theorem reaches_height (n : Nat) (k : FlowCont) {stack : CallStack}
    (hroom : stack.records.length + n ≤ stack.limit) :
    ∃ s, Machine.Reaches (.ofModule endless) ⟨.exec callItself k, stack⟩ s
      ∧ s.stack.records.length = stack.records.length + n := by
  induction n generalizing k stack with
  | zero => exact ⟨_, .refl, rfl⟩
  | succ n ih =>
    cases hpush : stack.push? { name := "f", kind := .procedure, level := 2 } with
    | none =>
      have hfull := (CallStack.push?_eq_none_iff _ _).mp hpush
      omega
    | some pushed =>
      obtain ⟨k', hcall⟩ := reaches_callItself k hpush
      obtain ⟨hrecords, hlimit⟩ := CallStack.records_of_push? hpush
      have hlength : pushed.records.length = stack.records.length + 1 := by
        rw [hrecords, List.length_cons]
      obtain ⟨s, hreach, hs⟩ := ih k' (by omega : pushed.records.length + n ≤ pushed.limit)
      exact ⟨s, hcall.trans hreach, by omega⟩

theorem recursesWithoutBound_endless : endless.RecursesWithoutBound := by
  intro n
  obtain ⟨pushed, hpush⟩ : ∃ pushed,
      (Interpreter.new (n + 1)).stack.cleared.push? Interpreter.programRecord = some pushed :=
    ⟨_, rfl⟩
  obtain ⟨hrecords, hlimit⟩ := CallStack.records_of_push? hpush
  have hroom : pushed.records.length + n ≤ pushed.limit := by
    rw [hrecords, hlimit]
    exact (Nat.add_comm 1 n).le
  obtain ⟨s, hreach, hs⟩ := reaches_height n (.sequence [] .done) hroom
  -- three steps lead past the definition to the first call
  have hstart : Machine.Reaches (.ofModule endless) (Interpreter.start endless pushed)
      ⟨.exec callItself (.sequence [] .done), pushed⟩ :=
    .head ⟨_, rfl⟩ (.head ⟨_, rfl⟩ (.single ⟨_, rfl⟩))
  exact ⟨_, s, ⟨pushed, hpush, hstart.trans hreach⟩, by omega⟩

/-- A procedure that calls itself without end is stopped by every stack. -/
theorem loopFree_terminates_endless :
    endless.loopFree = true ∧ endless.RecursesWithoutBound
      ∧ ∀ i : Interpreter, ∃ name site,
        i.Gives endless (.error ⟨.stackExhausted name i.stack.limit, site⟩) :=
  ⟨rfl, recursesWithoutBound_endless,
    (Module.loopFree_terminates endless rfl).2.mp recursesWithoutBound_endless⟩

end Workbench

end Imperative
