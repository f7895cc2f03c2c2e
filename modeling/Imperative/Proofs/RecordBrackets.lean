import Imperative.Execution.Interpreter
import Imperative.Proofs.Actions

/-!
# Records are opened and closed in brackets

The events of a run say when a record is pushed and when one is taken off.  Seen as opening and
closing brackets (`Event.recordMark?`), they are properly nested, every bracket is closed by one with
its own name and its own height, and the height is the number of brackets that are open
(`Bracketed`).

## A run that stops anywhere

A failure does not unwind the stack: the records that are on it then are taken off all at once at the
end.  So the brackets of a part of a run are not in balance, and what is said about a part is what the
rest has to be: if something closes the brackets of the stack behind the part, then the part followed
by it closes those of the stack in front of the part (`Closing`).  One step has this property, whatever
it does (`Machine.closing_step`), and a run has it by going through its steps from the last to the
first (`Machine.Traces.closing`).  At the end the records are taken off, which closes them
(`Interpreter.closing_clearEvents`).
-/

namespace Imperative

/-! ## Brackets -/

/-- An opening or a closing bracket with a name, and with the height at which it stands. -/
inductive Mark where
  | opens (name : String) (height : Nat)
  | closes (name : String) (height : Nat)
  deriving DecidableEq, Repr

/-- The brackets are properly nested and all closed, with `depth` others open around them: an opening
bracket and the closing one that belongs to it have the same name, and for a height the number of
brackets that are open between them. -/
inductive Bracketed : Nat → List Mark → Prop
  | nil {depth : Nat} : Bracketed depth []
  | pair {depth : Nat} {name : String} {inner rest : List Mark} (inside : Bracketed (depth + 1) inner)
      (after : Bracketed depth rest) :
      Bracketed depth (.opens name (depth + 1) :: (inner ++ .closes name (depth + 1) :: rest))

theorem Bracketed.append {depth : Nat} {ms ms' : List Mark} (h : Bracketed depth ms)
    (h' : Bracketed depth ms') : Bracketed depth (ms ++ ms') := by
  induction h with
  | nil => exact h'
  | pair inside _ _ ih =>
    rw [List.cons_append, List.append_assoc, List.cons_append]
    exact .pair inside (ih h')

/-- The brackets close those with the given names, the innermost first, and are properly nested
otherwise. -/
def Closing : List String → List Mark → Prop
  | [], ms => Bracketed 0 ms
  | name :: names, ms => ∃ inner rest, ms = inner ++ .closes name (names.length + 1) :: rest
      ∧ Bracketed (names.length + 1) inner ∧ Closing names rest

namespace Closing

variable {names : List String} {name : String} {ms ms' : List Mark}

/-- What is in balance may come before. -/
theorem append (h : Bracketed names.length ms) (h' : Closing names ms') :
    Closing names (ms ++ ms') := by
  cases names with
  | nil => exact Bracketed.append h h'
  | cons name names =>
    obtain ⟨inner, rest, rfl, hinner, hrest⟩ := h'
    exact ⟨ms ++ inner, rest, (List.append_assoc ..).symm, h.append hinner, hrest⟩

theorem close (h : Closing names ms) (name : String) :
    Closing (name :: names) (.closes name (names.length + 1) :: ms) :=
  ⟨[], ms, rfl, .nil, h⟩

/-- What closes a bracket that is open is in balance once the opening bracket is put in front. -/
theorem opened (h : Closing (name :: names) ms) :
    Closing names (.opens name (names.length + 1) :: ms) := by
  obtain ⟨inner, rest, rfl, hinner, hrest⟩ := h
  have hpair : Bracketed names.length
      (.opens name (names.length + 1) :: (inner ++ [.closes name (names.length + 1)])) :=
    .pair hinner .nil
  have happend := Closing.append hpair hrest
  rwa [List.cons_append, List.append_assoc, List.singleton_append] at happend

end Closing

/-! ## The records of a run -/

/-- The bracket of an event that pushes a record or takes one off.  A push tells how many records
there are behind it, and a pop how many are left. -/
def Event.recordMark? : Event → Option Mark
  | .push record _ depth => some (.opens record depth)
  | .pop record depth => some (.closes record (depth + 1))
  | .define .. | .enterScope .. | .leaveScope .. | .lookup .. | .call .. | .stackFull .. | .stack _
  | .finished _ => none

/-- The brackets of the events that push a record or take one off. -/
def recordMarks (events : List Event) : List Mark :=
  events.filterMap Event.recordMark?

theorem recordMarks_append (events events' : List Event) :
    recordMarks (events ++ events') = recordMarks events ++ recordMarks events' :=
  List.filterMap_append

/-- The names of the records, the innermost first. -/
def CallStack.names (s : CallStack) : List String :=
  s.records.map (·.name)

theorem CallStack.depth_eq_length_names (s : CallStack) : s.depth = s.names.length := by
  rw [names, List.length_map, s.depth_eq]

/-- What closes the records that are left, closes all of them behind the bracket of the one taken
off. -/
theorem CallStack.closing_of_pop? {s t : CallStack} {r : Record} (hpop : s.pop? = some (r, t))
    {ms : List Mark} (h : Closing t.names ms) :
    Closing s.names (.closes r.name (t.depth + 1) :: ms) := by
  have hnames : s.names = r.name :: t.names := by
    rw [names, records_of_pop? hpop]
    rfl
  rw [hnames, depth_eq_length_names]
  exact h.close r.name

/-- What happens at a step. -/
def Transition.events : Transition → List Event
  | .next events _ | .halt events _ _ => events

/-- What closes the stack behind the step, closes the one in front of it, together with what happens
at the step. -/
def Transition.Closes (stack : CallStack) (t : Transition) : Prop :=
  ∀ ms, Closing t.stack.names ms → Closing stack.names (recordMarks t.events ++ ms)

namespace Machine

variable {table : ProcedureTable} {stack : CallStack}

theorem closing_update (change : Record → Record) (hchange : ∀ r, (change r).name = r.name)
    (f : Flow) (site : Span) (next : FlowCont) :
    (update change f site next stack).Closes stack := by
  intro ms h
  rw [update] at h ⊢
  split at h
  · next t ht =>
    obtain ⟨r, rest, hstack, hrecords⟩ := CallStack.records_of_modifyTop? ht
    have hnames : t.names = stack.names := by
      rw [CallStack.names, CallStack.names, hstack, hrecords, List.map_cons, List.map_cons, hchange]
    exact hnames ▸ h
  · exact h

theorem closing_enterBody (invocation : Invocation) (record : Record) (next : ValueCont) :
    (enterBody invocation record next stack).Closes stack := by
  intro ms h
  rw [enterBody] at h ⊢
  cases hpush : stack.push? record with
  | none =>
    rw [hpush] at h
    exact h
  | some pushed =>
    rw [hpush] at h
    have hnames : pushed.names = record.name :: stack.names := by
      rw [CallStack.names, (CallStack.records_of_push? hpush).1]
      rfl
    have hdepth : pushed.depth = stack.names.length + 1 := by
      rw [CallStack.depth_eq_length_names, hnames, List.length_cons]
    have hopened : Closing (record.name :: stack.names) ms := hnames ▸ h
    show Closing stack.names (.opens record.name pushed.depth :: ms)
    rw [hdepth]
    exact hopened.opened

theorem closing_dropRecord {ms : List Mark} (h : Closing (dropRecord stack).2.names ms) :
    Closing stack.names (recordMarks (dropRecord stack).1 ++ ms) := by
  rw [dropRecord] at h ⊢
  split at h
  · exact h
  · next r rest hpop => exact CallStack.closing_of_pop? hpop h

/-- **One action.** -/
theorem closing_perform (a : Action) : (a.perform stack).Closes stack := by
  cases a with
  | go control => exact fun ms h => h
  | halt outcome => exact fun ms h => h
  | read name site next =>
    intro ms h
    rw [Action.perform, readName] at h ⊢
    split at h
    · exact h
    · split at h <;> exact h
  | bind name v site next => exact closing_update (·.set name v) (fun _ => rfl) .completed site next
  | giveBack v site next =>
    exact closing_update (fun r => { r with returned := some v }) (fun _ => rfl) (.returned v) site
      next
  | enter invocation record next => exact closing_enterBody invocation record next
  | leave invocation f next =>
    intro ms h
    rw [Action.perform] at h ⊢
    rcases endCall_cases invocation f next with ⟨v, hend⟩ | ⟨e, hend⟩
    · rw [hend] at h ⊢
      exact closing_dropRecord h
    · rw [hend] at h ⊢
      exact closing_dropRecord h

/-- **One step.** -/
theorem closing_step (s : MachineState) : (step table s).Closes s.stack := by
  rw [step_eq_perform]
  exact closing_perform _

/-- From the state on, these events happen until the machine halts with the outcome and the stack. -/
inductive Traces (table : ProcedureTable) :
    MachineState → List Event → Outcome → CallStack → Prop
  | now {s : MachineState} {events : List Event} {o : Outcome} {t : CallStack}
      (h : step table s = .halt events o t) : Traces table s events o t
  | later {s s' : MachineState} {events events' : List Event} {o : Outcome} {t : CallStack}
      (h : step table s = .next events s') (rest : Traces table s' events' o t) :
      Traces table s (events ++ events') o t

/-- What an observer has seen is what has happened. -/
theorem exists_traces_of_run {σ : Type} {observe : σ → Event → σ} {fuel : Nat} {seen seen' : σ}
    {s : MachineState} {o : Outcome} {t : CallStack}
    (h : run observe table fuel seen s = some (seen', o, t)) :
    ∃ events, Traces table s events o t ∧ seen' = events.foldl observe seen := by
  induction fuel generalizing seen s with
  | zero => cases h
  | succ fuel ih =>
    rw [run] at h
    split at h
    · next events s' hstep =>
      obtain ⟨events', htraces, rfl⟩ := ih h
      exact ⟨events ++ events', .later hstep htraces, (List.foldl_append ..).symm⟩
    · next events o' t' hstep =>
      cases h
      exact ⟨events, .now hstep, rfl⟩

/-- **A run.**  What closes the stack at its end, closes the one at its start, together with what has
happened in between. -/
theorem Traces.closing {s : MachineState} {events : List Event} {o : Outcome} {t : CallStack}
    (h : Traces table s events o t) {ms : List Mark} (hms : Closing t.names ms) :
    Closing s.stack.names (recordMarks events ++ ms) := by
  induction h with
  | @now s events o t hstep =>
    have hclosing : (step table s).Closes s.stack := closing_step s
    rw [hstep] at hclosing
    exact hclosing ms hms
  | @later s s' events events' o t hstep _ ih =>
    have hclosing : (step table s).Closes s.stack := closing_step s
    rw [hstep] at hclosing
    rw [recordMarks_append, List.append_assoc]
    exact hclosing _ (ih hms)

end Machine

namespace Interpreter

/-- Taking all records off closes them. -/
theorem closing_clearEvents (stack : CallStack) {ms : List Mark} (h : Bracketed 0 ms) :
    Closing stack.names (recordMarks (clearEvents stack) ++ ms) := by
  rw [clearEvents, CallStack.names, stack.depth_eq]
  induction stack.records with
  | nil => exact h
  | cons r rest ih =>
    rw [List.mapIdx_cons, List.length_cons]
    have hhead : rest.length + 1 - (0 + 1) = rest.length := by omega
    have htail (i : Nat) : rest.length + 1 - (i + 1 + 1) = rest.length - (i + 1) := by omega
    simp only [hhead, htail]
    have hclosed := ih.close r.name
    rw [List.length_map] at hclosed
    exact hclosed

/-- What closes the records that the end of the program leaves, closes those that it finds. -/
theorem closing_conclude (outcome : Outcome) (stack : CallStack) {ms : List Mark}
    (h : Closing (conclude outcome stack).2.2.names ms) :
    Closing stack.names (recordMarks (conclude outcome stack).2.1 ++ ms) := by
  cases outcome with
  | failure e => exact h
  | value v | flow f =>
    rw [conclude] at h ⊢
    cases hpop : stack.pop? with
    | none =>
      rw [hpop] at h
      exact h
    | some popped =>
      rw [hpop] at h
      exact CallStack.closing_of_pop? hpop h

/-- **Running a module.**  Whatever has been observed closes the records that were on the stack, and
then opens and closes others in balance. -/
theorem exists_closing_of_interpret {i : Interpreter} {m : Module} {σ : Type}
    {observe : σ → Event → σ} {seen : σ} {fuel : Nat} {run : Run σ}
    (hrun : i.interpret observe seen fuel m = some run) :
    ∃ events, run.seen = events.foldl observe seen
      ∧ Closing i.stack.names (recordMarks events) := by
  rw [interpret] at hrun
  cases hpush : i.stack.cleared.push? programRecord with
  | none =>
    rw [hpush] at hrun
    cases hrun
    refine ⟨clearEvents i.stack ++ [.stackFull programRecord.name i.stack.cleared.limit], ?_, ?_⟩
    · rw [List.foldl_append]
      rfl
    · rw [recordMarks_append]
      exact closing_clearEvents i.stack .nil
  | some pushed =>
    rw [hpush] at hrun
    dsimp only at hrun
    split at hrun
    · cases hrun
    · next seen' outcome stack hmachine =>
      cases hrun
      obtain ⟨events, htraces, rfl⟩ := Machine.exists_traces_of_run hmachine
      let ending := (conclude outcome stack).2
      refine ⟨clearEvents i.stack ++ (.push programRecord.name programRecord.level pushed.depth
        :: (events ++ (ending.1 ++ clearEvents ending.2))), ?_, ?_⟩
      · rw [List.foldl_append (l := clearEvents i.stack), List.foldl_cons,
          List.foldl_append (l := events)]
      · -- from the end to the start: clear the stack, conclude, run, push, clear the old stack
        have hclear := closing_clearEvents ending.2 .nil
        have hran := htraces.closing (closing_conclude outcome stack hclear)
        have hnames : pushed.names = [programRecord.name] := by
          rw [CallStack.names, (CallStack.records_of_push? hpush).1]
          rfl
        have hdepth : pushed.depth = 1 := by
          rw [CallStack.depth_eq_length_names, hnames, List.length_singleton]
        have hopened : Closing [programRecord.name]
            (recordMarks events ++ (recordMarks ending.1 ++ (recordMarks (clearEvents ending.2)
              ++ []))) := hnames ▸ hran
        have hbalanced := hopened.opened
        rw [List.append_nil] at hbalanced
        rw [recordMarks_append]
        refine closing_clearEvents i.stack ?_
        rw [hdepth]
        show Bracketed 0 (.opens programRecord.name 1
          :: recordMarks (events ++ (ending.1 ++ clearEvents ending.2)))
        rw [recordMarks_append, recordMarks_append]
        exact hbalanced

end Interpreter

end Imperative
