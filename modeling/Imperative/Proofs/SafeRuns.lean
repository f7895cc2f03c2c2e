import Imperative.Proofs.FitStates
import Imperative.Program
import Mathlib

/-!
# Runs of analysed programs are safe

The machine keeps the invariant of `Proofs.FitStates`: one lemma for each function that makes
a part of a step, `Machine.step_fit` for a step, `Machine.fit_of_reaches` and
`Machine.run_fit` for whole runs.  With `Module.fit_of_analysis`, which gives the invariant at
the start, this makes analysis sound for execution.

The statements of a program are followed by the index of the invariant: it changes only when
the next of them is begun, and the machine comes to the end of the program only when it is
empty.
-/

namespace Imperative

/-! ## One step -/

namespace Machine

variable {table : ProcedureTable} {todo : List Stmt} {stack : CallStack}

theorem go_fit {control : Control} (h : control.Fit table todo stack.records) :
    (go control stack).Fit table todo :=
  .inl (.inl h)

theorem operate_fit {k : ValueCont} (hk : k.Fit table todo stack.records)
    (result : Except ValueError Value) (operator : String) (site : Span) :
    (operate result operator site k stack).Fit table todo := by
  cases result with
  | ok v => exact go_fit hk
  | error e => cases e <;> trivial

/-- Changing the innermost record, in a way that keeps what is bound. -/
theorem update_fit (change : Record → Record) {f : Flow} {k : FlowCont} {l p : Bool}
    (hf : f.Allowed l p) (hk : k.Fit table todo l p stack.records)
    (hbinds : ∀ r x, (∃ v, r.get? x = some v) → ∃ v, (change r).get? x = some v)
    (hprogram : p = false → ∀ r, r.IsProgram → (change r).IsProgram) (site : Span) :
    (update change f site k stack).Fit table todo := by
  obtain ⟨r, rest, hr⟩ := List.exists_cons_of_ne_nil hk.ne_nil
  obtain ⟨t, ht, hrecords⟩ := CallStack.modifyTop?_of_cons hr change
  rw [hr] at hk
  rw [update, ht]
  refine go_fit ⟨l, p, hf, ?_⟩
  rw [hrecords]
  exact hk.replace (hbinds r) fun hp => hprogram hp r

theorem set_fit {k : FlowCont} {l p : Bool} (hk : k.Fit table todo l p stack.records)
    (name : String) (v : Value) (site : Span) :
    (update (·.set name v) .completed site k stack).Fit table todo := by
  have hf : Flow.completed.Allowed l p := trivial
  refine update_fit (·.set name v) hf hk (fun r x h => Record.exists_get?_set h name v)
    (fun _ r h => ?_) site
  exact ⟨h.name_eq, h.kind_eq, h.level_eq, h.returned_eq⟩

theorem readName_fit {k : ValueCont} (hk : k.Fit table todo stack.records) (name : String)
    (site : Span) : (readName name site k stack).Fit table todo := by
  obtain ⟨r, rest, hr⟩ := List.exists_cons_of_ne_nil hk.ne_nil
  rw [readName, CallStack.top?_of_cons hr]
  dsimp only
  cases r.get? name with
  | some v => exact go_fit hk
  | none => trivial

/-- Entering the body of a procedure: its record is on the stack, with every parameter
bound. -/
theorem enterBody_fit {invocation : Invocation} {record : Record} {k : ValueCont}
    (hi : invocation.Fit table) (hk : k.Fit table todo stack.records)
    (hr : record.Binds (invocation.symbol.params.map (·.name))) :
    (enterBody invocation record k stack).Fit table todo := by
  rw [enterBody]
  cases hpush : stack.push? record with
  | none => trivial
  | some pushed =>
    refine .inl (.inl ⟨false, true, trivial, hi.body, .inr ⟨rfl, hi, ?_⟩⟩)
    exact ⟨record, stack.records, (CallStack.records_of_push? hpush).1, hr, hk⟩

/-- Going on with the arguments of a call.  Every parameter is bound already or has its
argument pending. -/
theorem supply_fit {invocation : Invocation} {record : Record} {pending : List (String × Expr)}
    {k : ValueCont} (hi : invocation.Fit table) (hk : k.Fit table todo stack.records)
    (hlinked : ∀ a ∈ pending, a.2.Linked table)
    (hbound : ∀ x ∈ invocation.symbol.params.map (·.name),
      x ∈ pending.map (·.1) ∨ ∃ v, record.get? x = some v) :
    (supply invocation record pending k stack).Fit table todo := by
  cases pending with
  | nil =>
    refine enterBody_fit hi hk fun x hx => ?_
    rcases hbound x hx with h | h
    · cases h
    · exact h
  | cons first rest =>
    obtain ⟨param, arg⟩ := first
    rw [List.forall_mem_cons] at hlinked
    refine go_fit ⟨hlinked.1, hi, fun x hx => ?_, hlinked.2, hk⟩
    rcases hbound x hx with h | h
    · rcases List.mem_cons.mp h with h | h
      · exact .inl h
      · exact .inr (.inl h)
    · exact .inr (.inr h)

theorem allLinked_iff {es : List Expr} :
    Expr.AllLinked table es ↔ ∀ e ∈ es, e.Linked table := by
  induction es with
  | nil => simp [Expr.AllLinked]
  | cons e es ih => rw [Expr.AllLinked, ih, List.forall_mem_cons]

/-- Beginning a call that can be carried out.  There is an argument for every parameter, so
pairing them up drops none. -/
theorem beginCall_fit (hbodies : table.BodiesFit) {args : List Expr} {mark : Option ProcedureSymbol}
    {k : ValueCont} (hs : table.Serves mark args.length) (hargs : Expr.AllLinked table args)
    (hk : k.Fit table todo stack.records) (name : String) (site : Span) :
    (beginCall table name args mark site k stack).Fit table todo := by
  obtain ⟨symbol, q, rfl, hq, hparams, hlength⟩ := hs
  simp only [beginCall, hq]
  refine supply_fit ⟨⟨q, hq, rfl, hparams⟩, hbodies _ q hq⟩ hk (fun a ha => ?_) fun x hx => ?_
  · exact allLinked_iff.mp hargs a.2 (List.of_mem_zip ha).2
  · left
    rwa [List.map_fst_zip]
    rw [hparams, List.length_map, hlength]

theorem stepEval_fit (hbodies : table.BodiesFit) {e : Expr} {k : ValueCont} (he : e.Linked table)
    (hk : k.Fit table todo stack.records) : (stepEval table k stack e).Fit table todo := by
  cases e with
  | number => exact go_fit hk
  | var name site => exact readName_fit hk name site
  | unary => exact go_fit ⟨he, hk⟩
  | binary => exact go_fit ⟨he.1, he.2, hk⟩
  | call name args mark site => exact beginCall_fit hbodies he.1 he.2 hk name site

theorem stepExec_fit (hbodies : table.BodiesFit) {s : Stmt} {k : FlowCont} {l p : Bool}
    (hs : s.Fit table l p) (hk : k.Fit table todo l p stack.records) :
    (stepExec table k stack s).Fit table todo := by
  cases s with
  | compound body => exact go_fit ⟨l, p, trivial, hs, .inr hk⟩
  | declaration name type site => exact set_fit hk name (.zero type) site
  | assign name value site => exact go_fit ⟨hs, l, p, hk⟩
  | call name args mark site =>
    have hdiscard : (ValueCont.discard k).Fit table todo stack.records := ⟨l, p, hk⟩
    exact beginCall_fit hbodies hs.1 hs.2 hdiscard name site
  | conditional => exact go_fit ⟨hs.1, l, p, hs.2.1, hs.2.2, hk⟩
  | whileLoop => exact go_fit ⟨hs.1, l, p, ⟨hs.1, hs.2, trivial⟩, hk⟩
  | doWhile => exact go_fit ⟨true, p, hs.2, ⟨hs.1, hs.2, trivial⟩, l, hk⟩
  | forLoop =>
    obtain ⟨hinit, htest, hstep, hbody⟩ := hs
    exact go_fit ⟨false, false, hinit, rfl, rfl, l, p, ⟨htest, hbody, hstep⟩, hk⟩
  | giveBack =>
    obtain ⟨rfl, hvalue⟩ := hs
    exact go_fit ⟨hvalue, l, hk⟩
  | breakLoop => exact go_fit ⟨l, p, hs, hk⟩
  | continueLoop => exact go_fit ⟨l, p, hs, hk⟩
  | pass => exact go_fit ⟨l, p, trivial, hk⟩
  | procedure => exact go_fit ⟨l, p, trivial, hk⟩

theorem stepValue_fit {k : ValueCont} (hk : k.Fit table todo stack.records) (v : Value) :
    (stepValue v stack k).Fit table todo := by
  cases k with
  | done => exact hk.elim
  | assign name site next =>
    obtain ⟨l, p, hk⟩ := hk
    exact set_fit hk name v site
  | discard =>
    obtain ⟨l, p, hk⟩ := hk
    exact go_fit ⟨l, p, trivial, hk⟩
  | choose body otherwise next =>
    obtain ⟨l, p, hbody, hother, hk⟩ := hk
    cases otherwise with
    | some stmt =>
      rw [stepValue]
      split
      · exact go_fit ⟨l, p, hbody, hk⟩
      · exact go_fit ⟨l, p, hother, hk⟩
    | none =>
      rw [stepValue]
      split
      · exact go_fit ⟨l, p, hbody, hk⟩
      · exact go_fit ⟨l, p, trivial, hk⟩
  | test loop next =>
    obtain ⟨l, p, hloop, hk⟩ := hk
    rw [stepValue]
    split
    · exact go_fit ⟨true, p, hloop.body, hloop, l, hk⟩
    · exact go_fit ⟨l, p, trivial, hk⟩
  | giveBack site next =>
    obtain ⟨l, hk⟩ := hk
    have hf : (Flow.returned v).Allowed l true := rfl
    exact update_fit (fun r => { r with returned := some v }) hf hk (fun _ _ h => h)
      (by rintro ⟨⟩) site
  | unary op site next =>
    have hnext : next.Fit table todo stack.records := hk
    exact operate_fit hnext _ _ site
  | leftOperand => exact go_fit hk
  | rightOperand op lhs site next =>
    have hnext : next.Fit table todo stack.records := hk
    exact operate_fit hnext _ _ site
  | argument invocation record param pending next =>
    obtain ⟨hi, hbound, hlinked, hk⟩ := hk
    refine supply_fit hi hk hlinked fun x hx => ?_
    rcases hbound x hx with rfl | h | h
    · exact .inr ⟨v, record.get?_set_self x v⟩
    · exact .inl h
    · exact .inr (Record.exists_get?_set h param v)

/-- A call ends: its record goes, and below it is what the caller left. -/
theorem endCall_fit {invocation : Invocation} {f : Flow} {k : ValueCont} {r : Record}
    {rest : List Record} (hr : stack.records = r :: rest) (hk : k.Fit table todo rest) :
    (endCall invocation f k stack).Fit table todo := by
  obtain ⟨t, ht, hrecords⟩ := CallStack.pop?_of_cons hr
  have hnext : ∀ v events, (Transition.next events ⟨.value v k, t⟩).Fit table todo := by
    intro v events
    refine .inl (.inl ?_)
    rw [hrecords]
    exact hk
  rw [endCall, dropRecord, ht]
  cases f <;> cases invocation.symbol.returnType <;> first | exact hnext _ _ | trivial

theorem stepFlow_fit {f : Flow} {k : FlowCont} {l p : Bool} (hf : f.Allowed l p)
    (hk : k.Fit table todo l p stack.records) : (stepFlow f stack k).Fit table todo := by
  cases k with
  | done => exact hk.elim
  | sequence rest next =>
    obtain ⟨hrest, ⟨rfl, rfl, rfl, rfl, hr⟩ | hk⟩ := hk
    · -- The rest of the program: nothing but an ordinary end of a statement arrives here.
      cases f with
      | completed =>
        cases rest with
        | nil => exact .inl (.inr ⟨rfl, rfl, hr⟩)
        | cons stmt rest =>
          refine .inr ⟨stmt, rest, rfl, rfl, .inl ⟨false, false, hrest.1, hrest.2, .inl ?_⟩⟩
          exact ⟨rfl, rfl, rfl, rfl, hr⟩
      | _ => cases hf
    · cases f with
      | completed =>
        cases rest with
        | nil => exact go_fit ⟨l, p, trivial, hk⟩
        | cons stmt rest => exact go_fit ⟨l, p, hrest.1, hrest.2, .inr hk⟩
      | _ => exact go_fit ⟨l, p, hf, hk⟩
  | round loop next =>
    obtain ⟨hloop, l', hk⟩ := hk
    -- After a round the loop goes on, unless it is left for good.
    have hagain : ∀ f : Flow, (f = .completed ∨ f = .continued) →
        (stepFlow f stack (.round loop next)).Fit table todo := by
      obtain ⟨test, body, step⟩ := loop
      rintro f (rfl | rfl)
      all_goals
        cases step with
        | none => exact go_fit ⟨hloop.test, l', p, hloop, hk⟩
        | some stmt => exact go_fit ⟨false, false, hloop.step, rfl, rfl, l', p, hloop, hk⟩
    cases f with
    | completed => exact hagain _ (.inl rfl)
    | continued => exact hagain _ (.inr rfl)
    | broke => exact go_fit ⟨l', p, trivial, hk⟩
    | returned v => exact go_fit ⟨l', p, hf, hk⟩
  | again loop next =>
    obtain ⟨_, _, l', p', hloop, hk⟩ := hk
    exact go_fit ⟨hloop.test, l', p', hloop, hk⟩
  | invoked invocation next =>
    obtain ⟨_, hi, r, rest, hr, _, hk⟩ := hk
    exact endCall_fit hr hk

/-- **One step.**  A fit state makes a fit step. -/
theorem step_fit (hbodies : table.BodiesFit) {s : MachineState} (h : s.Fit table todo) :
    (step table s).Fit table todo := by
  obtain ⟨control, stack⟩ := s
  rcases h with h | ⟨rfl, hcontrol, hrecords⟩
  · cases control with
    | eval e k => exact stepEval_fit hbodies h.1 h.2
    | exec s k =>
      obtain ⟨l, p, hs, hk⟩ := h
      exact stepExec_fit hbodies hs hk
    | value v k => exact stepValue_fit h v
    | flow f k =>
      obtain ⟨l, p, hf, hk⟩ := h
      exact stepFlow_fit hf hk
  · obtain rfl : control = .flow .completed .done := hcontrol
    exact ⟨rfl, rfl, hrecords⟩

/-! ## Whole runs -/

/-- From one state the machine comes to another, in any number of steps. -/
def Reaches (table : ProcedureTable) : MachineState → MachineState → Prop :=
  Relation.ReflTransGen fun s t => ∃ events, step table s = .next events t

/-- Every state that a fit state leads to is fit. -/
theorem fit_of_reaches (hbodies : table.BodiesFit) {s t : MachineState} (h : s.Fit table todo)
    (hr : Reaches table s t) : ∃ rest, t.Fit table rest := by
  induction hr with
  | refl => exact ⟨todo, h⟩
  | tail _ hstep ih =>
    obtain ⟨rest, hfit⟩ := ih
    obtain ⟨events, hstep⟩ := hstep
    have hnext := step_fit hbodies hfit
    rw [hstep] at hnext
    rcases hnext with hnext | ⟨_, rest', _, _, hnext⟩
    · exact ⟨rest, hnext⟩
    · exact ⟨rest', hnext⟩

/-- A run that starts in a fit state and halts has failed on its own account, or it has begun
every statement that was to do and has come to the end of the program. -/
theorem run_fit (hbodies : table.BodiesFit) {σ : Type} {observe : σ → Event → σ} {fuel : Nat}
    {seen seen' : σ} {s : MachineState} {outcome : Outcome} (h : s.Fit table todo)
    (hrun : run observe table fuel seen s = some (seen', outcome, stack)) :
    (∃ e, outcome = .failure e ∧ e.cause.Benign)
      ∨ outcome = .flow .completed ∧ (∃ r, stack.records = [r] ∧ r.IsProgram)
        ∧ ∀ (i : Nat) (stmt : Stmt), todo[i]? = some stmt → ∃ t, Reaches table s t
          ∧ t.control = .exec stmt (.sequence (todo.drop (i + 1)) .done) := by
  induction fuel generalizing seen s todo with
  | zero => cases hrun
  | succ fuel ih =>
    have hstep := step_fit hbodies h
    rw [run] at hrun
    cases hs : step table s with
    | halt events outcome' stack' =>
      rw [hs] at hrun hstep
      cases hrun
      cases outcome with
      | failure e => exact .inl ⟨e, rfl, hstep⟩
      | value v => exact hstep.elim
      | flow f =>
        obtain ⟨rfl, rfl, hrecords⟩ := hstep
        exact .inr ⟨rfl, hrecords, fun i stmt hi => by cases hi⟩
    | next events s₁ =>
      rw [hs] at hrun hstep
      have hone : Reaches table s s₁ := .single ⟨events, hs⟩
      rcases hstep with hstep | ⟨stmt₀, rest, rfl, hcontrol, hstep⟩
      · rcases ih hstep hrun with hfail | ⟨hend, hrecords, hall⟩
        · exact .inl hfail
        · refine .inr ⟨hend, hrecords, fun i stmt hi => ?_⟩
          obtain ⟨t, ht, hcontrol⟩ := hall i stmt hi
          exact ⟨t, hone.trans ht, hcontrol⟩
      · rcases ih hstep hrun with hfail | ⟨hend, hrecords, hall⟩
        · exact .inl hfail
        · refine .inr ⟨hend, hrecords, fun i stmt hi => ?_⟩
          cases i with
          | zero =>
            cases hi
            exact ⟨s₁, hone, hcontrol⟩
          | succ i =>
            obtain ⟨t, ht, hcontrol⟩ := hall i stmt hi
            exact ⟨t, hone.trans ht, hcontrol⟩

end Machine

/-! ## Programs -/

/-- A state that running the module leads to, whatever the interpreter has done before. -/
def Interpreter.Visits (i : Interpreter) (m : Module) (s : MachineState) : Prop :=
  ∃ pushed, i.stack.cleared.push? programRecord = some pushed
    ∧ Machine.Reaches (.ofModule m) ⟨.flow .completed (.sequence m.body .done), pushed⟩ s

/-- Nothing goes wrong in the state that analysis was to rule out. -/
structure MachineState.Sound (table : ProcedureTable) (s : MachineState) : Prop where
  /-- The body of a procedure does not end with a jump. -/
  jumps : ∀ f invocation k, s.control = .flow f (.invoked invocation k) →
    f ≠ .broke ∧ f ≠ .continued
  /-- The body of the program ends neither with a jump nor with a return. -/
  ends : ∀ f, s.control = .flow f .done → f = .completed
  /-- A call that is about to be made leads to a definition and has an argument for every
  parameter, so pairing them up drops none. -/
  calls : ∀ name args mark site,
    ((∃ k, s.control = .eval (.call name args mark site) k)
      ∨ ∃ k, s.control = .exec (.call name args mark site) k) →
    ∃ symbol procedure, mark = some symbol ∧ table.find? symbol.id = some procedure
      ∧ symbol.params.map (·.name) = procedure.params.map (·.name)
      ∧ procedure.params.length = args.length
  /-- When the body of a procedure is entered, the innermost record binds every formal
  parameter of its definition. -/
  bound : ∀ invocation k,
    s.control = .flow .completed (.sequence invocation.body (.invoked invocation k)) →
    ∃ procedure record rest, table.find? invocation.symbol.id = some procedure
      ∧ invocation.body = procedure.body ∧ s.stack.records = record :: rest
      ∧ ∀ p ∈ procedure.params, ∃ v, record.get? p.name = some v

theorem MachineState.Fit.sound {table : ProcedureTable} {todo : List Stmt} {s : MachineState}
    (h : s.Fit table todo) : s.Sound table := by
  rcases h with h | ⟨_, hcontrol, _⟩
  · refine ⟨fun f invocation k hc => ?_, fun f hc => ?_, fun name args mark site hc => ?_,
      fun invocation k hc => ?_⟩
    · rw [hc] at h
      obtain ⟨l, p, hf, rfl, _⟩ := h
      constructor
      · rintro rfl
        cases hf
      · rintro rfl
        cases hf
    · rw [hc] at h
      obtain ⟨_, _, _, h⟩ := h
      exact h.elim
    · rcases hc with ⟨k, hc⟩ | ⟨k, hc⟩
      · rw [hc] at h
        exact h.1.1
      · rw [hc] at h
        obtain ⟨_, _, hs, _⟩ := h
        exact hs.1
    · rw [hc] at h
      obtain ⟨_, _, _, _, ⟨e, _⟩ | ⟨_, hi, record, rest, hr, hbinds, _⟩⟩ := h
      · cases e
      · obtain ⟨procedure, hfind, hbody, hparams⟩ := hi.definition
        refine ⟨procedure, record, rest, hfind, hbody, hr, fun p hp => hbinds p.name ?_⟩
        rw [hparams]
        exact List.mem_map_of_mem hp
  · -- At the end of the program there is nothing left that could go wrong.
    refine ⟨fun f invocation k hc => ?_, fun f hc => ?_, fun name args mark site hc => ?_,
      fun invocation k hc => ?_⟩
    · rw [hcontrol] at hc
      cases hc
    · rw [hcontrol] at hc
      cases hc
      rfl
    · rcases hc with ⟨k, hc⟩ | ⟨k, hc⟩
      · rw [hcontrol] at hc
        cases hc
      · rw [hcontrol] at hc
        cases hc
    · rw [hcontrol] at hc
      cases hc

/-- The bodies that calls lead to are fit. -/
theorem Module.Fit.bodies {m : Module} (h : m.Fit) : (ProcedureTable.ofModule m).BodiesFit :=
  fun _ q hq => h.procedures q (List.mem_reverse.mp (List.mem_of_find?_eq_some hq))

/-- A fit module starts in a fit state. -/
theorem Module.Fit.start {m : Module} (h : m.Fit) {stack pushed : CallStack}
    (hs : stack.records = []) (hpush : stack.push? Interpreter.programRecord = some pushed) :
    MachineState.Fit (.ofModule m) m.body
      ⟨.flow .completed (.sequence m.body .done), pushed⟩ := by
  have hrecords := (CallStack.records_of_push? hpush).1
  rw [hs] at hrecords
  refine .inl ⟨false, false, trivial, h.body, .inl ⟨rfl, rfl, rfl, rfl, ?_⟩⟩
  exact ⟨Interpreter.programRecord, hrecords, rfl, rfl, rfl, rfl⟩

/-- How a fit module runs: it fails on its own account, or it begins every statement of the
program and gives back the record of the program. -/
theorem Module.Fit.interpret {m : Module} (h : m.Fit) {i : Interpreter} {σ : Type}
    {observe : σ → Event → σ} {seen : σ} {fuel : Nat} {run : Run σ}
    (hrun : i.interpret observe seen fuel m = some run) :
    (∃ e, run.result = .error e ∧ e.cause.Benign)
      ∨ ∃ record, run.result = .ok record ∧ record.IsProgram
        ∧ ∀ (j : Nat) (stmt : Stmt), m.body[j]? = some stmt →
          ∃ s, i.Visits m s ∧ s.control = .exec stmt (.sequence (m.body.drop (j + 1)) .done) := by
  rw [Interpreter.interpret] at hrun
  cases hpush : i.stack.cleared.push? Interpreter.programRecord with
  | none =>
    rw [hpush] at hrun
    cases hrun
    exact .inl ⟨_, rfl, trivial⟩
  | some pushed =>
    rw [hpush] at hrun
    dsimp only at hrun
    split at hrun
    · cases hrun
    · next seen' outcome stack hmachine =>
      cases hrun
      rcases Machine.run_fit h.bodies (h.start rfl hpush) hmachine with
        ⟨e, rfl, he⟩ | ⟨rfl, ⟨r, hr, hprogram⟩, hall⟩
      · exact .inl ⟨e, rfl, he⟩
      · obtain ⟨t, ht, _⟩ := CallStack.pop?_of_cons hr
        have hresult : (Interpreter.conclude (.flow .completed) stack).1 = .ok r := by
          rw [Interpreter.conclude, ht]
        refine .inr ⟨r, hresult, hprogram, fun j stmt hj => ?_⟩
        obtain ⟨s, hs, hcontrol⟩ := hall j stmt hj
        exact ⟨s, ⟨pushed, hpush, hs⟩, hcontrol⟩

/-- **Runs of analysed programs are safe.**  Take a text that parses and comes through
analysis.  In every state that running it leads to, no jump leaves the body of a procedure, the
program ends neither with a jump nor with a return, calls lead to definitions, and every
parameter is bound when a body is entered.  A run that ends with a failure does so for a reason
other than an unresolved call or an empty call stack; a run that succeeds has begun every
statement of the program, and gives back the record of the program, which has returned
nothing. -/
theorem Module.analysed_runs_safely (text : String) (m : Module)
    (hparse : Module.parse text = .ok m) (hverdict : m.analyze.verdict = .ok ())
    (i : Interpreter) :
    (∀ s, i.Visits m.analyze.module s → s.Sound (.ofModule m.analyze.module))
      ∧ ∀ (σ : Type) (observe : σ → Event → σ) (seen : σ) (fuel : Nat) (run : Run σ),
        i.interpret observe seen fuel m.analyze.module = some run →
        (∀ e, run.result = .error e →
          (∀ name, e.cause ≠ .unresolvedCall name) ∧ e.cause ≠ .emptyCallStack)
        ∧ ∀ record, run.result = .ok record →
          record.name = "program" ∧ record.kind = .program ∧ record.level = 1
          ∧ record.returned = none
          ∧ ∀ (j : Nat) (stmt : Stmt), m.analyze.module.body[j]? = some stmt →
            ∃ s, i.Visits m.analyze.module s
              ∧ s.control = .exec stmt
                (.sequence (m.analyze.module.body.drop (j + 1)) .done) := by
  have hfit := Module.fit_of_analysis hparse hverdict
  constructor
  · rintro s ⟨pushed, hpush, hreach⟩
    obtain ⟨rest, hs⟩ := Machine.fit_of_reaches hfit.bodies (hfit.start rfl hpush) hreach
    exact hs.sound
  · intro σ observe seen fuel run hrun
    rcases hfit.interpret hrun with ⟨e, he, hbenign⟩ | ⟨record, hrecord, hprogram, hall⟩
    · rw [he]
      constructor
      · rintro _ ⟨rfl⟩
        constructor
        · intro name hcause
          rw [hcause] at hbenign
          exact hbenign
        · intro hcause
          rw [hcause] at hbenign
          exact hbenign
      · rintro _ ⟨⟩
    · rw [hrecord]
      constructor
      · rintro _ ⟨⟩
      · rintro _ ⟨rfl⟩
        exact ⟨hprogram.name_eq, hprogram.kind_eq, hprogram.level_eq, hprogram.returned_eq, hall⟩

set_option maxRecDepth 10000 in
/-- A program with a call out of a procedure with a loop that is left by a jump: it comes
through analysis, and its run ends with the record of the program after all three statements
have been begun. -/
theorem Module.analysed_runs_safely_call :
    ∃ text m run record, text =
        "def int f(int x) \x7b while (1) \x7b break; \x7d return x; \x7d int y; y = f(2);"
      ∧ Module.parse text = .ok m ∧ m.analyze.verdict = .ok ()
      ∧ (∀ s, (Interpreter.new 8).Visits m.analyze.module s →
        s.Sound (.ofModule m.analyze.module))
      ∧ (Interpreter.new 8).interpret (fun _ _ => ()) () 100 m.analyze.module = some run
      ∧ run.result = .ok record ∧ record.name = "program" ∧ record.returned = none
      ∧ ∀ (j : Nat) (stmt : Stmt), m.analyze.module.body[j]? = some stmt →
        ∃ s, (Interpreter.new 8).Visits m.analyze.module s
          ∧ s.control = .exec stmt (.sequence (m.analyze.module.body.drop (j + 1)) .done) := by
  have accepted : (match Module.parse
      "def int f(int x) \x7b while (1) \x7b break; \x7d return x; \x7d int y; y = f(2);" with
      | .ok m => m.analyze.verdict.isOk
        && ((Interpreter.new 8).interpret (fun _ _ => ()) () 100 m.analyze.module).any
          (·.result.isOk)
      | .error _ => false) = true := by cbv
  cases hparse : Module.parse
      "def int f(int x) \x7b while (1) \x7b break; \x7d return x; \x7d int y; y = f(2);" with
  | error e =>
    rw [hparse] at accepted
    cases accepted
  | ok m =>
    rw [hparse, Bool.and_eq_true, Option.any_eq_true] at accepted
    obtain ⟨hok, run, hrun, hresult⟩ := accepted
    have hverdict : m.analyze.verdict = .ok () := by
      cases hv : m.analyze.verdict with
      | ok _ => rfl
      | error e =>
        rw [hv] at hok
        cases hok
    cases hr : run.result with
    | error e =>
      rw [hr] at hresult
      cases hresult
    | ok record =>
      obtain ⟨hsound, hends⟩ :=
        Module.analysed_runs_safely _ m hparse hverdict (Interpreter.new 8)
      obtain ⟨hname, _, _, hreturned, hall⟩ := (hends _ _ _ _ run hrun).2 record hr
      exact ⟨_, m, run, record, rfl, hparse, hverdict, hsound, hrun, hr, hname, hreturned, hall⟩

end Imperative
