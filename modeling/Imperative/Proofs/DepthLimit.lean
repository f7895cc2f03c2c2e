import Imperative.Proofs.Lockstep
import Imperative.Proofs.SafeRuns

/-!
# The limit of the call stack is a threshold

A run looks at the limit of its stack only when it enters a body.  So a run that was not stopped
by the limit goes the same way under every other limit, up to the first body for which there is
no room.  There is such a body exactly when the limit is below the *peak* of the run, which is
the largest number of records on its stack (`Machine.Halts.exists_peak`).

The peak is read off the run that is given, and the other runs are compared with it step by
step.  They are in lockstep as long as both stacks take every record.
-/

namespace Imperative

/-- The run was stopped by the limit of its stack, which was `limit`. -/
def Outcome.ExhaustedAt (limit : Nat) (o : Outcome) : Prop :=
  ∃ name site, o = .failure ⟨.stackExhausted name limit, site⟩

/-- The step was stopped by the limit of the stack, which was `limit`. -/
def Transition.ExhaustedAt (limit : Nat) : Transition → Prop
  | .next .. => False
  | .halt _ o _ => o.ExhaustedAt limit

/-! ## The height of the stack -/

namespace Machine

theorem length_update_le (change : Record → Record) (f : Flow) (site : Span) (next : FlowCont)
    (stack : CallStack) :
    (update change f site next stack).stack.records.length ≤ stack.records.length := by
  rw [update]
  split
  · next h => exact (CallStack.length_of_modifyTop? h).le
  · exact le_rfl

theorem length_endCall_le (invocation : Invocation) (f : Flow) (next : ValueCont)
    (stack : CallStack) :
    (endCall invocation f next stack).stack.records.length ≤ stack.records.length := by
  have hdrop : (dropRecord stack).2.records.length ≤ stack.records.length := by
    rw [dropRecord]
    split
    · exact le_rfl
    · next h => exact (CallStack.length_of_pop? h).le.trans' (Nat.le_succ _)
  rcases endCall_cases invocation f next with ⟨v, hend⟩ | ⟨e, hend⟩
  · rw [hend]
    exact hdrop
  · rw [hend]
    exact hdrop

end Machine

/-- Only entering a body puts a record on the stack. -/
theorem Action.length_perform_le {a : Action}
    (ha : ∀ invocation record next, a ≠ .enter invocation record next) (stack : CallStack) :
    (a.perform stack).stack.records.length ≤ stack.records.length := by
  cases a with
  | go control => exact le_rfl
  | halt outcome => exact le_rfl
  | read name site next =>
    rw [perform, Machine.readName]
    split
    · exact le_rfl
    · split <;> exact le_rfl
  | bind name v site next => exact Machine.length_update_le ..
  | giveBack v site next => exact Machine.length_update_le ..
  | enter invocation record next => exact absurd rfl (ha invocation record next)
  | leave invocation f next => exact Machine.length_endCall_le ..

/-- The numbers of records on the stack while the machine runs on from a state. -/
def Machine.heights (table : ProcedureTable) (s : MachineState) : Set Nat :=
  {n | ∃ t, Reaches table s t ∧ t.stack.records.length = n}

namespace Machine

variable {table : ProcedureTable} {s s' : MachineState} {events : List Event}

theorem heights_of_halt {o : Outcome} {t : CallStack} (h : step table s = .halt events o t) :
    heights table s = {s.stack.records.length} := by
  ext n
  constructor
  · rintro ⟨u, hreach, rfl⟩
    rcases hreach.cases_head with rfl | ⟨s', ⟨events', hstep⟩, -⟩
    · rfl
    · rw [h] at hstep
      cases hstep
  · rintro rfl
    exact ⟨s, .refl, rfl⟩

theorem heights_of_next (h : step table s = .next events s') :
    heights table s = insert s.stack.records.length (heights table s') := by
  ext n
  constructor
  · rintro ⟨u, hreach, rfl⟩
    rcases hreach.cases_head with rfl | ⟨s'', ⟨events', hstep⟩, hrest⟩
    · exact .inl rfl
    · rw [h] at hstep
      cases hstep
      exact .inr ⟨u, hrest, rfl⟩
  · rintro (rfl | ⟨u, hreach, rfl⟩)
    · exact ⟨s, .refl, rfl⟩
    · exact ⟨u, .head ⟨events, h⟩ hreach, rfl⟩

/-! ## One step, one run -/

theorem enterBody_of_full {stack : CallStack} {record : Record} (h : stack.push? record = none)
    (invocation : Invocation) (next : ValueCont) :
    (enterBody invocation record next stack).ExhaustedAt stack.limit := by
  rw [enterBody, h]
  exact ⟨_, _, rfl⟩

/-- A run whose first step is stopped by the limit. -/
theorem exists_halts_of_exhaustedAt {limit : Nat} (h : (step table s).ExhaustedAt limit) :
    ∃ o t, Halts table s o t ∧ o.ExhaustedAt limit := by
  cases hstep : step table s with
  | next =>
    rw [hstep] at h
    exact h.elim
  | halt events o t =>
    rw [hstep] at h
    exact ⟨o, t, .now hstep, h⟩

/-- A step that was not stopped by the limit, under another limit: it is alike and leads to no
more records than the other limit allows, or it enters a body for which there is no room. -/
theorem step_under_limit {c : Control} {stack stack' : CallStack}
    (h : stack.Shares (c.calls + 1) stack') (hroom : stack'.records.length ≤ stack'.limit)
    (hok : ∀ limit, ¬ (step table ⟨c, stack⟩).ExhaustedAt limit) :
    ((step table ⟨c, stack⟩).Alike (step table ⟨c, stack'⟩)
        ∧ (step table ⟨c, stack⟩).stack.records.length ≤ stack'.limit)
      ∨ (∃ events next, step table ⟨c, stack⟩ = .next events next
          ∧ stack'.limit < next.stack.records.length)
        ∧ (step table ⟨c, stack'⟩).ExhaustedAt stack'.limit := by
  have hn := c.action_during table
  simp only [step_eq_perform] at hok ⊢
  by_cases henters : ∃ invocation record next, c.action table = .enter invocation record next
  · obtain ⟨invocation, record, next, ha⟩ := henters
    rw [ha] at hn hok ⊢
    have hcalls : next.calls = c.calls := hn
    rw [← hcalls] at h
    cases ht : stack.push? record with
    | none => exact absurd (enterBody_of_full ht invocation next) (hok stack.limit)
    | some t =>
      obtain ⟨events, hnext⟩ : ∃ events, (Action.enter invocation record next).perform stack =
          .next events
            ⟨.flow .completed (.sequence invocation.body (.invoked invocation next)), t⟩ := by
        rw [Action.perform, enterBody, ht]
        exact ⟨_, rfl⟩
      have hlength : t.records.length = stack'.records.length + 1 := by
        rw [(CallStack.records_of_push? ht).1, List.length_cons, h.length_eq]
      cases ht' : stack'.push? record with
      | none =>
        have hfull := (CallStack.push?_eq_none_iff stack' record).mp ht'
        refine .inr ⟨⟨events, _, hnext, ?_⟩, enterBody_of_full ht' invocation next⟩
        rw [hlength]
        exact Nat.lt_succ_of_le hfull
      | some t' =>
        have hfree : ¬ stack'.limit ≤ stack'.records.length := by
          rw [← CallStack.push?_eq_none_iff stack' record, ht']
          exact Option.some_ne_none t'
        refine .inl ⟨enterBody_alike h ht ht' invocation, ?_⟩
        rw [hnext, Transition.stack, hlength]
        exact Nat.lt_of_not_le hfree
  · have hother : ∀ invocation record next, c.action table ≠ .enter invocation record next :=
      fun invocation record next ha => henters ⟨invocation, record, next, ha⟩
    refine .inl ⟨Action.perform_alike hn h hother, ?_⟩
    exact (Action.length_perform_le hother stack).trans (h.length_eq ▸ hroom)

/-- What becomes of a run with the outcome `o` and the stack `t`, if it starts on another stack:
it comes to the same end if the limit there is not below the peak, and otherwise it is stopped
by the limit. -/
def Threshold (table : ProcedureTable) (c : Control) (o : Outcome) (t : CallStack) (peak : Nat)
    (stack : CallStack) : Prop :=
  (peak ≤ stack.limit →
      ∃ t', Halts table ⟨c, stack⟩ o t' ∧ ((∀ e, o ≠ .failure e) → t.Shares 1 t'))
    ∧ (stack.limit < peak →
      ∃ o' t', Halts table ⟨c, stack⟩ o' t' ∧ o'.ExhaustedAt stack.limit)

/-- **The peak of a run.**  A run that was not stopped by the limit has a peak, and it comes to
the same end under every limit from there on, and is stopped by every limit below. -/
theorem Halts.exists_peak {o : Outcome} {t : CallStack} (hrun : Halts table s o t)
    (ho : ∀ limit, ¬ o.ExhaustedAt limit) :
    ∃ peak, IsGreatest (heights table s) peak
      ∧ ∀ stack, s.stack.Shares (s.control.calls + 1) stack →
        stack.records.length ≤ stack.limit → Threshold table s.control o t peak stack := by
  induction hrun with
  | @now s events o t hstep =>
    refine ⟨s.stack.records.length, ?_, fun stack hshares hroom => ⟨fun _ => ?_, fun hlow => ?_⟩⟩
    · rw [heights_of_halt hstep]
      exact isGreatest_singleton
    · have hok : ∀ limit, ¬ (step table s).ExhaustedAt limit := by
        rw [hstep]
        exact ho
      rcases step_under_limit hshares hroom hok with ⟨halike, -⟩ | ⟨⟨_, _, hnext, -⟩, -⟩
      · rw [hstep] at halike
        obtain ⟨events', t', hstep', hend⟩ := halike.eq_halt
        exact ⟨t', .now hstep', hend⟩
      · rw [hstep] at hnext
        cases hnext
    · rw [hshares.length_eq] at hlow
      exact absurd hroom (Nat.not_le_of_lt hlow)
  | @later s next events o t hstep rest ih =>
    obtain ⟨peak, hpeak, hthreshold⟩ := ih ho
    refine ⟨max s.stack.records.length peak, ?_, fun stack hshares hroom => ?_⟩
    · rw [heights_of_next hstep]
      exact hpeak.insert _
    have hok : ∀ limit, ¬ (step table s).ExhaustedAt limit := by
      rw [hstep]
      exact fun _ => id
    rcases step_under_limit hshares hroom hok with
      ⟨halike, hheight⟩ | ⟨⟨_, _, hnext, hhigh⟩, hstopped⟩
    · have hlimit := limit_step table ⟨s.control, stack⟩
      rw [hstep] at halike hheight
      obtain ⟨events', stack', hstep', hnext⟩ := halike.eq_next
      rw [hstep'] at hlimit
      dsimp only [Transition.stack] at hlimit hheight
      rw [hnext.length_eq, ← hlimit] at hheight
      obtain ⟨hsame, hstopped⟩ := hthreshold stack' hnext hheight
      rw [hlimit] at hsame hstopped
      rw [hshares.length_eq]
      constructor
      · intro hlow
        obtain ⟨t', hhalts, hend⟩ := hsame (le_of_max_le_right hlow)
        exact ⟨t', .later hstep' hhalts, hend⟩
      · intro hhigh
        obtain ⟨o', t', hhalts, ho'⟩ := hstopped ((lt_max_iff.mp hhigh).resolve_left hroom.not_gt)
        exact ⟨o', t', .later hstep' hhalts, ho'⟩
    · rw [hstep] at hnext
      cases hnext
      -- the record that is refused here is on the stack of the given run
      have hreached : next.stack.records.length ≤ peak := hpeak.2 ⟨next, .refl, rfl⟩
      refine ⟨fun hlow => ?_, fun _ => exists_halts_of_exhaustedAt hstopped⟩
      exact absurd (hhigh.trans_le hreached) (le_of_max_le_right hlow).not_gt

end Machine

/-! ## Programs -/

/-- A run that comes to a halt does so in a state that it leads to. -/
theorem Machine.Halts.exists_last {table : ProcedureTable} {s : MachineState} {o : Outcome}
    {t : CallStack} (h : Halts table s o t) :
    ∃ s' events, Reaches table s s' ∧ step table s' = .halt events o t := by
  induction h with
  | @now s events o t hstep => exact ⟨s, events, .refl, hstep⟩
  | @later s s₁ events o t hstep _ ih =>
    obtain ⟨s', events', hreach, hhalt⟩ := ih
    exact ⟨s', events', .head ⟨events, hstep⟩ hreach, hhalt⟩

namespace Interpreter

/-- Running the module comes to an end with the result, whoever observes the run. -/
def Gives (i : Interpreter) (m : Module) (result : Except RuntimeError Record) : Prop :=
  ∀ (σ : Type) (observe : σ → Event → σ) (seen : σ), ∃ fuel run,
    i.interpret observe seen fuel m = some run ∧ run.result = result

variable {i : Interpreter} {m : Module} {pushed : CallStack}

/-- The state in which the program starts. -/
def start (m : Module) (pushed : CallStack) : MachineState :=
  ⟨.flow .completed (.sequence m.body .done), pushed⟩

theorem gives_of_halts (hpush : i.stack.cleared.push? programRecord = some pushed) {o : Outcome}
    {t : CallStack} (h : Machine.Halts (.ofModule m) (start m pushed) o t) :
    i.Gives m (conclude o t).1 := by
  intro σ observe seen
  obtain ⟨fuel, seen', hrun⟩ := (Machine.halts_iff_run observe
    (observe ((clearEvents i.stack).foldl observe seen)
      (.push programRecord.name programRecord.level pushed.depth))).mp h
  rw [start] at hrun
  refine ⟨fuel, ?_⟩
  rw [interpret, hpush]
  dsimp only
  rw [hrun]
  exact ⟨_, rfl, rfl⟩

theorem gives_of_full (hpush : i.stack.cleared.push? programRecord = none) (m : Module) :
    i.Gives m (.error ⟨.stackExhausted programRecord.name i.stack.limit, programSite⟩) := by
  intro σ observe seen
  refine ⟨0, ?_⟩
  rw [interpret, hpush]
  exact ⟨_, rfl, rfl⟩

theorem exists_halts_of_interpret {σ : Type} {observe : σ → Event → σ} {seen : σ} {fuel : Nat}
    {run : Run σ} (hrun : i.interpret observe seen fuel m = some run)
    (hpush : i.stack.cleared.push? programRecord = some pushed) :
    ∃ o t, Machine.Halts (.ofModule m) (start m pushed) o t ∧ run.result = (conclude o t).1 := by
  rw [interpret, hpush] at hrun
  dsimp only at hrun
  split at hrun
  · cases hrun
  · next seen' o t hmachine =>
    cases hrun
    exact ⟨o, t, (Machine.halts_iff_run observe _).mpr ⟨fuel, seen', hmachine⟩, rfl⟩

/-- A run that fails has come to a state whose next step fails, unless it could not begin or has not
ended as a program does. -/
theorem exists_fails_of_interpret {σ : Type} {observe : σ → Event → σ} {seen : σ} {fuel : Nat}
    {run : Run σ} {e : RuntimeError} (hrun : i.interpret observe seen fuel m = some run)
    (hfail : run.result = .error e) (hfull : ∀ name limit, e.cause ≠ .stackExhausted name limit)
    (hempty : e.cause ≠ .emptyCallStack) :
    ∃ s, i.Visits m s
      ∧ ∃ events t, Machine.step (.ofModule m) s = .halt events (.failure e) t := by
  cases hpush : i.stack.cleared.push? programRecord with
  | none =>
    rw [interpret, hpush] at hrun
    cases hrun
    cases hfail
    exact (hfull _ _ rfl).elim
  | some pushed =>
    obtain ⟨o, t, hhalts, hresult⟩ := exists_halts_of_interpret hrun hpush
    obtain ⟨s, events, hreach, hstep⟩ := hhalts.exists_last
    refine ⟨s, ⟨pushed, hpush, hreach⟩, events, t, ?_⟩
    rw [hstep]
    rw [hfail] at hresult
    cases o with
    | failure e' =>
      cases hresult
      rfl
    | value v | flow f =>
      rw [conclude] at hresult
      split at hresult
      · cases hresult
        exact (hempty rfl).elim
      · cases hresult

/-- What one observer has seen come to an end, comes to that end for all. -/
theorem gives_of_interpret {σ : Type} {observe : σ → Event → σ} {seen : σ} {fuel : Nat}
    {run : Run σ} (hrun : i.interpret observe seen fuel m = some run) : i.Gives m run.result := by
  cases hpush : i.stack.cleared.push? programRecord with
  | none =>
    rw [interpret, hpush] at hrun
    cases hrun
    exact gives_of_full hpush m
  | some pushed =>
    obtain ⟨o, t, hhalts, hresult⟩ := exists_halts_of_interpret hrun hpush
    rw [hresult]
    exact gives_of_halts hpush hhalts

/-- Running a module has one result only. -/
theorem Gives.unique {r r' : Except RuntimeError Record} (h : i.Gives m r) (h' : i.Gives m r') :
    r = r' := by
  obtain ⟨fuel, run, hrun, rfl⟩ := h Unit (fun _ _ => ()) ()
  obtain ⟨fuel', run', hrun', rfl⟩ := h' Unit (fun _ _ => ()) ()
  cases hpush : i.stack.cleared.push? programRecord with
  | none =>
    rw [interpret, hpush] at hrun hrun'
    cases hrun
    cases hrun'
    rfl
  | some pushed =>
    obtain ⟨o, t, hhalts, hresult⟩ := exists_halts_of_interpret hrun hpush
    obtain ⟨o', t', hhalts', hresult'⟩ := exists_halts_of_interpret hrun' hpush
    obtain ⟨rfl, rfl⟩ := hhalts.unique hhalts'
    rw [hresult, hresult']

/-- The result of a program is its failure, or else its innermost record. -/
theorem conclude_eq_of_shares {o : Outcome} {t t' : CallStack}
    (h : (∀ e, o ≠ .failure e) → t.Shares 1 t') : (conclude o t').1 = (conclude o t).1 := by
  cases o with
  | failure e => rfl
  | value v | flow f =>
    obtain ⟨r, u, u', hu, hu', -⟩ := (h (by rintro _ ⟨⟩)).pop?
    rw [conclude, conclude, hu, hu']

/-- The numbers of records on the stack while a module runs. -/
theorem visited_heights (hpush : i.stack.cleared.push? programRecord = some pushed) (m : Module) :
    {n | ∃ s, i.Visits m s ∧ s.stack.records.length = n} =
      Machine.heights (.ofModule m) (start m pushed) := by
  ext n
  constructor
  · rintro ⟨s, ⟨pushed', hpush', hreach⟩, hn⟩
    rw [hpush] at hpush'
    cases hpush'
    exact ⟨s, hreach, hn⟩
  · rintro ⟨s, hreach, hn⟩
    exact ⟨s, ⟨pushed, hpush, hreach⟩, hn⟩

/-- **The limit is a threshold.**  Take a run of a module that comes to an end and is not
stopped by the limit of the stack.  Let `h` be the largest number of records on the stack during
that run.  Then every interpreter with a limit of `h` or more gives the same result, and every
interpreter with a lower limit stops the module with a failure that names this lower limit. -/
theorem limit_is_threshold (i : Interpreter) (m : Module) {σ : Type} (observe : σ → Event → σ)
    (seen : σ) (fuel : Nat) (run : Run σ)
    (hrun : i.interpret observe seen fuel m = some run)
    (hroom : ∀ name limit site, run.result ≠ .error ⟨.stackExhausted name limit, site⟩) :
    ∃ h, 1 ≤ h
      ∧ IsGreatest {n | ∃ s, i.Visits m s ∧ s.stack.records.length = n} h
      ∧ (∀ j : Interpreter, h ≤ j.stack.limit → j.Gives m run.result)
      ∧ ∀ j : Interpreter, j.stack.limit < h →
        ∃ name site, j.Gives m (.error ⟨.stackExhausted name j.stack.limit, site⟩) := by
  cases hpush : i.stack.cleared.push? programRecord with
  | none =>
    rw [interpret, hpush] at hrun
    cases hrun
    exact absurd rfl (hroom _ _ _)
  | some pushed =>
    obtain ⟨o, t, hhalts, hresult⟩ := exists_halts_of_interpret hrun hpush
    have ho : ∀ limit, ¬ o.ExhaustedAt limit := by
      rintro limit ⟨name, site, rfl⟩
      exact hroom name limit site hresult
    obtain ⟨h, hpeak, hthreshold⟩ := hhalts.exists_peak ho
    have hrecords : pushed.records = [programRecord] := (CallStack.records_of_push? hpush).1
    have hone : 1 ≤ h := hpeak.2 ⟨start m pushed, .refl, congrArg List.length hrecords⟩
    rw [visited_heights hpush, hresult]
    -- the run of another interpreter, once the record of the program is on its stack
    have hother : ∀ (j : Interpreter) (pushed' : CallStack),
        j.stack.cleared.push? programRecord = some pushed' → pushed'.limit = j.stack.limit
          ∧ Machine.Threshold (.ofModule m) (start m pushed).control o t h pushed' := by
      intro j pushed' hpush'
      obtain ⟨hrecords', hlimit⟩ := CallStack.records_of_push? hpush'
      have hshares : pushed.Shares 1 pushed' :=
        .refl (hrecords ▸ le_rfl) (hrecords'.trans hrecords.symm)
      have hfree : ¬ j.stack.cleared.limit ≤ j.stack.cleared.records.length := by
        rw [← CallStack.push?_eq_none_iff j.stack.cleared programRecord, hpush']
        exact Option.some_ne_none pushed'
      refine ⟨hlimit, hthreshold pushed' hshares ?_⟩
      rw [hrecords', hlimit]
      exact Nat.lt_of_not_le hfree
    refine ⟨h, hone, hpeak, fun j hj => ?_, fun j hj => ?_⟩
    · cases hpush' : j.stack.cleared.push? programRecord with
      | none =>
        have hfull : j.stack.limit ≤ 0 := (CallStack.push?_eq_none_iff _ _).mp hpush'
        omega
      | some pushed' =>
        obtain ⟨hlimit, hsame, -⟩ := hother j pushed' hpush'
        obtain ⟨t', hhalts', hend⟩ := hsame (hlimit ▸ hj)
        rw [← conclude_eq_of_shares hend]
        exact gives_of_halts hpush' hhalts'
    · cases hpush' : j.stack.cleared.push? programRecord with
      | none => exact ⟨_, _, gives_of_full hpush' m⟩
      | some pushed' =>
        obtain ⟨hlimit, -, hstopped⟩ := hother j pushed' hpush'
        obtain ⟨o', t', hhalts', name, site, rfl⟩ := hstopped (hlimit.symm ▸ hj)
        rw [← hlimit]
        exact ⟨name, site, gives_of_halts hpush' hhalts'⟩

/-- A procedure that calls itself once: with the record of the program there are three records
on the stack, and so the program runs under every limit from 3 on and under none below. -/
theorem limit_is_threshold_recursion :
    ∃ (m : Module) (symbol : ProcedureSymbol) (run : Run Unit),
      symbol = ⟨⟨0⟩, "f", [⟨"n", .integer, 2⟩], some .integer, 1⟩
      ∧ m.body = [
        .procedure ⟨0⟩ "f" [⟨"n", .integer, {}⟩] (some .integer)
          [.conditional (.var "n" {}) (.giveBack (.call "f" [.number 0 {}] (some symbol) {}) {})
            none {}, .giveBack (.number 7 {}) {}] {},
        .assign "y" (.call "f" [.number 1 {}] (some symbol) {}) {}]
      ∧ (new 8).interpret (fun _ _ => ()) () 40 m = some run ∧ run.result.isOk
      ∧ (∀ limit, 3 ≤ limit → (new limit).Gives m run.result)
      ∧ ∀ limit, limit < 3 →
        ∃ name site, (new limit).Gives m (.error ⟨.stackExhausted name limit, site⟩) := by
  let symbol : ProcedureSymbol := ⟨⟨0⟩, "f", [⟨"n", .integer, 2⟩], some .integer, 1⟩
  let m : Module := ⟨[
    .procedure ⟨0⟩ "f" [⟨"n", .integer, {}⟩] (some .integer)
      [.conditional (.var "n" {}) (.giveBack (.call "f" [.number 0 {}] (some symbol) {}) {})
        none {}, .giveBack (.number 7 {}) {}] {},
    .assign "y" (.call "f" [.number 1 {}] (some symbol) {}) {}]⟩
  obtain ⟨run, record, hrun, hrecord⟩ : ∃ run record,
      (new 8).interpret (fun _ _ => ()) () 40 m = some run ∧ run.result = .ok record :=
    ⟨_, _, rfl, rfl⟩
  obtain ⟨run₃, record₃, hrun₃, hrecord₃⟩ : ∃ run record,
      (new 3).interpret (fun _ _ => ()) () 40 m = some run ∧ run.result = .ok record :=
    ⟨_, _, rfl, rfl⟩
  obtain ⟨run₂, hrun₂, e, he⟩ : ∃ run,
      (new 2).interpret (fun _ _ => ()) () 40 m = some run ∧ ∃ e, run.result = .error e :=
    ⟨_, rfl, _, rfl⟩
  obtain ⟨h, -, -, hsame, hstopped⟩ := limit_is_threshold (new 8) m (fun _ _ => ()) () 40 run hrun
    (by rw [hrecord]; rintro _ _ _ ⟨⟩)
  have hlow : h ≤ 3 := by
    by_contra hhigh
    obtain ⟨name, site, hgives⟩ := hstopped (new 3) (Nat.lt_of_not_le hhigh)
    have hresult := (gives_of_interpret hrun₃).unique hgives
    rw [hrecord₃] at hresult
    cases hresult
  have hhigh : 2 < h := by
    by_contra hlow
    have hresult := (gives_of_interpret hrun₂).unique (hsame (new 2) (Nat.le_of_not_lt hlow))
    rw [he, hrecord] at hresult
    cases hresult
  refine ⟨m, symbol, run, rfl, rfl, hrun, hrecord ▸ rfl, fun limit hlimit => ?_,
    fun limit hlimit => ?_⟩
  · exact hsame (new limit) (hlow.trans hlimit)
  · exact hstopped (new limit) (hlimit.trans_le hhigh)

end Interpreter

end Imperative
