import Imperative.Proofs.Continuations

/-!
# The frame of an execution

Whatever an expression calls, the call stack is afterwards what it was before.  A statement
changes the innermost record and no other one, and of that record only the bindings of the names
that it declares or assigns itself (`Stmt.targets`), and the return slot.

## The invariant

A run is watched from the record in which it starts.  While calls are going on, their records
lie above that one, one for each (`Control.calls`); so it is in reach of a step only while no
call is going on, and then what is left to do up to the end must make permitted changes only
(`Control.Confined`).  What is permitted is a parameter, a reflexive and transitive relation
between records: equality for expressions, `Record.Grows` for statements.
-/

namespace Imperative

mutual

/-- The names that the statement itself declares or assigns, the procedures that it defines
left out. -/
def Stmt.targets : Stmt → List String
  | .compound body _ => Stmt.allTargets body
  | .declaration name _ _ | .assign name _ _ => [name]
  | .conditional _ body otherwise _ => body.targets ++ Stmt.targets? otherwise
  | .whileLoop _ body _ | .doWhile _ body _ => body.targets
  | .forLoop init _ step body _ => init.targets ++ step.targets ++ body.targets
  | .call .. | .giveBack .. | .breakLoop _ | .continueLoop _ | .pass _ | .procedure .. => []

/-- The names that the statements themselves declare or assign. -/
def Stmt.allTargets : List Stmt → List String
  | [] => []
  | s :: ss => s.targets ++ Stmt.allTargets ss

/-- The names that a statement that may be absent declares or assigns itself. -/
def Stmt.targets? : Option Stmt → List String
  | none => []
  | some s => s.targets

end

/-- The names that the rounds of the loop declare or assign. -/
def Loop.targets (loop : Loop) : List String :=
  loop.body.targets ++ Stmt.targets? loop.step

/-- The record has become another one: it is still the record of the same invocation, nothing
has come unbound, and only the given names may have new values. -/
structure Record.Grows (names : List String) (r r' : Record) : Prop where
  name_eq : r'.name = r.name
  kind_eq : r'.kind = r.kind
  level_eq : r'.level = r.level
  bound : ∀ x v, r.get? x = some v → ∃ w, r'.get? x = some w
  kept : ∀ x, x ∉ names → r'.get? x = r.get? x

namespace Record.Grows

variable {names : List String} {r r' r'' : Record}

theorem refl (names : List String) (r : Record) : r.Grows names r :=
  ⟨rfl, rfl, rfl, fun _ v h => ⟨v, h⟩, fun _ _ => rfl⟩

theorem trans (h : r.Grows names r') (h' : r'.Grows names r'') : r.Grows names r'' where
  name_eq := h'.name_eq.trans h.name_eq
  kind_eq := h'.kind_eq.trans h.kind_eq
  level_eq := h'.level_eq.trans h.level_eq
  bound x v hv := by
    obtain ⟨w, hw⟩ := h.bound x v hv
    exact h'.bound x w hw
  kept x hx := (h'.kept x hx).trans (h.kept x hx)

theorem set {x : String} (hx : x ∈ names) (r : Record) (v : Value) :
    r.Grows names (r.set x v) := by
  refine ⟨rfl, rfl, rfl, fun y w hy => ?_, fun y hy => ?_⟩
  · by_cases e : y = x
    · subst e
      exact ⟨v, Bindings.get?_set_self r.bindings y v⟩
    · exact ⟨w, (Bindings.get?_set_of_ne r.bindings v e).trans hy⟩
  · have e : y ≠ x := by
      rintro rfl
      exact hy hx
    exact Bindings.get?_set_of_ne r.bindings v e

theorem giveBack (names : List String) (r : Record) (v : Value) :
    r.Grows names { r with returned := some v } :=
  ⟨rfl, rfl, rfl, fun _ w h => ⟨w, h⟩, fun _ _ => rfl⟩

end Record.Grows

/-! ## Confined controls -/

/-- The relation permits what statements do to a record that declare or assign the names. -/
def Permits (P : Record → Record → Prop) (names : List String) : Prop :=
  (∀ x ∈ names, ∀ r v, P r (r.set x v)) ∧ ∀ r v, P r { r with returned := some v }

theorem Permits.mono {P : Record → Record → Prop} {names names' : List String}
    (h : Permits P names') (hsub : names ⊆ names') : Permits P names :=
  ⟨fun x hx => h.1 x (hsub hx), h.2⟩

theorem permits_grows (names : List String) : Permits (Record.Grows names) names :=
  ⟨fun _ hx r v => .set hx r v, fun r v => .giveBack names r v⟩

mutual

/-- Where no call is going on any more, the continuation makes permitted changes only. -/
def ValueCont.Confined (P : Record → Record → Prop) : ValueCont → Prop
  | .done => True
  | .assign name _ next => (next.calls = 0 → Permits P [name]) ∧ next.Confined P
  | .discard next => next.Confined P
  | .choose body otherwise next =>
    (next.calls = 0 → Permits P (body.targets ++ Stmt.targets? otherwise)) ∧ next.Confined P
  | .test loop next => (next.calls = 0 → Permits P loop.targets) ∧ next.Confined P
  | .giveBack _ next => (next.calls = 0 → Permits P []) ∧ next.Confined P
  | .unary _ _ next | .leftOperand _ _ _ next | .rightOperand _ _ _ next
  | .argument _ _ _ _ next => next.Confined P

/-- Where no call is going on any more, the continuation makes permitted changes only. -/
def FlowCont.Confined (P : Record → Record → Prop) : FlowCont → Prop
  | .done => True
  | .sequence rest next => (next.calls = 0 → Permits P (Stmt.allTargets rest)) ∧ next.Confined P
  | .round loop next | .again loop next =>
    (next.calls = 0 → Permits P loop.targets) ∧ next.Confined P
  | .invoked _ next => next.Confined P

end

/-- Where no call is going on, the control and what is left to do make permitted changes
only. -/
def Control.Confined (P : Record → Record → Prop) : Control → Prop
  | .eval _ next | .value _ next => next.Confined P
  | .exec s next => (next.calls = 0 → Permits P s.targets) ∧ next.Confined P
  | .flow _ next => next.Confined P

/-- Where no call is going on, the action and what is left to do make permitted changes only. -/
def Action.Confined (P : Record → Record → Prop) : Action → Prop
  | .go control => control.Confined P
  | .halt _ => True
  | .read _ _ next | .enter _ _ next | .leave _ _ next => next.Confined P
  | .bind name _ _ next => (next.calls = 0 → Permits P [name]) ∧ next.Confined P
  | .giveBack _ _ next => (next.calls = 0 → Permits P []) ∧ next.Confined P

section Confined

variable {P : Record → Record → Prop} {table : ProcedureTable}

namespace Action

theorem operate_confined {next : ValueCont} (h : next.Confined P)
    (result : Except ValueError Value) (operator : String) (site : Span) :
    (operate result operator site next).Confined P := by
  cases result with
  | ok v => exact h
  | error e => trivial

theorem supply_confined {next : ValueCont} (h : next.Confined P) (invocation : Invocation)
    (record : Record) (pending : List (String × Expr)) :
    (supply invocation record pending next).Confined P := by
  cases pending <;> exact h

theorem beginCall_confined {next : ValueCont} (h : next.Confined P) (name : String)
    (args : List Expr) (resolved : Option ProcedureSymbol) (site : Span) :
    (beginCall table name args resolved site next).Confined P := by
  cases resolved with
  | none => trivial
  | some symbol =>
    simp only [beginCall]
    cases table.find? symbol.id with
    | none => trivial
    | some procedure => exact supply_confined h ..

end Action

theorem Expr.action_confined {next : ValueCont} (h : next.Confined P) (e : Expr) :
    (e.action table next).Confined P := by
  cases e with
  | call name args resolved site => exact Action.beginCall_confined h name args resolved site
  | _ => exact h

theorem Stmt.action_confined {next : FlowCont} (h : next.Confined P) {s : Stmt}
    (hs : next.calls = 0 → Permits P s.targets) : (s.action table next).Confined P := by
  cases s with
  | call name args resolved site =>
    have hdiscard : (ValueCont.discard next).Confined P := h
    exact Action.beginCall_confined hdiscard name args resolved site
  | whileLoop test body =>
    refine ⟨fun hn => (hs hn).mono ?_, h⟩
    simp [Loop.targets, Stmt.targets, Stmt.targets?]
  | doWhile test body =>
    refine ⟨hs, fun hn => (hs hn).mono ?_, h⟩
    simp [Loop.targets, Stmt.targets, Stmt.targets?]
  | forLoop init test step body =>
    refine ⟨fun hn => (hs hn).mono ?_, fun hn => (hs hn).mono ?_, h⟩
    · simp [Stmt.targets]
    · simp [Loop.targets, Stmt.targets, Stmt.targets?]
  | compound | declaration | assign | conditional | giveBack => exact ⟨hs, h⟩
  | breakLoop | continueLoop | pass | procedure => exact h

theorem ValueCont.action_confined {k : ValueCont} (h : k.Confined P) (v : Value) :
    (k.action v).Confined P := by
  cases k with
  | done => trivial
  | assign | giveBack => exact h
  | choose body otherwise next =>
    obtain ⟨hs, h⟩ := h
    cases otherwise with
    | none =>
      rw [action]
      split
      · exact ⟨fun hn => (hs hn).mono (by simp), h⟩
      · exact h
    | some stmt =>
      rw [action]
      split
      · exact ⟨fun hn => (hs hn).mono (by simp), h⟩
      · exact ⟨fun hn => (hs hn).mono (by simp [Stmt.targets?]), h⟩
  | test loop next =>
    rw [action]
    split
    · exact ⟨fun hn => (h.1 hn).mono (by simp [Loop.targets]), h⟩
    · exact h.2
  | unary _ _ next | rightOperand _ _ _ next =>
    have hnext : next.Confined P := h
    exact Action.operate_confined hnext ..
  | argument _ _ _ _ next =>
    have hnext : next.Confined P := h
    exact Action.supply_confined hnext ..
  | discard | leftOperand => exact h

theorem FlowCont.action_confined {k : FlowCont} (h : k.Confined P) (f : Flow) :
    (k.action f).Confined P := by
  cases k with
  | done => trivial
  | sequence rest next =>
    cases f with
    | completed =>
      cases rest with
      | nil => exact h.2
      | cons s rest =>
        refine ⟨fun hn => (h.1 hn).mono ?_, fun hn => (h.1 hn).mono ?_, h.2⟩
        · simp [Stmt.allTargets]
        · simp [Stmt.allTargets]
    | _ => exact h.2
  | round loop next =>
    obtain ⟨test, body, step⟩ := loop
    cases f with
    | completed | continued =>
      cases step with
      | none => exact h
      | some stmt =>
        exact ⟨fun hn => (h.1 hn).mono (by simp [Loop.targets, Stmt.targets?]), h⟩
    | broke | returned => exact h.2
  | again loop next => exact h
  | invoked invocation next => exact h

/-- A confined control acts within its confines. -/
theorem Control.action_confined {c : Control} (h : c.Confined P) :
    (c.action table).Confined P := by
  cases c with
  | eval e k => exact Expr.action_confined h e
  | exec s k => exact Stmt.action_confined h.2 h.1
  | value v k => exact ValueCont.action_confined h v
  | flow f k => exact FlowCont.action_confined h f

end Confined

/-! ## Framed states -/

/-- The record `r` and those `below` it, with the records of `n` calls above them: all that the
stack holds. -/
def CallStack.Holds (n : Nat) (r : Record) (below : List Record) (stack : CallStack) : Prop :=
  ∃ locals, locals.length = n ∧ stack.records = locals ++ r :: below

/-- Where a run that started in the record `r₀` has come to. -/
structure MachineState.Framed (P : Record → Record → Prop) (limit : Nat) (r₀ : Record)
    (below : List Record) (s : MachineState) : Prop where
  confined : s.control.Confined P
  limit_eq : s.stack.limit = limit
  records : ∃ r, P r₀ r ∧ s.stack.Holds s.control.calls r below

/-- How a run that started in the record `r₀` may go on, or end unless it fails. -/
def Transition.Framed (P : Record → Record → Prop) (limit : Nat) (r₀ : Record)
    (below : List Record) : Transition → Prop
  | .next _ s => s.Framed P limit r₀ below
  | .halt _ (.failure _) _ => True
  | .halt _ _ stack => stack.limit = limit ∧ ∃ r, P r₀ r ∧ stack.records = r :: below

section Framed

variable {P : Record → Record → Prop} {table : ProcedureTable} {limit : Nat} {r₀ : Record}
  {below : List Record} {stack : CallStack}

/-- Changing the innermost record: it is the record of a call, or the change is permitted. -/
theorem Machine.update_framed (htrans : ∀ r r' r'', P r r' → P r' r'' → P r r'')
    {change : Record → Record} {next : FlowCont} (hk : next.Confined P)
    (hchange : next.calls = 0 → ∀ r, P r (change r)) (hlimit : stack.limit = limit)
    (hrecords : ∃ r, P r₀ r ∧ stack.Holds next.calls r below) (f : Flow) (site : Span) :
    (update change f site next stack).Framed P limit r₀ below := by
  obtain ⟨r, hr, locals, hlength, hstack⟩ := hrecords
  cases locals with
  | nil =>
    obtain ⟨t, ht, hrecords⟩ := CallStack.modifyTop?_of_cons hstack change
    rw [update, ht]
    refine ⟨hk, (CallStack.limit_of_modifyTop? ht).trans hlimit, change r, ?_, [], hlength,
      hrecords⟩
    exact htrans _ _ _ hr (hchange hlength.symm r)
  | cons first locals =>
    obtain ⟨t, ht, hrecords⟩ := CallStack.modifyTop?_of_cons hstack change
    rw [update, ht]
    exact ⟨hk, (CallStack.limit_of_modifyTop? ht).trans hlimit, r, hr, change first :: locals,
      hlength, hrecords⟩

theorem Machine.endCall_framed {invocation : Invocation} {next : ValueCont}
    (hk : next.Confined P) (hlimit : stack.limit = limit)
    (hrecords : ∃ r, P r₀ r ∧ stack.Holds (next.calls + 1) r below) (f : Flow) :
    (endCall invocation f next stack).Framed P limit r₀ below := by
  obtain ⟨r, hr, locals, hlength, hstack⟩ := hrecords
  obtain ⟨first, locals, rfl⟩ := List.exists_cons_of_length_eq_add_one hlength
  obtain ⟨t, ht, hrecords⟩ := CallStack.pop?_of_cons hstack
  rcases endCall_cases invocation f next with ⟨v, hend⟩ | ⟨e, hend⟩
  · rw [hend, dropRecord, ht]
    exact ⟨hk, (CallStack.limit_of_pop? ht).trans hlimit, r, hr, locals, Nat.succ.inj hlength,
      hrecords⟩
  · rw [hend]
    trivial

/-- **One action.**  What is confined stays within its frame. -/
theorem Action.perform_framed (htrans : ∀ r r' r'', P r r' → P r' r'' → P r r'')
    {a : Action} {n : Nat} (ha : a.Confined P) (hn : a.During n) (hlimit : stack.limit = limit)
    (hrecords : ∃ r, P r₀ r ∧ stack.Holds n r below) :
    (a.perform stack).Framed P limit r₀ below := by
  cases a with
  | go control =>
    subst hn
    exact ⟨ha, hlimit, hrecords⟩
  | halt outcome =>
    cases outcome with
    | failure e => trivial
    | value v | flow f =>
      subst hn
      obtain ⟨r, hr, locals, hlength, hstack⟩ := hrecords
      obtain rfl := List.length_eq_zero_iff.mp hlength
      exact ⟨hlimit, r, hr, hstack⟩
  | read name site next =>
    subst hn
    rw [perform, Machine.readName]
    split
    · trivial
    · split
      · exact ⟨ha, hlimit, hrecords⟩
      · trivial
  | bind name v site next =>
    subst hn
    have hchange : next.calls = 0 → ∀ r, P r (r.set name v) :=
      fun h0 r => (ha.1 h0).1 name (List.mem_singleton_self name) r v
    exact Machine.update_framed htrans ha.2 hchange hlimit hrecords .completed site
  | giveBack v site next =>
    subst hn
    have hchange : next.calls = 0 → ∀ r : Record, P r { r with returned := some v } :=
      fun h0 r => (ha.1 h0).2 r v
    exact Machine.update_framed htrans ha.2 hchange hlimit hrecords (.returned v) site
  | enter invocation record next =>
    subst hn
    obtain ⟨r, hr, locals, hlength, hstack⟩ := hrecords
    rw [perform, Machine.enterBody]
    cases hpush : stack.push? record with
    | none => trivial
    | some pushed =>
      obtain ⟨htop, hkept⟩ := CallStack.records_of_push? hpush
      -- a call is going on from here, so nothing is asked of the body
      refine ⟨⟨fun h0 => absurd h0 (Nat.succ_ne_zero _), ha⟩, hkept.trans hlimit, r, hr,
        record :: locals, congrArg Nat.succ hlength, ?_⟩
      rw [htop, hstack, List.cons_append]
  | leave invocation f next =>
    subst hn
    exact Machine.endCall_framed ha hlimit hrecords f

namespace Machine

theorem step_framed (htrans : ∀ r r' r'', P r r' → P r' r'' → P r r'') {s : MachineState}
    (h : s.Framed P limit r₀ below) : (step table s).Framed P limit r₀ below := by
  rw [step_eq_perform]
  exact Action.perform_framed htrans (Control.action_confined h.confined)
    (s.control.action_during table) h.limit_eq h.records

/-- **Whole runs.**  Unless the run fails, the record in which it started is on top again, and
what lay below it still lies there. -/
theorem Halts.framed (htrans : ∀ r r' r'', P r r' → P r' r'' → P r r'') {s : MachineState}
    {o : Outcome} {t : CallStack} (hrun : Halts table s o t) (h : s.Framed P limit r₀ below)
    (hok : ∀ e, o ≠ .failure e) :
    t.limit = limit ∧ ∃ r, P r₀ r ∧ t.records = r :: below := by
  induction hrun with
  | @now s events o t hstep =>
    have hframed : (step table s).Framed P limit r₀ below := step_framed htrans h
    rw [hstep] at hframed
    cases o with
    | failure e => exact absurd rfl (hok e)
    | value v => exact hframed
    | flow f => exact hframed
  | @later s s' events o t hstep rest ih =>
    have hframed : (step table s).Framed P limit r₀ below := step_framed htrans h
    rw [hstep] at hframed
    exact ih hframed hok

/-- Evaluating an expression leaves the stack as it was. -/
theorem Halts.stack_eq_of_eval {e : Expr} {o : Outcome} {t : CallStack}
    (h : Halts table ⟨.eval e .done, stack⟩ o t) (hne : stack.records ≠ [])
    (hok : ∀ e, o ≠ .failure e) : t = stack := by
  obtain ⟨r, below, hstack⟩ := List.exists_cons_of_ne_nil hne
  have hstart : (⟨.eval e .done, stack⟩ : MachineState).Framed Eq stack.limit r below :=
    ⟨trivial, rfl, r, rfl, [], rfl, hstack⟩
  obtain ⟨hlimit, r', rfl, hrecords⟩ := h.framed (P := Eq) (fun _ _ _ => Eq.trans) hstart hok
  exact CallStack.ext (hrecords.trans hstack.symm) hlimit

/-- Executing a statement leaves all records but the innermost one as they were, and of that
one all but what the statement declares, assigns or returns. -/
theorem Halts.grows_of_exec {s : Stmt} {o : Outcome} {t : CallStack}
    (h : Halts table ⟨.exec s .done, stack⟩ o t) {r : Record} (hstack : stack.records = r :: below)
    (hok : ∀ e, o ≠ .failure e) :
    t.limit = stack.limit ∧ ∃ r', r.Grows s.targets r' ∧ t.records = r' :: below := by
  have hstart : (⟨.exec s .done, stack⟩ : MachineState).Framed (Record.Grows s.targets)
      stack.limit r below :=
    ⟨⟨fun _ => permits_grows s.targets, trivial⟩, rfl, r, .refl _ r, [], rfl, hstack⟩
  exact h.framed (P := Record.Grows s.targets) (fun _ _ _ => .trans) hstart hok

end Machine

end Framed

/-- **The frame rule.**  Start on any stack that holds a record.  If an expression is evaluated
without a failure, the stack is afterwards the one before.  If a statement is executed without a
failure, the stack is as high as before and no record below the innermost one has changed; the
innermost one is still the record of the same invocation, it still binds what it bound, and a
name has another value only if the statement itself declares or assigns it. -/
theorem Machine.run_frame (table : ProcedureTable) (stack : CallStack)
    (hne : stack.records ≠ []) {σ : Type} (observe : σ → Event → σ) (seen seen' : σ)
    (fuel : Nat) (o : Outcome) (hok : ∀ e, o ≠ .failure e) (stack' : CallStack) :
    (∀ e, run observe table fuel seen ⟨.eval e .done, stack⟩ = some (seen', o, stack') →
      stack' = stack)
    ∧ ∀ s, run observe table fuel seen ⟨.exec s .done, stack⟩ = some (seen', o, stack') →
      stack'.limit = stack.limit ∧ stack'.records.length = stack.records.length
      ∧ ∃ r r' below, stack.records = r :: below ∧ stack'.records = r' :: below
        ∧ r'.name = r.name ∧ r'.kind = r.kind ∧ r'.level = r.level
        ∧ (∀ x v, r.get? x = some v → ∃ w, r'.get? x = some w)
        ∧ ∀ x, x ∉ s.targets → r'.get? x = r.get? x := by
  constructor
  · intro e hrun
    have h : Halts table ⟨.eval e .done, stack⟩ o stack' :=
      (halts_iff_run observe seen).mpr ⟨fuel, seen', hrun⟩
    exact h.stack_eq_of_eval hne hok
  · intro s hrun
    have h : Halts table ⟨.exec s .done, stack⟩ o stack' :=
      (halts_iff_run observe seen).mpr ⟨fuel, seen', hrun⟩
    obtain ⟨r, below, hstack⟩ := List.exists_cons_of_ne_nil hne
    obtain ⟨hlimit, r', hgrows, hrecords⟩ := h.grows_of_exec hstack hok
    refine ⟨hlimit, ?_, r, r', below, hstack, hrecords, hgrows.name_eq, hgrows.kind_eq,
      hgrows.level_eq, hgrows.bound, hgrows.kept⟩
    rw [hrecords, hstack, List.length_cons, List.length_cons]

/-- The caller's `x` is 1 before the call and after it, whatever the callee does to a parameter
of that name, and an assignment of the result touches `y` alone. -/
theorem Machine.run_frame_call :
    ∃ (table : ProcedureTable) (call : Expr) (stack t u : CallStack),
      table = ⟨[⟨⟨0⟩, "f", [⟨"x", .integer, {}⟩], some .integer,
        [.assign "x" (.number 5 {}) {}, .giveBack (.var "x" {}) {}]⟩]⟩
      ∧ call = .call "f" [.var "x" {}]
        (some ⟨⟨0⟩, "f", [⟨"x", .integer, 2⟩], some .integer, 1⟩) {}
      ∧ stack.top?.bind (·.get? "x") = some (.int 1)
      ∧ run (fun _ _ => ()) table 20 () ⟨.eval call .done, stack⟩ = some ((), .value (.int 5), t)
      ∧ t = stack
      ∧ run (fun _ _ => ()) table 20 () ⟨.exec (.assign "y" call {}) .done, stack⟩
        = some ((), .flow .completed, u)
      ∧ ∃ r, u.records = [r] ∧ r.get? "x" = some (.int 1) := by
  let table : ProcedureTable := ⟨[⟨⟨0⟩, "f", [⟨"x", .integer, {}⟩], some .integer,
    [.assign "x" (.number 5 {}) {}, .giveBack (.var "x" {}) {}]⟩]⟩
  let call : Expr := .call "f" [.var "x" {}]
    (some ⟨⟨0⟩, "f", [⟨"x", .integer, 2⟩], some .integer, 1⟩) {}
  let r₀ : Record := Record.set { name := "program", kind := .program, level := 1 } "x" (.int 1)
  let stack : CallStack := { records := [r₀], limit := 8 }
  obtain ⟨t, ht⟩ : ∃ t, run (fun _ _ => ()) table 20 () ⟨.eval call .done, stack⟩
      = some ((), .value (.int 5), t) := ⟨_, rfl⟩
  obtain ⟨u, hu⟩ : ∃ u, run (fun _ _ => ()) table 20 () ⟨.exec (.assign "y" call {}) .done, stack⟩
      = some ((), .flow .completed, u) := ⟨_, rfl⟩
  have heval := (Machine.run_frame table stack (List.cons_ne_nil _ _) (fun _ _ => ()) () () 20
    (.value (.int 5)) (by rintro _ ⟨⟩) t).1 call ht
  obtain ⟨-, -, r, r', below, hr, hu', -, -, -, -, hkept⟩ :=
    (Machine.run_frame table stack (List.cons_ne_nil _ _) (fun _ _ => ()) () () 20
      (.flow .completed) (by rintro _ ⟨⟩) u).2 (.assign "y" call {}) hu
  cases hr
  refine ⟨table, call, stack, t, u, rfl, rfl, rfl, ht, heval, hu, r', hu', ?_⟩
  rw [hkept "x" (by decide)]
  rfl

end Imperative
