import Imperative.Proofs.AnalysisEffect
import Imperative.Proofs.BoundNames
import Imperative.Proofs.DepthLimit
import Imperative.Proofs.Occurrences
import Mathlib

/-!
# Scopes and records

Scopes are a matter of analysis and records are a matter of execution, which never looks at a scope.
Still the scopes bound the records.  A record is at home with the names that the statements of its
own invocation declare or assign (`Proofs.BoundNames`); each of them is the target of a statement
that stands directly in the procedure, or outside every procedure; and analysis has found a variable
there.

* `Occurrence.exists_setsName`: a name that a statement declares or assigns itself is declared or
  assigned by a statement that occurs in it, outside the procedures that it defines.
* `Module.Has.setsVariable`: in an accepted module, the target of an assignment is a variable.
* `Module.Has.declaresGlobally`: outside every procedure, it is a variable that is declared there.
* `Module.records_bind_visible_variables`: what the records bind, at every moment of a run.
-/

namespace Imperative

/-! ## The statements behind the names -/

namespace Occurrence

/-- The occurrence declares the name or assigns to it. -/
def SetsName (x : String) (o : Occurrence) : Prop :=
  (∃ type span, o.stmt = .declaration x type span) ∨ ∃ value span, o.stmt = .assign x value span

/-- The occurrence declares the name, or it assigns to it where it refers to a variable, which then
belongs to a scope around the occurrence. -/
def SetsVariable (x : String) (o : Occurrence) : Prop :=
  (∃ type span, o.stmt = .declaration x type span)
  ∨ ∃ value span u type, o.stmt = .assign x value span
    ∧ referent? o.earlier o.around x = some (.introduced u (.variable type))
    ∧ u.around <:+ o.around

theorem exists_mem_row_of_target {around : List Address} {place : Address} {i : Nat}
    {earlier : List Site} {ss : List Stmt} {x : String} (h : x ∈ Stmt.allTargets ss) :
    ∃ p ∈ row around place i earlier ss, p.around = around ∧ x ∈ p.stmt.targets := by
  induction ss generalizing i earlier with
  | nil => cases h
  | cons s ss ih =>
    rcases List.mem_append.mp h with h | h
    · exact ⟨_, List.mem_cons_self, rfl, h⟩
    · obtain ⟨p, hp, hplace⟩ := ih h
      exact ⟨p, List.mem_cons_of_mem _ hp, hplace⟩

/-- A name that a statement declares or assigns itself, it declares or assigns at once or in one of
its parts, which then stands in the same scope. -/
theorem setsName_or_exists_part {o : Occurrence} {x : String} (h : x ∈ o.stmt.targets) :
    o.SetsName x ∨ ∃ p ∈ o.parts, p.around = o.around ∧ x ∈ p.stmt.targets := by
  obtain ⟨around, place, earlier, s⟩ := o
  cases s with
  | compound body => exact .inr (exists_mem_row_of_target h)
  | declaration name type span =>
    obtain rfl := List.mem_singleton.mp h
    exact .inl (.inl ⟨type, span, rfl⟩)
  | assign name value span =>
    obtain rfl := List.mem_singleton.mp h
    exact .inl (.inr ⟨value, span, rfl⟩)
  | conditional test body otherwise =>
    rcases List.mem_append.mp h with h | h
    · exact .inr ⟨_, List.mem_cons_self, rfl, h⟩
    · cases otherwise with
      | none => cases h
      | some s => exact .inr ⟨_, List.mem_cons_of_mem _ List.mem_cons_self, rfl, h⟩
  | whileLoop test body | doWhile test body => exact .inr ⟨_, List.mem_cons_self, rfl, h⟩
  | forLoop init test step body =>
    simp only [Stmt.targets, List.mem_append] at h
    rcases h with (h | h) | h
    · exact .inr ⟨_, List.mem_cons_self, rfl, h⟩
    · exact .inr ⟨_, List.mem_cons_of_mem _ List.mem_cons_self, rfl, h⟩
    · exact .inr ⟨_, List.mem_cons_of_mem _ (List.mem_cons_of_mem _ List.mem_cons_self), rfl, h⟩
  | _ => cases h

/-- A name that a statement declares or assigns itself is declared or assigned by a statement that
occurs in it, in the same scope. -/
theorem exists_setsName {o : Occurrence} {x : String} (h : x ∈ o.stmt.targets) :
    ∃ w, o.Within w ∧ w.around = o.around ∧ w.SetsName x := by
  induction o using Occurrence.induction with
  | h o ih =>
    rcases setsName_or_exists_part h with h | ⟨p, hp, haround, h⟩
    · exact ⟨o, .refl o, rfl, h⟩
    · obtain ⟨w, hw, hscope, hsets⟩ := ih p hp h
      exact ⟨w, .of_mem hp hw, hscope.trans haround, hsets⟩

theorem exists_mem_row_of_procedure {around : List Address} {place : Address} {i : Nat}
    {earlier : List Site} {ss : List Stmt} {q : Procedure} (h : q ∈ Stmt.allProcedures ss) :
    ∃ p ∈ row around place i earlier ss, q ∈ p.stmt.procedures := by
  induction ss generalizing i earlier with
  | nil => cases h
  | cons s ss ih =>
    rcases List.mem_append.mp h with h | h
    · exact ⟨_, List.mem_cons_self, h⟩
    · obtain ⟨p, hp, hq⟩ := ih h
      exact ⟨p, List.mem_cons_of_mem _ hp, hq⟩

/-- The occurrence is the definition of the procedure. -/
def Defines (q : Procedure) (o : Occurrence) : Prop :=
  ∃ span, o.stmt = .procedure q.id q.name q.params q.returnType q.body span

theorem defines_or_exists_part {o : Occurrence} {q : Procedure} (h : q ∈ o.stmt.procedures) :
    o.Defines q ∨ ∃ p ∈ o.parts, q ∈ p.stmt.procedures := by
  obtain ⟨around, place, earlier, s⟩ := o
  cases s with
  | compound body => exact .inr (exists_mem_row_of_procedure h)
  | procedure id name params returnType body span =>
    rcases List.mem_cons.mp h with rfl | h
    · exact .inl ⟨span, rfl⟩
    · exact .inr (exists_mem_row_of_procedure h)
  | conditional test body otherwise =>
    rcases List.mem_append.mp h with h | h
    · exact .inr ⟨_, List.mem_cons_self, h⟩
    · cases otherwise with
      | none => cases h
      | some s => exact .inr ⟨_, List.mem_cons_of_mem _ List.mem_cons_self, h⟩
  | whileLoop test body | doWhile test body => exact .inr ⟨_, List.mem_cons_self, h⟩
  | forLoop init test step body =>
    exact .inr ⟨_, List.mem_cons_of_mem _ (List.mem_cons_of_mem _ List.mem_cons_self), h⟩
  | _ => cases h

/-- A procedure that is defined in a statement has a definition that occurs in it. -/
theorem exists_defines {o : Occurrence} {q : Procedure} (h : q ∈ o.stmt.procedures) :
    ∃ w, o.Within w ∧ w.Defines q := by
  induction o using Occurrence.induction with
  | h o ih =>
    rcases defines_or_exists_part h with h | ⟨p, hp, h⟩
    · exact ⟨o, .refl o, h⟩
    · obtain ⟨w, hw, hdefines⟩ := ih p hp h
      exact ⟨w, .of_mem hp hw, hdefines⟩

/-- A name that the body of a procedure declares or assigns itself is declared or assigned by a
statement of that procedure. -/
theorem Defines.exists_setsName {q : Procedure} {o : Occurrence} (h : o.Defines q) {x : String}
    (hx : x ∈ Stmt.allTargets q.body) :
    ∃ w, o.Within w ∧ w.around = o.place :: o.around ∧ w.SetsName x := by
  obtain ⟨span, hstmt⟩ := h
  have hpart : ∃ p ∈ o.parts, p.around = o.place :: o.around ∧ x ∈ p.stmt.targets := by
    rw [parts, hstmt]
    exact exists_mem_row_of_target hx
  obtain ⟨p, hp, haround, hx⟩ := hpart
  obtain ⟨w, hw, hscope, hsets⟩ := Occurrence.exists_setsName hx
  exact ⟨w, .of_mem hp hw, hscope.trans haround, hsets⟩

end Occurrence

/-- In a module whose sites are in order, the target of an assignment is a variable that can be seen
there. -/
theorem Module.Has.setsVariable {m : Module} {o : Occurrence} (h : m.Has o)
    (hok : judge [] m.sites = .ok ()) {x : String} (hx : o.SetsName x) : o.SetsVariable x := by
  rcases hx with hx | ⟨value, span, hstmt⟩
  · exact .inl hx
  · have hsite : o.sites[0]? = some ⟨o.around, x, .use, span⟩ := by
      rw [Occurrence.sites, hstmt]
      rfl
    obtain ⟨u, type, href⟩ := judge_eq_ok_iff.mp (h.judge_sites hok) 0 _ hsite
    rw [List.take_zero, List.append_nil] at href
    exact .inr ⟨value, span, u, type, hstmt, href, (of_referent?_eq href).1⟩

/-- The module declares the name outside every procedure. -/
def Module.DeclaresGlobally (m : Module) (x : String) : Prop :=
  ∃ o type span, m.Has o ∧ o.around = [] ∧ o.stmt = .declaration x type span

/-- A variable that can be seen outside every procedure is declared there. -/
theorem Module.Has.declaresGlobally {m : Module} {o : Occurrence} (h : m.Has o)
    (haround : o.around = []) {x : String} (hx : o.SetsVariable x) : m.DeclaresGlobally x := by
  rcases hx with ⟨type, span, hstmt⟩ | ⟨_, _, u, type, _, href, hscope⟩
  · exact ⟨o, type, span, h, haround, hstmt⟩
  · obtain ⟨hmem, hact, -, hname⟩ := of_meaning?_eq (of_referent?_eq href).2.1
    have houter : u.around = [] := by
      rw [haround] at hscope
      exact List.suffix_nil.mp hscope
    obtain ⟨after, hsites⟩ := h.sites_eq
    have hu : u ∈ m.sites := by
      rw [hsites, List.append_assoc]
      exact List.mem_append_left _ hmem
    obtain ⟨d, hd, hintro⟩ := m.exists_introduces hu hact
    rcases hintro with ⟨type', hsite, hstmt⟩ | ⟨id, name, params, returnType, body, span, _, hin⟩
    · refine ⟨d, type', u.span, hd, ?_, hname ▸ hstmt⟩
      rw [hsite] at houter
      exact houter
    · -- a procedure introduces itself, which is no variable, and its parameters, which are inside
      rcases List.mem_cons.mp hin with rfl | hin
      · cases hact
      · obtain ⟨p, _, rfl⟩ := List.mem_map.mp hin
        cases houter

theorem Module.declaresGlobally_of_target {m : Module} (hok : judge [] m.sites = .ok ())
    {x : String} (hx : x ∈ Stmt.allTargets m.body) : m.DeclaresGlobally x := by
  have hitem : ∃ item ∈ m.items, item.around = [] ∧ x ∈ item.stmt.targets :=
    Occurrence.exists_mem_row_of_target hx
  obtain ⟨item, hitem, haround, hx⟩ := hitem
  obtain ⟨w, hw, hscope, hsets⟩ := Occurrence.exists_setsName hx
  have hhas : m.Has w := ⟨item, hitem, hw⟩
  exact hhas.declaresGlobally (hscope.trans haround) (hhas.setsVariable hok hsets)

theorem Module.exists_defines {m : Module} {q : Procedure} (hq : q ∈ Stmt.allProcedures m.body) :
    ∃ o, m.Has o ∧ o.Defines q := by
  have hitem : ∃ item ∈ m.items, q ∈ item.stmt.procedures :=
    Occurrence.exists_mem_row_of_procedure hq
  obtain ⟨item, hitem, hq⟩ := hitem
  obtain ⟨o, hwithin, hdefines⟩ := Occurrence.exists_defines hq
  exact ⟨o, ⟨item, hitem, hwithin⟩, hdefines⟩

/-! ## The calls behind the records -/

mutual

/-- The calls that are going on lead to definitions. -/
theorem ValueCont.Fit.invocation {table : ProcedureTable} {todo : List Stmt}
    {records : List Record} {call : Invocation × ValueCont} :
    ∀ {k : ValueCont}, k.Fit table todo records → call ∈ k.pending → call.1.Fit table
  | .assign _ _ next, h, hi | .discard next, h, hi => by
    obtain ⟨_, _, h⟩ := h
    exact FlowCont.Fit.invocation (k := next) h hi
  | .choose _ _ next, h, hi => by
    obtain ⟨_, _, _, _, h⟩ := h
    exact FlowCont.Fit.invocation (k := next) h hi
  | .test _ next, h, hi => by
    obtain ⟨_, _, _, h⟩ := h
    exact FlowCont.Fit.invocation (k := next) h hi
  | .giveBack _ next, h, hi => by
    obtain ⟨_, h⟩ := h
    exact FlowCont.Fit.invocation (k := next) h hi
  | .unary _ _ next, h, hi | .rightOperand _ _ _ next, h, hi =>
    ValueCont.Fit.invocation (k := next) h hi
  | .leftOperand _ _ _ next, h, hi => ValueCont.Fit.invocation (k := next) h.2 hi
  | .argument _ _ _ _ next, h, hi => ValueCont.Fit.invocation (k := next) h.2.2.2 hi

theorem FlowCont.Fit.invocation {table : ProcedureTable} {todo : List Stmt} {l p : Bool}
    {records : List Record} {call : Invocation × ValueCont} :
    ∀ {k : FlowCont}, k.Fit table todo l p records → call ∈ k.pending → call.1.Fit table
  | .sequence _ next, h, hi => by
    rcases h.2 with ⟨rfl, _⟩ | h
    · cases hi
    · exact FlowCont.Fit.invocation (k := next) h hi
  | .round _ next, h, hi => by
    obtain ⟨_, _, h⟩ := h
    exact FlowCont.Fit.invocation (k := next) h hi
  | .again _ next, h, hi => by
    obtain ⟨_, _, _, _, _, h⟩ := h
    exact FlowCont.Fit.invocation (k := next) h hi
  | .invoked _ next, h, hi => by
    obtain ⟨_, hinvocation, _, _, _, _, h⟩ := h
    rcases List.mem_cons.mp hi with rfl | hi
    · exact hinvocation
    · exact ValueCont.Fit.invocation (k := next) h hi

end

theorem MachineState.Fit.invocation {table : ProcedureTable} {todo : List Stmt} {s : MachineState}
    (h : s.Fit table todo) {invocation : Invocation} (hi : invocation ∈ s.control.invocations) :
    invocation.Fit table := by
  obtain ⟨call, hcall, rfl⟩ := List.mem_map.mp hi
  obtain ⟨control, stack⟩ := s
  rcases h with h | ⟨_, rfl, _⟩
  · cases control with
    | eval e k => exact h.2.invocation hcall
    | exec stmt k =>
      obtain ⟨_, _, _, h⟩ := h
      exact h.invocation hcall
    | value v k => exact ValueCont.Fit.invocation h hcall
    | flow f k =>
      obtain ⟨_, _, _, h⟩ := h
      exact h.invocation hcall
  · cases hcall

/-- The record belongs to a call of a procedure that the module defines.  What it binds are
parameters, and variables that can be seen at a declaration or at an assignment in the body of that
procedure, those inside it left out. -/
structure Record.IsLocal (m : Module) (record : Record) (invocation : Invocation) : Prop where
  kind_eq : record.kind = .procedure
  bound : ∃ (q : Procedure) (o : Occurrence), m.Has o ∧ o.Defines q
    ∧ q.id = invocation.symbol.id ∧ q.body = invocation.body
    ∧ ∀ x v, record.get? x = some v → x ∈ q.params.map (·.name)
      ∨ ∃ w, o.Within w ∧ w.around = o.place :: o.around ∧ w.SetsVariable x

/-- What a record is at home with is what its scope knows. -/
theorem Record.isLocal_of_bindsOnly {m : Module} (hok : judge [] m.sites = .ok ())
    {record : Record} {invocation : Invocation} (hfit : invocation.Fit (.ofModule m))
    (hkind : record.kind = .procedure) (hbound : record.BindsOnly invocation.names) :
    record.IsLocal m invocation := by
  obtain ⟨q, hfind, hbody, hparams⟩ := hfit.definition
  have hq : q ∈ Stmt.allProcedures m.body :=
    List.mem_reverse.mp (List.mem_of_find?_eq_some hfind)
  have hid : q.id = invocation.symbol.id := by
    simpa using List.find?_some hfind
  obtain ⟨o, ho, hdefines⟩ := m.exists_defines hq
  refine ⟨hkind, q, o, ho, hdefines, hid, hbody.symm, fun x v hx => ?_⟩
  rcases List.mem_append.mp (hbound x v hx) with hx | hx
  · exact .inl (hparams ▸ hx)
  · rw [hbody] at hx
    obtain ⟨w, hw, hscope, hsets⟩ := hdefines.exists_setsName hx
    exact .inr ⟨w, hw, hscope, (ho.within hw).setsVariable hok hsets⟩

/-! ## Programs -/

/-- The names of a module that came through analysis are in order, and so they are once its calls
are marked. -/
theorem Module.judge_analyze {m : Module} (h : m.analyze.verdict = .ok ()) :
    judge [] m.analyze.module.sites = .ok () := by
  have hresolve := (Module.of_analyze_ok h).1
  obtain ⟨_, hwalk⟩ := m.analyze.module.walked_resolve {}
  have hunmarked : m.analyze.module.unmarked = m.unmarked := m.unmarked_resolve {}
  rw [← hwalk.verdict_eq, Resolver.verdict_of_unmarked_eq hunmarked {} {}, hresolve]

/-- The record that a run gives back is that of the program, grown by what its statements declare or
assign themselves. -/
theorem Interpreter.grows_of_interpret {i : Interpreter} {m : Module} {σ : Type}
    {observe : σ → Event → σ} {seen : σ} {fuel : Nat} {run : Run σ} {record : Record}
    (hrun : i.interpret observe seen fuel m = some run) (hok : run.result = .ok record) :
    programRecord.Grows (Stmt.allTargets m.body) record := by
  cases hpush : i.stack.cleared.push? programRecord with
  | none =>
    rw [interpret, hpush] at hrun
    cases hrun
    cases hok
  | some pushed =>
    obtain ⟨o, t, hhalts, hresult⟩ := exists_halts_of_interpret hrun hpush
    rw [hok] at hresult
    have hne : ∀ e, o ≠ .failure e := by
      rintro e rfl
      cases hresult
    have hrecords : pushed.records = [programRecord] := (CallStack.records_of_push? hpush).1
    have hframed : (start m pushed).Framed (Record.Grows (Stmt.allTargets m.body)) pushed.limit
        programRecord [] :=
      ⟨⟨fun _ => permits_grows _, trivial⟩, rfl, programRecord, .refl _ _, [], rfl, hrecords⟩
    obtain ⟨_, r, hgrows, hr⟩ := hhalts.framed (fun _ _ _ => .trans) hframed hne
    obtain ⟨rest, hpop, _⟩ := CallStack.pop?_of_cons hr
    have hconclude : (conclude o t).1 = .ok r := by
      cases o with
      | failure e => exact absurd rfl (hne e)
      | value v | flow f => rw [conclude, hpop]
    rw [hconclude] at hresult
    cases hresult
    exact hgrows

/-- **The scopes bound the records.**  Take a text that parses and comes through analysis.  If its
run succeeds, every name bound in the record that it gives back is declared outside every procedure.
In every state on the way, the same holds of the record of the program, which lies at the bottom of
the stack, and the records above it are those of the calls that are going on: each binds parameters
of its procedure, and variables that can be seen at a declaration or at an assignment in the body of
that procedure. -/
theorem Module.records_bind_visible_variables (text : String) (m : Module)
    (hparse : Module.parse text = .ok m) (hverdict : m.analyze.verdict = .ok ())
    (i : Interpreter) :
    (∀ (σ : Type) (observe : σ → Event → σ) (seen : σ) (fuel : Nat) (run : Run σ)
        (record : Record),
        i.interpret observe seen fuel m.analyze.module = some run → run.result = .ok record →
        ∀ x v, record.get? x = some v → m.analyze.module.DeclaresGlobally x)
      ∧ ∀ s, i.Visits m.analyze.module s → ∃ locals program,
        s.stack.records = locals ++ [program]
        ∧ program.kind = .program
        ∧ (∀ x v, program.get? x = some v → m.analyze.module.DeclaresGlobally x)
        ∧ List.Forall₂ (Record.IsLocal m.analyze.module) locals s.control.invocations := by
  have hok := Module.judge_analyze hverdict
  constructor
  · intro σ observe seen fuel run record hrun hresult x v hx
    have hgrows := Interpreter.grows_of_interpret hrun hresult
    refine Module.declaresGlobally_of_target hok ?_
    -- a name that no statement sets is still as unbound as it was at the start
    by_contra hnot
    rw [hgrows.kept x hnot] at hx
    cases hx
  · intro s hvisits
    have hfit := Module.fit_of_analysis hparse hverdict
    obtain ⟨locals, program, hrecords, hkind, hprogram, hlocals⟩ :=
      hvisits.keeps.housed.exists_append
    obtain ⟨pushed, hpush, hreach⟩ := hvisits
    obtain ⟨_, hstate⟩ := Machine.fit_of_reaches hfit.bodies (hfit.start rfl hpush) hreach
    refine ⟨locals, program, hrecords, hkind,
      fun x v hx => Module.declaresGlobally_of_target hok (hprogram x v hx), ?_⟩
    refine List.forall₂_iff_get.mpr ⟨hlocals.length_eq, fun j hj hj' => ?_⟩
    obtain ⟨hprocedure, hbound⟩ := (List.forall₂_iff_get.mp hlocals).2 j hj hj'
    exact Record.isLocal_of_bindsOnly hok (hstate.invocation (List.get_mem _ ⟨j, hj'⟩)) hprocedure
      hbound

set_option maxRecDepth 10000 in
/-- A procedure that assigns to a variable of the program, and declares one of its own.  Its record
binds both and its parameter; what is left at the end is the variable of the program. -/
theorem Module.records_bind_visible_variables_call :
    ∃ text m run record, text = "int y; def f(int a) \x7b int b; y = a; \x7d f(2);"
      ∧ Module.parse text = .ok m ∧ m.analyze.verdict = .ok ()
      ∧ (Interpreter.new 8).interpret (fun _ _ => ()) () 100 m.analyze.module = some run
      ∧ run.result = .ok record ∧ record.bindings.entries.map Prod.fst = ["y"]
      ∧ m.analyze.module.DeclaresGlobally "y"
      ∧ ∀ s, (Interpreter.new 8).Visits m.analyze.module s → ∃ locals program,
        s.stack.records = locals ++ [program] ∧ program.kind = .program
        ∧ (∀ x v, program.get? x = some v → m.analyze.module.DeclaresGlobally x)
        ∧ List.Forall₂ (Record.IsLocal m.analyze.module) locals s.control.invocations := by
  have accepted : (match Module.parse "int y; def f(int a) \x7b int b; y = a; \x7d f(2);" with
      | .ok m => m.analyze.verdict.isOk
        && ((Interpreter.new 8).interpret (fun _ _ => ()) () 100 m.analyze.module).any
          fun run => run.result.toOption.any fun record =>
            record.bindings.entries.map Prod.fst == ["y"]
      | .error _ => false) = true := by cbv
  cases hparse : Module.parse "int y; def f(int a) \x7b int b; y = a; \x7d f(2);" with
  | error e =>
    rw [hparse] at accepted
    cases accepted
  | ok m =>
    rw [hparse, Bool.and_eq_true, Option.any_eq_true] at accepted
    obtain ⟨hok, run, hrun, hresult⟩ := accepted
    have hverdict : m.analyze.verdict = .ok () := by
      cases hv : m.analyze.verdict with
      | ok _ => rfl
      | error e =>
        rw [hv] at hok
        cases hok
    cases hr : run.result with
    | error e =>
      rw [hr] at hresult
      cases hresult
    | ok record =>
      rw [hr] at hresult
      have hnames : record.bindings.entries.map Prod.fst = ["y"] := eq_of_beq hresult
      obtain ⟨⟨y, v⟩, hentries, rfl⟩ := List.map_eq_singleton_iff.mp hnames
      have hy : record.get? "y" = some v := by
        rw [Record.get?, Bindings.get?, hentries]
        rfl
      obtain ⟨hglobal, hstates⟩ :=
        Module.records_bind_visible_variables _ m hparse hverdict (Interpreter.new 8)
      exact ⟨_, m, run, record, rfl, hparse, hverdict, hrun, hr, hnames,
        hglobal _ _ _ _ run record hrun hr "y" v hy, hstates⟩

end Imperative
