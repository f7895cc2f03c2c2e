import Imperative.Analysis
import Imperative.Proofs.JumpPlacement
import Imperative.Proofs.LexicalScoping
import Imperative.Proofs.ParserSoundness
import Mathlib.Data.List.Nodup

/-!
# Trees that are fit to run

Execution takes much for granted: that every call carries a mark which leads to a
definition, that a call has an argument for every parameter, that a jump has something to
jump out of.  `Module.Fit` collects this, and `Module.fit_of_analysis` shows that a text which
parses and comes through analysis gives a module for which it holds.

Three walks have to agree for that.  Names are resolved at sites, wherever these are;
procedures are gathered only where statements are run, so heads of loops must not hold any
(`Stmt.exists_procedure_of_site`); and the numbers of procedures must differ, so that a number
leads to the definition that the name referred to (`ProcedureTable.find?_ofModule`).  The last
two come from parsing and are not disturbed by marks.
-/

namespace Imperative

/-! ## What execution relies on -/

/-- A call with the given mark and number of arguments can be carried out: the mark leads to
a definition whose parameters are those that the caller sees, one for each argument. -/
def ProcedureTable.Serves (table : ProcedureTable) (mark : Option ProcedureSymbol)
    (count : Nat) : Prop :=
  ∃ symbol procedure, mark = some symbol ∧ table.find? symbol.id = some procedure
    ∧ symbol.params.map (·.name) = procedure.params.map (·.name)
    ∧ procedure.params.length = count

mutual

/-- Every call in the expression can be carried out. -/
def Expr.Linked (table : ProcedureTable) : Expr → Prop
  | .number .. | .var .. => True
  | .unary _ operand _ => operand.Linked table
  | .binary _ lhs rhs _ => lhs.Linked table ∧ rhs.Linked table
  | .call _ args mark _ => table.Serves mark args.length ∧ Expr.AllLinked table args

/-- Every call in the expressions can be carried out. -/
def Expr.AllLinked (table : ProcedureTable) : List Expr → Prop
  | [] => True
  | e :: es => e.Linked table ∧ Expr.AllLinked table es

end

mutual

/-- The statement can be run where it stands: its calls can be carried out, its jumps are in
their places, and a jump never leaves the head of a loop.  A definition does nothing when it
is met, so its body does not matter here. -/
def Stmt.Fit (table : ProcedureTable) (inLoop inProcedure : Bool) : Stmt → Prop
  | .compound body _ => Stmt.AllFit table inLoop inProcedure body
  | .assign _ value _ => value.Linked table
  | .call _ args mark _ => table.Serves mark args.length ∧ Expr.AllLinked table args
  | .conditional test body otherwise _ =>
    test.Linked table ∧ body.Fit table inLoop inProcedure
      ∧ Stmt.Fit? table inLoop inProcedure otherwise
  | .whileLoop test body _ | .doWhile test body _ =>
    test.Linked table ∧ body.Fit table true inProcedure
  | .forLoop init test step body _ =>
    init.Fit table false false ∧ test.Linked table ∧ step.Fit table false false
      ∧ body.Fit table true inProcedure
  | .giveBack value _ => inProcedure = true ∧ value.Linked table
  | .breakLoop _ | .continueLoop _ => inLoop = true
  | .declaration .. | .pass _ | .procedure .. => True

/-- The statements can be run where they stand. -/
def Stmt.AllFit (table : ProcedureTable) (inLoop inProcedure : Bool) : List Stmt → Prop
  | [] => True
  | s :: ss => s.Fit table inLoop inProcedure ∧ Stmt.AllFit table inLoop inProcedure ss

/-- A statement that may be absent can be run where it stands. -/
def Stmt.Fit? (table : ProcedureTable) (inLoop inProcedure : Bool) : Option Stmt → Prop
  | none => True
  | some s => s.Fit table inLoop inProcedure

end

/-- The module can be run: its body as a program, and the bodies of its procedures as such. -/
structure Module.Fit (m : Module) : Prop where
  body : Stmt.AllFit (.ofModule m) false false m.body
  procedures : ∀ q ∈ Stmt.allProcedures m.body, Stmt.AllFit (.ofModule m) false true q.body

/-! ## From sites to calls -/

/-- If the site is a call, it can be carried out. -/
def Site.Served (table : ProcedureTable) (t : Site) : Prop :=
  ∀ count mark, t.act = .call count mark → table.Serves mark count

variable {table : ProcedureTable} {around : List Address} {place : Address}

mutual

theorem Expr.linked_of_sites :
    ∀ {e : Expr}, (∀ t ∈ e.sites around, t.Served table) → e.Linked table
  | .number .., _ | .var .., _ => trivial
  | .unary _ operand _, h => Expr.linked_of_sites (e := operand) h
  | .binary _ lhs rhs _, h => by
    rw [Expr.sites, List.forall_mem_append] at h
    exact ⟨Expr.linked_of_sites h.1, Expr.linked_of_sites h.2⟩
  | .call _ args mark _, h => by
    rw [Expr.sites, List.forall_mem_cons] at h
    exact ⟨h.1 _ _ rfl, Expr.allLinked_of_sites h.2⟩

theorem Expr.allLinked_of_sites :
    ∀ {es : List Expr}, (∀ t ∈ Expr.allSites around es, t.Served table) →
      Expr.AllLinked table es
  | [], _ => trivial
  | e :: es, h => by
    rw [Expr.allSites, List.forall_mem_append] at h
    exact ⟨Expr.linked_of_sites h.1, Expr.allLinked_of_sites h.2⟩

end

/-- A simple statement fits everywhere. -/
theorem Stmt.fit_of_isSimple {s : Stmt} {l p : Bool} (hs : s.IsSimple)
    (h : ∀ t ∈ s.sites around place, t.Served table) : s.Fit table l p := by
  cases s with
  | declaration | pass => trivial
  | assign =>
    rw [Stmt.sites, List.forall_mem_cons] at h
    exact Expr.linked_of_sites h.2
  | call =>
    rw [Stmt.sites, List.forall_mem_cons] at h
    exact ⟨h.1 _ _ rfl, Expr.allLinked_of_sites h.2⟩
  | _ => exact hs.elim

mutual

/-- A statement whose calls can be carried out, whose jumps are in their places and whose
loops have simple heads can be run, and so can the bodies of the procedures in it. -/
theorem Stmt.fit_of_sites {around : List Address} {place : Address} {l p : Bool} :
    ∀ {s : Stmt}, (∀ t ∈ s.sites around place, t.Served table) → s.Placed l p →
      s.HeadsSimple →
      s.Fit table l p ∧ ∀ q ∈ s.procedures, Stmt.AllFit table false true q.body
  | .compound body _, h, hp, hh => Stmt.allFit_of_sites h hp hh
  | .declaration .., _, _, _ | .pass _, _, _, _ => ⟨trivial, by simp [Stmt.procedures]⟩
  | .breakLoop _, _, hp, _ | .continueLoop _, _, hp, _ => ⟨hp, by simp [Stmt.procedures]⟩
  | .assign name value span, h, _, _ =>
    ⟨Stmt.fit_of_isSimple (s := .assign name value span) trivial h, by simp [Stmt.procedures]⟩
  | .call name args mark span, h, _, _ =>
    ⟨Stmt.fit_of_isSimple (s := .call name args mark span) trivial h, by simp [Stmt.procedures]⟩
  | .giveBack value _, h, hp, _ =>
    ⟨⟨hp, Expr.linked_of_sites h⟩, by simp [Stmt.procedures]⟩
  | .conditional test body otherwise _, h, hp, hh => by
    rw [Stmt.sites, List.forall_mem_append, List.forall_mem_append] at h
    obtain ⟨⟨htest, hbody⟩, hother⟩ := h
    obtain ⟨hb, hbq⟩ := Stmt.fit_of_sites hbody hp.1 hh.1
    obtain ⟨ho, hoq⟩ := Stmt.fit?_of_sites hother hp.2 hh.2
    refine ⟨⟨Expr.linked_of_sites htest, hb, ho⟩, ?_⟩
    rw [Stmt.procedures, List.forall_mem_append]
    exact ⟨hbq, hoq⟩
  | .whileLoop test body _, h, hp, hh | .doWhile test body _, h, hp, hh => by
    rw [Stmt.sites, List.forall_mem_append] at h
    obtain ⟨hb, hbq⟩ := Stmt.fit_of_sites h.2 hp hh
    exact ⟨⟨Expr.linked_of_sites h.1, hb⟩, hbq⟩
  | .forLoop init test step body _, h, hp, hh => by
    rw [Stmt.sites, List.forall_mem_append, List.forall_mem_append, List.forall_mem_append] at h
    obtain ⟨⟨⟨hinit, htest⟩, hstep⟩, hbody⟩ := h
    obtain ⟨hb, hbq⟩ := Stmt.fit_of_sites hbody hp.2.2 hh.2.2
    exact ⟨⟨Stmt.fit_of_isSimple hh.1 hinit, Expr.linked_of_sites htest,
      Stmt.fit_of_isSimple hh.2.1 hstep, hb⟩, hbq⟩
  | .procedure id name params returnType body _, h, hp, hh => by
    rw [Stmt.sites, List.forall_mem_append] at h
    obtain ⟨hb, hbq⟩ := Stmt.allFit_of_sites h.2 hp hh
    refine ⟨trivial, ?_⟩
    rw [Stmt.procedures, List.forall_mem_cons]
    exact ⟨hb, hbq⟩

theorem Stmt.allFit_of_sites {around : List Address} {place : Address} {l p : Bool} :
    ∀ {ss : List Stmt} {i : Nat}, (∀ t ∈ Stmt.allSites around place i ss, t.Served table) →
      Stmt.AllPlaced l p ss → Stmt.AllHeadsSimple ss →
      Stmt.AllFit table l p ss
        ∧ ∀ q ∈ Stmt.allProcedures ss, Stmt.AllFit table false true q.body
  | [], _, _, _, _ => ⟨trivial, by simp [Stmt.allProcedures]⟩
  | s :: ss, i, h, hp, hh => by
    rw [Stmt.allSites, List.forall_mem_append] at h
    obtain ⟨hs, hsq⟩ := Stmt.fit_of_sites h.1 hp.1 hh.1
    obtain ⟨hss, hssq⟩ := Stmt.allFit_of_sites h.2 hp.2 hh.2
    refine ⟨⟨hs, hss⟩, ?_⟩
    rw [Stmt.allProcedures, List.forall_mem_append]
    exact ⟨hsq, hssq⟩

theorem Stmt.fit?_of_sites {around : List Address} {place : Address} {l p : Bool} :
    ∀ {s : Option Stmt}, (∀ t ∈ Stmt.sites? around place s, t.Served table) →
      Stmt.Placed? l p s → Stmt.HeadsSimple? s →
      Stmt.Fit? table l p s ∧ ∀ q ∈ Stmt.procedures? s, Stmt.AllFit table false true q.body
  | none, _, _, _ => ⟨trivial, by simp [Stmt.procedures?]⟩
  | some s, h, hp, hh => Stmt.fit_of_sites (s := s) h hp hh

end

/-! ## From sites to definitions -/

section Definitions

variable {t : Site} {id : ProcedureId} {params : List Param} {returnType : Option DataType}

/-- A simple statement defines no procedure. -/
theorem Stmt.not_procedure_of_isSimple {s : Stmt} (hs : s.IsSimple)
    (h : t ∈ s.sites around place) : t.act ≠ .introduce (.procedure id params returnType) := by
  cases s with
  | declaration =>
    rw [Stmt.sites, List.mem_singleton] at h
    rw [h]
    rintro ⟨⟩
  | assign =>
    rw [Stmt.sites, List.mem_cons] at h
    rcases h with rfl | h
    · rintro ⟨⟩
    · exact (Expr.of_mem_sites h).2 _
  | call =>
    rw [Stmt.sites, List.mem_cons] at h
    rcases h with rfl | h
    · rintro ⟨⟩
    · exact (Expr.of_mem_allSites h).2 _
  | pass => simp [Stmt.sites] at h
  | _ => exact hs.elim

mutual

/-- A site that introduces a procedure belongs to a definition that execution can find. -/
theorem Stmt.exists_procedure_of_site {around : List Address} {place : Address}
    (ht : t.act = .introduce (.procedure id params returnType)) :
    ∀ {s : Stmt}, t ∈ s.sites around place → s.HeadsSimple →
      ∃ body, ⟨id, t.name, params, returnType, body⟩ ∈ s.procedures
  | .compound body _, h, hh => Stmt.exists_procedure_of_site_all ht h hh
  | .declaration name type span, h, _ =>
    absurd ht (Stmt.not_procedure_of_isSimple (s := .declaration name type span) trivial h)
  | .assign name value span, h, _ =>
    absurd ht (Stmt.not_procedure_of_isSimple (s := .assign name value span) trivial h)
  | .call name args mark span, h, _ =>
    absurd ht (Stmt.not_procedure_of_isSimple (s := .call name args mark span) trivial h)
  | .giveBack value _, h, _ => absurd ht ((Expr.of_mem_sites (e := value) h).2 _)
  | .breakLoop _, h, _ | .continueLoop _, h, _ | .pass _, h, _ => by simp [Stmt.sites] at h
  | .conditional test body otherwise _, h, hh => by
    rw [Stmt.sites, List.mem_append, List.mem_append] at h
    rcases h with (h | h) | h
    · exact absurd ht ((Expr.of_mem_sites h).2 _)
    · obtain ⟨b, hb⟩ := Stmt.exists_procedure_of_site ht h hh.1
      exact ⟨b, List.mem_append_left _ hb⟩
    · obtain ⟨b, hb⟩ := Stmt.exists_procedure_of_site? ht h hh.2
      exact ⟨b, List.mem_append_right _ hb⟩
  | .whileLoop test body _, h, hh | .doWhile test body _, h, hh => by
    rw [Stmt.sites, List.mem_append] at h
    rcases h with h | h
    · exact absurd ht ((Expr.of_mem_sites h).2 _)
    · exact Stmt.exists_procedure_of_site (s := body) ht h hh
  | .forLoop init test step body _, h, hh => by
    rw [Stmt.sites, List.mem_append, List.mem_append, List.mem_append] at h
    rcases h with ((h | h) | h) | h
    · exact absurd ht (Stmt.not_procedure_of_isSimple hh.1 h)
    · exact absurd ht ((Expr.of_mem_sites h).2 _)
    · exact absurd ht (Stmt.not_procedure_of_isSimple hh.2.1 h)
    · exact Stmt.exists_procedure_of_site (s := body) ht h hh.2.2
  | .procedure id' name params' returnType' body _, h, hh => by
    rw [Stmt.sites, List.cons_append, List.mem_cons, List.mem_append] at h
    rcases h with rfl | h | h
    · cases ht
      exact ⟨body, List.mem_cons_self⟩
    · obtain ⟨p, _, rfl⟩ := List.mem_map.mp h
      cases ht
    · obtain ⟨b, hb⟩ := Stmt.exists_procedure_of_site_all ht h hh
      exact ⟨b, List.mem_cons_of_mem _ hb⟩

theorem Stmt.exists_procedure_of_site_all {around : List Address} {place : Address}
    (ht : t.act = .introduce (.procedure id params returnType)) :
    ∀ {ss : List Stmt} {i : Nat}, t ∈ Stmt.allSites around place i ss →
      Stmt.AllHeadsSimple ss →
      ∃ body, ⟨id, t.name, params, returnType, body⟩ ∈ Stmt.allProcedures ss
  | [], _, h, _ => by simp [Stmt.allSites] at h
  | s :: ss, i, h, hh => by
    rw [Stmt.allSites, List.mem_append] at h
    rcases h with h | h
    · obtain ⟨b, hb⟩ := Stmt.exists_procedure_of_site ht h hh.1
      exact ⟨b, List.mem_append_left _ hb⟩
    · obtain ⟨b, hb⟩ := Stmt.exists_procedure_of_site_all ht h hh.2
      exact ⟨b, List.mem_append_right _ hb⟩

theorem Stmt.exists_procedure_of_site? {around : List Address} {place : Address}
    (ht : t.act = .introduce (.procedure id params returnType)) :
    ∀ {s : Option Stmt}, t ∈ Stmt.sites? around place s → Stmt.HeadsSimple? s →
      ∃ body, ⟨id, t.name, params, returnType, body⟩ ∈ Stmt.procedures? s
  | none, h, _ => by simp [Stmt.sites?] at h
  | some s, h, hh => Stmt.exists_procedure_of_site (s := s) ht h hh

end

end Definitions

/-- Where no two procedures share a number, a procedure is found under its own. -/
theorem ProcedureTable.find?_ofModule {m : Module} {q : Procedure}
    (hids : ((Stmt.allProcedures m.body).map (·.id)).Nodup)
    (hq : q ∈ Stmt.allProcedures m.body) : (ProcedureTable.ofModule m).find? q.id = some q := by
  rw [ProcedureTable.find?, ProcedureTable.ofModule]
  cases hfind : (Stmt.allProcedures m.body).reverse.find? (·.id == q.id) with
  | none =>
    have := List.find?_eq_none.mp hfind q (List.mem_reverse.mpr hq)
    simp at this
  | some q' =>
    have hmem := List.mem_reverse.mp (List.mem_of_find?_eq_some hfind)
    have hid : q'.id = q.id := by simpa using List.find?_some hfind
    rw [List.inj_on_of_nodup_map hids hmem hq hid]

/-! ## Marks do not matter -/

theorem Stmt.isSimple_unmarked {s : Stmt} : s.unmarked.IsSimple ↔ s.IsSimple := by
  cases s <;> rfl

mutual

theorem Stmt.headsSimple_unmarked : ∀ s : Stmt, s.unmarked.HeadsSimple ↔ s.HeadsSimple
  | .compound body _ | .procedure _ _ _ _ body _ => Stmt.allHeadsSimple_unmarked body
  | .conditional _ body otherwise _ =>
    and_congr (Stmt.headsSimple_unmarked body) (Stmt.headsSimple?_unmarked otherwise)
  | .whileLoop _ body _ | .doWhile _ body _ => Stmt.headsSimple_unmarked body
  | .forLoop _ _ _ body _ => and_congr Stmt.isSimple_unmarked
    (and_congr Stmt.isSimple_unmarked (Stmt.headsSimple_unmarked body))
  | .declaration .. | .assign .. | .call .. | .giveBack .. | .breakLoop _ | .continueLoop _
  | .pass _ => Iff.rfl

theorem Stmt.allHeadsSimple_unmarked : ∀ ss : List Stmt,
    Stmt.AllHeadsSimple (Stmt.allUnmarked ss) ↔ Stmt.AllHeadsSimple ss
  | [] => Iff.rfl
  | s :: ss => and_congr (Stmt.headsSimple_unmarked s) (Stmt.allHeadsSimple_unmarked ss)

theorem Stmt.headsSimple?_unmarked : ∀ s : Option Stmt,
    Stmt.HeadsSimple? (Stmt.unmarked? s) ↔ Stmt.HeadsSimple? s
  | none => Iff.rfl
  | some s => Stmt.headsSimple_unmarked s

end

mutual

theorem Stmt.ids_unmarked : ∀ s : Stmt,
    s.unmarked.procedures.map (·.id) = s.procedures.map (·.id)
  | .compound body _ => Stmt.ids_allUnmarked body
  | .procedure id _ _ _ body _ => congrArg (id :: ·) (Stmt.ids_allUnmarked body)
  | .conditional _ body otherwise _ => by
    rw [Stmt.unmarked, Stmt.procedures, Stmt.procedures, List.map_append, List.map_append,
      Stmt.ids_unmarked body, Stmt.ids_unmarked? otherwise]
  | .whileLoop _ body _ | .doWhile _ body _ | .forLoop _ _ _ body _ => Stmt.ids_unmarked body
  | .declaration .. | .assign .. | .call .. | .giveBack .. | .breakLoop _ | .continueLoop _
  | .pass _ => rfl

theorem Stmt.ids_allUnmarked : ∀ ss : List Stmt,
    (Stmt.allProcedures (Stmt.allUnmarked ss)).map (·.id) = (Stmt.allProcedures ss).map (·.id)
  | [] => rfl
  | s :: ss => by
    rw [Stmt.allUnmarked, Stmt.allProcedures, Stmt.allProcedures, List.map_append,
      List.map_append, Stmt.ids_unmarked s, Stmt.ids_allUnmarked ss]

theorem Stmt.ids_unmarked? : ∀ s : Option Stmt,
    (Stmt.procedures? (Stmt.unmarked? s)).map (·.id) = (Stmt.procedures? s).map (·.id)
  | none => rfl
  | some s => Stmt.ids_unmarked s

end

/-! ## Analysis -/

/-- The verdict of an analysis is that on the names, then that on the jumps. -/
theorem Module.verdict_analyze (m : Module) :
    m.analyze.verdict = (({} : Resolver).resolve m).1.2 >>= fun _ =>
      (({} : PlacementChecker).check m.analyze.module).1 := by
  rw [Module.analyze]
  rcases ({} : Resolver).resolve m with ⟨⟨resolved, failure | _⟩, resolver⟩ <;> rfl

/-- What it takes to come through analysis. -/
theorem Module.of_analyze_ok {m : Module} (h : m.analyze.verdict = .ok ()) :
    (({} : Resolver).resolve m).1.2 = .ok ()
      ∧ Stmt.AllPlaced false false m.analyze.module.body := by
  rw [Module.verdict_analyze] at h
  cases hr : (({} : Resolver).resolve m).1.2 with
  | error e =>
    rw [hr] at h
    cases h
  | ok _ =>
    rw [hr] at h
    refine ⟨rfl, ?_⟩
    rcases hc : (Stmt.checkAllJumps m.analyze.module.body).run.run {} with ⟨verdict, c⟩
    have hok : verdict = .ok () := by
      rw [PlacementChecker.check] at h
      have := congrArg Prod.fst hc
      exact this.symm.trans h
    rw [hok] at hc
    exact (Stmt.checkAllJumps_ok hc).2

/-- The heads of the loops of a text that parses are simple, and marks do not change that. -/
theorem Module.allHeadsSimple_analyze {text : String} {m : Module}
    (hparse : Module.parse text = .ok m) : Stmt.AllHeadsSimple m.analyze.module.body := by
  obtain ⟨tokens, _, ⟨d⟩⟩ := Module.exists_derivation_of_parse hparse
  have hunmarked : Stmt.allUnmarked m.analyze.module.body = Stmt.allUnmarked m.body :=
    congrArg Module.body (m.unmarked_resolve {})
  rw [← Stmt.allHeadsSimple_unmarked, hunmarked, Stmt.allHeadsSimple_unmarked]
  exact d.statements.headsSimple

/-- The procedures of a text that parses have different numbers, and marks do not change that. -/
theorem Module.nodup_ids_analyze {text : String} {m : Module}
    (hparse : Module.parse text = .ok m) :
    ((Stmt.allProcedures m.analyze.module.body).map (·.id)).Nodup := by
  obtain ⟨tokens, _, ⟨d⟩⟩ := Module.exists_derivation_of_parse hparse
  have hunmarked : Stmt.allUnmarked m.analyze.module.body = Stmt.allUnmarked m.body :=
    congrArg Module.body (m.unmarked_resolve {})
  rw [← Stmt.ids_allUnmarked, hunmarked, Stmt.ids_allUnmarked]
  have hindex : (((Stmt.allProcedures m.body).map (·.id)).map (·.index)).Nodup := by
    rw [List.map_map]
    exact d.statements.numbers_perm.2.nodup_iff.mpr List.nodup_range'
  exact hindex.of_map

/-- Where a module that came through analysis calls, the mark leads to a definition, and the caller
sees the parameters and the return type of that definition. -/
theorem Module.definition_of_call {text : String} {m : Module} (hparse : Module.parse text = .ok m)
    (h : m.analyze.verdict = .ok ()) {t : Site} (ht : t ∈ m.analyze.module.sites) {count : Nat}
    {mark : Option ProcedureSymbol} (hact : t.act = .call count mark) :
    ∃ symbol procedure, mark = some symbol
      ∧ (ProcedureTable.ofModule m.analyze.module).find? symbol.id = some procedure
      ∧ symbol.params.map (·.name) = procedure.params.map (·.name)
      ∧ procedure.params.length = count ∧ symbol.returnType = procedure.returnType := by
  obtain ⟨i, hi⟩ := List.mem_iff_getElem?.mp ht
  obtain ⟨j, d, id, params, returnType, _, hj, hd, _, hcount, hmark⟩ :=
    Resolver.exists_definition (Module.of_analyze_ok h).1 hi hact
  obtain ⟨body, hbody⟩ := Stmt.exists_procedure_of_site_all hd (List.mem_of_getElem? hj)
    (Module.allHeadsSimple_analyze hparse)
  refine ⟨_, _, hmark, ProcedureTable.find?_ofModule (Module.nodup_ids_analyze hparse) hbody, ?_,
    hcount, rfl⟩
  simp [ProcedureSymbol.introduced]

/-- **A text that parses and comes through analysis gives a module that is fit to run.** -/
theorem Module.fit_of_analysis {text : String} {m : Module} (hparse : Module.parse text = .ok m)
    (h : m.analyze.verdict = .ok ()) : m.analyze.module.Fit := by
  have hserved : ∀ t ∈ m.analyze.module.sites, t.Served (.ofModule m.analyze.module) := by
    intro t ht count mark hact
    obtain ⟨symbol, procedure, hmark, hfind, hparams, hcount, -⟩ :=
      Module.definition_of_call hparse h ht hact
    exact ⟨symbol, procedure, hmark, hfind, hparams, hcount⟩
  obtain ⟨hbody, hprocedures⟩ := Stmt.allFit_of_sites hserved (Module.of_analyze_ok h).2
    (Module.allHeadsSimple_analyze hparse)
  exact ⟨hbody, hprocedures⟩

end Imperative
