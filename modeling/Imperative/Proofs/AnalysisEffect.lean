import Imperative.Proofs.Annotation
import Imperative.Proofs.Fitness

/-!
# Analysis writes marks only

Analysis marks calls and changes nothing else, and the marks that are there before make no
difference to it.

* `Resolver.verdict_resolve`, `Resolver.visits_resolve`: what a resolver does to a module, without
  the resolver.  So what it has done before makes no difference either
  (`Resolver.resolve_eq_resolve`).
* `Resolver.resolve_of_unmarked_eq`: modules that differ in marks only are marked in the same way.
* `Module.MarkedUpTo`: how a walk that fails leaves a module.
* `analysis_writes_marks_only`: all of it, for resolvers and for the whole analysis.
-/

namespace Imperative

/-- A resolver gives the verdict that the names in a module deserve, whatever it has done before. -/
theorem Resolver.verdict_resolve (r : Resolver) (m : Module) :
    (r.resolve m).1.2 = judge [] (reached m.visits) := by
  obtain ⟨r', h⟩ := m.annotates_resolve r
  exact h.verdict_eq

theorem Resolver.visits_resolve (r : Resolver) (m : Module) :
    (r.resolve m).1.1.visits = annotate [] m.visits := by
  obtain ⟨r', h⟩ := m.annotates_resolve r
  exact h.visits_eq

theorem Module.refers_visits (m : Module) : Refers [] m.visits := by
  obtain ⟨r', h⟩ := m.annotates_resolve {}
  exact h.refers

/-- What a resolver says about a module does not depend on what it has done before. -/
theorem Resolver.resolve_eq_resolve (r r' : Resolver) (m : Module) :
    (r.resolve m).1 = (r'.resolve m).1 := by
  refine Prod.ext (Module.eq_of_visits ?_ ?_) ?_
  · rw [m.unmarked_resolve, m.unmarked_resolve]
  · rw [r.visits_resolve, r'.visits_resolve]
  · rw [r.verdict_resolve, r'.verdict_resolve]

section Unmarked

variable {m m' : Module}

theorem Module.map_blank_visits (h : m.unmarked = m'.unmarked) :
    m.visits.map Visit.blank = m'.visits.map Visit.blank := by
  rw [← m.visits_unmarked, h, m'.visits_unmarked]

/-- Modules that differ in marks only get the same verdict. -/
theorem Resolver.verdict_of_unmarked_eq (h : m.unmarked = m'.unmarked) (r r' : Resolver) :
    (r.resolve m).1.2 = (r'.resolve m').1.2 := by
  rw [r.verdict_resolve, r'.verdict_resolve, ← reached_map_blank m.visits,
    ← reached_map_blank m'.visits, Module.map_blank_visits h]

/-- If they are accepted, they are marked in the same way. -/
theorem Resolver.resolve_of_unmarked_eq (h : m.unmarked = m'.unmarked) (r r' : Resolver)
    (hok : (r.resolve m).1.2 = .ok ()) : (r.resolve m).1 = (r'.resolve m').1 := by
  have hsame := Resolver.verdict_of_unmarked_eq h r r'
  refine Prod.ext (Module.eq_of_visits ?_ ?_) hsame
  · rw [m.unmarked_resolve, m'.unmarked_resolve, h]
  · have hok' := hsame.symm.trans hok
    rw [Resolver.verdict_resolve] at hok hok'
    rw [r.visits_resolve, r'.visits_resolve, annotate_of_ok hok, annotate_of_ok hok',
      ← annotated_map_blank [] m.visits, ← annotated_map_blank [] m'.visits,
      Module.map_blank_visits h]

/-- The same for the whole analysis. -/
theorem Module.verdict_analyze_of_unmarked_eq (h : m.unmarked = m'.unmarked) :
    m.analyze.verdict = m'.analyze.verdict := by
  rw [m.verdict_analyze, m'.verdict_analyze, Resolver.verdict_of_unmarked_eq h {} {}]
  cases hok : (({} : Resolver).resolve m').1.2 with
  | error e => rfl
  | ok _ =>
    have same := Resolver.resolve_of_unmarked_eq h.symm {} {} hok
    show (PlacementChecker.check {} (({} : Resolver).resolve m).1.1).1 =
      (PlacementChecker.check {} (({} : Resolver).resolve m').1.1).1
    rw [same]

theorem Module.module_analyze_of_unmarked_eq (h : m.unmarked = m'.unmarked)
    (hok : m.analyze.verdict = .ok ()) : m.analyze.module = m'.analyze.module :=
  congrArg Prod.fst (Resolver.resolve_of_unmarked_eq h {} {} (Module.of_analyze_ok hok).1)

end Unmarked

/-- All calls of `after` are marked with the procedures to which they refer in `before`. -/
def Module.MarkedIn (before after : Module) : Prop :=
  after.visits = annotated [] before.visits
    ∧ ∀ around name, .leave around name none ∉ after.visits

/-- The error `e` is about the first site of `before` that does not fit.  The calls that are left
before this site are marked in `after` with the procedures to which they refer, and all other calls
are as they are in `before`. -/
def Module.MarkedUpTo (e : AnalysisError) (before after : Module) : Prop :=
  ∃ (pre : List Visit) (t : Site) (post : List Visit), before.visits = pre ++ .reach t :: post
    ∧ (∀ (i : Nat) (u : Site), (reached pre)[i]? = some u → u.Fits ((reached pre).take i))
    ∧ t.complaint? (reached pre) = some e.cause ∧ e.span = t.span
    ∧ after.visits = annotated [] pre ++ .reach t :: post
    ∧ ∀ around name, .leave around name none ∉ annotated [] pre

theorem Resolver.markedIn_resolve {r : Resolver} {m : Module} (hok : (r.resolve m).1.2 = .ok ()) :
    m.MarkedIn (r.resolve m).1.1 := by
  rw [Resolver.verdict_resolve] at hok
  have hvisits : (r.resolve m).1.1.visits = annotated [] m.visits := by
    rw [r.visits_resolve, annotate_of_ok hok]
  refine ⟨hvisits, ?_⟩
  rw [hvisits]
  refine Refers.leave_none_notMem [] ?_ hok
  rw [List.append_nil]
  exact m.refers_visits

theorem Resolver.markedUpTo_resolve {r : Resolver} {m : Module} {e : AnalysisError}
    (h : (r.resolve m).1.2 = .error e) : m.MarkedUpTo e (r.resolve m).1.1 := by
  rw [Resolver.verdict_resolve] at h
  obtain ⟨pre, t, post, hsplit, fits, cause, span, hvisits⟩ := exists_of_judge_reached h
  refine ⟨pre, t, post, hsplit, judge_eq_ok_iff.mp fits, cause, span, ?_, ?_⟩
  · rw [r.visits_resolve, hvisits]
  · have hrefers := m.refers_visits
    rw [hsplit] at hrefers
    exact hrefers.leave_none_notMem _ fits

/-- An analysis that fails has failed at a name, or at a jump when all calls were marked. -/
theorem Module.of_analyze_error {m : Module} {e : AnalysisError}
    (h : m.analyze.verdict = .error e) :
    m.MarkedUpTo e m.analyze.module ∨ m.MarkedIn m.analyze.module
      ∧ (({} : PlacementChecker).check m.analyze.module).1 = .error e := by
  rw [m.verdict_analyze] at h
  cases hnames : (({} : Resolver).resolve m).1.2 with
  | error e' =>
    rw [hnames] at h
    cases h
    exact .inl (Resolver.markedUpTo_resolve hnames)
  | ok _ =>
    rw [hnames] at h
    exact .inr ⟨Resolver.markedIn_resolve hnames, h⟩

/-- **Analysis writes marks and reads none.**  Whatever comes out of it, a module keeps all but its
marks, and the verdict is the same for the module without its marks.  If the module is accepted, all
its calls are marked, in the same way for the module without its marks and when analysis is
repeated.  If not, the calls are marked that were left before the site of the failure, and no other
mark is changed. -/
theorem analysis_writes_marks_only (m : Module) (r r' : Resolver) :
    ((r.resolve m).1.1.unmarked = m.unmarked
      ∧ (r'.resolve m.unmarked).1.2 = (r.resolve m).1.2
      ∧ ((r.resolve m).1.2 = .ok () → m.MarkedIn (r.resolve m).1.1
        ∧ (r'.resolve m.unmarked).1.1 = (r.resolve m).1.1
        ∧ (r'.resolve (r.resolve m).1.1).1 = ((r.resolve m).1.1, .ok ()))
      ∧ ∀ e, (r.resolve m).1.2 = .error e → m.MarkedUpTo e (r.resolve m).1.1)
    ∧ m.analyze.module.unmarked = m.unmarked
      ∧ m.unmarked.analyze.verdict = m.analyze.verdict
      ∧ (m.analyze.verdict = .ok () → m.MarkedIn m.analyze.module
        ∧ m.unmarked.analyze.module = m.analyze.module
        ∧ m.analyze.module.analyze.module = m.analyze.module
        ∧ m.analyze.module.analyze.verdict = .ok ())
      ∧ ∀ e, m.analyze.verdict = .error e →
        m.MarkedUpTo e m.analyze.module ∨ m.MarkedIn m.analyze.module
          ∧ (({} : PlacementChecker).check m.analyze.module).1 = .error e := by
  have hcleared := m.unmarked_unmarked
  have hwritten : m.analyze.module.unmarked = m.unmarked := m.unmarked_resolve {}
  refine ⟨⟨m.unmarked_resolve r, Resolver.verdict_of_unmarked_eq hcleared r' r, fun hok => ?_,
    fun e => Resolver.markedUpTo_resolve⟩, hwritten, Module.verdict_analyze_of_unmarked_eq hcleared,
    fun hok => ?_, fun e => Module.of_analyze_error⟩
  · refine ⟨Resolver.markedIn_resolve hok, ?_, ?_⟩
    · rw [Resolver.resolve_of_unmarked_eq hcleared.symm r r' hok]
    · rw [← Resolver.resolve_of_unmarked_eq (m.unmarked_resolve r).symm r r' hok, ← hok]
  · have hnames := (Module.of_analyze_ok hok).1
    refine ⟨Resolver.markedIn_resolve hnames, ?_, ?_, ?_⟩
    · exact (Module.module_analyze_of_unmarked_eq hcleared.symm hok).symm
    · exact (Module.module_analyze_of_unmarked_eq hwritten.symm hok).symm
    · rw [Module.verdict_analyze_of_unmarked_eq hwritten, hok]

/-- A procedure `f` with two parameters, and a call of it with another call and an unknown name for
arguments.  The outer call carries a mark from elsewhere. -/
def Module.halfResolved (inner : Option ProcedureSymbol) : Module where
  body :=
    [.procedure ⟨0⟩ "f" [⟨"x", .integer, default⟩, ⟨"y", .integer, default⟩] none [] default,
      .call "f" [.call "f" [.number 1 default, .number 2 default] inner default, .var "z" default]
        (some ⟨⟨7⟩, "g", [], none, 1⟩) default]

/-- The inner call is marked, and the outer one keeps its mark. -/
theorem analysis_writes_marks_only_halfResolved :
    (Module.halfResolved none).analyze.verdict = .error ⟨.identifierNotFound "z", default⟩
      ∧ (Module.halfResolved none).analyze.module = .halfResolved
        (some (.introduced "f" 1 ⟨0⟩ [⟨"x", .integer, default⟩, ⟨"y", .integer, default⟩] none))
      ∧ (Module.halfResolved none).analyze.module.unmarked = (Module.halfResolved none).unmarked
      ∧ (Module.halfResolved none).MarkedUpTo ⟨.identifierNotFound "z", default⟩
        (({} : Resolver).resolve (.halfResolved none)).1.1 := by
  have h : (({} : Resolver).resolve (.halfResolved none)).1.2 =
      .error ⟨.identifierNotFound "z", default⟩ := rfl
  obtain ⟨⟨-, -, -, hfailed⟩, hunmarked, -⟩ :=
    analysis_writes_marks_only (.halfResolved none) {} {}
  exact ⟨rfl, rfl, hunmarked, hfailed _ h⟩

end Imperative
