import Imperative.Parsing.Statement
import Imperative.Proofs.NameResolution
import Imperative.Proofs.Occurrences
import Mathlib

/-!
# Visiting order and source order

Names are resolved in the order in which the sites of a module are visited, and the test of a loop
is visited before its body.  That is the order of the text for every statement but one: the test of
a do-while loop is written, and evaluated, *after* the body.  What the body introduces is then in
front of the test in the text, and still unknown when the test is visited.

* `Module.sitesAsWritten`: the sites in the order of the text.
* `ReadAs`: what a part of a module contributes to the comparison of the two orders.  The pieces
  compose (`ReadAs.append`), and only a do-while loop contributes a condition (`ReadAs.swap`).
* `Resolver.accepts_iff_tests_fit`: a module whose names are in order as written is accepted exactly
  if the test of every do-while loop is in order without the body of the loop.
* `Module.late_test_refused`: so a module can be in order as written and be refused.
-/

namespace Imperative

/-! ## The order of the text -/

mutual

/-- The sites of a statement in the order of the text. -/
def Stmt.sitesAsWritten (around : List Address) (place : Address) : Stmt → List Site
  | .compound body _ => Stmt.allSitesAsWritten around place 0 body
  | .conditional test body otherwise _ =>
    test.sites around ++ body.sitesAsWritten around (0 :: place)
      ++ Stmt.sitesAsWritten? around (1 :: place) otherwise
  | .whileLoop test body _ => test.sites around ++ body.sitesAsWritten around (0 :: place)
  | .doWhile test body _ => body.sitesAsWritten around (0 :: place) ++ test.sites around
  | .forLoop init test step body _ =>
    init.sitesAsWritten around (0 :: place) ++ test.sites around
      ++ step.sitesAsWritten around (1 :: place) ++ body.sitesAsWritten around (2 :: place)
  | .procedure id name params returnType body span =>
    Occurrence.header around place id name params returnType span
      ++ Stmt.allSitesAsWritten (place :: around) place 0 body
  -- the others have no statements inside
  | s => s.sites around place

/-- The sites of the children of `place` from the `i`-th on, in the order of the text. -/
def Stmt.allSitesAsWritten (around : List Address) (place : Address) (i : Nat) :
    List Stmt → List Site
  | [] => []
  | s :: ss => s.sitesAsWritten around (i :: place) ++ Stmt.allSitesAsWritten around place (i + 1) ss

/-- The sites, in the order of the text, of a statement that may be absent. -/
def Stmt.sitesAsWritten? (around : List Address) (place : Address) : Option Stmt → List Site
  | none => []
  | some s => s.sitesAsWritten around place

end

/-- The sites of a module in the order of the text. -/
def Module.sitesAsWritten (m : Module) : List Site :=
  Stmt.allSitesAsWritten [] [] 0 m.body

/-- Every name of the module is in order, given what is written before it. -/
def Module.WellScopedAsWritten (m : Module) : Prop :=
  ∀ (i : Nat) (t : Site), m.sitesAsWritten[i]? = some t → t.Fits (m.sitesAsWritten.take i)

/-- The sites of the occurrence in the order of the text. -/
def Occurrence.sitesAsWritten (o : Occurrence) : List Site :=
  o.stmt.sitesAsWritten o.around o.place

/-- If the occurrence is a do-while loop, its test is in order without the body of the loop. -/
def Occurrence.TestFits (o : Occurrence) : Prop :=
  match o.stmt with
  | .doWhile test _ _ => ∀ t ∈ test.sites o.around, t.Fits o.earlier
  | _ => True

/-! ## What a verdict depends on -/

/-- Something is introduced at the site. -/
def Site.isIntroduction (t : Site) : Bool :=
  match t.act with
  | .introduce _ => true
  | .use | .call .. => false

/-- The sites at which something is introduced. -/
def introductions (ts : List Site) : List Site :=
  ts.filter Site.isIntroduction

theorem introductions_append (xs ys : List Site) :
    introductions (xs ++ ys) = introductions xs ++ introductions ys :=
  List.filter_append xs ys

theorem introductions_eq_nil_of {ts : List Site} (h : ∀ t ∈ ts, ∀ what, t.act ≠ .introduce what) :
    introductions ts = [] := by
  refine List.filter_eq_nil_iff.mpr fun t ht hintro => ?_
  rw [Site.isIntroduction] at hintro
  split at hintro
  · exact h t ht _ ‹_›
  all_goals cases hintro

theorem Expr.introductions_sites (e : Expr) (around : List Address) :
    introductions (e.sites around) = [] :=
  introductions_eq_nil_of fun _ ht => (Expr.of_mem_sites ht).2

theorem meaning?_introductions (ts : List Site) (around : List Address) (name : String) :
    meaning? (introductions ts) around name = meaning? ts around name := by
  rw [meaning?, meaning?]
  congr 1
  induction ts with
  | nil => rfl
  | cons t ts ih =>
    rw [introductions, List.filter_cons]
    split
    · rw [List.findSome?_cons, List.findSome?_cons, ← introductions, ih]
    · have hnone : t.introduction? around name = none := by
        rw [Site.introduction?_eq_none_iff]
        intro what hact
        simp_all [Site.isIntroduction]
      rw [List.findSome?_cons, hnone, ← introductions, ih]

section Congruence

variable {earlier earlier' : List Site} (h : introductions earlier = introductions earlier')
include h

theorem meaning?_congr (around : List Address) (name : String) :
    meaning? earlier around name = meaning? earlier' around name := by
  rw [← meaning?_introductions, h, meaning?_introductions]

theorem referent?_congr (around : List Address) (name : String) :
    referent? earlier around name = referent? earlier' around name := by
  rw [referent?, referent?]
  congr 1
  funext scope
  exact meaning?_congr h scope name

/-- What is wrong with a site depends only on what was introduced before it. -/
theorem Site.complaint?_congr (t : Site) : t.complaint? earlier = t.complaint? earlier' := by
  rw [Site.complaint?, Site.complaint?, meaning?_congr h, referent?_congr h]

theorem judge_congr (ts : List Site) : judge earlier ts = judge earlier' ts := by
  induction ts generalizing earlier earlier' with
  | nil => rfl
  | cons t ts ih =>
    have hnext : introductions (earlier ++ [t]) = introductions (earlier' ++ [t]) := by
      rw [introductions_append, introductions_append, h]
    rw [judge, judge, Site.complaint?_congr h, ih hnext]

end Congruence

/-- Where nothing is introduced, every site is judged by what was there before. -/
theorem judge_eq_ok_iff_of_introductions {earlier ts : List Site} (h : introductions ts = []) :
    judge earlier ts = .ok () ↔ ∀ t ∈ ts, t.Fits earlier := by
  induction ts generalizing earlier with
  | nil => simp [judge]
  | cons t ts ih =>
    rw [← List.singleton_append, introductions_append, List.append_eq_nil_iff] at h
    have hsame : introductions (earlier ++ [t]) = introductions earlier := by
      rw [introductions_append, h.1, List.append_nil]
    rw [← List.singleton_append, judge_append_eq_ok_iff, judge_congr hsame, ih h.2,
      judge_singleton, List.singleton_append, List.forall_mem_cons, ← Site.complaint?_eq_none_iff]
    cases t.complaint? earlier <;> simp

/-! ## Comparing the two orders -/

/-- The sites `visited` come behind `earlier` in visiting order and are `written` in another one.
If they are in order as written, then `tests` is what decides about them as visited. -/
structure ReadAs (earlier : List Site) (tests : Prop) (visited written : List Site) : Prop where
  introductions_eq : introductions written = introductions visited
  judge_iff : ∀ before, introductions before = introductions earlier →
    judge before written = .ok () → (judge earlier visited = .ok () ↔ tests)

namespace ReadAs

variable {earlier xs xs' ys ys' : List Site} {A B : Prop}

theorem congr (h : ReadAs earlier A xs xs') (hiff : A ↔ B) : ReadAs earlier B xs xs' where
  introductions_eq := h.introductions_eq
  judge_iff before hb hw := (h.judge_iff before hb hw).trans hiff

/-- Sites that are visited as they are written. -/
theorem same (earlier xs : List Site) : ReadAs earlier True xs xs where
  introductions_eq := rfl
  judge_iff before hb hw := by rw [← judge_congr hb, hw]; simp

theorem append (hx : ReadAs earlier A xs xs') (hy : ReadAs (earlier ++ xs) B ys ys') :
    ReadAs earlier (A ∧ B) (xs ++ ys) (xs' ++ ys') where
  introductions_eq := by
    rw [introductions_append, introductions_append, hx.introductions_eq, hy.introductions_eq]
  judge_iff before hb hw := by
    obtain ⟨hwx, hwy⟩ := judge_append_eq_ok_iff.mp hw
    have hb' : introductions (before ++ xs') = introductions (earlier ++ xs) := by
      rw [introductions_append, introductions_append, hb, hx.introductions_eq]
    rw [judge_append_eq_ok_iff]
    exact and_congr (hx.judge_iff before hb hwx) (hy.judge_iff _ hb' hwy)

/-- Sites that introduce nothing, visited first and written last.  That they are in order where they
are written says nothing about where they are visited. -/
theorem swap (hx : introductions xs = []) (hy : ReadAs (earlier ++ xs) B ys ys') :
    ReadAs earlier ((∀ t ∈ xs, t.Fits earlier) ∧ B) (xs ++ ys) (ys' ++ xs) where
  introductions_eq := by
    rw [introductions_append, introductions_append, hx, hy.introductions_eq, List.append_nil,
      List.nil_append]
  judge_iff before hb hw := by
    have hb' : introductions before = introductions (earlier ++ xs) := by
      rw [introductions_append, hx, List.append_nil, hb]
    rw [judge_append_eq_ok_iff, judge_eq_ok_iff_of_introductions hx]
    exact and_congr_right fun _ => hy.judge_iff before hb' (judge_append_eq_ok_iff.mp hw).1

theorem row {T : Occurrence → Prop} {around : List Address} {place : Address} {ss : List Stmt}
    {i : Nat} (h : ∀ p ∈ Occurrence.row around place i earlier ss,
      ReadAs p.earlier (T p) p.sites p.sitesAsWritten) :
    ReadAs earlier (∀ p ∈ Occurrence.row around place i earlier ss, T p)
      (Stmt.allSites around place i ss) (Stmt.allSitesAsWritten around place i ss) := by
  induction ss generalizing i earlier with
  | nil => exact (same earlier []).congr (by simp [Occurrence.row])
  | cons s ss ih =>
    rw [Occurrence.row, List.forall_mem_cons] at h
    rw [Occurrence.row, List.forall_mem_cons]
    exact h.1.append (ih h.2)

end ReadAs

/-- What holds of everything inside an occurrence holds of it and of everything inside its parts. -/
theorem Occurrence.forall_within_iff {o : Occurrence} {P : Occurrence → Prop} :
    (∀ w, o.Within w → P w) ↔ P o ∧ ∀ p ∈ o.parts, ∀ w, p.Within w → P w := by
  constructor
  · intro h
    exact ⟨h o (.refl o), fun p hp w hw => h w (.of_mem hp hw)⟩
  · rintro ⟨ho, hparts⟩ w hw
    rcases hw.eq_or_exists_part with rfl | ⟨p, hp, hw⟩
    · exact ho
    · exact hparts p hp w hw

/-- What decides about an occurrence is its own test and what decides about its parts. -/
theorem Occurrence.readAs_of_parts {o : Occurrence} {A : Prop}
    (h : ReadAs o.earlier A o.sites o.sitesAsWritten)
    (hA : A ↔ o.TestFits ∧ ∀ p ∈ o.parts, ∀ w, p.Within w → w.TestFits) :
    ReadAs o.earlier (∀ w, o.Within w → w.TestFits) o.sites o.sitesAsWritten :=
  h.congr (hA.trans forall_within_iff.symm)

/-- An occurrence contributes the tests of the do-while loops inside it. -/
theorem Occurrence.readAs (o : Occurrence) :
    ReadAs o.earlier (∀ w, o.Within w → w.TestFits) o.sites o.sitesAsWritten := by
  induction o using Occurrence.induction with
  | h o ih =>
    obtain ⟨around, place, earlier, s⟩ := o
    cases s with
    | compound body => exact readAs_of_parts (.row ih) (and_iff_right trivial).symm
    | conditional test body otherwise =>
      have hfront := (ReadAs.same earlier (test.sites around)).append (ih _ List.mem_cons_self)
      cases otherwise with
      | none => exact readAs_of_parts (hfront.append (.same _ [])) (by simp [parts, TestFits])
      | some otherwise =>
        have helse := ih _ (List.mem_cons_of_mem _ List.mem_cons_self)
        exact readAs_of_parts (hfront.append helse) (by simp [parts, TestFits])
    | whileLoop test body =>
      have htest := ReadAs.same earlier (test.sites around)
      exact readAs_of_parts (htest.append (ih _ List.mem_cons_self)) (by simp [parts, TestFits])
    | doWhile test body =>
      have hbody := ih _ List.mem_cons_self
      exact readAs_of_parts (.swap (test.introductions_sites around) hbody)
        (by simp [parts, TestFits])
    | forLoop init test step body =>
      have hinit := ih _ List.mem_cons_self
      have hstep := ih _ (List.mem_cons_of_mem _ List.mem_cons_self)
      have hbody := ih _ (List.mem_cons_of_mem _ (List.mem_cons_of_mem _ List.mem_cons_self))
      have hhead := (hinit.append (.same _ (test.sites around))).append hstep
      exact readAs_of_parts (hhead.append hbody) (by simp [parts, TestFits, and_assoc])
    | procedure id name params returnType body span =>
      have hheader := ReadAs.same earlier (header around place id name params returnType span)
      exact readAs_of_parts (hheader.append (.row ih)) (by simp [parts, TestFits])
    | _ => exact readAs_of_parts (.same earlier _) (by simp [parts, TestFits])

/-! ## Modules -/

/-- **Visiting order against source order.**  Let the names of a module be in order as they are
written.  Then the module is accepted if and only if the test of each of its do-while loops is in
order without what the body of that loop introduces. -/
theorem Resolver.accepts_iff_tests_fit (r : Resolver) (m : Module) (h : m.WellScopedAsWritten) :
    (r.resolve m).1.2 = .ok () ↔ ∀ o, m.Has o → o.TestFits := by
  obtain ⟨_, hwalk⟩ := m.walked_resolve r
  have hread : ReadAs [] (∀ item ∈ m.items, ∀ w, item.Within w → w.TestFits) m.sites
      m.sitesAsWritten :=
    .row fun item _ => item.readAs
  have hwritten : judge [] m.sitesAsWritten = .ok () := by
    rw [judge_eq_ok_iff]
    exact h
  rw [hwalk.verdict_eq, hread.judge_iff [] rfl hwritten]
  constructor
  · rintro hall o ⟨item, hitem, hwithin⟩
    exact hall item hitem o hwithin
  · exact fun hall item hitem w hw => hall w ⟨item, hitem, hw⟩

/-- A loop that tests a variable of the module after assigning to it. -/
def Module.countdown : Module where
  body := [.declaration "x" .integer default,
    .doWhile (.var "x" default) (.assign "x" (.number 0 default) default) default]

theorem Resolver.accepts_iff_tests_fit_countdown :
    Module.countdown.WellScopedAsWritten ∧ (({} : Resolver).resolve .countdown).1.2 = .ok ()
      ∧ ∀ o, Module.countdown.Has o → o.TestFits := by
  have hwritten : Module.countdown.WellScopedAsWritten := by
    have hjudge : judge [] Module.countdown.sitesAsWritten = .ok () := rfl
    exact judge_eq_ok_iff.mp hjudge
  exact ⟨hwritten, rfl, (Resolver.accepts_iff_tests_fit {} .countdown hwritten).mp rfl⟩

/-- A loop whose body declares what its test reads. -/
def Module.lateTest : Module where
  body := [.doWhile (.var "x" ⟨21, 22, 1, 22⟩)
    (.compound [.declaration "x" .integer ⟨5, 10, 1, 6⟩] ⟨3, 13, 1, 4⟩) ⟨0, 24, 1, 1⟩]

/-- A declaration in the body of a do-while loop is written before the test, and every name of this
program is in order as written.  It is refused all the same, whatever was resolved before. -/
theorem Module.late_test_refused :
    Module.parse "do \x7b int x; \x7d while (x);" = .ok .lateTest
      ∧ (Module.lateTest.sitesAsWritten.map (·.span.start)).Pairwise (· < ·)
      ∧ Module.lateTest.WellScopedAsWritten
      ∧ ∀ r : Resolver, (r.resolve .lateTest).1.2 =
        .error ⟨.identifierNotFound "x", ⟨21, 22, 1, 22⟩⟩ := by
  have hwritten : judge [] Module.lateTest.sitesAsWritten = .ok () := rfl
  refine ⟨by cbv, by decide, judge_eq_ok_iff.mp hwritten, fun r => ?_⟩
  obtain ⟨_, hwalk⟩ := Module.lateTest.walked_resolve r
  rw [hwalk.verdict_eq]
  rfl

end Imperative
