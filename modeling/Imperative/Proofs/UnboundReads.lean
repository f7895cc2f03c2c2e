import Imperative.Proofs.Exposure
import Imperative.Proofs.SourceOrder
import Imperative.Proofs.VisibleVariables

/-!
# Reads of names that were never bound

Analysis asks that a declaration stands before a read, and execution asks that it has been executed.
The two differ where a statement has a part that a run may leave out: a declaration in such a part
can be seen behind it, and yet nothing is bound.  So a program that came through analysis can fail
at an unbound name (`Module.program_read_unbound`).

The parts that may be left out are the only reason.  A read of the program itself that finds nothing
is exposed (`Proofs.Exposure`), analysis has seen a declaration before it, and a declaration before
an exposed read stands in a part that may be left out and that does not hold the read.

* `Occurrence.optionalParts`: the parts of a statement that a run may leave out.
* `Occurrence.exists_optional_part`: a declaration in a statement that does not settle its name is
  in such a part.
* `Occurrence.readsExposed_of_exposed`: what stands before an exposed read.
* `Module.unbound_reads_skip_declarations`: what lies behind an unbound name.
-/

namespace Imperative

/-! ## Reads and what they know of -/

/-- Where the statement itself reads the name: in its value, its arguments or its test. -/
def Stmt.reads (x : String) : Stmt → List Span
  | .assign _ value _ | .giveBack value _ => value.reads x
  | .call _ args _ _ => Expr.allReads x args
  | .conditional test _ _ _ | .whileLoop test _ _ | .doWhile test _ _ | .forLoop _ test _ _ _ =>
    test.reads x
  | .compound .. | .declaration .. | .breakLoop _ | .continueLoop _ | .pass _ | .procedure .. => []

mutual

/-- A read is a use of the name. -/
theorem Expr.mem_sites_of_mem_reads {x : String} {span : Span} (around : List Address) :
    ∀ {e : Expr}, span ∈ e.reads x → ⟨around, x, .use, span⟩ ∈ e.sites around
  | .number .., h => by cases h
  | .var name site, h => by
    rw [Expr.reads] at h
    split at h
    · next hname =>
      obtain rfl := List.mem_singleton.mp h
      rw [Expr.sites, hname]
      exact List.mem_singleton_self _
    · cases h
  | .unary _ operand _, h => Expr.mem_sites_of_mem_reads around (e := operand) h
  | .binary _ lhs rhs _, h => by
    rw [Expr.sites, List.mem_append]
    rcases List.mem_append.mp h with h | h
    · exact .inl (Expr.mem_sites_of_mem_reads around h)
    · exact .inr (Expr.mem_sites_of_mem_reads around h)
  | .call _ args _ _, h => List.mem_cons_of_mem _ (Expr.mem_allSites_of_mem_reads around h)

theorem Expr.mem_allSites_of_mem_reads {x : String} {span : Span} (around : List Address) :
    ∀ {es : List Expr}, span ∈ Expr.allReads x es →
      ⟨around, x, .use, span⟩ ∈ Expr.allSites around es
  | [], h => by cases h
  | e :: es, h => by
    rw [Expr.allSites, List.mem_append]
    rcases List.mem_append.mp h with h | h
    · exact .inl (Expr.mem_sites_of_mem_reads around h)
    · exact .inr (Expr.mem_allSites_of_mem_reads around h)

end

/-- A variable of the given name is introduced in the scope. -/
def Site.Declares (x : String) (around : List Address) (t : Site) : Prop :=
  ∃ type, t.act = .introduce (.variable type) ∧ t.around = around ∧ t.name = x

theorem Expr.not_declares {e : Expr} {around scope : List Address} {x : String} {t : Site}
    (h : t ∈ e.sites around) : ¬ t.Declares x scope := by
  rintro ⟨type, hact, -⟩
  exact (Expr.of_mem_sites h).2 _ hact

namespace Occurrence

/-- The sites that the expressions of the statement itself know of.  Only the test of a for loop
has other sites of the statement before it that introduce something. -/
def known (o : Occurrence) : List Site :=
  match o.stmt with
  | .forLoop init _ _ _ _ => o.earlier ++ init.sites o.around (0 :: o.place)
  | _ => o.earlier

/-- In a statement whose sites are in order, a name that the statement itself reads refers to a
variable. -/
theorem exists_referent {o : Occurrence} (hok : judge o.earlier o.sites = .ok ()) {x : String}
    {span : Span} (h : span ∈ o.stmt.reads x) :
    ∃ u type, referent? o.known o.around x = some (.introduced u (.variable type)) := by
  obtain ⟨around, place, earlier, s⟩ := o
  have fits {known : List Site} {e : Expr} (hjudge : judge known (e.sites around) = .ok ())
      (he : span ∈ e.reads x) :
      ∃ u type, referent? known around x = some (.introduced u (.variable type)) :=
    (judge_eq_ok_iff_of_introductions (e.introductions_sites around)).mp hjudge _
      (Expr.mem_sites_of_mem_reads around he)
  cases s with
  | assign name value site =>
    rw [sites, Stmt.sites, ← List.singleton_append, judge_append_eq_ok_iff] at hok
    have hsame : introductions (earlier ++ [⟨around, name, .use, site⟩]) = introductions earlier := by
      simp [introductions, Site.isIntroduction]
    rw [judge_congr hsame] at hok
    exact fits hok.2 h
  | giveBack value => exact fits hok h
  | call name args mark site =>
    have hnone : introductions (Stmt.sites around place (.call name args mark site)) = [] := by
      refine introductions_eq_nil_of (List.forall_mem_cons.mpr ⟨by simp, fun t ht => ?_⟩)
      exact (Expr.of_mem_allSites ht).2
    exact (judge_eq_ok_iff_of_introductions hnone).mp hok _
      (List.mem_cons_of_mem _ (Expr.mem_allSites_of_mem_reads around h))
  | conditional test body otherwise =>
    rw [sites, Stmt.sites, List.append_assoc, judge_append_eq_ok_iff] at hok
    exact fits hok.1 h
  | whileLoop test body | doWhile test body =>
    rw [sites, Stmt.sites, judge_append_eq_ok_iff] at hok
    exact fits hok.1 h
  | forLoop init test step body =>
    rw [sites, Stmt.sites, judge_append_eq_ok_iff, judge_append_eq_ok_iff,
      judge_append_eq_ok_iff] at hok
    exact fits hok.1.1.2 h
  | _ => cases h

/-! ## Parts that a run may leave out -/

/-- The parts of the statement that a run may leave out: the branches of a conditional, the body of a
while loop, the last part of the head of a for loop and its body, and the body of a do-while loop if a
jump may leave the rest of it out. -/
def optionalParts (o : Occurrence) : List Occurrence :=
  match o.stmt with
  | .conditional .. | .whileLoop .. => o.parts
  | .doWhile _ body _ => if body.jumps then o.parts else []
  | .forLoop .. => o.parts.tail
  | _ => []

theorem mem_parts_of_mem_optionalParts {o p : Occurrence} (h : p ∈ o.optionalParts) :
    p ∈ o.parts := by
  rw [optionalParts] at h
  split at h
  · exact h
  · exact h
  · split at h
    · exact h
    · cases h
  · exact List.mem_of_mem_tail h
  · cases h

/-- A part stands in the scope of the whole, or the whole is a procedure. -/
theorem around_of_mem_parts {o p : Occurrence} (h : p ∈ o.parts) :
    p.around = o.around ∨ p.around = o.place :: o.around := by
  obtain ⟨around, place, earlier, s⟩ := o
  cases s with
  | compound => exact .inl (around_of_mem_row h)
  | procedure => exact .inr (around_of_mem_row h)
  | conditional test body otherwise =>
    rcases List.mem_cons.mp h with rfl | h
    · exact .inl rfl
    · obtain ⟨s, rfl, rfl⟩ := Option.map_eq_some_iff.mp (Option.mem_toList.mp h)
      exact .inl rfl
  | whileLoop | doWhile =>
    obtain rfl := List.mem_singleton.mp h
    exact .inl rfl
  | forLoop =>
    simp only [parts, List.mem_cons, List.not_mem_nil, or_false] at h
    rcases h with rfl | rfl | rfl <;> exact .inl rfl
  | _ => cases h

theorem Within.around_suffix {o w : Occurrence} (h : o.Within w) : o.around <:+ w.around := by
  induction h with
  | refl => exact List.suffix_rfl
  | tail _ hp ih =>
    rcases around_of_mem_parts hp with haround | haround
    · rw [haround]
      exact ih
    · rw [haround]
      exact ih.trans (List.suffix_cons _ _)

theorem headsSimple_of_mem_row {around : List Address} {place : Address} {i : Nat}
    {earlier : List Site} {ss : List Stmt} {o : Occurrence}
    (h : o ∈ row around place i earlier ss) (hs : Stmt.AllHeadsSimple ss) :
    o.stmt.HeadsSimple := by
  induction ss generalizing i earlier with
  | nil => cases h
  | cons s ss ih =>
    rcases List.mem_cons.mp h with rfl | h
    · exact hs.1
    · exact ih h hs.2

theorem headsSimple_of_mem_parts {o p : Occurrence} (h : p ∈ o.parts)
    (hs : o.stmt.HeadsSimple) : p.stmt.HeadsSimple := by
  obtain ⟨around, place, earlier, s⟩ := o
  cases s with
  | compound | procedure => exact headsSimple_of_mem_row h hs
  | conditional test body otherwise =>
    rcases List.mem_cons.mp h with rfl | h
    · exact hs.1
    · obtain ⟨s, rfl, rfl⟩ := Option.map_eq_some_iff.mp (Option.mem_toList.mp h)
      exact hs.2
  | whileLoop | doWhile =>
    obtain rfl := List.mem_singleton.mp h
    exact hs
  | forLoop =>
    simp only [parts, List.mem_cons, List.not_mem_nil, or_false] at h
    rcases h with rfl | rfl | rfl
    · exact Grammar.headsSimple_of_isSimple hs.1
    · exact Grammar.headsSimple_of_isSimple hs.2.1
    · exact hs.2.2
  | _ => cases h

end Occurrence

theorem Stmt.jumps_of_isSimple {s : Stmt} (h : s.IsSimple) : s.jumps = false := by
  cases s with
  | declaration | assign | call | pass => rfl
  | _ => exact h.elim

namespace Occurrence

theorem settles_of_mem_row {x : String} {around : List Address} {place : Address} {i : Nat}
    {earlier : List Site} {ss : List Stmt} {o : Occurrence}
    (h : o ∈ row around place i earlier ss) (hs : Stmt.anySettles x ss = false) :
    o.stmt.settles x = false := by
  induction ss generalizing i earlier with
  | nil => cases h
  | cons s ss ih =>
    rw [Stmt.anySettles, Bool.or_eq_false_iff] at hs
    rcases List.mem_cons.mp h with rfl | h
    · exact hs.1
    · exact ih h hs.2

/-- In a statement that does not settle a name, every part in the same scope may be left out or does
not settle the name either. -/
theorem optional_or_settles_eq_false {x : String} {o p : Occurrence} (hp : p ∈ o.parts)
    (haround : p.around = o.around) (hsimple : o.stmt.HeadsSimple)
    (hs : o.stmt.settles x = false) : p ∈ o.optionalParts ∨ p.stmt.settles x = false := by
  obtain ⟨around, place, earlier, s⟩ := o
  cases s with
  | compound => exact .inr (settles_of_mem_row hp hs)
  | conditional | whileLoop => exact .inl hp
  | doWhile test body =>
    by_cases hjumps : body.jumps
    · refine .inl ?_
      rw [optionalParts]
      simp only [hjumps, if_true]
      exact hp
    · obtain rfl := List.mem_singleton.mp hp
      simp only [Stmt.settles, hjumps, Bool.not_false, Bool.and_true] at hs
      exact .inr hs
  | forLoop init test step body =>
    rcases List.mem_cons.mp hp with rfl | hp
    · simp only [Stmt.settles, Stmt.jumps_of_isSimple hsimple.1, Bool.not_false,
        Bool.and_true] at hs
      exact .inr hs
    · exact .inl hp
  | procedure =>
    rw [around_of_mem_row hp] at haround
    exact absurd haround (List.cons_ne_self _ _)
  | _ => cases hp

/-- A declaration in a statement that does not settle its name stands in a part that may be left
out. -/
theorem exists_optional_part {x : String} {o d : Occurrence} (h : o.Within d)
    (haround : d.around = o.around) {type : DataType} {span : Span}
    (hd : d.stmt = .declaration x type span) (hsimple : o.stmt.HeadsSimple)
    (hs : o.stmt.settles x = false) :
    ∃ c part, o.Within c ∧ c.around = o.around ∧ part ∈ c.optionalParts ∧ part.Within d := by
  induction o using Occurrence.induction with
  | h o ih =>
    rcases h.eq_or_exists_part with rfl | ⟨p, hp, hwithin⟩
    · rw [hd, Stmt.settles, beq_self_eq_true] at hs
      cases hs
    · have hscope : p.around = o.around := by
        rcases around_of_mem_parts hp with hscope | hscope
        · exact hscope
        · -- a statement inside a procedure that stands here is not in this scope
          have hlength := hwithin.around_suffix.length_le
          rw [hscope, haround, List.length_cons] at hlength
          omega
      rcases optional_or_settles_eq_false hp hscope hsimple hs with hpart | hopen
      · exact ⟨o, p, .refl o, rfl, hpart, hwithin⟩
      · obtain ⟨c, part, hc, hcscope, hpart, hd⟩ := ih p hp hwithin
          (haround.trans hscope.symm) (headsSimple_of_mem_parts hp hsimple) hopen
        exact ⟨c, part, .of_mem hp hc, hcscope.trans hscope, hpart, hd⟩

/-! ## Exposed reads -/

/-- A variable that a statement introduces in its own scope is declared there. -/
theorem exists_declaration {o : Occurrence} {t : Site} {x : String} (h : t ∈ o.sites)
    (ht : t.Declares x o.around) :
    ∃ d type span, o.Within d ∧ d.around = o.around ∧ d.stmt = .declaration x type span := by
  obtain ⟨type, hact, haround, rfl⟩ := ht
  obtain ⟨d, hwithin, hintro⟩ := exists_introduces h hact
  rcases hintro with ⟨type', hsite, hstmt⟩ | ⟨id, name, params, returnType, body, span, _, hin⟩
  · refine ⟨d, type', t.span, hwithin, ?_, hstmt⟩
    rw [hsite] at haround
    exact haround
  · rcases List.mem_cons.mp hin with rfl | hin
    · cases hact
    · -- parameters belong to the scope of their procedure
      obtain ⟨p, _, rfl⟩ := List.mem_map.mp hin
      have hlength := hwithin.around_suffix.length_le
      have hcons : d.place :: d.around = o.around := haround
      rw [← hcons, List.length_cons] at hlength
      omega

/-- Inside `o` and in its scope, the name is declared in a part that may be left out and that does
not hold `r`. -/
def DeclaresAside (x : String) (o r : Occurrence) : Prop :=
  ∃ c part d, o.Within c ∧ c.around = o.around ∧ part ∈ c.optionalParts ∧ part.Within d
    ∧ d.around = o.around ∧ (∃ type span, d.stmt = .declaration x type span)
    ∧ ¬ part.place <:+ r.place

theorem DeclaresAside.of_part {x : String} {o p r : Occurrence} (hp : p ∈ o.parts)
    (haround : p.around = o.around) (h : p.DeclaresAside x r) : o.DeclaresAside x r := by
  obtain ⟨c, part, d, hc, hcscope, hpart, hd, hdscope, hrest⟩ := h
  exact ⟨c, part, d, .of_mem hp hc, hcscope.trans haround, hpart, hd, hdscope.trans haround, hrest⟩

/-- What a part that may be left out introduces, it declares aside from all that it does not hold. -/
theorem declaresAside_of_optional {x : String} {o q r : Occurrence} (hq : q ∈ o.optionalParts)
    (haround : q.around = o.around) {t : Site} (ht : t ∈ q.sites) (hx : t.Declares x o.around)
    (hr : ¬ q.place <:+ r.place) : o.DeclaresAside x r := by
  rw [← haround] at hx
  obtain ⟨d, type, span, hd, hscope, hstmt⟩ := exists_declaration ht hx
  exact ⟨o, q, d, .refl o, rfl, hq, hd, hscope.trans haround, ⟨type, span, hstmt⟩, hr⟩

/-- What a part introduces that does not settle the name, it declares aside from all that it does not
hold. -/
theorem declaresAside_of_unsettled {x : String} {o q r : Occurrence} (hq : q ∈ o.parts)
    (haround : q.around = o.around) (hsimple : o.stmt.HeadsSimple)
    (hs : q.stmt.settles x = false) {t : Site} (ht : t ∈ q.sites) (hx : t.Declares x o.around)
    (hr : ¬ q.place <:+ r.place) : o.DeclaresAside x r := by
  rw [← haround] at hx
  obtain ⟨d, type, span, hd, hscope, hstmt⟩ := exists_declaration ht hx
  obtain ⟨c, part, hc, hcscope, hpart, hin⟩ :=
    exists_optional_part hd hscope hstmt (headsSimple_of_mem_parts hq hsimple) hs
  have hbelow : q.place <:+ part.place :=
    hc.suffix.trans (Within.of_mem (mem_parts_of_mem_optionalParts hpart) (.refl part)).suffix
  exact ⟨c, part, d, .of_mem hq hc, hcscope.trans haround, hpart, hin, hscope.trans haround,
    ⟨type, span, hstmt⟩, fun hsuffix => hr (hbelow.trans hsuffix)⟩

/-- What lies inside a part does not lie inside a part next to it. -/
theorem not_suffix_of_ne {place p q r : Address} {j k : Nat} (hp : p = j :: place)
    (hq : q = k :: place) (hr : p <:+ r) (hne : j ≠ k) : ¬ q <:+ r := by
  intro hsuffix
  subst hp hq
  rcases List.suffix_or_suffix_of_suffix hr hsuffix with h | h
  · exact hne (List.cons.inj (h.eq_of_length rfl)).1
  · exact hne (List.cons.inj (h.eq_of_length rfl)).1.symm

/-- An exposed read of statements that stand side by side is one of a statement among them, and those
before it do not settle the name. -/
theorem exists_exposed_of_row {x : String} {span : Span} {around : List Address} {place : Address}
    {i : Nat} {earlier : List Site} {ss : List Stmt} (h : span ∈ Stmt.allExposed x ss) :
    ∃ p ∈ row around place i earlier ss, span ∈ p.stmt.exposed x
      ∧ ∀ t ∈ p.earlier, t ∈ earlier ∨ ∃ q ∈ row around place i earlier ss,
        q.stmt.settles x = false ∧ t ∈ q.sites ∧ q.place ≠ p.place := by
  induction ss generalizing i earlier with
  | nil => cases h
  | cons s ss ih =>
    rcases List.mem_append.mp h with h | h
    · exact ⟨_, List.mem_cons_self, h, fun _ ht => .inl ht⟩
    · split at h
      · cases h
      · next hopen =>
        obtain ⟨p, hp, hspan, hbefore⟩ := ih h
        refine ⟨p, List.mem_cons_of_mem _ hp, hspan, fun t ht => ?_⟩
        rcases hbefore t ht with ht | ⟨q, hq, hrest⟩
        · rcases List.mem_append.mp ht with ht | ht
          · exact .inl ht
          · refine .inr ⟨_, List.mem_cons_self, Bool.eq_false_iff.mpr hopen, ht, fun hplace => ?_⟩
            obtain ⟨j, hj, hpj⟩ := place_of_mem_row hp
            have hsame := (List.cons.inj (hplace.trans hpj)).1
            omega
        · exact .inr ⟨q, List.mem_cons_of_mem _ hq, hrest⟩

/-- Within `o` there is a statement `r` in the same scope that reads the name at the given place
itself; and whatever it knows to declare the name, either stands before `o` or is declared aside. -/
def ReadsExposed (x : String) (span : Span) (o : Occurrence) : Prop :=
  ∃ r, o.Within r ∧ r.around = o.around ∧ span ∈ r.stmt.reads x
    ∧ ∀ t ∈ r.known, t.Declares x o.around → t ∈ o.earlier ∨ o.DeclaresAside x r

/-- The statement reads the name itself. -/
theorem readsExposed_of_reads {x : String} {span : Span} {o : Occurrence}
    (h : span ∈ o.stmt.reads x) (hknown : o.known = o.earlier) : o.ReadsExposed x span :=
  ⟨o, .refl o, rfl, h, fun _ ht _ => .inl (hknown ▸ ht)⟩

/-- A part of the statement reads the name, and what stands between the two is declared aside from
all that the part holds. -/
theorem ReadsExposed.of_part {x : String} {span : Span} {o p : Occurrence} (hp : p ∈ o.parts)
    (haround : p.around = o.around) (h : p.ReadsExposed x span)
    (hbetween : ∀ r, p.Within r → ∀ t ∈ p.earlier, t.Declares x o.around →
      t ∈ o.earlier ∨ o.DeclaresAside x r) : o.ReadsExposed x span := by
  obtain ⟨r, hr, hscope, hreads, hknown⟩ := h
  refine ⟨r, .of_mem hp hr, hscope.trans haround, hreads, fun t ht hx => ?_⟩
  rw [haround] at hknown
  rcases hknown t ht hx with ht | haside
  · exact hbetween r hr t ht hx
  · exact .inr (haside.of_part hp haround)

/-- An exposed read of a for loop.  Its first part is executed in any case, so what follows exposes
nothing that the first part settles. -/
theorem readsExposed_of_forLoop {x : String} {span : Span} {around : List Address}
    {place : Address} {earlier : List Site} {init step body : Stmt} {test : Expr} {site : Span}
    (ih : ∀ p ∈ parts ⟨around, place, earlier, .forLoop init test step body site⟩,
      p.stmt.HeadsSimple → span ∈ p.stmt.exposed x → p.ReadsExposed x span)
    (hsimple : (Stmt.forLoop init test step body site).HeadsSimple)
    (h : span ∈ (Stmt.forLoop init test step body site).exposed x) :
    ReadsExposed x span ⟨around, place, earlier, .forLoop init test step body site⟩ := by
  rcases List.mem_append.mp h with h | h
  · have hpart := ih _ List.mem_cons_self (Grammar.headsSimple_of_isSimple hsimple.1) h
    exact hpart.of_part List.mem_cons_self rfl fun _ _ t ht _ => .inl ht
  split at h
  · cases h
  next hopen =>
  have hinit : init.settles x = false := by
    simpa [Stmt.jumps_of_isSimple hsimple.1] using hopen
  have hfirst {r : Occurrence} {t : Site} (ht : t ∈ init.sites around (0 :: place))
      (hx : t.Declares x around) (hr : ¬ 0 :: place <:+ r.place) :
      DeclaresAside x ⟨around, place, earlier, .forLoop init test step body site⟩ r :=
    declaresAside_of_unsettled List.mem_cons_self rfl hsimple hinit ht hx hr
  simp only [List.mem_append] at h
  rcases h with (h | h) | h
  · refine ⟨_, .refl _, rfl, h, fun t ht hx => ?_⟩
    rcases List.mem_append.mp ht with ht | ht
    · exact .inl ht
    · exact .inr (hfirst ht hx fun hsuffix => Nat.not_succ_le_self _ hsuffix.length_le)
  · -- the body, with the first part and the step written before it
    have hpart := ih _ (List.mem_cons_of_mem _ (List.mem_cons_of_mem _ List.mem_cons_self))
      hsimple.2.2 h
    refine hpart.of_part (List.mem_cons_of_mem _ (List.mem_cons_of_mem _ List.mem_cons_self)) rfl
      fun r hr t ht hx => ?_
    simp only [List.mem_append] at ht
    rcases ht with ht | (ht | ht) | ht
    · exact .inl ht
    · exact .inr (hfirst ht hx (not_suffix_of_ne rfl rfl hr.suffix (by decide)))
    · exact absurd hx (Expr.not_declares ht)
    · exact .inr (declaresAside_of_optional List.mem_cons_self rfl ht hx
        (not_suffix_of_ne rfl rfl hr.suffix (by decide)))
  · have hpart := ih _ (List.mem_cons_of_mem _ List.mem_cons_self)
      (Grammar.headsSimple_of_isSimple hsimple.2.1) h
    refine hpart.of_part (List.mem_cons_of_mem _ List.mem_cons_self) rfl fun r hr t ht hx => ?_
    simp only [List.mem_append] at ht
    rcases ht with ht | ht | ht
    · exact .inl ht
    · exact .inr (hfirst ht hx (not_suffix_of_ne rfl rfl hr.suffix (by decide)))
    · exact absurd hx (Expr.not_declares ht)

/-- **Exposed reads.**  An exposed read of a statement is a read of some statement in it.  If a
declaration is known there that does not stand before the whole, then it stands in a part that may be
left out and that does not hold the read. -/
theorem readsExposed_of_exposed {x : String} {span : Span} {o : Occurrence}
    (hsimple : o.stmt.HeadsSimple) (h : span ∈ o.stmt.exposed x) : o.ReadsExposed x span := by
  induction o using Occurrence.induction with
  | h o ih =>
    obtain ⟨around, place, earlier, s⟩ := o
    -- expressions introduce nothing, so only statements can stand between
    have hexpr {e : Expr} {t : Site} (ht : t ∈ e.sites around) : ¬ t.Declares x around :=
      Expr.not_declares ht
    cases s with
    | compound body =>
      obtain ⟨p, hp, hspan, hbefore⟩ := exists_exposed_of_row h
      have hpart := ih p hp (headsSimple_of_mem_row hp hsimple) hspan
      refine hpart.of_part hp (around_of_mem_row hp) fun r hr t ht hx => ?_
      rcases hbefore t ht with ht | ⟨q, hq, hopen, hsite, hne⟩
      · exact .inl ht
      · obtain ⟨j, _, hj⟩ := place_of_mem_row hp
        obtain ⟨k, _, hk⟩ := place_of_mem_row hq
        have hjk : j ≠ k := by
          rintro rfl
          exact hne (hk.trans hj.symm)
        exact .inr (declaresAside_of_unsettled hq (around_of_mem_row hq) hsimple hopen hsite hx
          (not_suffix_of_ne hj hk hr.suffix hjk))
    | assign | giveBack | call => exact readsExposed_of_reads h rfl
    | conditional test body otherwise =>
      simp only [Stmt.exposed, List.mem_append] at h
      rcases h with (h | h) | h
      · exact readsExposed_of_reads h rfl
      · refine (ih _ List.mem_cons_self hsimple.1 h).of_part List.mem_cons_self rfl
          fun r hr t ht hx => ?_
        rcases List.mem_append.mp ht with ht | ht
        · exact .inl ht
        · exact absurd hx (hexpr ht)
      · cases otherwise with
        | none => cases h
        | some otherwise =>
          have hpart := ih _ (List.mem_cons_of_mem _ List.mem_cons_self) hsimple.2 h
          refine hpart.of_part (List.mem_cons_of_mem _ List.mem_cons_self) rfl
            fun r hr t ht hx => ?_
          simp only [List.mem_append] at ht
          rcases ht with ht | ht | ht
          · exact .inl ht
          · exact absurd hx (hexpr ht)
          · exact .inr (declaresAside_of_optional List.mem_cons_self rfl ht hx
              (not_suffix_of_ne rfl rfl hr.suffix Nat.one_ne_zero))
    | whileLoop test body | doWhile test body =>
      rcases List.mem_append.mp h with h | h
      · exact readsExposed_of_reads h rfl
      · refine (ih _ List.mem_cons_self hsimple h).of_part List.mem_cons_self rfl
          fun r hr t ht hx => ?_
        rcases List.mem_append.mp ht with ht | ht
        · exact .inl ht
        · exact absurd hx (hexpr ht)
    | forLoop init test step body => exact readsExposed_of_forLoop ih hsimple h
    | _ => cases h

end Occurrence

/-! ## Programs -/

/-- A statement outside every procedure reads the name at the given place; outside every procedure,
the name is declared in a part of a statement that a run may leave out; and the statement that reads
it does not stand in that part. -/
def Module.SkipsDeclaration (m : Module) (x : String) (span : Span) : Prop :=
  ∃ r c part d, m.Has r ∧ r.around = [] ∧ span ∈ r.stmt.reads x
    ∧ m.Has c ∧ c.around = [] ∧ part ∈ c.optionalParts ∧ part.Within d ∧ d.around = []
    ∧ (∃ type site, d.stmt = .declaration x type site) ∧ ¬ part.place <:+ r.place

/-- Behind an exposed read of an accepted module is a declaration that may be left out. -/
theorem Module.skipsDeclaration_of_exposed {m : Module} (hok : judge [] m.sites = .ok ())
    (hsimple : Stmt.AllHeadsSimple m.body) {x : String} {span : Span}
    (h : span ∈ Stmt.allExposed x m.body) : m.SkipsDeclaration x span := by
  -- the body as one statement, whose parts are the statements of the module
  obtain ⟨whole, hwhole⟩ : ∃ whole : Occurrence, whole = ⟨[], [], [], .compound m.body default⟩ :=
    ⟨_, rfl⟩
  have hhas {w : Occurrence} (hw : whole.Within w) (hne : whole ≠ w) : m.Has w := by
    rcases hw.eq_or_exists_part with heq | ⟨item, hitem, hw⟩
    · exact absurd heq hne
    · rw [hwhole] at hitem
      exact ⟨item, hitem, hw⟩
  have hexposed : whole.ReadsExposed x span := by
    refine Occurrence.readsExposed_of_exposed ?_ ?_
    · rw [hwhole]
      exact hsimple
    · rw [hwhole]
      exact h
  obtain ⟨r, hr, hscope, hreads, hknown⟩ := hexposed
  have hrm : m.Has r := by
    refine hhas hr ?_
    rintro rfl
    rw [hwhole] at hreads
    cases hreads
  -- analysis has found a variable
  obtain ⟨u, type, href⟩ := Occurrence.exists_referent (hrm.judge_sites hok) hreads
  obtain ⟨hsuffix, hmeaning, -⟩ := of_referent?_eq href
  obtain ⟨hu, hact, -, hname⟩ := of_meaning?_eq hmeaning
  have houter : whole.around = [] := by rw [hwhole]
  rw [hscope, houter, List.suffix_nil] at hsuffix
  rw [houter] at hscope hknown
  rcases hknown u hu ⟨type, hact, hsuffix, hname⟩ with hearlier | haside
  · rw [hwhole] at hearlier
    cases hearlier
  · obtain ⟨c, part, d, hc, hcscope, hpart, hd, hdscope, hdstmt, haway⟩ := haside
    have hcm : m.Has c := by
      refine hhas hc ?_
      rintro rfl
      rw [hwhole] at hpart
      cases hpart
    exact ⟨r, c, part, d, hrm, hscope, hreads, hcm, hcscope.trans houter, hpart, hd,
      hdscope.trans houter, hdstmt, haway⟩

/-- The next step fails, since the name that it reads at the given place is not bound. -/
def MachineState.Misses (table : ProcedureTable) (x : String) (span : Span) (s : MachineState) :
    Prop :=
  ∃ events name stack,
    Machine.step table s = .halt events (.failure ⟨.unboundName x name, span⟩) stack

/-- A run that fails at an unbound name has come to a state that misses it. -/
theorem Interpreter.exists_misses_of_interpret {i : Interpreter} {m : Module} {σ : Type}
    {observe : σ → Event → σ} {seen : σ} {fuel : Nat} {run : Run σ} {x name : String} {span : Span}
    (hrun : i.interpret observe seen fuel m = some run)
    (hfail : run.result = .error ⟨.unboundName x name, span⟩) :
    ∃ s, i.Visits m s ∧ s.Misses (.ofModule m) x span := by
  obtain ⟨s, hvisits, events, t, hstep⟩ := exists_fails_of_interpret hrun hfail nofun nofun
  exact ⟨s, hvisits, events, name, t, hstep⟩

/-- **Unbound names come from declarations that were left out.**  Take a text that parses and comes
through analysis.  A run that fails at an unbound name does so in a state that misses it.  If the
record of the program is on top there, then a statement outside every procedure was to read the name,
and the name is declared outside every procedure, but in a part of a statement that a run may leave
out and that does not hold the read. -/
theorem Module.unbound_reads_skip_declarations (text : String) (m : Module)
    (hparse : Module.parse text = .ok m) (hverdict : m.analyze.verdict = .ok ())
    (i : Interpreter) :
    (∀ (σ : Type) (observe : σ → Event → σ) (seen : σ) (fuel : Nat) (run : Run σ)
        (x name : String) (span : Span),
        i.interpret observe seen fuel m.analyze.module = some run →
        run.result = .error ⟨.unboundName x name, span⟩ →
        ∃ s, i.Visits m.analyze.module s ∧ s.Misses (.ofModule m.analyze.module) x span)
      ∧ ∀ (s : MachineState) (x : String) (span : Span) (r : Record) (rest : List Record),
        i.Visits m.analyze.module s → s.Misses (.ofModule m.analyze.module) x span →
        s.stack.records = r :: rest → r.kind = .program →
        m.analyze.module.SkipsDeclaration x span := by
  constructor
  · intro σ observe seen fuel run x name span hrun hfail
    exact Interpreter.exists_misses_of_interpret hrun hfail
  · rintro s x span r rest hvisits ⟨events, name, stack, hstep⟩ hrecords hkind
    have hhoused := hvisits.keeps.housed
    rw [hrecords] at hhoused
    have hexposed := (Module.fit_of_analysis hparse hverdict).exposed_of_unboundName hvisits
      (hhoused.eq_nil_of_program hkind) hstep
    exact Module.skipsDeclaration_of_exposed (Module.judge_analyze hverdict)
      (Module.allHeadsSimple_analyze hparse) hexposed

/-- A conditional whose test fails holds the declaration of a name that is read behind it. -/
def Module.skippedDeclaration : Module where
  body := [.conditional (.number 0 ⟨4, 5, 1, 5⟩) (.declaration "x" .integer ⟨7, 12, 1, 8⟩) none
      ⟨0, 13, 1, 1⟩,
    .declaration "y" .integer ⟨14, 19, 1, 15⟩,
    .assign "y" (.var "x" ⟨25, 26, 1, 26⟩) ⟨21, 26, 1, 22⟩]

theorem Module.parse_skippedDeclaration :
    Module.parse "if (0) int x; int y; y = x;" = .ok .skippedDeclaration := by cbv

theorem Module.analyze_skippedDeclaration :
    Module.skippedDeclaration.analyze.verdict = .ok ()
      ∧ Module.skippedDeclaration.analyze.module = .skippedDeclaration :=
  ⟨rfl, rfl⟩

/-- Running it misses the name, with the record of the program on the stack and no other. -/
theorem Module.exists_misses_skippedDeclaration :
    ∃ s r, (Interpreter.new 256).Visits .skippedDeclaration s
      ∧ s.Misses (.ofModule .skippedDeclaration) "x" ⟨25, 26, 1, 26⟩
      ∧ s.stack.records = [r] ∧ r.kind = .program := by
  have hpush : ∃ pushed, (CallStack.empty 256).push? Interpreter.programRecord = some pushed :=
    ⟨_, rfl⟩
  obtain ⟨pushed, hpush⟩ := hpush
  have hrun : ∃ t, Machine.run (fun _ _ => ()) (.ofModule .skippedDeclaration) 100 ()
      (Interpreter.start .skippedDeclaration pushed) =
        some ((), .failure ⟨.unboundName "x" "program", ⟨25, 26, 1, 26⟩⟩, t)
      ∧ t.records.map (·.kind) = [.program] := by
    cases hpush
    exact ⟨_, rfl, rfl⟩
  obtain ⟨t, hrun, hkinds⟩ := hrun
  have hhalts := (Machine.halts_iff_run (fun _ _ => ()) ()).mpr ⟨100, (), hrun⟩
  obtain ⟨s, events, hreach, hstep⟩ := hhalts.exists_last
  obtain ⟨_, _, _, _, _, _, rfl⟩ := Machine.of_unboundName hstep
  obtain ⟨r, hrecords, hkind⟩ := List.map_eq_singleton_iff.mp hkinds
  exact ⟨s, r, ⟨pushed, hpush, hreach⟩, ⟨events, _, _, hstep⟩, hrecords, hkind⟩

/-- A program that parses and comes through analysis, and that fails at an unbound name while the
record of the program is on top. -/
theorem Module.program_read_unbound :
    ∃ text m s r, text = "if (0) int x; int y; y = x;" ∧ Module.parse text = .ok m
      ∧ m.analyze.verdict = .ok () ∧ (Interpreter.new 256).Visits m.analyze.module s
      ∧ s.Misses (.ofModule m.analyze.module) "x" ⟨25, 26, 1, 26⟩
      ∧ s.stack.records = [r] ∧ r.kind = .program := by
  obtain ⟨hverdict, hmodule⟩ := Module.analyze_skippedDeclaration
  obtain ⟨s, r, hmisses⟩ := Module.exists_misses_skippedDeclaration
  refine ⟨_, _, s, r, rfl, Module.parse_skippedDeclaration, hverdict, ?_⟩
  rw [hmodule]
  exact hmisses

/-- The declaration that this program has left out. -/
theorem Module.unbound_reads_skip_declarations_branch :
    ∃ text m s r, text = "if (0) int x; int y; y = x;" ∧ Module.parse text = .ok m
      ∧ m.analyze.verdict = .ok () ∧ (Interpreter.new 256).Visits m.analyze.module s
      ∧ s.Misses (.ofModule m.analyze.module) "x" ⟨25, 26, 1, 26⟩
      ∧ s.stack.records = [r] ∧ r.kind = .program
      ∧ m.analyze.module.SkipsDeclaration "x" ⟨25, 26, 1, 26⟩ := by
  obtain ⟨hverdict, hmodule⟩ := Module.analyze_skippedDeclaration
  obtain ⟨s, r, hvisits, hmisses, hrecords, hkind⟩ := Module.exists_misses_skippedDeclaration
  rw [← hmodule] at hvisits hmisses
  have hskips := (Module.unbound_reads_skip_declarations _ _ Module.parse_skippedDeclaration
    hverdict (Interpreter.new 256)).2 s _ _ r [] hvisits hmisses hrecords hkind
  exact ⟨_, _, s, r, rfl, Module.parse_skippedDeclaration, hverdict, hvisits, hmisses, hrecords,
    hkind, hskips⟩

end Imperative
