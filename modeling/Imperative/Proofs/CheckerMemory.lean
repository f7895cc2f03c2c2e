import Imperative.Parsing.Statement
import Imperative.Proofs.JumpAncestry
import Mathlib

/-!
# What a checker of jumps remembers

A check that passes leaves the checker as it was.  A check that fails breaks off between a push and
its pop, and the surroundings of the failure stay on the stack; the next check starts from there and
takes them for the surroundings of its own module.

* `Placement.StopsAt`: where a walk stops that fails, and what it leaves on the stack.  The laws are
  those of `Placement.Reports`, and the recursion over the tree is the same.
* `PlacementChecker.afterAll`: a checker behind a row of checks.  Its stack never shrinks
  (`context_suffix_check`), so one failure inside a loop or a procedure is enough to spoil it for
  good.
* `PlacementChecker.agrees_with_new_iff`: after which checks it is still as good as new.
* `PlacementChecker.stray_return_passes`: that it is not always.
-/

namespace Imperative

namespace HeldStmt

/-- The first misplaced jump among the statements is `h`, and this is how it is reported. -/
def FirstMisplacedAt (hs : List HeldStmt) (h : HeldStmt) (e : AnalysisError) : Prop :=
  ∃ earlier later, hs = earlier ++ h :: later ∧ (∀ x ∈ earlier, ∀ e', ¬ x.Misplaced e') ∧
    h.Misplaced e

/-- No loop repeats the statement and no procedure holds it. -/
def Outside (h : HeldStmt) : Prop :=
  ∀ x ∈ h.holders, ¬ x.stmt.IsProcedure ∧ ¬ (x.stmt.IsLoop ∧ x.repeats = true)

/-- The checker notes nothing about the ancestors of such a statement. -/
theorem outside_iff (h : HeldStmt) : h.Outside ↔ h.holders.filterMap Holder.surrounding? = [] := by
  simp only [Outside, Holder.isProcedure_iff, Holder.isLoop_iff, List.filterMap_eq_nil_iff]
  refine forall₂_congr fun x _ => ?_
  rcases x.surrounding? with _ | _ | _ <;> simp

namespace FirstMisplacedAt

variable {hs ks : List HeldStmt} {h h' : HeldStmt} {e e' : AnalysisError}

theorem append (first : FirstMisplacedAt hs h e) (ks : List HeldStmt) :
    FirstMisplacedAt (hs ++ ks) h e := by
  obtain ⟨earlier, later, rfl, fine, misplaced⟩ := first
  exact ⟨earlier, later ++ ks, by simp, fine, misplaced⟩

theorem prepend (first : FirstMisplacedAt ks h e) (fine : ∀ x ∈ hs, ∀ e', ¬ x.Misplaced e') :
    FirstMisplacedAt (hs ++ ks) h e := by
  obtain ⟨earlier, later, rfl, fine', misplaced⟩ := first
  refine ⟨hs ++ earlier, later, by simp, fun x hx => ?_, misplaced⟩
  rcases List.mem_append.mp hx with hx | hx
  · exact fine x hx
  · exact fine' x hx

/-- There is only one first misplaced jump. -/
theorem unique (first : FirstMisplacedAt hs h e) (first' : FirstMisplacedAt hs h' e') : h = h' := by
  obtain ⟨earlier, later, rfl, fine, misplaced⟩ := first
  obtain ⟨earlier', later', split, fine', misplaced'⟩ := first'
  rcases List.append_eq_append_iff.mp split with ⟨between, rfl, rest⟩ | ⟨between, rfl, rest⟩
  · cases between with
    | nil => exact (List.cons.inj rest).1
    | cons x between =>
      obtain ⟨rfl, -⟩ := List.cons.inj rest
      exact absurd misplaced (fine' h (by simp) e)
  · cases between with
    | nil => exact (List.cons.inj rest).1.symm
    | cons x between =>
      obtain ⟨rfl, -⟩ := List.cons.inj rest
      exact absurd misplaced' (fine h' (by simp) e')

end FirstMisplacedAt

end HeldStmt

/-! ## Where a walk stops -/

namespace Placement

open HeldStmt

/-- A walk that fails stops at the first misplaced jump of the statements.  Then the stack holds
what is noted about the ancestors of that jump, on top of what it held at the start. -/
def StopsAt (x : Placement Unit) (c : PlacementChecker) (hs : List HeldStmt) : Prop :=
  ∀ ⦃e : AnalysisError⦄ ⦃c' : PlacementChecker⦄, x.run.run c = (.error e, c') →
    c.context <:+ c'.context ∧ ∃ h, FirstMisplacedAt hs h e ∧ Holder.Noted h.holders c'

/-- A failure of two walks in a row is one of the first, or one of the second behind the first. -/
theorem error_of_bind {x y : Placement Unit} {c c' : PlacementChecker} {e : AnalysisError}
    (h : (do x; y).run.run c = (.error e, c')) :
    x.run.run c = (.error e, c') ∨
      ∃ c₁, x.run.run c = (.ok (), c₁) ∧ y.run.run c₁ = (.error e, c') := by
  rw [ExceptT.run_bind, StateT.run_bind] at h
  rcases hx : x.run.run c with ⟨e' | _, c₁⟩
  · rw [hx] at h
    exact .inl h
  · rw [hx] at h
    exact .inr ⟨c₁, rfl, h⟩

/-- A walk that comes through has met no misplaced jump, and the checker is as it was. -/
theorem Reports.of_ok {x : Placement Unit} {c c' : PlacementChecker} {hs : List HeldStmt}
    (hx : Reports x c hs) (ok : x.run.run c = (.ok (), c')) :
    c' = c ∧ ∀ h ∈ hs, ∀ e, ¬ h.Misplaced e := by
  rcases hx with ⟨ok', fine⟩ | ⟨e, c'', failed, -⟩
  · rw [ok] at ok'
    exact ⟨congrArg Prod.snd ok', fine⟩
  · rw [ok] at failed
    cases failed

namespace StopsAt

variable {x y : Placement Unit} {c : PlacementChecker} {hs ks : List HeldStmt}

theorem nil : StopsAt (pure ()) c hs := by
  rintro e c' ⟨⟩

theorem append (reports : Reports x c hs) (hx : StopsAt x c hs) (hy : StopsAt y c ks) :
    StopsAt (do x; y) c (hs ++ ks) := by
  intro e c' failed
  rcases error_of_bind failed with early | ⟨c₁, ok, late⟩
  · obtain ⟨grown, h, first, noted⟩ := hx early
    exact ⟨grown, h, first.append ks, noted⟩
  · obtain ⟨rfl, fine⟩ := reports.of_ok ok
    obtain ⟨grown, h, first, noted⟩ := hy late
    exact ⟨grown, h, first.prepend fine, noted⟩

theorem cons {h : HeldStmt} (hx : StopsAt x c hs) (silent : ∀ e, ¬ h.Misplaced e) :
    StopsAt x c (h :: hs) := by
  intro e c' failed
  obtain ⟨grown, k, first, noted⟩ := hx failed
  have fine : ∀ x ∈ [h], ∀ e', ¬ x.Misplaced e' := List.forall_mem_singleton.mpr silent
  exact ⟨grown, k, first.prepend fine, noted⟩

/-- A walk that fails inside a construct does not come to the pop. -/
theorem inside {surrounding : Surrounding} (hx : StopsAt x ⟨surrounding :: c.context⟩ hs) :
    StopsAt (do push surrounding; x; pop) c hs := by
  intro e c' failed
  have failed' : (do x; pop).run.run ⟨surrounding :: c.context⟩ = (.error e, c') := failed
  rcases error_of_bind failed' with early | ⟨c₁, -, popped⟩
  · obtain ⟨grown, h, first, noted⟩ := hx early
    exact ⟨(List.suffix_cons surrounding c.context).trans grown, h, first, noted⟩
  · cases popped

theorem jump {test : PlacementChecker → Bool} {cause : AnalysisCause} {site : Span} {h : HeldStmt}
    (noted : Holder.Noted h.holders c) (hjump : test c ≠ true → h.Misplaced ⟨cause, site⟩) :
    StopsAt (require test cause site) c [h] := by
  intro e c' failed
  rw [require_run] at failed
  by_cases passes : test c = true
  · rw [if_pos passes] at failed
    cases failed
  · rw [if_neg passes] at failed
    cases failed
    exact ⟨List.suffix_rfl, h, ⟨[], [], rfl, by simp, hjump passes⟩, noted⟩

end StopsAt

end Placement

open Placement

mutual

/-- Where a walk over a statement stops. -/
theorem Stmt.checkJumps_stopsAt {holders : List Holder} {c : PlacementChecker}
    (h : Holder.Noted holders c) : ∀ s : Stmt, StopsAt s.checkJumps c (s.preorder holders)
  | .compound body span => by
    have inner := h.skip (x := ⟨.compound body span, false⟩) rfl
    exact (Stmt.checkAllJumps_stopsAt inner body).cons nofun
  | .conditional test body otherwise span => by
    have inner := h.skip (x := ⟨.conditional test body otherwise span, false⟩) rfl
    have hbody := Stmt.checkJumps_stopsAt inner body
    have hother := Stmt.checkJumps?_stopsAt inner otherwise
    exact (StopsAt.append (Stmt.checkJumps_reports inner body) hbody hother).cons nofun
  | .whileLoop test body span => by
    have inner := h.push (x := ⟨.whileLoop test body span, true⟩) rfl
    exact (Stmt.checkJumps_stopsAt inner body).inside.cons nofun
  | .doWhile test body span => by
    have inner := h.push (x := ⟨.doWhile test body span, true⟩) rfl
    exact (Stmt.checkJumps_stopsAt inner body).inside.cons nofun
  | .forLoop init test step body span => by
    have head := h.skip (x := ⟨.forLoop init test step body span, false⟩) rfl
    have round := h.push (x := ⟨.forLoop init test step body span, true⟩) rfl
    have hinit := Stmt.checkJumps_stopsAt head init
    have hstep := Stmt.checkJumps_stopsAt round step
    have hbody := Stmt.checkJumps_stopsAt round body
    have hround := (StopsAt.append (Stmt.checkJumps_reports round step) hstep hbody).inside
    simp only [bind_assoc] at hround
    exact (StopsAt.append (Stmt.checkJumps_reports head init) hinit hround).cons nofun
  | .procedure id name params returnType body span => by
    have inner := h.push (x := ⟨.procedure id name params returnType body span, false⟩) rfl
    exact (Stmt.checkAllJumps_stopsAt inner body).inside.cons nofun
  | .breakLoop _ => StopsAt.jump h fun alone => .breakLoop (mt h.insideLoop_iff.mpr alone)
  | .continueLoop _ => StopsAt.jump h fun alone => .continueLoop (mt h.insideLoop_iff.mpr alone)
  | .giveBack .. => StopsAt.jump h fun alone => .giveBack (mt h.insideProcedure_iff.mpr alone)
  | .declaration .. | .assign .. | .call .. | .pass _ => StopsAt.nil

theorem Stmt.checkAllJumps_stopsAt {holders : List Holder} {c : PlacementChecker}
    (h : Holder.Noted holders c) :
    ∀ ss : List Stmt, StopsAt (Stmt.checkAllJumps ss) c (Stmt.allPreorder holders ss)
  | [] => .nil
  | s :: ss =>
    StopsAt.append (Stmt.checkJumps_reports h s) (Stmt.checkJumps_stopsAt h s)
      (Stmt.checkAllJumps_stopsAt h ss)

theorem Stmt.checkJumps?_stopsAt {holders : List Holder} {c : PlacementChecker}
    (h : Holder.Noted holders c) :
    ∀ s : Option Stmt, StopsAt (Stmt.checkJumps? s) c (Stmt.preorder? holders s)
  | none => .nil
  | some s => Stmt.checkJumps_stopsAt h s

end

/-- Every stack is what is noted about some ancestors. -/
theorem Holder.exists_noted (c : PlacementChecker) : ∃ holders, Holder.Noted holders c := by
  obtain ⟨context⟩ := c
  induction context with
  | nil => exact ⟨[], rfl⟩
  | cons surrounding context ih =>
    obtain ⟨holders, noted⟩ := ih
    cases surrounding with
    | loop => exact ⟨_, noted.push (x := ⟨.whileLoop default (.pass {}) {}, true⟩) rfl⟩
    | procedure => exact ⟨_, noted.push (x := ⟨.procedure ⟨0⟩ "" [] none [] {}, false⟩) rfl⟩

/-! ## One check after the other -/

namespace PlacementChecker

variable {c : PlacementChecker}

/-- The checker behind a row of checks. -/
def afterAll (c : PlacementChecker) (ms : List Module) : PlacementChecker :=
  ms.foldl (fun c m => (c.check m).2) c

/-- No check takes anything off the stack that was there before it. -/
theorem context_suffix_check (c : PlacementChecker) (m : Module) :
    c.context <:+ (c.check m).2.context := by
  obtain ⟨holders, noted⟩ := Holder.exists_noted c
  rcases run : c.check m with ⟨e | _, c'⟩
  · exact (Stmt.checkAllJumps_stopsAt noted m.body run).1
  · obtain ⟨rfl, -⟩ := Stmt.checkAllJumps_ok run
    exact List.suffix_rfl

/-- A stack that is not empty stays so. -/
theorem context_afterAll_ne_nil (h : c.context ≠ []) (ms : List Module) :
    (c.afterAll ms).context ≠ [] := by
  induction ms generalizing c with
  | nil => exact h
  | cons m ms ih => exact ih fun empty => h (List.suffix_nil.mp (empty ▸ c.context_suffix_check m))

/-- A new checker has an empty stack behind a check if the module passes, or if the jump at which
the check stops stands in no loop and no procedure. -/
theorem check_new_eq_new_iff (m : Module) :
    (({} : PlacementChecker).check m).2 = {} ↔
      ∀ h e, HeldStmt.FirstMisplacedAt m.preorder h e → h.Outside := by
  have start : Holder.Noted [] {} := rfl
  have reports := Stmt.checkAllJumps_reports start m.body
  rcases run : ({} : PlacementChecker).check m with ⟨e | _, c'⟩
  · obtain ⟨-, h, first, noted⟩ := Stmt.checkAllJumps_stopsAt start m.body run
    have empty : c' = {} ↔ h.Outside := by
      obtain ⟨context⟩ := c'
      rw [h.outside_iff, ← show context = _ from noted, PlacementChecker.mk.injEq]
    rw [empty]
    constructor
    · intro outside h' e' first'
      exact first.unique first' ▸ outside
    · exact fun outside => outside h e first
  · obtain ⟨rfl, fine⟩ := reports.of_ok run
    refine iff_of_true rfl ?_
    rintro h e ⟨earlier, later, split, -, misplaced⟩
    have split' : Stmt.allPreorder [] m.body = earlier ++ h :: later := split
    exact absurd misplaced (fine h (by simp [split']) e)

/-- The stack is empty behind a row of checks if a new checker has an empty stack behind each of
them. -/
theorem afterAll_new_eq_new_iff (ms : List Module) :
    ({} : PlacementChecker).afterAll ms = {} ↔ ∀ m ∈ ms, (({} : PlacementChecker).check m).2 = {} := by
  induction ms with
  | nil => simp [afterAll]
  | cons m ms ih =>
    have step : ({} : PlacementChecker).afterAll (m :: ms) =
        (({} : PlacementChecker).check m).2.afterAll ms := rfl
    rw [List.forall_mem_cons, step]
    by_cases kept : (({} : PlacementChecker).check m).2 = {}
    · rw [kept, ih]
      simp
    · -- what this check has left stays there
      have left : (({} : PlacementChecker).check m).2.context ≠ [] :=
        fun empty => kept (congrArg PlacementChecker.mk empty)
      refine iff_of_false (fun empty => ?_) fun all => kept all.1
      exact context_afterAll_ne_nil left ms (congrArg context empty)

/-- A checker with something on its stack lets a jump pass that a new one refuses. -/
theorem exists_disagreement (h : c.context ≠ []) :
    ∃ m, (c.check m).1 ≠ (({} : PlacementChecker).check m).1 := by
  obtain ⟨surrounding, context, hc⟩ := List.exists_cons_of_ne_nil h
  obtain rfl : c = ⟨surrounding :: context⟩ := congrArg PlacementChecker.mk hc
  cases surrounding with
  | loop => exact ⟨⟨[.breakLoop {}]⟩, nofun⟩
  | procedure => exact ⟨⟨[.giveBack (.number 0 {}) {}]⟩, nofun⟩

/-- **What a checker remembers.**  Check some modules with a new checker, one after the other.  It
then says of every module what a new checker says if and only if none of the modules so far has its
first misplaced jump in a loop that repeats it, or in a procedure. -/
theorem agrees_with_new_iff (ms : List Module) :
    (∀ m, ((({} : PlacementChecker).afterAll ms).check m).1 = (({} : PlacementChecker).check m).1) ↔
      ∀ m ∈ ms, ∀ h e, HeldStmt.FirstMisplacedAt m.preorder h e → h.Outside := by
  have clear : ({} : PlacementChecker).afterAll ms = {} ↔
      ∀ m ∈ ms, ∀ h e, HeldStmt.FirstMisplacedAt m.preorder h e → h.Outside := by
    rw [afterAll_new_eq_new_iff]
    exact forall₂_congr fun m _ => check_new_eq_new_iff m
  rw [← clear]
  constructor
  · intro agrees
    by_contra left
    have stack : (({} : PlacementChecker).afterAll ms).context ≠ [] :=
      fun empty => left (congrArg PlacementChecker.mk empty)
    obtain ⟨m, differs⟩ := exists_disagreement stack
    exact differs (agrees m)
  · intro same m
    rw [same]

/-- A `break` that is refused in the body of a procedure leaves the procedure on the stack, and a
`return` that stands nowhere passes behind it. -/
theorem stray_return_passes :
    ∃ m m' e e', Module.parse "def f() \x7b break; \x7d" = .ok m ∧ Module.parse "return 1;" = .ok m'
      ∧ (({} : PlacementChecker).check m).1 = .error e
      ∧ ((({} : PlacementChecker).afterAll [m]).check m').1 = .ok ()
      ∧ (({} : PlacementChecker).check m').1 = .error e' := by
  refine ⟨⟨[.procedure ⟨0⟩ "f" [] none [.breakLoop ⟨10, 15, 1, 11⟩] ⟨0, 18, 1, 1⟩]⟩,
    ⟨[.giveBack (.number 1 ⟨7, 8, 1, 8⟩) ⟨0, 8, 1, 1⟩]⟩, ⟨.breakOutsideLoop, ⟨10, 15, 1, 11⟩⟩,
    ⟨.returnOutsideProcedure, ⟨0, 8, 1, 1⟩⟩, ?_, ?_, ?_, ?_, ?_⟩
  · cbv
  · cbv
  · rfl
  · rfl
  · rfl

end PlacementChecker

end Imperative
