import Imperative.Proofs.JumpPlacement
import Mathlib.Data.List.Basic
import Mathlib.Tactic.Common

/-!
# Jumps and what holds them

Where a jump may stand is a matter of its ancestors in the tree: a `break` or a `continue` needs a
loop that repeats it, with no procedure between the two, and a `return` needs a procedure.  The
checker never sees ancestors.  It keeps a stack that it pushes to and pops from, and scans it from
its top.  Here the two are shown to be the same thing.

* `Stmt.preorder`: the statements of a tree, each in front of its own parts and each with its
  ancestors.  An ancestor also tells whether it repeats the part that leads down to the statement:
  a loop repeats its body and the step in its head, but not the first part of its head.
* `HeldStmt.Misplaced`: a jump without the ancestor that it needs.
* `Placement.Reports`: what one walk says about the statements that it has passed.  Walks in a row
  pass the concatenation of what they pass (`Reports.append`), and a walk inside a construct passes
  the same statements with one more ancestor (`Reports.inside`).
* `PlacementChecker.check_exact`: what checking says about any module.
-/

namespace Imperative

/-- Whether a statement is a procedure. -/
def Stmt.IsProcedure : Stmt → Prop
  | .procedure .. => True
  | _ => False

/-- Whether a statement is a loop. -/
def Stmt.IsLoop : Stmt → Prop
  | .whileLoop .. | .doWhile .. | .forLoop .. => True
  | _ => False

/-- A statement that holds another one, and whether it repeats the part in which it does: the body
of a loop, or the step in its head. -/
structure Holder where
  stmt : Stmt
  repeats : Bool

/-- A statement with its ancestors, innermost first. -/
structure HeldStmt where
  holders : List Holder
  stmt : Stmt

mutual

/-- The statement and all statements inside it, each in front of its own parts. -/
def Stmt.preorder (holders : List Holder) : Stmt → List HeldStmt
  | .compound body span =>
    ⟨holders, .compound body span⟩
      :: Stmt.allPreorder (⟨.compound body span, false⟩ :: holders) body
  | .conditional test body otherwise span =>
    ⟨holders, .conditional test body otherwise span⟩
      :: (body.preorder (⟨.conditional test body otherwise span, false⟩ :: holders)
        ++ Stmt.preorder? (⟨.conditional test body otherwise span, false⟩ :: holders) otherwise)
  | .whileLoop test body span =>
    ⟨holders, .whileLoop test body span⟩
      :: body.preorder (⟨.whileLoop test body span, true⟩ :: holders)
  | .doWhile test body span =>
    ⟨holders, .doWhile test body span⟩
      :: body.preorder (⟨.doWhile test body span, true⟩ :: holders)
  | .forLoop init test step body span =>
    ⟨holders, .forLoop init test step body span⟩
      :: (init.preorder (⟨.forLoop init test step body span, false⟩ :: holders)
        ++ (step.preorder (⟨.forLoop init test step body span, true⟩ :: holders)
          ++ body.preorder (⟨.forLoop init test step body span, true⟩ :: holders)))
  | .procedure id name params returnType body span =>
    ⟨holders, .procedure id name params returnType body span⟩
      :: Stmt.allPreorder (⟨.procedure id name params returnType body span, false⟩ :: holders) body
  | s => [⟨holders, s⟩]

/-- The statements and all statements inside them, from the first one on. -/
def Stmt.allPreorder (holders : List Holder) : List Stmt → List HeldStmt
  | [] => []
  | s :: ss => s.preorder holders ++ Stmt.allPreorder holders ss

/-- The statement and all statements inside it, if there is one. -/
def Stmt.preorder? (holders : List Holder) : Option Stmt → List HeldStmt
  | none => []
  | some s => s.preorder holders

end

/-- The statements of the module, each in front of its own parts. -/
def Module.preorder (m : Module) : List HeldStmt :=
  Stmt.allPreorder [] m.body

/-- A loop repeats what is inside the ancestors, and no procedure stands between. -/
def Holder.InsideLoop (holders : List Holder) : Prop :=
  ∃ inner loop outer, holders = inner ++ loop :: outer ∧ loop.stmt.IsLoop ∧ loop.repeats = true ∧
    ∀ h ∈ inner, ¬ h.stmt.IsProcedure

/-- A procedure is among the ancestors. -/
def Holder.InsideProcedure (holders : List Holder) : Prop :=
  ∃ h ∈ holders, h.stmt.IsProcedure

/-- The statement is a jump that does not have the ancestor it needs, and this is how it is
reported. -/
inductive HeldStmt.Misplaced : HeldStmt → AnalysisError → Prop
  | breakLoop {holders : List Holder} {span : Span} (alone : ¬ Holder.InsideLoop holders) :
      Misplaced ⟨holders, .breakLoop span⟩ ⟨.breakOutsideLoop, span⟩
  | continueLoop {holders : List Holder} {span : Span} (alone : ¬ Holder.InsideLoop holders) :
      Misplaced ⟨holders, .continueLoop span⟩ ⟨.continueOutsideLoop, span⟩
  | giveBack {holders : List Holder} {value : Expr} {span : Span}
      (alone : ¬ Holder.InsideProcedure holders) :
      Misplaced ⟨holders, .giveBack value span⟩ ⟨.returnOutsideProcedure, span⟩

/-! ## Ancestors and surroundings -/

namespace Holder

/-- What the checker notes about an ancestor. -/
def surrounding? (h : Holder) : Option Surrounding :=
  match h.stmt with
  | .procedure .. => some .procedure
  | .whileLoop .. | .doWhile .. | .forLoop .. => if h.repeats then some .loop else none
  | _ => none

/-- The checker holds what it notes about the ancestors. -/
def Noted (holders : List Holder) (c : PlacementChecker) : Prop :=
  c.context = holders.filterMap surrounding?

theorem isProcedure_iff (h : Holder) : h.stmt.IsProcedure ↔ h.surrounding? = some .procedure := by
  obtain ⟨s, repeats⟩ := h
  cases s <;> cases repeats <;> simp [Stmt.IsProcedure, surrounding?]

theorem isLoop_iff (h : Holder) :
    h.stmt.IsLoop ∧ h.repeats = true ↔ h.surrounding? = some .loop := by
  obtain ⟨s, repeats⟩ := h
  cases s <;> cases repeats <;> simp [Stmt.IsLoop, surrounding?]

theorem not_insideLoop_nil : ¬ InsideLoop [] := by
  rintro ⟨inner, loop, outer, split, -⟩
  simp at split

theorem insideLoop_cons_iff (h : Holder) (holders : List Holder) :
    InsideLoop (h :: holders) ↔
      h.surrounding? = some .loop ∨ h.surrounding? ≠ some .procedure ∧ InsideLoop holders := by
  rw [← isLoop_iff, ne_eq, ← isProcedure_iff]
  constructor
  · rintro ⟨_ | ⟨x, inner⟩, loop, outer, split, isLoop, repeats, free⟩
    · obtain ⟨rfl, rfl⟩ := List.cons.inj split
      exact .inl ⟨isLoop, repeats⟩
    · obtain ⟨rfl, rfl⟩ := List.cons.inj split
      have free' : ∀ y ∈ inner, ¬ y.stmt.IsProcedure :=
        fun y hy => free y (List.mem_cons_of_mem _ hy)
      exact .inr ⟨free h List.mem_cons_self, inner, loop, outer, rfl, isLoop, repeats, free'⟩
  · rintro (⟨isLoop, repeats⟩ | ⟨hfree, inner, loop, outer, rfl, isLoop, repeats, free⟩)
    · exact ⟨[], h, holders, rfl, isLoop, repeats, by simp⟩
    · exact ⟨h :: inner, loop, outer, rfl, isLoop, repeats, List.forall_mem_cons.mpr ⟨hfree, free⟩⟩

/-- Scanning the stack from its top finds a loop if and only if a loop repeats what is inside the
ancestors, with no procedure between. -/
theorem Noted.insideLoop_iff {holders : List Holder} {c : PlacementChecker} (h : Noted holders c) :
    c.insideLoop = true ↔ InsideLoop holders := by
  rw [PlacementChecker.insideLoop, show c.context = _ from h]
  clear h
  induction holders with
  | nil => simp [not_insideLoop_nil]
  | cons x holders ih =>
    rw [insideLoop_cons_iff, List.filterMap_cons]
    rcases x.surrounding? with _ | _ | _ <;> simp_all

theorem Noted.insideProcedure_iff {holders : List Holder} {c : PlacementChecker}
    (h : Noted holders c) : c.insideProcedure = true ↔ InsideProcedure holders := by
  rw [PlacementChecker.insideProcedure, show c.context = _ from h]
  simp only [InsideProcedure, isProcedure_iff, List.any_eq_true, List.mem_filterMap, beq_iff_eq]
  constructor
  · rintro ⟨_, ⟨x, hx, noted⟩, rfl⟩
    exact ⟨x, hx, noted⟩
  · rintro ⟨x, hx, noted⟩
    exact ⟨.procedure, ⟨x, hx, noted⟩, rfl⟩

/-- An ancestor that the checker notes is pushed to its stack. -/
theorem Noted.push {holders : List Holder} {c : PlacementChecker} (h : Noted holders c)
    {x : Holder} {surrounding : Surrounding} (noted : x.surrounding? = some surrounding) :
    Noted (x :: holders) ⟨surrounding :: c.context⟩ := by
  rw [Noted, List.filterMap_cons_some noted, show c.context = _ from h]

/-- An ancestor that the checker does not note leaves its stack as it is. -/
theorem Noted.skip {holders : List Holder} {c : PlacementChecker} (h : Noted holders c)
    {x : Holder} (unnoted : x.surrounding? = none) : Noted (x :: holders) c := by
  rw [Noted, List.filterMap_cons_none unnoted, show c.context = _ from h]

end Holder

/-! ## Walks -/

/-- The failure is that of the first misplaced jump among the statements. -/
def HeldStmt.FirstMisplaced (hs : List HeldStmt) (e : AnalysisError) : Prop :=
  ∃ earlier h later, hs = earlier ++ h :: later ∧ (∀ x ∈ earlier, ∀ e', ¬ x.Misplaced e') ∧
    h.Misplaced e

namespace Placement

open HeldStmt

/-- What a walk says about the statements that it passes: it comes through and leaves the checker
as it was if no jump among them is misplaced, and otherwise it fails with the first that is. -/
def Reports (x : Placement Unit) (c : PlacementChecker) (hs : List HeldStmt) : Prop :=
  (x.run.run c = (.ok (), c) ∧ ∀ h ∈ hs, ∀ e, ¬ h.Misplaced e) ∨
    ∃ e c', x.run.run c = (.error e, c') ∧ FirstMisplaced hs e

namespace Reports

variable {x y : Placement Unit} {c : PlacementChecker} {hs ks : List HeldStmt}

theorem nil : Reports (pure ()) c [] :=
  .inl ⟨rfl, by simp⟩

/-- Two walks in a row. -/
theorem append (hx : Reports x c hs) (hy : Reports y c ks) :
    Reports (do x; y) c (hs ++ ks) := by
  have run : (do x; y).run.run c = match x.run.run c with
      | (.ok (), c₁) => y.run.run c₁
      | (.error e, c₁) => (.error e, c₁) := by
    rw [ExceptT.run_bind, StateT.run_bind]
    rcases x.run.run c with ⟨_ | _, _⟩ <;> rfl
  rcases hx with ⟨ok, fine⟩ | ⟨e, c', failed, earlier, h, later, rfl, fine, misplaced⟩
  · rw [ok] at run
    rcases hy with ⟨ok', fine'⟩ | ⟨e, c', failed, earlier, h, later, rfl, fine', misplaced⟩
    · refine .inl ⟨run.trans ok', fun h hh => ?_⟩
      rcases List.mem_append.mp hh with hh | hh
      · exact fine h hh
      · exact fine' h hh
    · refine .inr ⟨e, c', run.trans failed, hs ++ earlier, h, later, by simp, fun k hk => ?_,
        misplaced⟩
      rcases List.mem_append.mp hk with hk | hk
      · exact fine k hk
      · exact fine' k hk
  · rw [failed] at run
    exact .inr ⟨e, c', run, earlier, h, later ++ ks, by simp, fine, misplaced⟩

/-- A statement that is no jump is passed without a word. -/
theorem cons {h : HeldStmt} (hx : Reports x c hs) (silent : ∀ e, ¬ h.Misplaced e) :
    Reports x c (h :: hs) := by
  rcases hx with ⟨ok, fine⟩ | ⟨e, c', failed, earlier, k, later, rfl, fine, misplaced⟩
  · exact .inl ⟨ok, List.forall_mem_cons.mpr ⟨silent, fine⟩⟩
  · exact .inr ⟨e, c', failed, h :: earlier, k, later, rfl,
      List.forall_mem_cons.mpr ⟨silent, fine⟩, misplaced⟩

/-- A walk inside a construct leaves the construct at its end. -/
theorem inside {surrounding : Surrounding} (hx : Reports x ⟨surrounding :: c.context⟩ hs) :
    Reports (do push surrounding; x; pop) c hs := by
  have run : (do push surrounding; x; pop).run.run c =
      match x.run.run ⟨surrounding :: c.context⟩ with
      | (.ok (), c₁) => (.ok (), ⟨c₁.context.tail⟩)
      | (.error e, c₁) => (.error e, c₁) := by
    change (ExceptT.run (do x; pop)).run ⟨surrounding :: c.context⟩ = _
    rw [ExceptT.run_bind, StateT.run_bind]
    rcases x.run.run ⟨surrounding :: c.context⟩ with ⟨_ | _, _⟩ <;> rfl
  rcases hx with ⟨ok, fine⟩ | ⟨e, c', failed, first⟩
  · rw [ok] at run
    exact .inl ⟨run, fine⟩
  · rw [failed] at run
    exact .inr ⟨e, c', run, first⟩

/-- A jump is reported if the stack does not pass the test that stands for its ancestor. -/
theorem jump {test : PlacementChecker → Bool} {cause : AnalysisCause} {site : Span} {h : HeldStmt}
    (hjump : ∀ e, h.Misplaced e ↔ ¬ test c = true ∧ e = ⟨cause, site⟩) :
    Reports (require test cause site) c [h] := by
  by_cases passes : test c = true
  · refine .inl ⟨?_, List.forall_mem_singleton.mpr fun e misplaced => ?_⟩
    · rw [require_run, if_pos passes]
    · exact ((hjump e).mp misplaced).1 passes
  · refine .inr ⟨⟨cause, site⟩, c, ?_, [], h, [], rfl, by simp, (hjump _).mpr ⟨passes, rfl⟩⟩
    rw [require_run, if_neg passes]

end Reports

end Placement

open Placement

mutual

/-- A walk over a statement passes the statement and all statements inside it.  The recursion is
that of the walk; the stack is kept equal to what is noted about the ancestors. -/
theorem Stmt.checkJumps_reports {holders : List Holder} {c : PlacementChecker}
    (h : Holder.Noted holders c) : ∀ s : Stmt, Reports s.checkJumps c (s.preorder holders)
  | .compound body span => by
    have inner := h.skip (x := ⟨.compound body span, false⟩) rfl
    exact (Stmt.checkAllJumps_reports inner body).cons nofun
  | .conditional test body otherwise span => by
    have inner := h.skip (x := ⟨.conditional test body otherwise span, false⟩) rfl
    have hbody := Stmt.checkJumps_reports inner body
    have hother := Stmt.checkJumps?_reports inner otherwise
    exact (hbody.append hother).cons nofun
  | .whileLoop test body span => by
    have inner := h.push (x := ⟨.whileLoop test body span, true⟩) rfl
    exact (Stmt.checkJumps_reports inner body).inside.cons nofun
  | .doWhile test body span => by
    have inner := h.push (x := ⟨.doWhile test body span, true⟩) rfl
    exact (Stmt.checkJumps_reports inner body).inside.cons nofun
  | .forLoop init test step body span => by
    -- The first part of the head is walked in front of the push.
    have head := h.skip (x := ⟨.forLoop init test step body span, false⟩) rfl
    have round := h.push (x := ⟨.forLoop init test step body span, true⟩) rfl
    have hinit := Stmt.checkJumps_reports head init
    have hstep := Stmt.checkJumps_reports round step
    have hbody := Stmt.checkJumps_reports round body
    have hround := (hstep.append hbody).inside
    simp only [bind_assoc] at hround
    exact (hinit.append hround).cons nofun
  | .procedure id name params returnType body span => by
    have inner := h.push (x := ⟨.procedure id name params returnType body span, false⟩) rfl
    exact (Stmt.checkAllJumps_reports inner body).inside.cons nofun
  | .breakLoop _ => Reports.jump fun e => by
    rw [h.insideLoop_iff]
    exact ⟨fun | .breakLoop alone => ⟨alone, rfl⟩, fun ⟨alone, he⟩ => he ▸ .breakLoop alone⟩
  | .continueLoop _ => Reports.jump fun e => by
    rw [h.insideLoop_iff]
    exact ⟨fun | .continueLoop alone => ⟨alone, rfl⟩, fun ⟨alone, he⟩ => he ▸ .continueLoop alone⟩
  | .giveBack .. => Reports.jump fun e => by
    rw [h.insideProcedure_iff]
    exact ⟨fun | .giveBack alone => ⟨alone, rfl⟩, fun ⟨alone, he⟩ => he ▸ .giveBack alone⟩
  | .declaration .. | .assign .. | .call .. | .pass _ => Reports.nil.cons nofun

theorem Stmt.checkAllJumps_reports {holders : List Holder} {c : PlacementChecker}
    (h : Holder.Noted holders c) :
    ∀ ss : List Stmt, Reports (Stmt.checkAllJumps ss) c (Stmt.allPreorder holders ss)
  | [] => .nil
  | s :: ss => (Stmt.checkJumps_reports h s).append (Stmt.checkAllJumps_reports h ss)

theorem Stmt.checkJumps?_reports {holders : List Holder} {c : PlacementChecker}
    (h : Holder.Noted holders c) :
    ∀ s : Option Stmt, Reports (Stmt.checkJumps? s) c (Stmt.preorder? holders s)
  | none => .nil
  | some s => Stmt.checkJumps_reports h s

end

/-- A statement is not misplaced if and only if it has the ancestor that it needs, should it be a
jump. -/
theorem HeldStmt.not_misplaced_iff (h : HeldStmt) :
    (∀ e, ¬ h.Misplaced e) ↔
      (∀ span, h.stmt = .breakLoop span ∨ h.stmt = .continueLoop span →
        Holder.InsideLoop h.holders) ∧
      (∀ value span, h.stmt = .giveBack value span → Holder.InsideProcedure h.holders) := by
  obtain ⟨holders, s⟩ := h
  constructor
  · intro fine
    refine ⟨?_, ?_⟩
    · rintro span (hs | hs) <;> dsimp only at hs <;> subst hs <;> by_contra alone
      · exact fine _ (.breakLoop alone)
      · exact fine _ (.continueLoop alone)
    · rintro value span hs
      dsimp only at hs
      subst hs
      by_contra alone
      exact fine _ (.giveBack alone)
  · rintro ⟨loop, procedure⟩ e misplaced
    cases misplaced with
    | breakLoop alone => exact alone (loop _ (.inl rfl))
    | continueLoop alone => exact alone (loop _ (.inr rfl))
    | giveBack alone => exact alone (procedure _ _ rfl)

/-- Checking is exact.  A fresh checker lets a module pass if and only if a loop repeats each
`break` and `continue` of it with no procedure between, and each `return` stands in a procedure.
Otherwise it reports the first statement, in front of its own parts, that is a jump without the
ancestor it needs.  Whatever the stack at the start, a check that passes leaves it as it was. -/
theorem PlacementChecker.check_exact (m : Module) :
    ((({} : PlacementChecker).check m).1 = .ok () ↔
      ∀ h ∈ m.preorder,
        (∀ span, h.stmt = .breakLoop span ∨ h.stmt = .continueLoop span →
          Holder.InsideLoop h.holders) ∧
        (∀ value span, h.stmt = .giveBack value span → Holder.InsideProcedure h.holders)) ∧
    (∀ e, (({} : PlacementChecker).check m).1 = .error e →
      HeldStmt.FirstMisplaced m.preorder e) ∧
    ∀ c : PlacementChecker, (c.check m).1 = .ok () → (c.check m).2 = c := by
  have reports : Reports (Stmt.checkAllJumps m.body) {} m.preorder :=
    Stmt.checkAllJumps_reports (show Holder.Noted [] {} from rfl) m.body
  refine ⟨?_, ?_, ?_⟩
  · simp only [← HeldStmt.not_misplaced_iff]
    rcases reports with ⟨ok, fine⟩ | ⟨e, c', failed, earlier, h, later, split, -, misplaced⟩
    · have passed : (({} : PlacementChecker).check m).1 = .ok () := congrArg Prod.fst ok
      exact ⟨fun _ => fine, fun _ => passed⟩
    · have stopped : (({} : PlacementChecker).check m).1 = .error e := congrArg Prod.fst failed
      have hmem : h ∈ m.preorder := by simp [split]
      constructor
      · intro passed
        exact nomatch stopped.symm.trans passed
      · intro fine
        exact absurd misplaced (fine h hmem e)
  · intro e stopped
    rcases reports with ⟨ok, -⟩ | ⟨e', c', failed, first⟩
    · exact nomatch (congrArg Prod.fst ok).symm.trans stopped
    · obtain rfl : e' = e := Except.error.inj ((congrArg Prod.fst failed).symm.trans stopped)
      exact first
  · intro c passed
    exact (Stmt.checkAllJumps_ok (Prod.ext passed rfl)).1

end Imperative
