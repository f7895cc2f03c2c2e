import Imperative.Analysis.Resolution
import Imperative.Proofs.Sites

/-!
# The verdict on a list of sites

`judge` goes through sites in order and stops at the first that does not fit.  This is what
the walk that resolves names is compared with: `judge_append_of_ok` and
`judge_append_of_error` follow a walk that is made of parts, and `judge_eq_ok_iff` and
`judge_eq_error_iff` say what the verdict means, site by site.
-/

namespace Imperative

/-- The verdict on sites that follow the given ones: the complaint about the first that does
not fit. -/
def judge (earlier : List Site) : List Site → Verdict
  | [] => .ok ()
  | t :: ts =>
    match t.complaint? earlier with
    | some cause => .error ⟨cause, t.span⟩
    | none => judge (earlier ++ [t]) ts

theorem judge_singleton (earlier : List Site) (t : Site) :
    judge earlier [t] =
      match t.complaint? earlier with
      | some cause => .error ⟨cause, t.span⟩
      | none => .ok () := by
  rw [judge]
  cases t.complaint? earlier <;> rfl

/-- A site that brings a name in is judged by whether the name is taken in its scope. -/
theorem judge_introduce (earlier : List Site) {t : Site} {what : Introduced}
    (ht : t.act = .introduce what) :
    judge earlier [t] =
      if (meaning? earlier t.around t.name).isSome then
        .error ⟨.duplicateIdentifier t.name, t.span⟩
      else .ok () := by
  rw [judge_singleton, Site.complaint?, ht]
  cases meaning? earlier t.around t.name <;> rfl

theorem meaning?_eq_none_of_judge {earlier : List Site} {t : Site} {what : Introduced}
    (ht : t.act = .introduce what) (h : judge earlier [t] = .ok ()) :
    meaning? earlier t.around t.name = none := by
  rw [judge_introduce earlier ht] at h
  cases hm : meaning? earlier t.around t.name with
  | none => rfl
  | some _ => rw [hm] at h; cases h

theorem judge_append_of_ok {earlier xs : List Site} (h : judge earlier xs = .ok ())
    (ys : List Site) : judge earlier (xs ++ ys) = judge (earlier ++ xs) ys := by
  induction xs generalizing earlier with
  | nil => rw [List.nil_append, List.append_nil]
  | cons t xs ih =>
    rw [judge] at h
    rw [List.cons_append, judge]
    cases ht : t.complaint? earlier with
    | some cause => rw [ht] at h; cases h
    | none =>
      rw [ht] at h
      have := ih h
      rwa [List.append_assoc] at this

theorem judge_append_of_error {earlier xs : List Site} {e : AnalysisError}
    (h : judge earlier xs = .error e) (ys : List Site) :
    judge earlier (xs ++ ys) = .error e := by
  induction xs generalizing earlier with
  | nil => cases h
  | cons t xs ih =>
    rw [judge] at h
    rw [List.cons_append, judge]
    cases ht : t.complaint? earlier with
    | some cause => rw [ht] at h; exact h
    | none => rw [ht] at h; exact ih h

theorem judge_append_eq_ok_iff {earlier xs ys : List Site} :
    judge earlier (xs ++ ys) = .ok () ↔
      judge earlier xs = .ok () ∧ judge (earlier ++ xs) ys = .ok () := by
  cases h : judge earlier xs with
  | error e => simp [judge_append_of_error h]
  | ok _ => simp [judge_append_of_ok h]

/-- The verdict is good if and only if every site fits. -/
theorem judge_eq_ok_iff {earlier ts : List Site} :
    judge earlier ts = .ok () ↔
      ∀ (i : Nat) (t : Site), ts[i]? = some t → t.Fits (earlier ++ ts.take i) := by
  induction ts generalizing earlier with
  | nil => simp [judge]
  | cons u ts ih =>
    rw [judge]
    constructor
    · intro h i t hi
      cases hu : u.complaint? earlier with
      | some cause => rw [hu] at h; cases h
      | none =>
        rw [hu] at h
        cases i with
        | zero =>
          obtain rfl : u = t := Option.some.inj hi
          rw [List.take_zero, List.append_nil]
          exact Site.complaint?_eq_none_iff.mp hu
        | succ i =>
          have := ih.mp h i t hi
          rwa [List.append_assoc] at this
    · intro h
      have hu : u.complaint? earlier = none := by
        have := h 0 u rfl
        rw [List.take_zero, List.append_nil] at this
        exact Site.complaint?_eq_none_iff.mpr this
      rw [hu]
      refine ih.mpr fun i t hi => ?_
      rw [List.append_assoc]
      exact h (i + 1) t hi

theorem exists_of_judge_eq_error {earlier ts : List Site} {e : AnalysisError}
    (h : judge earlier ts = .error e) :
    ∃ (i : Nat) (t : Site), ts[i]? = some t ∧ judge earlier (ts.take i) = .ok ()
      ∧ ∃ cause, t.complaint? (earlier ++ ts.take i) = some cause ∧ e = ⟨cause, t.span⟩ := by
  induction ts generalizing earlier with
  | nil => cases h
  | cons u ts ih =>
    rw [judge] at h
    cases hu : u.complaint? earlier with
    | some cause =>
      rw [hu] at h
      cases h
      refine ⟨0, u, rfl, rfl, cause, ?_, rfl⟩
      rwa [List.take_zero, List.append_nil]
    | none =>
      rw [hu] at h
      obtain ⟨i, t, hi, hok, cause, hcause, rfl⟩ := ih h
      refine ⟨i + 1, t, hi, ?_, cause, ?_, rfl⟩
      · rw [List.take_succ_cons, judge, hu]
        exact hok
      · rwa [List.append_assoc] at hcause

/-- A bad verdict is the complaint about the first site that does not fit. -/
theorem judge_eq_error_iff {earlier ts : List Site} {e : AnalysisError} :
    judge earlier ts = .error e ↔
      ∃ (i : Nat) (t : Site), ts[i]? = some t
        ∧ (∀ (j : Nat) (u : Site), j < i → ts[j]? = some u → u.Fits (earlier ++ ts.take j))
        ∧ ∃ cause, t.complaint? (earlier ++ ts.take i) = some cause ∧ e = ⟨cause, t.span⟩ := by
  -- The sites before the `i`-th fit if and only if the verdict on them is good.
  have hfirst : ∀ i, judge earlier (ts.take i) = .ok () ↔
      ∀ (j : Nat) (u : Site), j < i → ts[j]? = some u → u.Fits (earlier ++ ts.take j) := by
    intro i
    rw [judge_eq_ok_iff]
    refine forall_congr' fun j => forall_congr' fun u => ?_
    by_cases hj : j < i
    · rw [List.getElem?_take_of_lt hj, List.take_take, Nat.min_eq_left (Nat.le_of_lt hj)]
      simp only [hj, forall_const]
    · rw [List.getElem?_take_eq_none (Nat.le_of_not_lt hj)]
      simp only [hj, reduceCtorEq, false_imp_iff]
  constructor
  · intro h
    obtain ⟨i, t, hi, hok, hcause⟩ := exists_of_judge_eq_error h
    exact ⟨i, t, hi, (hfirst i).mp hok, hcause⟩
  · rintro ⟨i, t, hi, hfits, cause, hcause, rfl⟩
    obtain ⟨hlt, ht⟩ := List.getElem?_eq_some_iff.mp hi
    have hsplit : ts.take i ++ t :: ts.drop (i + 1) = ts := by
      rw [← ht, ← List.drop_eq_getElem_cons hlt, List.take_append_drop]
    have hjudge : judge earlier (ts.take i ++ t :: ts.drop (i + 1)) = .error ⟨cause, t.span⟩ := by
      rw [judge_append_of_ok ((hfirst i).mpr hfits), judge, hcause]
    rwa [hsplit] at hjudge

end Imperative
