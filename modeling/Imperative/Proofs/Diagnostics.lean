import Imperative.Proofs.Blame
import Imperative.Proofs.MovedRuns

/-!
# Diagnostics point into the text

Whatever stage a text fails in, the label of the failure marks a stretch of that text, from the
end of one character to the end of another, and the line and the column that come with it are
those at which the stretch starts.

Faults and failures of parsing are about items of the text or about its end, which lie in it
(`ParseError.span_liesIn`).  Failures of analysis and of a run carry spans of the tree, and here
no induction is needed: `Span.within` moves all spans into the text, so it changes no tree that
was parsed from it (`Module.moved_within`), hence no analysis and no run of such a tree, hence no
failure of those.

* `Failure.Arises`: all the ways in which a text can fail.
* `Failure.pointsInto_of_arises`: each of them ends with a label in the text.
-/

namespace Imperative

/-- The place to which a failure points. -/
def Failure.span : Failure → Span
  | lexical fault => fault.span
  | parse e => e.span
  | analysis e => e.span
  | runtime e => e.span

/-- The failure is what a stage gives for the text, or what running the text gives under some
limit. -/
inductive Failure.Arises (text : String) : Failure → Prop
  | lexing {fault : Fault} (h : lex text = .error fault) : Arises text (.lexical fault)
  | parsing {e : ParseError} (h : Module.parse text = .error e) : Arises text (.parse e)
  | analysing {m : Module} {e : AnalysisError} (parsed : Module.parse text = .ok m)
      (h : m.analyze.verdict = .error e) : Arises text (.analysis e)
  | running {fuel limit : Nat} {failure : Failure}
      (h : run fuel limit text = some (.error failure)) : Arises text failure

/-- The label of the failure marks the part `inside` of the text, whose line and column the
failure carries. -/
def Failure.PointsInto (text : String) (failure : Failure) : Prop :=
  ∃ before inside behind : String, text = before ++ inside ++ behind ∧
    failure.diagnostic.label.offset = before.utf8ByteSize ∧
    failure.diagnostic.label.length = inside.utf8ByteSize ∧
    failure.span.line = 1 + before.toList.count '\n' ∧
    failure.span.column = 1 + (before.toList.reverse.takeWhile (· ≠ '\n')).length

theorem Failure.label_diagnostic (failure : Failure) :
    failure.diagnostic.label.offset = failure.span.start ∧
      failure.diagnostic.label.length = failure.span.length := by
  cases failure with
  | parse e => exact e.label_diagnostic
  | lexical _ | analysis _ | runtime _ => exact ⟨rfl, rfl⟩

theorem Failure.span_moved (f : Span → Span) (failure : Failure) :
    (failure.moved f).span = f failure.span := by
  cases failure with
  | parse e => cases e <;> rfl
  | lexical _ | analysis _ | runtime _ => rfl

/-- A failure points into the text if its span lies there. -/
theorem Failure.pointsInto_of_liesIn {text : String} {failure : Failure}
    (h : failure.span.LiesIn text.toList) : failure.PointsInto text := by
  obtain ⟨before, inside, behind, split, covers⟩ := h
  refine ⟨.ofList before, .ofList inside, .ofList behind, ?_, ?_, ?_, ?_, ?_⟩
  · rw [← String.ofList_append, ← String.ofList_append, ← split, String.ofList_toList]
  · rw [failure.label_diagnostic.1, covers.start_eq]
  · rw [failure.label_diagnostic.2, Span.length, covers.stop_eq, covers.start_eq,
      String.ofList_append, String.utf8ByteSize_append, Nat.add_sub_cancel_left]
  · rw [String.toList_ofList, covers.line_eq]
  · rw [String.toList_ofList, covers.column_eq]

/-! ## Lexing and parsing -/

section Parsing

variable {text : String}

theorem Item.liesIn_of_mem (item : Item) (h : item ∈ (Cursor.ofString text).items) :
    item.span.LiesIn text.toList :=
  (tiles_items text).liesIn h

/-- The end of the text lies in it, behind its last character. -/
theorem Cursor.endToken_liesIn (text : String) :
    (Cursor.ofString text).endToken.span.LiesIn text.toList := by
  refine ⟨text.toList, [], [], by simp, Span.covers_iff.mpr ?_⟩
  rw [List.append_nil]
  rfl

/-- What a parser of the text meets lies in the text. -/
theorem Parser.Meets.liesIn {t : Token} (h : (Parser.ofString text).Meets t) :
    t.span.LiesIn text.toList := by
  rcases h with ⟨rest, reaches⟩ | ⟨-, rfl⟩
  · exact Item.liesIn_of_mem (.ok t) (reaches.mem List.mem_cons_self)
  · exact Cursor.endToken_liesIn text

theorem Fault.liesIn_of_lex {fault : Fault} (h : lex text = .error fault) :
    fault.span.LiesIn text.toList := by
  obtain ⟨ts, rest, items⟩ := lex_eq_error_iff.mp h
  exact Item.liesIn_of_mem (.error fault) (by simp [items])

theorem ParseError.span_liesIn {e : ParseError} (h : Module.parse text = .error e) :
    e.span.LiesIn text.toList := by
  have blames : e.Blames (Parser.ofString text) := Parser.blames_of_parse rfl h
  by_cases syntactic : ∀ fault, e ≠ .lexical fault
  · obtain ⟨t, met, span⟩ := blames.exists_meets syntactic
    rw [span]
    exact met.liesIn
  · obtain ⟨fault, rfl⟩ := not_forall_not.mp syntactic
    exact Fault.liesIn_of_lex (lex_of_blames blames)

end Parsing

/-! ## Analysis and execution -/

section Trees

open Classical in
/-- The span if it lies in the text, and else the start of the text. -/
noncomputable def Span.within (text : String) (s : Span) : Span :=
  if s.LiesIn text.toList then s else Interpreter.programSite

variable {text : String}

/-- The spans of the text are those that stay where they are. -/
theorem Span.within_eq_self_iff {s : Span} : s.within text = s ↔ s.LiesIn text.toList := by
  rw [within]
  split
  · next inside => simp [inside]
  · next outside =>
    refine ⟨fun same => ?_, fun inside => absurd inside outside⟩
    rw [← same]
    exact Span.liesIn_between_start _

theorem Parser.keepsSpans_within (text : String) :
    (Parser.ofString text).KeepsSpans (Span.within text) where
  token _ met := Span.within_eq_self_iff.mpr met.liesIn
  through _ _ first last := Span.within_eq_self_iff.mpr
    ((Span.within_eq_self_iff.mp first).through (Span.within_eq_self_iff.mp last))
  collapse _ span := Span.within_eq_self_iff.mpr (Span.within_eq_self_iff.mp span).collapse

/-- All spans of a module lie in the text from which it was parsed. -/
theorem Module.moved_within {m : Module} (h : Module.parse text = .ok m) :
    m.moved (Span.within text) = m :=
  Parser.moved_of_parse (Parser.keepsSpans_within text) rfl h

theorem AnalysisError.span_liesIn {m : Module} {e : AnalysisError}
    (parsed : Module.parse text = .ok m) (h : m.analyze.verdict = .error e) :
    e.span.LiesIn text.toList := by
  have same : m.analyze.verdict = Verdict.moved (Span.within text) m.analyze.verdict := by
    conv_lhs => rw [← Module.moved_within parsed, Module.analyze_moved]
    rfl
  rw [h] at same
  have fixed : e = e.moved (Span.within text) := Except.error.inj same
  exact Span.within_eq_self_iff.mp (congrArg AnalysisError.span fixed).symm

theorem Failure.span_liesIn_of_run {m : Module} {fuel limit : Nat} {failure : Failure}
    (parsed : Module.parse text = .ok m) (h : m.run fuel limit = some (.error failure)) :
    failure.span.LiesIn text.toList := by
  have start : Span.within text Interpreter.programSite = Interpreter.programSite :=
    Span.within_eq_self_iff.mpr (Span.liesIn_between_start _)
  have same := Module.run_moved (Span.within text) start fuel limit m
  rw [Module.moved_within parsed, h] at same
  have fixed : failure = failure.moved (Span.within text) :=
    Except.error.inj (Option.some.inj same)
  refine Span.within_eq_self_iff.mp ?_
  rw [← Failure.span_moved (Span.within text), ← fixed]

end Trees

/-- **Every diagnostic points into the text.** -/
theorem Failure.pointsInto_of_arises {text : String} {failure : Failure}
    (h : failure.Arises text) : failure.PointsInto text := by
  refine Failure.pointsInto_of_liesIn ?_
  cases h with
  | lexing h => exact Fault.liesIn_of_lex h
  | parsing h => exact ParseError.span_liesIn h
  | analysing parsed h => exact AnalysisError.span_liesIn parsed h
  | running h =>
    rw [run_eq] at h
    cases parsed : Module.parse text with
    | error e =>
      rw [parsed] at h
      cases h
      exact ParseError.span_liesIn parsed
    | ok m =>
      rw [parsed] at h
      exact Failure.span_liesIn_of_run parsed h

set_option maxRecDepth 4000 in
/-- A run fails behind a newline and a blank of three bytes, at an operator whose left operand
stands in parentheses: the label starts with the operand, behind 15 bytes and in column 7. -/
theorem Failure.pointsInto_of_arises_parentheses :
    ∃ (text : String) (failure : Failure), text = "var x;\n\u3000x = (x) + 1;" ∧
      failure = .runtime ⟨.missingValue "+", ⟨15, 21, 2, 7⟩⟩ ∧ failure.Arises text ∧
      failure.PointsInto text := by
  have failed : run 20 1 "var x;\n\u3000x = (x) + 1;" =
      some (.error (.runtime ⟨.missingValue "+", ⟨15, 21, 2, 7⟩⟩)) := by cbv
  exact ⟨_, _, rfl, rfl, .running failed, Failure.pointsInto_of_arises (.running failed)⟩

end Imperative
