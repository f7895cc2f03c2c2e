import Imperative.Span

/-!
# Places in a text, counted

A reader keeps bytes, line and column as it goes.  Here the three are said of the text that
lies behind it, without going through it: so many bytes of UTF-8, one more than the newlines,
one more than the characters since the last of them (`Position.start_after`).

* `Span.Covers s before inside`: the span belongs to the characters `inside` that follow
  `before`.
* `Span.LiesIn s text`: the span belongs to some stretch of the text.  Its two ends are then
  ends of characters, and its line and column are those of its start.
* `Span.LiesIn.through`, `Span.LiesIn.collapse`: what is done with spans after reading does not
  lead out of the text.
-/

namespace Imperative

/-- The span belongs to the characters `inside` that follow `before`. -/
structure Span.Covers (s : Span) (before inside : List Char) : Prop where
  start_eq : s.start = (String.ofList before).utf8ByteSize
  stop_eq : s.stop = (String.ofList (before ++ inside)).utf8ByteSize
  line_eq : s.line = 1 + before.count '\n'
  column_eq : s.column = 1 + (before.reverse.takeWhile (· ≠ '\n')).length

/-- The span belongs to a stretch of the text. -/
def Span.LiesIn (s : Span) (text : List Char) : Prop :=
  ∃ before inside behind, text = before ++ inside ++ behind ∧ s.Covers before inside

/-- The position behind a text, in bytes, newlines and characters since the last newline. -/
theorem Position.start_after (cs : List Char) :
    Position.start.after cs =
      ⟨(String.ofList cs).utf8ByteSize, 1 + cs.count '\n',
        1 + (cs.reverse.takeWhile (· ≠ '\n')).length⟩ := by
  -- the last character decides about the column, so the text is taken apart from its end
  rw [← List.reverse_reverse cs]
  induction cs.reverse with
  | nil => rfl
  | cons c cs ih =>
    rw [List.reverse_cons, after_append, ih, after_cons, after_nil, String.ofList_append,
      String.utf8ByteSize_append, ← String.singleton_eq_ofList, String.utf8ByteSize_singleton]
    by_cases newline : c = '\n'
    · simp [advance, newline, Nat.add_assoc]
    · simp [advance, newline, Nat.add_assoc]

namespace Span

variable {s t : Span} {before inside text : List Char}

/-- A stretch of text has one span. -/
theorem covers_iff :
    s.Covers before inside ↔
      s = Span.between (Position.start.after before) (Position.start.after (before ++ inside)) := by
  rw [Position.start_after, Position.start_after, Span.between]
  constructor
  · rintro ⟨start, stop, line, column⟩
    obtain ⟨_, _, _, _⟩ := s
    simp only at start stop line column
    rw [start, stop, line, column]
  · rintro rfl
    exact ⟨rfl, rfl, rfl, rfl⟩

theorem Covers.start_le_stop (h : s.Covers before inside) : s.start ≤ s.stop := by
  rw [h.start_eq, h.stop_eq, String.ofList_append, String.utf8ByteSize_append]
  exact Nat.le_add_right _ _

/-- A span of the text that ends further on, from the start of another one. -/
theorem LiesIn.through (hs : s.LiesIn text) (ht : t.LiesIn text) : (s.through t).LiesIn text := by
  obtain ⟨before, inside, behind, rfl, covers⟩ := hs
  obtain ⟨before', inside', behind', same, covers'⟩ := ht
  by_cases further : t.stop ≤ s.stop
  · -- the first span reaches as far already
    refine ⟨before, inside, behind, rfl, covers.start_eq, ?_, covers.line_eq, covers.column_eq⟩
    rw [Span.through, Nat.max_eq_right further, covers.stop_eq]
  · -- the second one ends behind the start of the first, so what lies between is a stretch
    have front : before <+: before ++ inside ++ behind := by
      rw [List.append_assoc]
      exact List.prefix_append _ _
    have front' : before' ++ inside' <+: before ++ inside ++ behind := same ▸ List.prefix_append _ _
    rcases List.prefix_or_prefix_of_prefix front front' with ⟨between, split⟩ | ⟨short, split⟩
    · refine ⟨before, between, behind', by rw [same, split], covers.start_eq, ?_, covers.line_eq,
        covers.column_eq⟩
      rw [Span.through, split, ← covers'.stop_eq, Nat.max_eq_left (by omega)]
    · have ends := covers'.stop_eq
      have starts := covers.start_eq
      rw [← split, String.ofList_append, String.utf8ByteSize_append, ← ends] at starts
      have := covers.start_le_stop
      omega

/-- The empty span at the start of a span of the text. -/
theorem LiesIn.collapse (hs : s.LiesIn text) : s.collapse.LiesIn text := by
  obtain ⟨before, inside, behind, rfl, covers⟩ := hs
  refine ⟨before, [], inside ++ behind, by simp, covers.start_eq, ?_, covers.line_eq,
    covers.column_eq⟩
  rw [List.append_nil, Span.collapse, covers.start_eq]

/-- The start of the text. -/
theorem liesIn_between_start (text : List Char) :
    (Span.between .start .start).LiesIn text :=
  ⟨[], [], text, rfl, covers_iff.mpr rfl⟩

end Span

end Imperative
