import Imperative.Proofs.Reading

/-!
# What a parser accepts

The steps of parsing seen from inside: what a parser does with tokens that it is known to fit.
`Parse.Accepts p held cost stop previous m ts a n` says that `p` takes the tokens `ts` and gives
`a`, whatever comes behind them as long as the next token is one with which `p` may `stop`.
It fails with a nest that is too deep if, and only if, its *cost* is more than the levels of
nesting that are left, and it fails in no other way.

The levels that a chain of operators has taken and not yet given back are `held`: the parser
starts with them and ends without them.  All other parsers hold none.

A sequence takes the concatenation of what its parts take, and costs as much as the part that
costs most (`Accepts.bind`).  What follows the first part is what the second part starts with,
and only if that is empty it is what follows the whole (`List.headD`).
-/

namespace Imperative

/-- The span of the last token of a stretch, or the one before if the stretch is empty. -/
def Token.lastSpan (previous : Span) (ts : List Token) : Span :=
  ts.foldl (fun _ t => t.span) previous

namespace Token

@[simp] theorem lastSpan_nil (previous : Span) : lastSpan previous [] = previous := rfl

@[simp] theorem lastSpan_cons (previous : Span) (t : Token) (ts : List Token) :
    lastSpan previous (t :: ts) = lastSpan t.span ts := rfl

@[simp] theorem lastSpan_append (previous : Span) (ts us : List Token) :
    lastSpan previous (ts ++ us) = lastSpan (lastSpan previous ts) us :=
  List.foldl_append

theorem cover_eq_through_lastSpan (t : Token) (ts : List Token) :
    cover (t :: ts) = t.span.through (lastSpan t.span ts) := by
  have hlast : ∀ (t : Token) (ts : List Token),
      (ts.getLast?.getD t).span = lastSpan t.span ts := by
    intro t ts
    induction ts generalizing t with
    | nil => rfl
    | cons u us ih => rw [List.getLast?_cons, Option.getD_some, ih, lastSpan_cons]
  rw [cover, hlast]

end Token

/-- The parser that has the tokens ahead of it, and no fault among them. -/
def Parser.over (final : Token) (ahead : List Token) (previous : Span) (procedures depth : Nat) :
    Parser :=
  { items := ahead.map .ok, final, previous, procedures, depth }

namespace Parse

variable {α β : Type}

/-! ## Steps in front of tokens -/

theorem headD_append (ts us : List Token) (v : Token) :
    (ts ++ us).headD v = ts.headD (us.headD v) := by
  cases ts <;> rfl

section Steps

variable (final : Token) (ts : List Token) (previous : Span) (m depth : Nat)

theorem run_current : current.run (.over final ts previous m depth) =
    (.ok (ts.headD final), .over final ts previous m depth) := by
  cases ts <;> rfl

theorem run_kind : kind.run (.over final ts previous m depth) =
    (.ok (ts.headD final).kind, .over final ts previous m depth) := by
  rw [kind, run_bind, run_current]
  rfl

theorem run_nextKind (t : Token) : nextKind.run (.over final (t :: ts) previous m depth) =
    (.ok (ts.headD final).kind, .over final (t :: ts) previous m depth) := by
  rw [nextKind, run_bind, run_current]
  cases ts <;> rfl

theorem run_advance (t : Token) : advance.run (.over final (t :: ts) previous m depth) =
    (.ok t, .over final ts t.span m depth) := by
  rw [advance, run_bind, run_current]
  rfl

theorem run_expect {t : Token} {k : Token.Kind} (h : t.kind = k) :
    (expect k).run (.over final (t :: ts) previous m depth) =
      (.ok t, .over final ts t.span m depth) := by
  rw [expect, run_bind, run_current]
  dsimp only [List.headD_cons]
  rw [if_pos h, run_advance]

theorem run_tooDeep : (tooDeep : Parse α).run (.over final ts previous m depth) =
    (.error (.tooDeep maxNesting (ts.headD final).span), .over final ts previous m depth) := by
  rw [tooDeep, run_bind, run_current]
  rfl

theorem run_enter_of_lt (h : depth < maxNesting) : enter.run (.over final ts previous m depth) =
    (.ok (), .over final ts previous m (depth + 1)) := by
  have hroom : ¬ maxNesting ≤ (Parser.over final ts previous m depth).depth := Nat.not_le_of_lt h
  rw [enter, run_bind]
  change (if maxNesting ≤ (Parser.over final ts previous m depth).depth then _ else _ :
    Parse Unit).run _ = _
  rw [if_neg hroom]
  rfl

theorem run_enter_of_le (h : maxNesting ≤ depth) : enter.run (.over final ts previous m depth) =
    (.error (.tooDeep maxNesting (ts.headD final).span), .over final ts previous m depth) := by
  have hfull : maxNesting ≤ (Parser.over final ts previous m depth).depth := h
  rw [enter, run_bind]
  change (if maxNesting ≤ (Parser.over final ts previous m depth).depth then _ else _ :
    Parse Unit).run _ = _
  rw [if_pos hfull, run_bind, run_tooDeep]

theorem run_leave (levels : Nat) :
    (leave levels).run (.over final ts previous m (depth + levels)) =
      (.ok (), .over final ts previous m depth) := by
  have hdepth : depth + levels - levels = depth := Nat.add_sub_cancel ..
  change (Except.ok (), Parser.over final ts previous m (depth + levels - levels)) = _
  rw [hdepth]

/-- One level deeper: the outcome stays, and the level is given back. -/
theorem run_nested_of_lt (p : Parse α) (h : depth < maxNesting) :
    (nested p).run (.over final ts previous m depth) =
      ((p.run (.over final ts previous m (depth + 1))).1,
        { (p.run (.over final ts previous m (depth + 1))).2 with
          depth := (p.run (.over final ts previous m (depth + 1))).2.depth - 1 }) := by
  rw [nested, run_bind, run_enter_of_lt final ts previous m depth h]
  rfl

theorem run_nested_of_le (p : Parse α) (h : maxNesting ≤ depth) :
    (nested p).run (.over final ts previous m depth) =
      (.error (.tooDeep maxNesting (ts.headD final).span), .over final ts previous m depth) := by
  rw [nested, run_bind, run_enter_of_le final ts previous m depth h]

end Steps

/-! ## Acceptance -/

/-- The parser takes the tokens `ts` and gives `a`, unless it costs more levels of nesting than
are left. -/
def Accepts (p : Parse α) (held cost : Nat) (stop : Token → Prop) (previous : Span) (m : Nat)
    (ts : List Token) (a : α) (n : Nat) : Prop :=
  ∀ (final : Token) (rest : List Token) (depth : Nat), stop (rest.headD final) →
    depth + held ≤ maxNesting →
    (depth + cost ≤ maxNesting →
      p.run (.over final (ts ++ rest) previous m (depth + held)) =
        (.ok a, .over final rest (Token.lastSpan previous ts) n depth))
    ∧ (maxNesting < depth + cost → ∃ span s,
      p.run (.over final (ts ++ rest) previous m (depth + held)) =
        (.error (.tooDeep maxNesting span), s))

namespace Accepts

variable {p : Parse α} {f : α → Parse β} {a : α} {b : β} {held c c' : Nat}
  {stop stop' : Token → Prop} {previous : Span} {k m n : Nat} {ts us : List Token} {t : Token}

theorem mono (h : Accepts p held c stop previous m ts a n) (hstop : ∀ v, stop' v → stop v) :
    Accepts p held c stop' previous m ts a n :=
  fun final rest depth hv => h final rest depth (hstop _ hv)

protected theorem pure (a : α) : Accepts (pure a) 0 0 stop previous m [] a m :=
  fun _ _ _ _ hroom => ⟨fun _ => rfl, fun hdeep => absurd hroom hdeep.not_ge⟩

/-- A sequence that starts with levels held. -/
theorem bind_held (hp : Accepts p 0 c stop' previous k ts a m)
    (hf : Accepts (f a) held c' stop (Token.lastSpan previous ts) m us b n)
    (hstop : ∀ v, stop v → stop' (us.headD v)) :
    Accepts (p >>= f) held (max (held + c) c') stop previous k (ts ++ us) b n := by
  intro final rest depth hv hroom
  have hnext : stop' ((us ++ rest).headD final) := by
    rw [headD_append]
    exact hstop _ hv
  obtain ⟨hok, hdeep⟩ := hp final (us ++ rest) (depth + held) hnext hroom
  obtain ⟨hok', hdeep'⟩ := hf final rest depth hv hroom
  rw [Nat.add_zero] at hok hdeep
  rw [run_bind, List.append_assoc, Token.lastSpan_append]
  by_cases hc : depth + held + c ≤ maxNesting
  · rw [hok hc]
    exact ⟨fun hfits => hok' (by omega), fun hdeep => hdeep' (by omega)⟩
  · obtain ⟨span, s, hs⟩ := hdeep (by omega)
    rw [hs]
    exact ⟨fun hfits => absurd hfits (by omega), fun _ => ⟨span, s, rfl⟩⟩

/-- A sequence. -/
protected theorem bind (hp : Accepts p 0 c stop' previous k ts a m)
    (hf : Accepts (f a) 0 c' stop (Token.lastSpan previous ts) m us b n)
    (hstop : ∀ v, stop v → stop' (us.headD v)) :
    Accepts (p >>= f) 0 (max c c') stop previous k (ts ++ us) b n := by
  have h := hp.bind_held hf hstop
  rwa [Nat.zero_add] at h

/-- A sequence whose second part costs nothing. -/
theorem bind_free (hp : Accepts p 0 c stop' previous k ts a m)
    (hf : Accepts (f a) 0 0 stop (Token.lastSpan previous ts) m us b n)
    (hstop : ∀ v, stop v → stop' (us.headD v)) :
    Accepts (p >>= f) 0 c stop previous k (ts ++ us) b n := by
  have h := hp.bind hf hstop
  rwa [Nat.max_zero] at h

/-- A sequence whose second part takes no token and costs nothing. -/
theorem bind_last (hp : Accepts p 0 c stop previous k ts a m)
    (hf : Accepts (f a) 0 0 stop (Token.lastSpan previous ts) m [] b n) :
    Accepts (p >>= f) 0 c stop previous k ts b n := by
  have h := hp.bind_free hf fun _ hv => hv
  rwa [List.append_nil] at h

/-! ## Looking and taking -/

/-- A first step that gives a value and leaves a parser with the same levels taken. -/
theorem of_run {us : List Token} {previous' : Span} {k : Nat}
    (hp : ∀ final rest depth, stop (rest.headD final) → ∃ a,
      p.run (.over final (ts ++ rest) previous m depth) =
        (.ok a, .over final (us ++ rest) previous' k depth)
      ∧ Accepts (f a) held c stop previous' k us b n)
    (hlast : Token.lastSpan previous' us = Token.lastSpan previous ts) :
    Accepts (p >>= f) held c stop previous m ts b n := by
  intro final rest depth hv hroom
  obtain ⟨a, hrun, hf⟩ := hp final rest (depth + held) hv
  rw [run_bind, hrun, ← hlast]
  exact hf final rest depth hv hroom

theorem current_bind {f : Token → Parse β}
    (h : ∀ v, stop v → Accepts (f (ts.headD v)) held c stop previous m ts b n) :
    Accepts (current >>= f) held c stop previous m ts b n := by
  refine of_run (fun final rest depth hv => ⟨ts.headD (rest.headD final), ?_, h _ hv⟩) rfl
  rw [run_current, headD_append]

theorem kind_bind {f : Token.Kind → Parse β}
    (h : ∀ v, stop v → Accepts (f (ts.headD v).kind) held c stop previous m ts b n) :
    Accepts (kind >>= f) held c stop previous m ts b n := by
  refine of_run (fun final rest depth hv => ⟨(ts.headD (rest.headD final)).kind, ?_, h _ hv⟩) rfl
  rw [run_kind, headD_append]

theorem nextKind_bind {f : Token.Kind → Parse β}
    (h : ∀ v, stop v → Accepts (f (ts.headD v).kind) held c stop previous m (t :: ts) b n) :
    Accepts (nextKind >>= f) held c stop previous m (t :: ts) b n := by
  refine of_run (fun final rest depth hv => ⟨(ts.headD (rest.headD final)).kind, ?_, h _ hv⟩) rfl
  rw [List.cons_append, run_nextKind, headD_append]

theorem advance_bind {f : Token → Parse β} (h : Accepts (f t) held c stop t.span m ts b n) :
    Accepts (advance >>= f) held c stop previous m (t :: ts) b n :=
  of_run (fun _ _ _ _ => ⟨t, run_advance .., h⟩) rfl

theorem expect_bind {f : Token → Parse β} {k : Token.Kind} (hk : t.kind = k)
    (h : Accepts (f t) held c stop t.span m ts b n) :
    Accepts (expect k >>= f) held c stop previous m (t :: ts) b n :=
  of_run (fun _ _ _ _ => ⟨t, run_expect _ _ _ _ _ hk, h⟩) rfl

/-- The span of what has been taken since the token `t`. -/
theorem finish_bind {f : Span → Parse β} (hlast : previous = Token.lastSpan t.span ts)
    (h : Accepts (f (Token.cover (t :: ts))) held c stop previous m us b n) :
    Accepts (finish t.span >>= f) held c stop previous m us b n := by
  refine of_run (fun final rest depth _ => ⟨Token.cover (t :: ts), ?_, h⟩) rfl
  rw [Token.cover_eq_through_lastSpan, ← hlast]
  rfl

theorem freshId_bind {f : ProcedureId → Parse β}
    (h : Accepts (f ⟨m⟩) held c stop previous (m + 1) us b n) :
    Accepts (freshId >>= f) held c stop previous m us b n :=
  of_run (fun _ _ _ _ => ⟨⟨m⟩, rfl, h⟩) rfl

/-! ## Nesting -/

theorem nested (h : Accepts p 0 c stop previous m ts a n) :
    Accepts (Parse.nested p) 0 (c + 1) stop previous m ts a n := by
  intro final rest depth hv hroom
  simp only [Nat.add_zero] at hroom ⊢
  by_cases hlevel : depth < maxNesting
  · obtain ⟨hok, hdeep⟩ := h final rest (depth + 1) hv hlevel
    rw [run_nested_of_lt _ _ _ _ _ _ hlevel]
    constructor
    · intro hfits
      rw [hok (by omega)]
      rfl
    · intro hdeeper
      obtain ⟨span, s, hs⟩ := hdeep (by omega)
      rw [Nat.add_zero] at hs
      rw [hs]
      exact ⟨span, _, rfl⟩
  · rw [run_nested_of_le _ _ _ _ _ _ (Nat.le_of_not_lt hlevel)]
    exact ⟨fun hfits => absurd hfits (by omega), fun _ => ⟨_, _, rfl⟩⟩

/-- Taking a level that is given back later. -/
theorem enter_bind {f : Unit → Parse β} (hc : held + 1 ≤ c)
    (h : Accepts (f ()) (held + 1) c stop previous m ts b n) :
    Accepts (enter >>= f) held c stop previous m ts b n := by
  intro final rest depth hv hroom
  rw [run_bind]
  by_cases hlevel : depth + held < maxNesting
  · rw [run_enter_of_lt _ _ _ _ _ hlevel]
    exact h final rest depth hv hlevel
  · rw [run_enter_of_le _ _ _ _ _ (Nat.le_of_not_lt hlevel)]
    exact ⟨fun hfits => absurd hfits (by omega), fun _ => ⟨_, _, rfl⟩⟩

/-- Giving back all levels that were taken. -/
theorem leave_bind (a : α) :
    Accepts (leave held >>= fun _ => pure a) held 0 stop previous m [] a m := by
  intro final rest depth hv hroom
  rw [run_bind, List.nil_append, run_leave]
  exact ⟨fun _ => rfl, fun hdeep => absurd hdeep (by omega)⟩

end Accepts

end Parse

end Imperative
