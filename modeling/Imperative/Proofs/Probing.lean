import Imperative.Proofs.Acceptance
import Imperative.Proofs.Writing
import Mathlib

/-!
# How far a parser has come

What a parser has taken off the front of its tokens when it succeeds, and when it stops at a token
that it cannot take.  `Parse.Probes t p p' L` follows the parser `p` from the current token `t` on.
`L` is the language of what `p` reads, and it may depend on the kind of the token behind.

* If `p` succeeds, what it has taken is a word of `L`.
* If `p` stops at an unexpected token, then what it has taken is the front of a word of `L`, whose
  other tokens can be written down; and the token is the next one.
* Both times the parser has looked at nothing behind the next token.  Whatever is put there, the
  outcome is the same, also for the parser `p'`: that is `p` with a larger budget.

Nothing is said about nests that are too deep and integers that are too large.

The facts follow the sequence of steps, and all come from one: what a parser foresees of the tokens
behind those that it takes first, it foresees of all of them (`Foresees.prepend`).  In a sequence,
the second part reads what completes the words of the first one (`Probes.bind`).  A step that looks
at something reads nothing (`Probes.look_bind`), and a step that takes the current token reads it
(`Probes.taken`).  Only looking at the token behind the current one would spoil this, but the
current one is always taken next, and so it comes to the same as taking it first
(`Consumes.nextKind_bind`).
-/

namespace Imperative

/-- The token can be written down. -/
def Token.Written (t : Token) : Prop :=
  t.kind.Writes t.lexeme.toList

namespace Parse

variable {α β γ : Type}

/-! ## Languages of tokens -/

/-- Some word of the language can be written down. -/
def Opens (L : Token.Kind → Language Token) : Prop :=
  ∃ k, ∃ us ∈ L k, ∀ t ∈ us, t.Written

/-- The tokens go on to a word of the language, with tokens that can be written down. -/
def Completes (L : Token.Kind → Language Token) (us : List Token) : Prop :=
  ∃ k cont, us ++ cont ∈ L k ∧ ∀ t ∈ cont, t.Written

/-- The single tokens of some kinds. -/
def wordOf (kinds : Token.Kind → Prop) : Language Token :=
  {ts | ∃ t, kinds t.kind ∧ ts = [t]}

/-- The single tokens of one kind. -/
def word (k : Token.Kind) : Language Token :=
  wordOf (· = k)

theorem Opens.completes {L : Token.Kind → Language Token} (h : Opens L) : Completes L [] := by
  obtain ⟨k, us, mem, written⟩ := h
  exact ⟨k, us, mem, written⟩

theorem Opens.mono {L L' : Token.Kind → Language Token} (h : Opens L) (hL : ∀ k, L k ≤ L' k) :
    Opens L' := by
  obtain ⟨k, us, mem, written⟩ := h
  exact ⟨k, us, hL k mem, written⟩

theorem opens_of_nil_mem {L : Token.Kind → Language Token} {k : Token.Kind} (h : [] ∈ L k) :
    Opens L :=
  ⟨k, [], h, by simp⟩

theorem opens_word {k : Token.Kind} {text : List Char} (writes : k.Writes text) :
    Opens fun _ => word k := by
  refine ⟨k, [⟨k, String.ofList text, {}⟩], ⟨_, rfl, rfl⟩, List.forall_mem_singleton.mpr ?_⟩
  rw [Token.Written, String.toList_ofList]
  exact writes

/-- Punctuation marks and keywords can be written down. -/
theorem opens_mark (k : Token.Kind) (hk : k.text?.isSome = true) : Opens fun _ => word k := by
  obtain ⟨text, htext⟩ := Option.isSome_iff_exists.mp hk
  have writes : k.Writes text.toList := .fixed (by rw [htext, String.ofList_toList])
  exact opens_word writes

/-- Names can be written down. -/
theorem opens_name : Opens fun _ => word .identifier := by
  have writes : Token.Kind.Writes .identifier ['x'] := .identifier rfl (by simp) (by decide)
  exact opens_word writes

/-! ## Probes -/

/-- What a run of a parser has to do with the tokens `ws` ahead of it, and with the runs of `p'` on
other tokens. -/
def Foresees (p' : Parse α) (L : Token.Kind → Language Token) (final : Token) (ws : List Token)
    (previous : Span) (m depth : Nat) : Except ParseError α × Parser → Prop
  | (.ok a, s) => ∃ us vs previous' m' depth',
      ws = us ++ vs ∧ s = .over final vs previous' m' depth' ∧ us ∈ L (vs.headD final).kind ∧
      ∀ final' vs', vs'.headD final' = vs.headD final →
        p'.run (.over final' (us ++ vs') previous m depth) =
          (.ok a, .over final' vs' previous' m' depth')
  | (.error (.unexpected x t), s) => ∃ us vs,
      ws = us ++ vs ∧ s.items = vs.map .ok ∧ t = vs.headD final ∧ Completes L us ∧
      ∀ final' vs', vs'.headD final' = t →
        ∃ s, p'.run (.over final' (us ++ vs') previous m depth) = (.error (.unexpected x t), s)
  | (.error _, _) => True

/-- What holds of the tokens `ws` holds of `us ++ ws`, for a parser that takes `us` first. -/
theorem Foresees.prepend {p' q' : Parse α} {L L' : Token.Kind → Language Token} {final : Token}
    {ws : List Token} {previous previous₁ : Span} {m m₁ depth depth₁ : Nat}
    {r : Except ParseError α × Parser} (h : Foresees q' L final ws previous₁ m₁ depth₁ r)
    (us : List Token) (hL : ∀ k, ∀ vs ∈ L k, us ++ vs ∈ L' k)
    (hrun : ∀ final' ws', ws'.headD final' = ws.headD final →
      p'.run (.over final' (us ++ ws') previous m depth) =
        q'.run (.over final' ws' previous₁ m₁ depth₁)) :
    Foresees p' L' final (us ++ ws) previous m depth r := by
  -- the tokens that replace those behind still start with the same one
  have again : ∀ final' us' vs vs', ws = us' ++ vs → vs'.headD final' = vs.headD final →
      p'.run (.over final' (us ++ us' ++ vs') previous m depth) =
        q'.run (.over final' (us' ++ vs') previous₁ m₁ depth₁) := by
    intro final' us' vs vs' split same
    rw [List.append_assoc, hrun]
    rw [split, headD_append, headD_append, same]
  rcases r with ⟨(_ | ⟨x, t⟩ | _ | _) | a, s⟩
  · trivial
  · obtain ⟨us', vs, split, left, found, ⟨k, cont, mem, written⟩, runs⟩ := h
    refine ⟨us ++ us', vs, by rw [split, List.append_assoc], left, found,
      ⟨k, cont, ?_, written⟩, ?_⟩
    · rw [List.append_assoc]
      exact hL k _ mem
    · intro final' vs' same
      rw [again final' us' vs vs' split (same.trans found)]
      exact runs final' vs' same
  · trivial
  · trivial
  · obtain ⟨us', vs, previous', m', depth', split, state, mem, runs⟩ := h
    refine ⟨us ++ us', vs, previous', m', depth', by rw [split, List.append_assoc], state,
      hL _ _ mem, fun final' vs' same => ?_⟩
    rw [again final' us' vs vs' split same]
    exact runs final' vs' same

/-- The parser `p`, with `t` as the current token, reads words of `L` or stops inside one, and so
does `p'` on all tokens that begin in the same way. -/
structure Probes (t : Token) (p p' : Parse α) (L : Token.Kind → Language Token) : Prop where
  opens : Opens L
  foresees : ∀ final ws previous m depth, final.kind = .endOfInput → ws.headD final = t →
    Foresees p' L final ws previous m depth (p.run (.over final ws previous m depth))

namespace Probes

variable {t : Token} {p p' : Parse α} {f g : α → Parse β} {L L' : Token.Kind → Language Token}

theorem mono (h : Probes t p p' L) (hL : ∀ k, L k ≤ L' k) : Probes t p p' L' := by
  refine ⟨h.opens.mono hL, fun final ws previous m depth hend ht => ?_⟩
  exact (h.foresees final ws previous m depth hend ht).prepend [] hL fun _ _ _ => rfl

/-! ### Ends -/

theorem result (a : α) (h : [] ∈ L t.kind) : Probes t (pure a) (pure a) L := by
  refine ⟨opens_of_nil_mem h, fun final ws previous m depth _ ht => ?_⟩
  exact ⟨[], ws, previous, m, depth, rfl, rfl, ht ▸ h, fun _ _ _ => rfl⟩

/-- The parser gives up at the current token. -/
theorem refuse (h : Opens L) (x : Expectation) :
    Probes t (unexpected x t : Parse α) (unexpected x t) L := by
  refine ⟨h, fun final ws previous m depth _ ht => ?_⟩
  exact ⟨[], ws, rfl, rfl, ht.symm, h.completes, fun _ _ _ => ⟨_, rfl⟩⟩

/-- The budget is used up. -/
theorem spent (h : Opens L) : Probes t tooDeep p' L := by
  refine ⟨h, fun final ws previous m depth _ _ => ?_⟩
  rw [run_tooDeep]
  trivial

/-! ### Sequences -/

/-- A sequence.  Behind a word of the first part, the second one reads what completes it. -/
protected theorem bind [Inhabited α] {L₁ : Token.Kind → Language Token} (hp : Probes t p p' L₁)
    (hf : ∀ a u, ∀ us ∈ L₁ u.kind, Probes u (f a) (g a) fun k => {vs | us ++ vs ∈ L k}) :
    Probes t (p >>= f) (p' >>= g) L := by
  -- every word of the first part goes on with a word of the second
  have further : ∀ us, Completes L₁ us → Completes L us := by
    rintro us ⟨k, cont, mem, written⟩
    obtain ⟨k', cont', mem', written'⟩ := (hf default ⟨k, "", {}⟩ _ mem).opens
    refine ⟨k', cont ++ cont', ?_, List.forall_mem_append.mpr ⟨written, written'⟩⟩
    rw [← List.append_assoc]
    exact mem'
  have opens : Opens L := by
    obtain ⟨k, cont, mem, written⟩ := further [] hp.opens.completes
    exact ⟨k, cont, mem, written⟩
  refine ⟨opens, fun final ws previous m depth hend ht => ?_⟩
  have seen := hp.foresees final ws previous m depth hend ht
  rw [run_bind]
  generalize p.run _ = r at seen ⊢
  rcases r with ⟨(_ | ⟨x, u⟩ | _ | _) | a, s⟩
  · trivial
  · obtain ⟨us, vs, split, left, found, completes, runs⟩ := seen
    refine ⟨us, vs, split, left, found, further us completes, fun final' vs' same => ?_⟩
    obtain ⟨s, hs⟩ := runs final' vs' same
    exact ⟨s, by rw [run_bind, hs]⟩
  · trivial
  · trivial
  obtain ⟨us, vs, previous', m', depth', rfl, rfl, mem, runs⟩ := seen
  have seen' := (hf a (vs.headD final) us mem).foresees final vs previous' m' depth' hend rfl
  refine seen'.prepend us (fun _ _ mem' => mem') fun final' ws' same => ?_
  rw [run_bind, runs final' ws' same]

/-- A sequence whose second part reads nothing. -/
theorem bind_last [Inhabited α] (hp : Probes t p p' L)
    (hf : ∀ a u, Probes u (f a) (g a) fun k => {us | us = [] ∧ k = u.kind}) :
    Probes t (p >>= f) (p' >>= g) L := by
  refine hp.bind fun a u us mem => (hf a u).mono fun k => ?_
  rintro _ ⟨rfl, rfl⟩
  simpa using mem

/-- The end of a sequence, in front of a token of a known kind. -/
theorem last (a : α) : Probes t (pure a) (pure a) fun k => {us | us = [] ∧ k = t.kind} :=
  result a ⟨rfl, rfl⟩

/-! ### Looking -/

/-- A step that takes no token, and gives what it finds in the parser. -/
theorem look_bind {x : Parse γ} {f g : γ → Parse β} (value : Token → Span → Nat → γ)
    (count level : Nat → Nat)
    (hx : ∀ final ws previous m depth, x.run (.over final ws previous m depth) =
      (.ok (value (ws.headD final) previous m), .over final ws previous (count m) (level depth)))
    (h : ∀ previous m, Probes t (f (value t previous m)) (g (value t previous m)) L) :
    Probes t (x >>= f) (x >>= g) L := by
  refine ⟨(h {} 0).opens, fun final ws previous m depth hend ht => ?_⟩
  have seen := (h previous m).foresees final ws previous (count m) (level depth) hend ht
  rw [run_bind, hx, ht]
  refine seen.prepend [] (fun _ _ mem => mem) fun final' ws' same => ?_
  rw [List.nil_append, run_bind, hx, same, ht]

theorem current_bind {f g : Token → Parse β} (h : Probes t (f t) (g t) L) :
    Probes t (current >>= f) (current >>= g) L :=
  look_bind (fun u _ _ => u) id id run_current fun _ _ => h

theorem kind_bind {f g : Token.Kind → Parse β} (h : Probes t (f t.kind) (g t.kind) L) :
    Probes t (kind >>= f) (kind >>= g) L :=
  look_bind (fun u _ _ => u.kind) id id run_kind fun _ _ => h

theorem start_bind {f g : Span → Parse β} (h : Probes t (f t.span) (g t.span) L) :
    Probes t (start >>= f) (start >>= g) L := by
  refine look_bind (fun u _ _ => u.span) id id (fun final ws previous m depth => ?_) fun _ _ => h
  rw [start, run_bind, run_current]
  rfl

theorem finish_bind {first : Span} {f g : Span → Parse β}
    (h : ∀ span, Probes t (f span) (g span) L) :
    Probes t (finish first >>= f) (finish first >>= g) L :=
  look_bind (fun _ previous _ => first.through previous) id id (fun _ _ _ _ _ => rfl)
    fun _ _ => h _

theorem freshId_bind {f g : ProcedureId → Parse β} (h : ∀ id, Probes t (f id) (g id) L) :
    Probes t (freshId >>= f) (freshId >>= g) L :=
  look_bind (fun _ _ m => ⟨m⟩) (· + 1) id (fun _ _ _ _ _ => rfl) fun _ _ => h _

theorem leave_bind {levels : Nat} {f g : Unit → Parse β} (h : Probes t (f ()) (g ()) L) :
    Probes t (leave levels >>= f) (leave levels >>= g) L :=
  look_bind (fun _ _ _ => ()) id (· - levels) (fun _ _ _ _ _ => rfl) fun _ _ => h

/-! ### Levels of nesting -/

/-- One level deeper: nothing is said if there is none left. -/
theorem nested (h : Probes t p p' L) : Probes t (Parse.nested p) (Parse.nested p') L := by
  refine ⟨h.opens, fun final ws previous m depth hend ht => ?_⟩
  by_cases room : depth < maxNesting
  · have seen := h.foresees final ws previous m (depth + 1) hend ht
    rw [run_nested_of_lt _ _ _ _ _ _ room]
    generalize p.run _ = r at seen ⊢
    rcases r with ⟨(_ | ⟨e, u⟩ | _ | _) | a, s⟩
    · trivial
    · obtain ⟨us, vs, split, left, found, completes, runs⟩ := seen
      refine ⟨us, vs, split, left, found, completes, fun final' vs' same => ?_⟩
      obtain ⟨s, hs⟩ := runs final' vs' same
      rw [run_nested_of_lt _ _ _ _ _ _ room, hs]
      exact ⟨_, rfl⟩
    · trivial
    · trivial
    · obtain ⟨us, vs, previous', m', depth', split, rfl, mem, runs⟩ := seen
      refine ⟨us, vs, previous', m', depth' - 1, split, rfl, mem, fun final' vs' same => ?_⟩
      rw [run_nested_of_lt _ _ _ _ _ _ room, runs final' vs' same]
      rfl
  · rw [run_nested_of_le _ _ _ _ _ _ (Nat.le_of_not_lt room)]
    trivial

theorem enter_bind {f g : Unit → Parse β} (h : Probes t (f ()) (g ()) L) :
    Probes t (enter >>= f) (enter >>= g) L := by
  refine ⟨h.opens, fun final ws previous m depth hend ht => ?_⟩
  by_cases room : depth < maxNesting
  · have seen := h.foresees final ws previous m (depth + 1) hend ht
    rw [run_bind, run_enter_of_lt _ _ _ _ _ room]
    refine seen.prepend [] (fun _ _ mem => mem) fun final' ws' _ => ?_
    rw [List.nil_append, run_bind, run_enter_of_lt _ _ _ _ _ room]
  · rw [run_bind, run_enter_of_le _ _ _ _ _ (Nat.le_of_not_lt room)]
    trivial

end Probes

/-! ## Taking tokens -/

/-- With the token `t` ahead, `p` takes it and goes on as `q`. -/
def Consumes (t : Token) (p q : Parse α) : Prop :=
  ∀ final ws previous m depth,
    p.run (.over final (t :: ws) previous m depth) = q.run (.over final ws t.span m depth)

namespace Consumes

variable {t : Token} {p q : Parse α}

theorem advance : Consumes t advance (pure t) :=
  fun final ws previous m depth => run_advance final ws previous m depth t

theorem expect {k : Token.Kind} (h : t.kind = k) : Consumes t (Parse.expect k) (pure t) :=
  fun final ws previous m depth => run_expect final ws previous m depth h

protected theorem bind {f : α → Parse β} (h : Consumes t p q) : Consumes t (p >>= f) (q >>= f) := by
  intro final ws previous m depth
  rw [run_bind, run_bind, h]

theorem ite {c : Prop} [Decidable c] {p' q' : Parse α} (h : Consumes t p q)
    (h' : Consumes t p' q') : Consumes t (if c then p else p') (if c then q else q') := by
  split
  · exact h
  · exact h'

/-- Looking behind a token that is taken anyway is looking at the next one once it is. -/
theorem nextKind_bind {f f' : Token.Kind → Parse β} (h : ∀ k, Consumes t (f k) (f' k)) :
    Consumes t (nextKind >>= f) (kind >>= f') := by
  intro final ws previous m depth
  rw [run_bind, run_bind, run_nextKind, run_kind]
  exact h _ final ws previous m depth

end Consumes

namespace Probes

variable {t : Token} {p p' q q' : Parse α} {L : Token.Kind → Language Token}

/-- A parser that takes the current token reads that token, and what it reads behind it. -/
theorem taken (ht : t.kind ≠ .endOfInput) (hp : Consumes t p q) (hp' : Consumes t p' q')
    (h : ∀ u, Probes u q q' fun k => {us | t :: us ∈ L k}) (opens : Opens L) : Probes t p p' L := by
  refine ⟨opens, fun final ws previous m depth hend hhead => ?_⟩
  cases ws with
  | nil => exact absurd (hhead ▸ hend) ht
  | cons w ws =>
    obtain rfl : w = t := hhead
    have seen := (h (ws.headD final)).foresees final ws w.span m depth hend rfl
    rw [hp]
    exact seen.prepend [w] (fun _ _ mem => mem) fun final' ws' _ => hp' final' ws' previous m depth

/-- Taking the current token. -/
theorem advance_bind {f g : Token → Parse β} (ht : t.kind ≠ .endOfInput) (opens : Opens L)
    (h : ∀ u, Probes u (f t) (g t) fun k => {us | t :: us ∈ L k}) :
    Probes t (advance >>= f) (advance >>= g) L :=
  taken ht Consumes.advance.bind Consumes.advance.bind (by simpa only [pure_bind] using h) opens

/-- An integer that is too large ends everything, and nothing is said about that. -/
theorem abandon (ht : t.kind ≠ .endOfInput) (hp : Consumes t p q) (opens : Opens L)
    (hq : ∀ s, ∃ u s', q.run s = (.error (.integerTooLarge u), s')) : Probes t p p' L := by
  refine ⟨opens, fun final ws previous m depth hend hhead => ?_⟩
  cases ws with
  | nil => exact absurd (hhead ▸ hend) ht
  | cons w ws =>
    obtain rfl : w = t := hhead
    obtain ⟨u, s', hs⟩ := hq (.over final ws w.span m depth)
    rw [hp, hs]
    trivial

/-- Asking for a token of a kind. -/
theorem expect {k : Token.Kind} (hk : k ≠ .endOfInput) (opens : Opens fun _ => word k) :
    Probes t (Parse.expect k) (Parse.expect k) fun _ => word k := by
  refine current_bind ?_
  by_cases h : t.kind = k
  · rw [if_pos h]
    exact taken (h ▸ hk) .advance .advance (fun u => result t ⟨t, h, rfl⟩) opens
  · rw [if_neg h]
    exact refuse opens _

/-- Asking for a token of a kind, and what comes behind it. -/
theorem expect_bind {f g : Token → Parse β} {k : Token.Kind} (hk : k ≠ .endOfInput)
    (opens : Opens fun _ => word k)
    (h : ∀ a w, w.kind = k → ∀ u, Probes u (f a) (g a) fun k' => {us | w :: us ∈ L k'}) :
    Probes t (Parse.expect k >>= f) (Parse.expect k >>= g) L := by
  refine (expect hk opens).bind fun a u => ?_
  rintro _ ⟨w, hw, rfl⟩
  exact h a w hw u

/-- Asking for a punctuation mark or a keyword. -/
theorem mark_bind {f g : Token → Parse β} (k : Token.Kind) (hk : k.text?.isSome = true)
    (h : ∀ a w, w.kind = k → ∀ u, Probes u (f a) (g a) fun k' => {us | w :: us ∈ L k'}) :
    Probes t (Parse.expect k >>= f) (Parse.expect k >>= g) L := by
  refine expect_bind ?_ (opens_mark k hk) h
  rintro rfl
  cases hk

/-- Asking for a name. -/
theorem name_bind {f g : Token → Parse β}
    (h : ∀ a w, w.kind = .identifier → ∀ u, Probes u (f a) (g a) fun k => {us | w :: us ∈ L k}) :
    Probes t (Parse.expect .identifier >>= f) (Parse.expect .identifier >>= g) L :=
  expect_bind nofun opens_name h

/-- Taking a punctuation mark or a keyword that is known to be there. -/
theorem advance_mark_bind {f g : Token → Parse β} {k : Token.Kind} (ht : t.kind = k)
    (hk : k.text?.isSome = true)
    (h : ∀ w, w.kind = k → ∀ u, Probes u (f w) (g w) fun k' => {us | w :: us ∈ L k'}) :
    Probes t (advance >>= f) (advance >>= g) L := by
  have opens : Opens L := by
    obtain ⟨_, _, ⟨w, hw, rfl⟩, written⟩ := opens_mark k hk
    obtain ⟨k', us, mem, written'⟩ := (h w hw default).opens
    exact ⟨k', [w] ++ us, mem, List.forall_mem_append.mpr ⟨written, written'⟩⟩
  refine advance_bind ?_ opens (h t ht)
  rintro hend
  rw [← ht, hend] at hk
  cases hk

end Probes

end Parse

end Imperative
