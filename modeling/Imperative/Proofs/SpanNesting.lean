import Imperative.Proofs.ParserSoundness
import Imperative.Proofs.Tiling
import Mathlib

/-!
# Spans nest

Every node of a tree has a span, and there are many ways in which it comes to one: from the first
token of a stretch to the last one, from operand to operand, a token of its own, or nothing at all
in front of a token.  Parentheses and semicolons are read without leaving a node.  Here it is shown
that the spans nest in spite of that, and that they follow one another as the nodes do.

* `Node`: a statement, an expression or a parameter, with its children in the order of the text.
* `Span.Among s ts`: the span begins where a token of the stretch begins, and ends where one begins
  or ends.
* `Laid ts ns`: the nodes stand one behind the other among the tokens, and so do, inside each of
  them, its children.  Stretches in a row lay out the nodes of both (`Laid.append`), and tokens that
  leave no node do no harm (`Laid.skip`, `Laid.skipAll`).
* `StmtDerivation.laid`: a derivation lays out the nodes of its trees.
* `Module.spans_nest`: what the spans of a parsed module are.
-/

namespace Imperative

/-! ## Nodes -/

/-- A node of a tree. -/
inductive Node where
  | stmt (s : Stmt)
  | expr (e : Expr)
  | param (p : Param)

namespace Node

/-- The span of a node. -/
def span : Node → Span
  | stmt s => s.span
  | expr e => e.span
  | param p => p.span

/-- The children of a node, in the order in which the text has them. -/
def children : Node → List Node
  | stmt (.compound body _) => body.map stmt
  | stmt (.assign _ value _) => [expr value]
  | stmt (.call _ args _ _) => args.map expr
  | stmt (.conditional test body otherwise _) => expr test :: stmt body :: otherwise.toList.map stmt
  | stmt (.whileLoop test body _) => [expr test, stmt body]
  | stmt (.doWhile test body _) => [stmt body, expr test]
  | stmt (.forLoop init test step body _) => [stmt init, expr test, stmt step, stmt body]
  | stmt (.giveBack value _) => [expr value]
  | stmt (.procedure _ _ params _ body _) => params.map param ++ body.map stmt
  | stmt (.declaration ..) | stmt (.breakLoop _) | stmt (.continueLoop _) | stmt (.pass _) => []
  | expr (.unary _ operand _) => [expr operand]
  | expr (.binary _ lhs rhs _) => [expr lhs, expr rhs]
  | expr (.call _ args _ _) => args.map expr
  | expr (.number ..) | expr (.var ..) => []
  | param _ => []

/-- One node ends before another one starts. -/
def Before (n n' : Node) : Prop :=
  n.span.stop ≤ n'.span.start

end Node

/-- The node is a statement of the module or, at any depth, a part of one. -/
def Module.HasNode (m : Module) (n : Node) : Prop :=
  ∃ s ∈ m.body, Relation.ReflTransGen (fun parent child => child ∈ parent.children) (.stmt s) n

/-! ## Spans among tokens -/

/-- The span begins where a token begins, and ends where a token begins or ends. -/
structure Span.Among (s : Span) (ts : List Token) : Prop where
  starts : ∃ t ∈ ts, s.start = t.span.start ∧ s.line = t.span.line ∧ s.column = t.span.column
  stops : ∃ t ∈ ts, s.stop = t.span.start ∨ s.stop = t.span.stop
  le : s.start ≤ s.stop

/-- One span lies in another one. -/
def Span.Within (s outer : Span) : Prop :=
  outer.start ≤ s.start ∧ s.stop ≤ outer.stop

/-- The tokens stand one behind the other. -/
structure Token.InOrder (ts : List Token) : Prop where
  pairwise : ts.Pairwise fun t u => t.span.stop ≤ u.span.start
  le : ∀ t ∈ ts, t.span.start ≤ t.span.stop

theorem Token.InOrder.sublist {ts us : List Token} (h : Token.InOrder us) (hs : ts.Sublist us) :
    Token.InOrder ts :=
  ⟨h.pairwise.sublist hs, fun t ht => h.le t (hs.subset ht)⟩

/-- Every token ends before the last one does. -/
theorem Token.InOrder.stop_le_last {ts : List Token} {t last : Token} (h : Token.InOrder ts)
    (hlast : ts.getLast? = some last) (ht : t ∈ ts) : t.span.stop ≤ last.span.stop := by
  obtain ⟨init, rfl⟩ := List.getLast?_eq_some_iff.mp hlast
  rcases List.mem_append.mp ht with ht | ht
  · have apart := (List.pairwise_append.mp h.pairwise).2.2
    have lastLe := h.le last (List.mem_append_right _ (List.mem_singleton_self last))
    exact (apart t ht last (List.mem_singleton_self last)).trans lastLe
  · rw [List.mem_singleton.mp ht]

namespace Span

variable {s s' : Span} {t : Token} {ts us : List Token}

theorem Among.mono (h : s.Among ts) (hs : ts ⊆ us) : s.Among us := by
  obtain ⟨⟨t, ht, hstart⟩, ⟨u, hu, hstop⟩, le⟩ := h
  exact ⟨⟨t, hs ht, hstart⟩, ⟨u, hs hu, hstop⟩, le⟩

/-- The span of a token of the stretch. -/
theorem among_of_mem (ht : t ∈ ts) (le : t.span.start ≤ t.span.stop) : t.span.Among ts :=
  ⟨⟨t, ht, rfl, rfl, rfl⟩, ⟨t, ht, .inr rfl⟩, le⟩

/-- The empty span in front of a token of the stretch. -/
theorem collapse_among (ht : t ∈ ts) : t.span.collapse.Among ts :=
  ⟨⟨t, ht, rfl, rfl, rfl⟩, ⟨t, ht, .inl rfl⟩, le_rfl⟩

theorem Among.through (h : s.Among ts) (h' : s'.Among ts) : (s.through s').Among ts := by
  refine ⟨h.starts, ?_, h.le.trans (le_max_right _ _)⟩
  show ∃ t ∈ ts, max s'.stop s.stop = t.span.start ∨ max s'.stop s.stop = t.span.stop
  rcases max_choice s'.stop s.stop with further | further
  · rw [further]
    exact h'.stops
  · rw [further]
    exact h.stops

theorem Among.stop_le {b : Nat} (h : s.Among ts) (order : Token.InOrder ts)
    (hb : ∀ t ∈ ts, t.span.stop ≤ b) : s.stop ≤ b := by
  obtain ⟨t, ht, hstop | hstop⟩ := h.stops
  · exact hstop ▸ (order.le t ht).trans (hb t ht)
  · exact hstop ▸ hb t ht

theorem Among.le_start {b : Nat} (h : s.Among ts) (hb : ∀ t ∈ ts, b ≤ t.span.start) :
    b ≤ s.start := by
  obtain ⟨t, ht, hstart, -⟩ := h.starts
  exact hstart ▸ hb t ht

/-- What is among earlier tokens ends before what is among later ones starts. -/
theorem Among.before (h : s.Among ts) (h' : s'.Among us) (order : Token.InOrder (ts ++ us)) :
    s.stop ≤ s'.start := by
  have apart := (List.pairwise_append.mp order.pairwise).2.2
  refine h'.le_start fun u hu => ?_
  refine h.stop_le (order.sublist (List.sublist_append_left _ _)) fun t ht => ?_
  exact apart t ht u hu

theorem cover_among (order : Token.InOrder ts) (nonempty : ts ≠ []) :
    (Token.cover ts).Among ts := by
  cases ts with
  | nil => contradiction
  | cons t ts =>
    have first : t.span.Among (t :: ts) :=
      among_of_mem List.mem_cons_self (order.le t List.mem_cons_self)
    have last : ts.getLast?.getD t ∈ t :: ts := by
      cases h : ts.getLast? with
      | none => exact List.mem_cons_self
      | some u => exact List.mem_cons_of_mem _ (List.mem_of_getLast? h)
    exact first.through (among_of_mem last (order.le _ last))

/-- What is among the tokens lies between the first one of them and the last. -/
theorem Among.within_cover (h : s.Among ts) (order : Token.InOrder ts) :
    s.Within (Token.cover ts) := by
  cases ts with
  | nil => simpa using h.starts
  | cons t ts =>
    obtain ⟨later, -⟩ := List.pairwise_cons.mp order.pairwise
    have firstLe := order.le t List.mem_cons_self
    refine ⟨h.le_start fun u hu => ?_, h.stop_le order fun u hu => ?_⟩
    · show t.span.start ≤ u.span.start
      rcases List.mem_cons.mp hu with rfl | hu
      · exact le_rfl
      · exact firstLe.trans (later u hu)
    · show u.span.stop ≤ max (ts.getLast?.getD t).span.stop t.span.stop
      rcases List.mem_cons.mp hu with rfl | hu
      · exact le_max_right _ _
      · have inside := order.sublist (List.sublist_cons_self t ts)
        have nonempty := List.getLast?_isSome.mpr (List.ne_nil_of_mem hu)
        obtain ⟨last, hlast⟩ := Option.isSome_iff_exists.mp nonempty
        rw [hlast]
        exact le_max_of_le_left (inside.stop_le_last hlast hu)

/-- A span that joins two others, of which the second stands behind the first. -/
theorem within_through (le : s.start ≤ s.stop) (apart : s.stop ≤ s'.start) :
    s.Within (s.through s') ∧ s'.Within (s.through s') :=
  ⟨⟨le_rfl, le_max_right _ _⟩, le.trans apart, le_max_left _ _⟩

end Span

/-! ## Nodes among tokens -/

/-- The node, and every node inside it, has its span among the tokens; the children of each lie in
it and stand one behind the other. -/
inductive Node.Settled (ts : List Token) : Node → Prop
  | mk {n : Node} (among : n.span.Among ts) (parts : ∀ c ∈ n.children, Settled ts c)
      (within : ∀ c ∈ n.children, c.span.Within n.span) (apart : n.children.Pairwise Before) :
      Settled ts n

/-- If the tokens are in order, then the nodes stand one behind the other among them, and so do,
inside each node, its children. -/
def Laid (ts : List Token) (ns : List Node) : Prop :=
  Token.InOrder ts → (∀ n ∈ ns, n.Settled ts) ∧ ns.Pairwise Node.Before

namespace Node.Settled

variable {ts us : List Token} {n n' : Node}

theorem among (h : n.Settled ts) : n.span.Among ts := by
  obtain ⟨among, -⟩ := h
  exact among

theorem mono (hs : ts ⊆ us) (h : n.Settled ts) : n.Settled us := by
  induction h with
  | mk among parts within apart ih => exact .mk (among.mono hs) ih within apart

/-- What is inside a settled node is settled. -/
theorem descend (h : n.Settled ts)
    (path : Relation.ReflTransGen (fun parent child => child ∈ parent.children) n n') :
    n'.Settled ts := by
  induction path with
  | refl => exact h
  | tail path step ih =>
    obtain ⟨-, parts, -⟩ := ih
    exact parts _ step

end Node.Settled

namespace Laid

variable {t : Token} {ts us : List Token} {n n' : Node} {ns ms : List Node}

theorem nil : Laid ts [] :=
  fun _ => ⟨by simp, .nil⟩

/-- Two stretches in a row. -/
theorem append (h : Laid ts ns) (h' : Laid us ms) : Laid (ts ++ us) (ns ++ ms) := by
  intro order
  obtain ⟨settled, apart⟩ := h (order.sublist (List.sublist_append_left _ _))
  obtain ⟨settled', apart'⟩ := h' (order.sublist (List.sublist_append_right _ _))
  constructor
  · intro n hn
    rcases List.mem_append.mp hn with hn | hn
    · exact (settled n hn).mono (List.subset_append_left _ _)
    · exact (settled' n hn).mono (List.subset_append_right _ _)
  · refine List.pairwise_append.mpr ⟨apart, apart', fun n hn n' hn' => ?_⟩
    exact (settled n hn).among.before (settled' n' hn').among order

/-- Tokens in front that leave no node. -/
theorem skipAll (ts : List Token) (h : Laid us ns) : Laid (ts ++ us) ns :=
  nil.append h

/-- A token in front that leaves no node. -/
theorem skip (t : Token) (h : Laid ts ns) : Laid (t :: ts) ns :=
  h.skipAll [t]

/-- Tokens behind that leave no node. -/
theorem leave (us : List Token) (h : Laid ts ns) : Laid (ts ++ us) ns := by
  have none : Laid us [] := nil
  simpa using h.append none

/-- A node whose span holds those of its children. -/
theorem parent (h : Laid ts n.children)
    (holds : Token.InOrder ts → (∀ c ∈ n.children, c.Settled ts) → n.children.Pairwise Node.Before →
      n.span.Among ts ∧ ∀ c ∈ n.children, c.span.Within n.span) :
    Laid ts [n] := by
  intro order
  obtain ⟨settled, apart⟩ := h order
  obtain ⟨among, within⟩ := holds order settled apart
  have whole : n.Settled ts := .mk among settled within apart
  exact ⟨List.forall_mem_singleton.mpr whole, List.pairwise_singleton _ _⟩

/-- A node that covers the whole stretch in which its children stand. -/
theorem covered (h : Laid ts n.children) (nonempty : ts ≠ []) (span : n.span = Token.cover ts) :
    Laid ts [n] := by
  refine h.parent fun order settled _ => ?_
  rw [span]
  exact ⟨Span.cover_among order nonempty, fun c hc => (settled c hc).among.within_cover order⟩

/-- A node without children. -/
theorem leaf (hn : n.children = []) (among : Token.InOrder ts → n.span.Among ts) : Laid ts [n] := by
  refine parent (hn ▸ nil) fun order _ _ => ⟨among order, ?_⟩
  simp [hn]

/-- A node that joins the spans of its two children. -/
theorem joined {lhs rhs : Node} (h : Laid ts [lhs, rhs]) (hn : n.children = [lhs, rhs])
    (span : n.span = lhs.span.through rhs.span) : Laid ts [n] := by
  refine parent (hn ▸ h) fun order settled apart => ?_
  rw [hn, List.forall_mem_cons, List.forall_mem_singleton] at settled
  rw [hn, List.pairwise_pair] at apart
  rw [hn, span, List.forall_mem_cons, List.forall_mem_singleton]
  have among := settled.1.among
  exact ⟨among.through settled.2.among, Span.within_through among.le apart⟩

/-- A node that goes from a token to the end of its only child. -/
theorem led {child : Node} (h : Laid ts [child]) (hn : n.children = [child])
    (span : n.span = t.span.through child.span) : Laid (t :: ts) [n] := by
  refine parent (hn ▸ h.skip t) fun order _ _ => ?_
  have le := order.le t List.mem_cons_self
  have settled := (h (order.sublist (List.sublist_cons_self t ts))).1
  rw [List.forall_mem_singleton] at settled
  have first : t.span.Among [t] := Span.among_of_mem (List.mem_singleton_self t) le
  have apart := first.before settled.among order
  rw [hn, span, List.forall_mem_singleton]
  constructor
  · have among := settled.among.mono (List.subset_cons_self t ts)
    exact (Span.among_of_mem List.mem_cons_self le).through among
  · exact (Span.within_through le apart).2

end Laid

/-! ## Derivations lay out their trees -/

namespace Grammar

open Node

variable {ts : List Token}

theorem ExprDerivation.laid {p : ExprPhrase} (d : ExprDerivation p ts) :
    Laid ts (p.trees.map .expr) := by
  induction d with
  | @number t _ _ _ | @name t _ =>
    have mem := List.mem_singleton_self t
    exact .leaf rfl fun order => Span.among_of_mem mem (order.le t mem)
  | sign word operand ih => exact ih.led rfl rfl
  | @group l r _ _ _ _ _ ih => exact (ih.leave [r]).skip l
  | invoke call ih => exact ih.covered (by cases call <;> simp) rfl
  | product left word right ih ih' | sum left word right ih ih' =>
    exact (ih.append (ih'.skip _)).joined rfl rfl
  | factor only ih | term only ih => exact ih
  | callNone => exact .nil
  | @callSome f l r _ _ _ _ _ _ _ _ _ ih ih' => exact (((ih.append ih').leave [r]).skip l).skip f
  | moreNone => exact .nil
  | moreSome comma next rest ih ih' => exact (ih.append ih').skip _

/-- The token that stops a simple statement belongs to the stretch, since a statement without
tokens has its place in front of it. -/
theorem SimpleDerivation.laid {stop : Token} {s : Stmt} (d : SimpleDerivation stop s ts) :
    Laid (ts ++ [stop]) [.stmt s] := by
  cases d with
  | call call =>
    have args := call.laid
    exact Laid.leave [stop] (args.covered (by cases call <;> simp) rfl)
  | @assign x q _ _ _ _ value =>
    have inner := (value.laid.skip q).skip x
    exact Laid.leave [stop] (inner.covered (by simp) rfl)
  | declaration word name => exact Laid.leave [stop] (Laid.nil.covered (by simp) rfl)
  | empty => exact .leaf rfl fun _ => Span.collapse_among (List.mem_singleton_self stop)

theorem ParamDerivation.laid {p : Param} (d : ParamDerivation p ts) : Laid ts [.param p] := by
  cases d with
  | mk word name => exact Laid.nil.covered (by simp) rfl

theorem MoreParamsDerivation.laid {ps : List Param} (d : MoreParamsDerivation ps ts) :
    Laid ts (ps.map .param) := by
  induction d with
  | none => exact .nil
  | some comma next rest ih => exact (next.laid.append ih).skip _

theorem ParamsDerivation.laid {ps : List Param} (d : ParamsDerivation ps ts) :
    Laid ts (ps.map .param) := by
  cases d with
  | none => exact .nil
  | some first rest => exact first.laid.append rest.laid

theorem StmtDerivation.laid {m n : Nat} {q : StmtPhrase} (d : StmtDerivation m q ts n) :
    Laid ts (q.trees.map .stmt) := by
  induction d with
  | @compound _ _ l r _ _ _ _ _ ih =>
    have inner := (ih.leave [r]).skip l
    exact inner.covered (by simp) rfl
  | @procedure _ _ d f l r b c _ _ _ ts _ _ _ _ _ _ formals _ _ _ _ ih =>
    have body := ((ih.leave [c]).skip b).skip r
    have inner := (((formals.laid.append body).skip l).skip f).skipAll ts |>.skip d
    exact inner.covered (by simp) rfl
  | simple inner stop => exact inner.laid
  | @giveBack _ w q _ ts _ value _ =>
    have inner := value.laid.skip w
    exact Laid.leave [q] (inner.covered (List.cons_ne_nil w ts) rfl)
  | @breakLoop _ w q _ _ | @continueLoop _ w q _ _ =>
    exact Laid.leave [q] (Laid.nil.covered (List.cons_ne_nil w []) rfl)
  | @ifThen _ _ w l r _ _ _ _ _ _ condition _ _ ih
  | @whileLoop _ _ w l r _ _ _ _ _ _ condition _ _ ih =>
    have inner := ((condition.laid.append (ih.skip r)).skip l).skip w
    exact inner.covered (by simp) rfl
  | @ifElse _ _ _ w l r x _ _ _ _ _ _ _ _ condition _ _ _ _ _ ih ih' =>
    have branches := (ih.append (ih'.skip x)).skip r
    have inner := ((condition.laid.append branches).skip l).skip w
    exact inner.covered (by simp) rfl
  | @doWhile _ _ d w l r q _ _ _ _ _ _ _ _ condition _ _ ih =>
    have test := ((condition.laid.leave [r, q]).skip l).skip w
    have inner := (ih.append test).skip d
    exact inner.covered (by simp) rfl
  | @forLoop _ _ w l q q' r _ _ _ _ _ _ _ _ _ _ first _ condition _ next _ _ ih =>
    have round := next.laid.append ih
    have inner := ((first.laid.append (condition.laid.append (round.skip q'))).skip l).skip w
    simp only [List.append_assoc, List.singleton_append] at inner
    exact inner.covered (by simp) rfl
  | blockCompound only ih | blockStatement only ih | itemCompound only ih | itemProcedure only ih
  | itemStatement only ih => exact ih
  | nil => exact .nil
  | cons first rest ih ih' => exact ih.append ih'

end Grammar

/-! ## Texts -/

section Text

variable {text : String} {tokens : List Token}

theorem Token.inOrder_of_lex (h : lex text = .ok tokens) : Token.InOrder tokens := by
  have tiles := tiles_of_lex_eq_ok h
  refine ⟨List.pairwise_map.mp tiles.ordered, fun t ht => ?_⟩
  obtain ⟨_, _, _, _, covers⟩ := tiles.liesIn (List.mem_map_of_mem ht)
  exact covers.start_le_stop

/-- What is among the tokens of a text lies in the text. -/
theorem Span.Among.liesIn {s : Span} (h : lex text = .ok tokens) (hs : s.Among tokens) :
    s.LiesIn text.toList := by
  have tiles := tiles_of_lex_eq_ok h
  have lies : ∀ t ∈ tokens, t.span.LiesIn text.toList := fun t ht =>
    tiles.liesIn (List.mem_map_of_mem ht)
  obtain ⟨⟨t, ht, hstart, hline, hcolumn⟩, ⟨u, hu, hstop⟩, le⟩ := hs
  -- from the start of the one token to where the other one starts or ends
  have joined : ∀ other : Span, s.stop = other.stop → s = t.span.collapse.through other := by
    intro other hother
    obtain ⟨start, stop, line, column⟩ := s
    simp only [Span.through, Span.collapse] at *
    subst hstart hline hcolumn hother
    rw [max_eq_left le]
  rcases hstop with hstop | hstop
  · rw [joined u.span.collapse hstop]
    exact (lies t ht).collapse.through (lies u hu).collapse
  · rw [joined u.span hstop]
    exact (lies t ht).collapse.through (lies u hu)

theorem Span.LiesIn.stop_le {s : Span} (h : s.LiesIn text.toList) : s.stop ≤ text.utf8ByteSize := by
  obtain ⟨before, inside, behind, split, covers⟩ := h
  have whole : text = String.ofList (before ++ inside) ++ String.ofList behind := by
    rw [← String.ofList_append, ← split, String.ofList_toList]
  rw [whole, covers.stop_eq, String.utf8ByteSize_append]
  exact Nat.le_add_right _ _

end Text

/-- A node of a tree has its place in the text: its span starts where a token starts, and ends, not
before that and not behind the text, where a token starts or ends; its line and column are those of
its start; the spans of its children lie in its own, and each of them ends before the next one
starts. -/
structure Node.Placed (text : String) (tokens : List Token) (n : Node) : Prop where
  start_le_stop : n.span.start ≤ n.span.stop
  stop_le : n.span.stop ≤ text.utf8ByteSize
  starts : ∃ t ∈ tokens, n.span.start = t.span.start
  stops : ∃ t ∈ tokens, n.span.stop = t.span.start ∨ n.span.stop = t.span.stop
  liesIn : n.span.LiesIn text.toList
  within : ∀ c ∈ n.children, n.span.start ≤ c.span.start ∧ c.span.stop ≤ n.span.stop
  ordered : n.children.Pairwise fun c c' => c.span.stop ≤ c'.span.start

/-- **Spans nest and are in order.**  Every node of a parsed module has its place among the tokens
of the text, and the statements of the module follow one another. -/
theorem Module.spans_nest {text : String} {m : Module} (h : Module.parse text = .ok m) :
    ∃ tokens, lex text = .ok tokens ∧ (∀ n, m.HasNode n → n.Placed text tokens) ∧
      m.body.Pairwise fun s s' => s.span.stop ≤ s'.span.start := by
  obtain ⟨tokens, lexed, ⟨d⟩⟩ := Module.exists_derivation_of_parse h
  obtain ⟨settled, apart⟩ := d.statements.laid (Token.inOrder_of_lex lexed)
  refine ⟨tokens, lexed, ?_, List.pairwise_map.mp apart⟩
  rintro n ⟨s, hs, path⟩
  obtain ⟨among, -, within, inner⟩ := (settled _ (List.mem_map_of_mem hs)).descend path
  have lies := among.liesIn lexed
  obtain ⟨t, ht, hstart, -⟩ := among.starts
  exact ⟨among.le, lies.stop_le, ⟨t, ht, hstart⟩, among.stops, lies, within, inner⟩

set_option maxRecDepth 4000 in
/-- A text in which a loop has its test behind an empty body, an operand stands in parentheses, and
two parts of a head are empty. -/
theorem Module.spans_nest_loops :
    ∃ text m, text = "do ; while ((1) + f(2)); for (;1;) x = -(y);" ∧
      Module.parse text = .ok m ∧
      ∃ tokens, lex text = .ok tokens ∧ (∀ n, m.HasNode n → n.Placed text tokens) ∧
        m.body.Pairwise fun s s' => s.span.stop ≤ s'.span.start := by
  have accepted : (Module.parse "do ; while ((1) + f(2)); for (;1;) x = -(y);").isOk = true := by
    cbv
  cases h : Module.parse "do ; while ((1) + f(2)); for (;1;) x = -(y);" with
  | ok m => exact ⟨_, m, rfl, h, Module.spans_nest h⟩
  | error e =>
    rw [h] at accepted
    cases accepted

end Imperative
