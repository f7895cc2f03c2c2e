import Imperative.Proofs.ExpressionSoundness

/-!
# Parsed statements are derived

The continuation of `Proofs.ExpressionSoundness` for statements.  Two things are new.

A derivation of statements counts procedures, and the parser keeps the same count, so the
two indices of the derivation are the counts of the parser before and behind the tokens.

The rule for a conditional with an `else` refuses a body that ends in an open conditional.
The parser does not look at the body for that: it has read the body to its end, and an open
conditional at that end would have taken the `else` itself.  So what a block hands on is
that, if it ends in an open conditional, no `else` comes next (`Parser.NoElse`).
-/

namespace Imperative

open Grammar

/-- The next token is not an `else`. -/
def Parser.NoElse (s : Parser) : Prop :=
  ∀ ⦃t : Token⦄ ⦃rest : List Item⦄, s.items = .ok t :: rest → t.kind ≠ .kwElse

namespace Parse

variable {s s' : Parser}

/-! ## Types and parameters -/

theorem typeWord_of_typeOfKind? {k : Token.Kind} {type : DataType}
    (h : typeOfKind? k = some type) : TypeWord k type := by
  unfold typeOfKind? at h
  split at h <;> cases h
  · exact .int
  · exact .float
  · exact .var

theorem ne_endOfInput_of_typeWord {k : Token.Kind} {type : DataType} (h : TypeWord k type) :
    k ≠ .endOfInput := by
  cases h <;> decide

theorem dataType_ok {type : DataType} (hs : s.Ends) (h : dataType.run s = (.ok type, s')) :
    ∃ w, s.Takes [w] s' ∧ TypeWord w.kind type := by
  obtain ⟨w, s₁, h₁, k₁⟩ := of_bind h
  split at k₁
  · exact (not_unexpected_ok k₁).elim
  · next found hfound =>
    have word := typeWord_of_typeOfKind? hfound
    obtain ⟨rfl, rest, hrest⟩ := current_ok_of_ne h₁ hs (ne_endOfInput_of_typeWord word)
    obtain ⟨_, s₂, h₂, k₂⟩ := of_bind k₁
    obtain ⟨-, taken⟩ := advance_ok h₂ hrest
    cases k₂
    exact ⟨w, taken, word⟩

/-- A type and a name. -/
theorem typed_ok {type : DataType} {x : Token} {s₁ : Parser} (hs : s.Ends)
    (h₁ : dataType.run s = (.ok type, s₁)) (h₂ : (expect .identifier).run s₁ = (.ok x, s')) :
    ∃ w, s.Takes [w, x] s' ∧ TypeWord w.kind type ∧ x.kind = .identifier := by
  obtain ⟨w, takenW, word⟩ := dataType_ok hs h₁
  obtain ⟨hx, takenX⟩ := expect_ok h₂ (takenW.ends hs) (by decide)
  exact ⟨w, takenW.trans takenX, word, hx⟩

theorem parameter_ok {p : Param} (hs : s.Ends) (h : parameter.run s = (.ok p, s')) :
    ∃ ts, s.Takes ts s' ∧ Nonempty (ParamDerivation p ts) := by
  obtain ⟨first, s₁, h₁, k₁⟩ := of_bind h
  obtain ⟨rfl, starts⟩ := start_ok h₁
  obtain ⟨type, s₂, h₂, k₂⟩ := of_bind k₁
  obtain ⟨x, s₃, h₃, k₃⟩ := of_bind k₂
  obtain ⟨span, s₄, h₄, k₄⟩ := of_bind k₃
  obtain ⟨rfl, rfl⟩ := finish_ok h₄
  cases k₄
  obtain ⟨w, taken, word, hx⟩ := typed_ok hs h₂ h₃
  refine ⟨[w, x], taken, ?_⟩
  rw [← starts taken.toReads, taken.through_previous]
  exact ⟨.mk word hx⟩

/-- The parameters behind those already read. -/
theorem parametersAfter_ok {budget : Nat} {read params : List Param} (hs : s.Ends)
    (h : (parametersAfter budget read).run s = (.ok params, s')) :
    ∃ ps ts, params = read.reverse ++ ps ∧ s.Takes ts s' ∧
      Nonempty (MoreParamsDerivation ps ts) := by
  induction budget generalizing s read with
  | zero => exact (tooDeep_ok h).elim
  | succ budget ih =>
    obtain ⟨k, s₁, h₁, k₁⟩ := of_bind h
    obtain ⟨c, hc, rfl⟩ := kind_ok h₁
    split at k₁
    · next comma =>
      obtain ⟨rfl, rest, hrest⟩ := current_ok_of_ne hc hs (by rw [comma]; decide)
      obtain ⟨_, s₂, h₂, k₂⟩ := of_bind k₁
      obtain ⟨-, taken⟩ := advance_ok h₂ hrest
      have hs₂ := taken.ends hs
      obtain ⟨p, s₃, h₃, k₃⟩ := of_bind k₂
      obtain ⟨ts, takenParam, ⟨next⟩⟩ := parameter_ok hs₂ h₃
      obtain ⟨ps, us, rfl, takenRest, ⟨more⟩⟩ := ih (takenParam.ends hs₂) k₃
      refine ⟨p :: ps, c :: (ts ++ us), by simp, ?_, ⟨.some comma next more⟩⟩
      exact taken.trans (takenParam.trans takenRest)
    · obtain ⟨rfl, -⟩ := current_ok hc
      cases k₁
      exact ⟨[], [], by simp, .refl _, ⟨.none⟩⟩

theorem parameters_ok {budget : Nat} {params : List Param} (hs : s.Ends)
    (h : (parameters budget).run s = (.ok params, s')) :
    ∃ ts, s.Takes ts s' ∧ Nonempty (ParamsDerivation params ts) := by
  obtain ⟨k, s₁, h₁, k₁⟩ := of_bind h
  obtain rfl := state_of_kind_ok h₁
  split at k₁
  · cases k₁
    exact ⟨[], .refl _, ⟨.none⟩⟩
  · obtain ⟨p, s₂, h₂, k₂⟩ := of_bind k₁
    obtain ⟨ts, takenFirst, ⟨first⟩⟩ := parameter_ok hs h₂
    obtain ⟨ps, us, rfl, takenRest, ⟨more⟩⟩ := parametersAfter_ok (takenFirst.ends hs) k₂
    exact ⟨ts ++ us, takenFirst.trans takenRest, ⟨.some first more⟩⟩

/-! ## Simple statements -/

/-- A declaration is derived whatever stops it. -/
theorem declaration_ok {first : Token} {rest : List Item} {stmt : Stmt} (hs : s.Ends)
    (hrest : s.items = .ok first :: rest)
    (h : (do
      let type ← dataType
      let name ← expect .identifier
      return .declaration name.lexeme type (← finish first.span) : Parse Stmt).run s =
        (.ok stmt, s')) :
    ∃ ts, s.Takes ts s' ∧ ∀ stop, Nonempty (SimpleDerivation stop stmt ts) := by
  obtain ⟨type, s₁, h₁, k₁⟩ := of_bind h
  obtain ⟨x, s₂, h₂, k₂⟩ := of_bind k₁
  obtain ⟨span, s₃, h₃, k₃⟩ := of_bind k₂
  obtain ⟨rfl, rfl⟩ := finish_ok h₃
  cases k₃
  obtain ⟨w, taken, word, hx⟩ := typed_ok hs h₁ h₂
  obtain rfl := head_eq_of_reads hrest taken.toReads
  refine ⟨[w, x], taken, fun stop => ?_⟩
  rw [taken.through_previous]
  exact ⟨.declaration word hx⟩

/-- A call or an assignment is derived whatever stops it. -/
theorem callOrAssign_ok {budget : Nat} {first : Token} {rest : List Item} {stmt : Stmt}
    (hs : s.Ends) (identifier : first.kind = .identifier)
    (hrest : s.items = .ok first :: rest)
    (h : (do
      if (← nextKind) = .leftParen then
        let (name, args) ← call (expression budget) budget
        return .call name args none (← finish first.span)
      else
        let _ ← advance
        let _ ← expect .equals
        let value ← expression budget
        return .assign first.lexeme value (← finish first.span) : Parse Stmt).run s =
          (.ok stmt, s')) :
    ∃ ts, s.Takes ts s' ∧ ∀ stop, Nonempty (SimpleDerivation stop stmt ts) := by
  obtain ⟨k, s₁, h₁, k₁⟩ := of_bind h
  obtain rfl := state_of_nextKind_ok h₁
  split at k₁
  · obtain ⟨⟨name, args⟩, s₂, h₂, k₂⟩ := of_bind k₁
    obtain ⟨ts, taken, ⟨d⟩⟩ := call_ok (expression_ok budget) hs h₂
    obtain ⟨span, s₃, h₃, k₃⟩ := of_bind k₂
    obtain ⟨rfl, rfl⟩ := finish_ok h₃
    cases k₃
    obtain ⟨f, us, rfl⟩ := exists_cons_of_call d
    obtain rfl := head_eq_of_reads hrest taken.toReads
    refine ⟨f :: us, taken, fun stop => ?_⟩
    rw [taken.through_previous]
    exact ⟨.call d⟩
  · obtain ⟨_, s₂, h₂, k₂⟩ := of_bind k₁
    obtain ⟨-, takenFirst⟩ := advance_ok h₂ hrest
    have hs₂ := takenFirst.ends hs
    obtain ⟨q, s₃, h₃, k₃⟩ := of_bind k₂
    obtain ⟨equals, takenQ⟩ := expect_ok h₃ hs₂ (by decide)
    obtain ⟨value, s₄, h₄, k₄⟩ := of_bind k₃
    obtain ⟨ts, takenValue, ⟨d⟩⟩ := expression_ok budget (takenQ.ends hs₂) h₄
    obtain ⟨span, s₅, h₅, k₅⟩ := of_bind k₄
    obtain ⟨rfl, rfl⟩ := finish_ok h₅
    cases k₅
    have taken : s₁.Takes (first :: q :: ts) s' := takenFirst.trans (takenQ.trans takenValue)
    refine ⟨first :: q :: ts, taken, fun stop => ?_⟩
    rw [taken.through_previous]
    exact ⟨.assign identifier equals d⟩

/-- An empty statement takes no token, and its span comes from the token that stops it. -/
theorem empty_ok {t : Token} {rest : List Item} {stmt : Stmt} (hrest : s.items = .ok t :: rest)
    (h : (return .pass t.span.collapse : Parse Stmt).run s = (.ok stmt, s')) :
    ∃ ts, s.Takes ts s' ∧ ∀ ⦃stop : Token⦄ ⦃rest : List Item⦄,
      s'.items = .ok stop :: rest → Nonempty (SimpleDerivation stop stmt ts) := by
  cases h
  refine ⟨[], .refl _, fun stop rest' hstop => ?_⟩
  rw [hrest] at hstop
  cases hstop
  exact ⟨.empty⟩

/-- A simple statement is derived in front of the token that stops it. -/
theorem simple_ok {budget : Nat} {stmt : Stmt} (hs : s.Ends)
    (h : (simple budget).run s = (.ok stmt, s')) :
    ∃ ts, s.Takes ts s' ∧ ∀ ⦃stop : Token⦄ ⦃rest : List Item⦄,
      s'.items = .ok stop :: rest → Nonempty (SimpleDerivation stop stmt ts) := by
  obtain ⟨t, s₁, h₁, k₁⟩ := of_bind h
  have here : t.kind ≠ .endOfInput → s₁ = s ∧ ∃ rest, s.items = .ok t :: rest :=
    current_ok_of_ne h₁ hs
  have weaken : (∃ ts, s.Takes ts s' ∧ ∀ stop, Nonempty (SimpleDerivation stop stmt ts)) →
      ∃ ts, s.Takes ts s' ∧ ∀ ⦃stop : Token⦄ ⦃rest : List Item⦄,
        s'.items = .ok stop :: rest → Nonempty (SimpleDerivation stop stmt ts) := by
    rintro ⟨ts, taken, d⟩
    exact ⟨ts, taken, fun stop _ _ => d stop⟩
  split at k₁
  · next identifier =>
    obtain ⟨rfl, rest, hrest⟩ := here (by rw [identifier]; decide)
    exact weaken (callOrAssign_ok hs identifier hrest k₁)
  · next int =>
    obtain ⟨rfl, rest, hrest⟩ := here (by rw [int]; decide)
    exact weaken (declaration_ok hs hrest k₁)
  · next float =>
    obtain ⟨rfl, rest, hrest⟩ := here (by rw [float]; decide)
    exact weaken (declaration_ok hs hrest k₁)
  · next var =>
    obtain ⟨rfl, rest, hrest⟩ := here (by rw [var]; decide)
    exact weaken (declaration_ok hs hrest k₁)
  · next semicolon =>
    obtain ⟨rfl, rest, hrest⟩ := here (by rw [semicolon]; decide)
    exact empty_ok hrest k₁
  · next closes =>
    obtain ⟨rfl, rest, hrest⟩ := here (by rw [closes]; decide)
    exact empty_ok hrest k₁
  · exact (not_unexpected_ok k₁).elim

/-! ## Statements

`Forms` and `FormsAll` say of a parser of statements what `Derives` says of one of
expressions, with the counts of procedures as the indices of the derivation. -/

/-- Where `p` succeeds it takes tokens that are derived as the given phrase, and an open
conditional at their end is not followed by an `else`. -/
def Forms (p : Parse Stmt) (phrase : Stmt → StmtPhrase) : Prop :=
  ∀ ⦃s s' : Parser⦄ ⦃stmt : Stmt⦄, s.Ends → p.run s = (.ok stmt, s') →
    ∃ ts, s.Reads ts s' ∧
      Nonempty (StmtDerivation s.procedures (phrase stmt) ts s'.procedures) ∧
      (stmt.endsOpen = true → s'.NoElse)

/-- Where `p` succeeds it takes tokens that are derived as a list of statements. -/
def FormsAll (p : Parse (List Stmt)) : Prop :=
  ∀ ⦃s s' : Parser⦄ ⦃stmts : List Stmt⦄, s.Ends → p.run s = (.ok stmts, s') →
    ∃ ts, s.Reads ts s' ∧
      Nonempty (StmtDerivation s.procedures (.statements stmts) ts s'.procedures)

theorem braced_ok {statements : Parse (List Stmt)} (inner : FormsAll statements)
    {body : List Stmt} (hs : s.Ends)
    (h : (nested (braced statements)).run s = (.ok body, s')) :
    ∃ l ts r, s.Reads (l :: (ts ++ [r])) s' ∧ l.kind = .leftBrace ∧ r.kind = .rightBrace ∧
      Nonempty (StmtDerivation s.procedures (.statements body) ts s'.procedures) := by
  obtain ⟨depth, s₀, depth', h₀, rfl⟩ := nested_ok h
  have hs₀ : ({ s with depth } : Parser).Ends := hs
  obtain ⟨l, s₁, h₁, k₁⟩ := of_bind h₀
  obtain ⟨hl, takenL⟩ := expect_ok h₁ hs₀ (by decide)
  have hs₁ := takenL.ends hs₀
  obtain ⟨body', s₂, h₂, k₂⟩ := of_bind k₁
  obtain ⟨ts, readInner, ⟨d⟩⟩ := inner hs₁ h₂
  obtain ⟨r, s₃, h₃, k₃⟩ := of_bind k₂
  obtain ⟨hr, takenR⟩ := expect_ok h₃ (readInner.ends hs₁) (by decide)
  cases k₃
  have read := takenL.toReads.trans (readInner.trans takenR.toReads)
  have before : s₁.procedures = s.procedures := takenL.procedures
  have behind : s₀.procedures = s₂.procedures := takenR.procedures
  rw [before, ← behind] at d
  exact ⟨l, ts, r, ⟨read.items, read.final, read.previous⟩, hl, hr, ⟨d⟩⟩

theorem compound_ok {statements : Parse (List Stmt)} (inner : FormsAll statements) :
    Forms (compound statements) .compound := by
  intro s s' stmt hs h
  obtain ⟨first, s₁, h₁, k₁⟩ := of_bind h
  obtain ⟨rfl, starts⟩ := start_ok h₁
  obtain ⟨body, s₂, h₂, k₂⟩ := of_bind k₁
  obtain ⟨span, s₃, h₃, k₃⟩ := of_bind k₂
  obtain ⟨rfl, rfl⟩ := finish_ok h₃
  cases k₃
  obtain ⟨l, ts, r, read, hl, hr, ⟨d⟩⟩ := braced_ok inner hs h₂
  refine ⟨l :: (ts ++ [r]), read, ?_, by simp [Stmt.endsOpen]⟩
  rw [← starts read, read.through_previous]
  exact ⟨.compound hl d hr⟩

theorem returnType_ok {returnType : Option DataType} {k : Token.Kind} (hs : s.Ends)
    (h : (if k.isType then some <$> dataType else pure none : Parse (Option DataType)).run s =
      (.ok returnType, s')) :
    ∃ ts, s.Takes ts s' ∧ Nonempty (ReturnTypeDerivation returnType ts) := by
  split at h
  · rw [map_eq_pure_bind] at h
    obtain ⟨type, s₁, h₁, k₁⟩ := of_bind h
    obtain ⟨w, taken, word⟩ := dataType_ok hs h₁
    cases k₁
    exact ⟨[w], taken, ⟨.some word⟩⟩
  · cases h
    exact ⟨[], .refl _, ⟨.none⟩⟩

theorem freshId_ok {id : ProcedureId} (h : freshId.run s = (.ok id, s')) :
    id = ⟨s.procedures⟩ ∧ s' = { s with procedures := s.procedures + 1 } := by
  obtain ⟨p, s₁, h₁, k₁⟩ := of_bind h
  cases h₁
  obtain ⟨_, s₂, h₂, k₂⟩ := of_bind k₁
  cases h₂
  cases k₂
  exact ⟨rfl, rfl⟩

theorem procedure_ok {statements : Parse (List Stmt)} (inner : FormsAll statements)
    (budget : Nat) : Forms (procedure statements budget) .procedure := by
  intro s s' stmt hs h
  obtain ⟨d, s₁, h₁, k₁⟩ := of_bind h
  obtain ⟨hd, takenD⟩ := expect_ok h₁ hs (by decide)
  have hs₁ := takenD.ends hs
  obtain ⟨k, s₂, h₂, k₂⟩ := of_bind k₁
  obtain rfl := state_of_kind_ok h₂
  obtain ⟨returnType, s₃, h₃, k₃⟩ := of_ite_bind k₂
  obtain ⟨ts, takenType, ⟨result⟩⟩ := returnType_ok hs₁ h₃
  have hs₃ := takenType.ends hs₁
  obtain ⟨f, s₄, h₄, k₄⟩ := of_bind k₃
  obtain ⟨hf, takenF⟩ := expect_ok h₄ hs₃ (by decide)
  have hs₄ := takenF.ends hs₃
  obtain ⟨l, s₅, h₅, k₅⟩ := of_bind k₄
  obtain ⟨hl, takenL⟩ := expect_ok h₅ hs₄ (by decide)
  have hs₅ := takenL.ends hs₄
  obtain ⟨params, s₆, h₆, k₆⟩ := of_bind k₅
  obtain ⟨us, takenParams, ⟨formals⟩⟩ := parameters_ok hs₅ h₆
  have hs₆ := takenParams.ends hs₅
  obtain ⟨r, s₇, h₇, k₇⟩ := of_bind k₆
  obtain ⟨hr, takenR⟩ := expect_ok h₇ hs₆ (by decide)
  obtain ⟨body, s₈, h₈, k₈⟩ := of_bind k₇
  obtain ⟨b, vs, c, readBody, hb, hc, ⟨bodyD⟩⟩ := braced_ok inner (takenR.ends hs₆) h₈
  obtain ⟨id, s₉, h₉, k₉⟩ := of_bind k₈
  obtain ⟨rfl, rfl⟩ := freshId_ok h₉
  obtain ⟨span, s₁₀, h₁₀, k₁₀⟩ := of_bind k₉
  obtain ⟨rfl, rfl⟩ := finish_ok h₁₀
  cases k₁₀
  have head : s.Takes (d :: (ts ++ f :: l :: (us ++ [r]))) s₇ :=
    takenD.trans (takenType.trans (takenF.trans (takenL.trans (takenParams.trans takenR))))
  have read : s.Reads (d :: (ts ++ f :: l :: (us ++ r :: b :: (vs ++ [c])))) s₈ := by
    have whole := head.toReads.trans readBody
    simpa using whole
  rw [head.procedures] at bodyD
  refine ⟨_, ⟨read.items, read.final, read.previous⟩, ?_, by simp [Stmt.endsOpen]⟩
  rw [show d.span.through s₈.previous = _ from read.through_previous]
  exact ⟨.procedure hd result hf hl formals hr hb bodyD hc⟩

/-! ## Branches and loops -/

theorem conditional_ok {block : Parse Stmt} (blocks : Forms block .block) (budget : Nat) :
    Forms (conditional block budget) .statement := by
  intro s s' stmt hs h
  obtain ⟨w, s₁, h₁, k₁⟩ := of_bind h
  obtain ⟨hw, takenW⟩ := expect_ok h₁ hs (by decide)
  have hs₁ := takenW.ends hs
  obtain ⟨test, s₂, h₂, k₂⟩ := of_bind k₁
  obtain ⟨l, ts, r, takenTest, hl, hr, ⟨condition⟩⟩ :=
    parenthesised_ok (expression_ok budget) hs₁ h₂
  have hs₂ := takenTest.ends hs₁
  obtain ⟨body, s₃, h₃, k₃⟩ := of_bind k₂
  obtain ⟨us, readBody, ⟨branch⟩, noElse⟩ := blocks hs₂ h₃
  have hs₃ := readBody.ends hs₂
  have head : s.Takes (w :: l :: (ts ++ [r])) s₂ := takenW.trans takenTest
  rw [head.procedures] at branch
  have read : s.Reads (w :: l :: (ts ++ r :: us)) s₃ := by
    simpa using head.toReads.trans readBody
  obtain ⟨k, s₄, h₄, k₄⟩ := of_bind k₃
  obtain ⟨x, hx, rfl⟩ := kind_ok h₄
  dsimp only at k₄
  split at k₄
  · next other =>
    obtain ⟨rfl, rest, hrest⟩ := current_ok_of_ne hx hs₃ (by rw [other]; decide)
    -- the body has not taken this `else`, so it does not end in an open conditional
    have closed : body.endsOpen = false := by
      cases ends : body.endsOpen with
      | false => rfl
      | true => exact absurd other (noElse ends hrest)
    obtain ⟨_, s₅, h₅, k₅⟩ := of_bind k₄
    obtain ⟨-, takenX⟩ := advance_ok h₅ hrest
    have hs₅ := takenX.ends hs₃
    obtain ⟨_, s₆, h₆, k₆⟩ := of_bind k₅
    rw [map_eq_pure_bind] at h₆
    obtain ⟨otherwise, s₇, h₇, k₇⟩ := of_bind h₆
    cases k₇
    obtain ⟨vs, readOther, ⟨alternative⟩, noElse'⟩ := blocks hs₅ h₇
    obtain ⟨span, s₈, h₈, k₈⟩ := of_bind k₆
    obtain ⟨rfl, rfl⟩ := finish_ok h₈
    cases k₈
    have whole : s.Reads (w :: l :: (ts ++ r :: (us ++ x :: vs))) s' := by
      simpa using read.trans (takenX.toReads.trans readOther)
    rw [takenX.procedures] at alternative
    refine ⟨_, whole, ?_, fun ends => noElse' (by simpa [Stmt.endsOpen] using ends)⟩
    rw [whole.through_previous]
    exact ⟨.ifElse hw hl condition hr branch closed other alternative⟩
  · next other =>
    obtain ⟨_, s₅, h₅, k₅⟩ := of_bind k₄
    cases h₅
    obtain ⟨span, s₆, h₆, k₆⟩ := of_bind k₅
    obtain ⟨rfl, rfl⟩ := finish_ok h₆
    cases k₆
    obtain ⟨rfl, current⟩ := current_ok hx
    refine ⟨_, read, ?_, fun _ t rest hrest => ?_⟩
    · rw [read.through_previous]
      exact ⟨.ifThen hw hl condition hr branch⟩
    · -- what was looked at and is no `else` is still the next token
      rcases current with ⟨hnil, -⟩ | ⟨rest', hrest'⟩
      · rw [hnil] at hrest
        cases hrest
      · rw [hrest'] at hrest
        cases hrest
        exact other

theorem whileLoop_ok {block : Parse Stmt} (blocks : Forms block .block) (budget : Nat) :
    Forms (whileLoop block budget) .statement := by
  intro s s' stmt hs h
  obtain ⟨w, s₁, h₁, k₁⟩ := of_bind h
  obtain ⟨hw, takenW⟩ := expect_ok h₁ hs (by decide)
  have hs₁ := takenW.ends hs
  obtain ⟨test, s₂, h₂, k₂⟩ := of_bind k₁
  obtain ⟨l, ts, r, takenTest, hl, hr, ⟨condition⟩⟩ :=
    parenthesised_ok (expression_ok budget) hs₁ h₂
  obtain ⟨body, s₃, h₃, k₃⟩ := of_bind k₂
  obtain ⟨us, readBody, ⟨round⟩, noElse⟩ := blocks (takenTest.ends hs₁) h₃
  obtain ⟨span, s₄, h₄, k₄⟩ := of_bind k₃
  obtain ⟨rfl, rfl⟩ := finish_ok h₄
  cases k₄
  have head : s.Takes (w :: l :: (ts ++ [r])) s₂ := takenW.trans takenTest
  rw [head.procedures] at round
  have read : s.Reads (w :: l :: (ts ++ r :: us)) s' := by
    simpa using head.toReads.trans readBody
  refine ⟨_, read, ?_, fun ends => noElse (by simpa [Stmt.endsOpen] using ends)⟩
  rw [read.through_previous]
  exact ⟨.whileLoop hw hl condition hr round⟩

theorem doWhile_ok {block : Parse Stmt} (blocks : Forms block .block) (budget : Nat) :
    Forms (doWhile block budget) .statement := by
  intro s s' stmt hs h
  obtain ⟨d, s₁, h₁, k₁⟩ := of_bind h
  obtain ⟨hd, takenD⟩ := expect_ok h₁ hs (by decide)
  have hs₁ := takenD.ends hs
  obtain ⟨body, s₂, h₂, k₂⟩ := of_bind k₁
  obtain ⟨us, readBody, ⟨round⟩, -⟩ := blocks hs₁ h₂
  have hs₂ := readBody.ends hs₁
  obtain ⟨w, s₃, h₃, k₃⟩ := of_bind k₂
  obtain ⟨hw, takenW⟩ := expect_ok h₃ hs₂ (by decide)
  have hs₃ := takenW.ends hs₂
  obtain ⟨test, s₄, h₄, k₄⟩ := of_bind k₃
  obtain ⟨l, ts, r, takenTest, hl, hr, ⟨condition⟩⟩ :=
    parenthesised_ok (expression_ok budget) hs₃ h₄
  obtain ⟨q, s₅, h₅, k₅⟩ := of_bind k₄
  obtain ⟨hq, takenQ⟩ := expect_ok h₅ (takenTest.ends hs₃) (by decide)
  obtain ⟨span, s₆, h₆, k₆⟩ := of_bind k₅
  obtain ⟨rfl, rfl⟩ := finish_ok h₆
  cases k₆
  have tail : s₂.Takes (w :: l :: (ts ++ [r, q])) s' := by
    simpa using takenW.trans (takenTest.trans takenQ)
  have read : s.Reads (d :: (us ++ w :: l :: (ts ++ [r, q]))) s' :=
    takenD.toReads.trans (readBody.trans tail.toReads)
  rw [takenD.procedures, ← tail.procedures] at round
  refine ⟨_, read, ?_, by simp [Stmt.endsOpen]⟩
  rw [read.through_previous]
  exact ⟨.doWhile hd round hw hl condition hr hq⟩

/-- A simple statement and the token that stops it. -/
theorem stopped_ok {budget : Nat} {stmt : Stmt} {k : Token.Kind} {q : Token} {s₁ : Parser}
    (hs : s.Ends) (hk : k ≠ .endOfInput) (h₁ : (simple budget).run s = (.ok stmt, s₁))
    (h₂ : (expect k).run s₁ = (.ok q, s')) :
    ∃ ts, s.Takes (ts ++ [q]) s' ∧ q.kind = k ∧ Nonempty (SimpleDerivation q stmt ts) := by
  obtain ⟨ts, taken, d⟩ := simple_ok hs h₁
  obtain ⟨hq, takenQ⟩ := expect_ok h₂ (taken.ends hs) hk
  exact ⟨ts, taken.trans takenQ, hq, d takenQ.items⟩

theorem forLoop_ok {block : Parse Stmt} (blocks : Forms block .block) (budget : Nat) :
    Forms (forLoop block budget) .statement := by
  intro s s' stmt hs h
  obtain ⟨w, s₁, h₁, k₁⟩ := of_bind h
  obtain ⟨hw, takenW⟩ := expect_ok h₁ hs (by decide)
  have hs₁ := takenW.ends hs
  obtain ⟨l, s₂, h₂, k₂⟩ := of_bind k₁
  obtain ⟨hl, takenL⟩ := expect_ok h₂ hs₁ (by decide)
  have hs₂ := takenL.ends hs₁
  obtain ⟨init, s₃, h₃, k₃⟩ := of_bind k₂
  obtain ⟨q, s₄, h₄, k₄⟩ := of_bind k₃
  obtain ⟨ts, takenInit, hq, ⟨first⟩⟩ := stopped_ok hs₂ (by decide) h₃ h₄
  have hs₄ := takenInit.ends hs₂
  obtain ⟨test, s₅, h₅, k₅⟩ := of_bind k₄
  obtain ⟨us, takenTest, ⟨condition⟩⟩ := expression_ok budget hs₄ h₅
  have hs₅ := takenTest.ends hs₄
  obtain ⟨q', s₆, h₆, k₆⟩ := of_bind k₅
  obtain ⟨hq', takenQ'⟩ := expect_ok h₆ hs₅ (by decide)
  have hs₆ := takenQ'.ends hs₅
  obtain ⟨step, s₇, h₇, k₇⟩ := of_bind k₆
  obtain ⟨r, s₈, h₈, k₈⟩ := of_bind k₇
  obtain ⟨vs, takenStep, hr, ⟨next⟩⟩ := stopped_ok hs₆ (by decide) h₇ h₈
  obtain ⟨body, s₉, h₉, k₉⟩ := of_bind k₈
  obtain ⟨ws, readBody, ⟨round⟩, noElse⟩ := blocks (takenStep.ends hs₆) h₉
  obtain ⟨span, s₁₀, h₁₀, k₁₀⟩ := of_bind k₉
  obtain ⟨rfl, rfl⟩ := finish_ok h₁₀
  cases k₁₀
  have head : s.Takes (w :: l :: (ts ++ q :: (us ++ q' :: (vs ++ [r])))) s₈ := by
    simpa using takenW.trans (takenL.trans (takenInit.trans
      (takenTest.trans (takenQ'.trans takenStep))))
  rw [head.procedures] at round
  have read : s.Reads (w :: l :: (ts ++ q :: (us ++ q' :: (vs ++ r :: ws)))) s' := by
    simpa using head.toReads.trans readBody
  refine ⟨_, read, ?_, fun ends => noElse (by simpa [Stmt.endsOpen] using ends)⟩
  rw [read.through_previous]
  exact ⟨.forLoop hw hl first hq condition hq' next hr round⟩

/-! ## The knot -/

/-- A jump and the semicolon behind it. -/
theorem jump_ok {budget : Nat} {t : Token} {rest : List Item} {stmt : Stmt} (hs : s.Ends)
    (hrest : s.items = .ok t :: rest)
    (h : (do
      let stmt ← jump budget
      let _ ← expect .semicolon
      return stmt : Parse Stmt).run s = (.ok stmt, s')) :
    ∃ ts, s.Reads ts s' ∧
      Nonempty (StmtDerivation s.procedures (.statement stmt) ts s'.procedures) ∧
      (stmt.endsOpen = true → s'.NoElse) := by
  obtain ⟨stmt', s₁, h₁, k₁⟩ := of_bind h
  obtain ⟨q, s₂, h₂, k₂⟩ := of_bind k₁
  cases k₂
  obtain ⟨w, s₃, h₃, k₃⟩ := of_bind h₁
  obtain ⟨rfl, takenW⟩ := advance_ok h₃ hrest
  have hs₃ := takenW.ends hs
  split at k₃
  · next hw =>
    obtain ⟨value, s₄, h₄, k₄⟩ := of_bind k₃
    obtain ⟨ts, takenValue, ⟨d⟩⟩ := expression_ok budget hs₃ h₄
    obtain ⟨span, s₅, h₅, k₅⟩ := of_bind k₄
    obtain ⟨rfl, rfl⟩ := finish_ok h₅
    cases k₅
    obtain ⟨hq, takenQ⟩ := expect_ok h₂ (takenValue.ends hs₃) (by decide)
    have head : s.Takes (w :: ts) s₁ := takenW.trans takenValue
    have taken : s.Takes (w :: (ts ++ [q])) s' := head.trans takenQ
    refine ⟨_, taken.toReads, ?_, by simp [Stmt.endsOpen]⟩
    rw [head.through_previous, taken.procedures]
    exact ⟨.giveBack hw d hq⟩
  · next hw =>
    obtain ⟨span, s₄, h₄, k₄⟩ := of_bind k₃
    obtain ⟨rfl, rfl⟩ := finish_ok h₄
    cases k₄
    obtain ⟨hq, takenQ⟩ := expect_ok h₂ hs₃ (by decide)
    have taken : s.Takes [w, q] s' := takenW.trans takenQ
    refine ⟨_, taken.toReads, ?_, by simp [Stmt.endsOpen]⟩
    rw [takenW.through_previous, taken.procedures]
    exact ⟨.breakLoop hw hq⟩
  · next hw =>
    obtain ⟨span, s₄, h₄, k₄⟩ := of_bind k₃
    obtain ⟨rfl, rfl⟩ := finish_ok h₄
    cases k₄
    obtain ⟨hq, takenQ⟩ := expect_ok h₂ hs₃ (by decide)
    have taken : s.Takes [w, q] s' := takenW.trans takenQ
    refine ⟨_, taken.toReads, ?_, by simp [Stmt.endsOpen]⟩
    rw [takenW.through_previous, taken.procedures]
    exact ⟨.continueLoop hw hq⟩
  · exact (not_unexpected_ok k₃).elim

/-- No simple statement ends in a conditional. -/
theorem endsOpen_of_simple {stop : Token} {stmt : Stmt} {ts : List Token}
    (d : SimpleDerivation stop stmt ts) : stmt.endsOpen = false := by
  cases d <;> rfl

/-- A simple statement and the semicolon behind it. -/
theorem simpleStatement_ok {budget : Nat} {stmt : Stmt} (hs : s.Ends)
    (h : (do
      let stmt ← simple budget
      let _ ← expect .semicolon
      return stmt : Parse Stmt).run s = (.ok stmt, s')) :
    ∃ ts, s.Reads ts s' ∧
      Nonempty (StmtDerivation s.procedures (.statement stmt) ts s'.procedures) ∧
      (stmt.endsOpen = true → s'.NoElse) := by
  obtain ⟨stmt', s₁, h₁, k₁⟩ := of_bind h
  obtain ⟨q, s₂, h₂, k₂⟩ := of_bind k₁
  cases k₂
  obtain ⟨ts, taken, hq, ⟨d⟩⟩ := stopped_ok hs (by decide) h₁ h₂
  refine ⟨_, taken.toReads, ?_, by simp [endsOpen_of_simple d]⟩
  rw [taken.procedures]
  exact ⟨.simple d hq⟩

theorem statementOf_ok {block : Parse Stmt} (blocks : Forms block .block) (budget : Nat) :
    Forms (statementOf block budget) .statement := by
  intro s s' stmt hs h
  obtain ⟨t, s₁, h₁, k₁⟩ := of_bind h
  obtain ⟨rfl, -⟩ := current_ok h₁
  have here : t.kind ≠ .endOfInput → ∃ rest, s₁.items = .ok t :: rest :=
    fun ht => (current_ok_of_ne h₁ hs ht).2
  split at k₁
  · exact conditional_ok blocks budget hs k₁
  · exact whileLoop_ok blocks budget hs k₁
  · exact doWhile_ok blocks budget hs k₁
  · exact forLoop_ok blocks budget hs k₁
  · next ht =>
    obtain ⟨rest, hrest⟩ := here (by rw [ht]; decide)
    exact jump_ok hs hrest k₁
  · next ht =>
    obtain ⟨rest, hrest⟩ := here (by rw [ht]; decide)
    exact jump_ok hs hrest k₁
  · next ht =>
    obtain ⟨rest, hrest⟩ := here (by rw [ht]; decide)
    exact jump_ok hs hrest k₁
  · exact simpleStatement_ok hs k₁
  · exact simpleStatement_ok hs k₁
  · exact simpleStatement_ok hs k₁
  · exact simpleStatement_ok hs k₁
  · exact simpleStatement_ok hs k₁
  · exact (not_unexpected_ok k₁).elim

theorem blockOf_ok {statement : Parse Stmt} {statements : Parse (List Stmt)}
    (single : Forms statement .statement) (inner : FormsAll statements) :
    Forms (blockOf statement statements) .block := by
  intro s s' stmt hs h
  obtain ⟨k, s₁, h₁, k₁⟩ := of_bind h
  obtain rfl := state_of_kind_ok h₁
  split at k₁
  · obtain ⟨ts, read, ⟨d⟩, noElse⟩ := compound_ok inner hs k₁
    exact ⟨ts, read, ⟨.blockCompound d⟩, noElse⟩
  · obtain ⟨ts, read, ⟨d⟩, noElse⟩ := single hs k₁
    exact ⟨ts, read, ⟨.blockStatement d⟩, noElse⟩

/-- The statements behind those already read. -/
theorem statementsAfter_ok {statement : Parse Stmt} {statements : Parse (List Stmt)}
    (single : Forms statement .statement) (inner : FormsAll statements)
    {budget : Nat} {read stmts : List Stmt} (hs : s.Ends)
    (h : (statementsAfter statement statements budget read).run s = (.ok stmts, s')) :
    ∃ ss ts, stmts = read.reverse ++ ss ∧ s.Reads ts s' ∧
      Nonempty (StmtDerivation s.procedures (.statements ss) ts s'.procedures) := by
  induction budget generalizing s read with
  | zero => exact (tooDeep_ok h).elim
  | succ budget ih =>
    obtain ⟨k, s₁, h₁, k₁⟩ := of_bind h
    obtain rfl := state_of_kind_ok h₁
    -- one more item, and then the rest by the induction hypothesis
    have extend : ∀ {item : Parse Stmt}, Forms item .item →
        (item >>= fun next => statementsAfter statement statements budget (next :: read)).run s₁
          = (.ok stmts, s') →
        ∃ ss ts, stmts = read.reverse ++ ss ∧ s₁.Reads ts s' ∧
          Nonempty (StmtDerivation s₁.procedures (.statements ss) ts s'.procedures) := by
      intro item items hitem
      obtain ⟨next, s₂, h₂, k₂⟩ := of_bind hitem
      obtain ⟨ts, readItem, ⟨first⟩, -⟩ := items hs h₂
      obtain ⟨ss, us, rfl, readRest, ⟨rest⟩⟩ := ih (readItem.ends hs) k₂
      exact ⟨next :: ss, ts ++ us, by simp, readItem.trans readRest, ⟨.cons first rest⟩⟩
    split at k₁
    · cases k₁
      exact ⟨[], [], by simp, .refl _, ⟨.nil⟩⟩
    · cases k₁
      exact ⟨[], [], by simp, .refl _, ⟨.nil⟩⟩
    · refine extend (fun s s' stmt hs h => ?_) k₁
      obtain ⟨ts, read, ⟨d⟩, noElse⟩ := compound_ok inner hs h
      exact ⟨ts, read, ⟨.itemCompound d⟩, noElse⟩
    · refine extend (fun s s' stmt hs h => ?_) k₁
      obtain ⟨ts, read, ⟨d⟩, noElse⟩ := procedure_ok inner budget hs h
      exact ⟨ts, read, ⟨.itemProcedure d⟩, noElse⟩
    · refine extend (fun s s' stmt hs h => ?_) k₁
      obtain ⟨ts, read, ⟨d⟩, noElse⟩ := single hs h
      exact ⟨ts, read, ⟨.itemStatement d⟩, noElse⟩

/-- **Statements are derived.**  A statement and a list of statements call each other with
one less in the budget, so both facts are proved in one induction on it. -/
theorem statement_ok_and_statements_ok (budget : Nat) :
    Forms (statement budget) .statement ∧ FormsAll (statements budget) := by
  induction budget with
  | zero =>
    refine ⟨fun s s' stmt _ h => ?_, fun s s' stmts _ h => ?_⟩
    · rw [statement] at h
      exact (tooDeep_ok h).elim
    · rw [statements] at h
      exact (tooDeep_ok h).elim
  | succ budget ih =>
    obtain ⟨single, inner⟩ := ih
    refine ⟨fun s s' stmt hs h => ?_, fun s s' stmts hs h => ?_⟩
    · rw [statement] at h
      obtain ⟨depth, s₀, depth', h₀, rfl⟩ := nested_ok h
      obtain ⟨ts, read, d, noElse⟩ :=
        statementOf_ok (blockOf_ok single inner) budget (s := { s with depth }) hs h₀
      exact ⟨ts, ⟨read.items, read.final, read.previous⟩, d, noElse⟩
    · rw [statements] at h
      obtain ⟨ss, ts, rfl, read, d⟩ := statementsAfter_ok single inner hs h
      exact ⟨ts, read, d⟩

/-- A program takes everything up to the end. -/
theorem program_ok {budget : Nat} {m : Module} (hs : s.Ends)
    (tokens : ∀ t, .ok t ∈ s.items → t.kind ≠ .endOfInput)
    (h : (program budget).run s = (.ok m, s')) :
    ∃ ts, s.items = ts.map .ok ∧
      Nonempty (StmtDerivation s.procedures (.statements m.body) ts s'.procedures) := by
  obtain ⟨body, s₁, h₁, k₁⟩ := of_bind h
  obtain ⟨ts, read, d⟩ := (statement_ok_and_statements_ok budget).2 hs h₁
  obtain ⟨t, s₂, h₂, k₂⟩ := of_bind k₁
  obtain ⟨rfl, current⟩ := current_ok h₂
  split at k₂
  · next ends =>
    cases k₂
    rcases current with ⟨hnil, -⟩ | ⟨rest, hrest⟩
    · refine ⟨ts, ?_, d⟩
      rw [read.items, hnil, List.append_nil]
    · -- the end token is not among the items
      exact absurd ends (tokens t (by rw [read.items, hrest]; simp))
  · exact (not_unexpected_ok k₂).elim

end Parse

end Imperative
