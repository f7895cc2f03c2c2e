import Imperative.Proofs.ParserCompleteness
import Imperative.Proofs.Probing
import Imperative.Proofs.StatementSoundness
import Mathlib

/-!
# Errors stand at the first impossible token

Where parsing finds a token unexpected, the tokens in front of it are the front of a program, and
no program goes on with that token.  So an error of syntax is reported neither too early nor too
late.

Every rule is probed (`Parse.Probes`) in the language of the tokens that it derives.  A rule reads
the parts of a derivation one behind the other, so all that is left at its end is to put the parts
together, which is one constructor of the grammar.

* Chains of operators are derived from the right and read from the left.  Their language is closed
  under one more operator and operand on either side, so it is a product with a Kleene star
  (`Parse.chainWords`).
* A statement that ends in an open conditional cannot stand in front of an `else`, so the language
  of statements depends on the kind of the token behind (`Parse.stmtWords`).
-/

namespace Imperative

open Computability Grammar

namespace Parse

/-! ## Words of expressions -/

/-- The stretches of tokens that are derived as phrases of one form. -/
def exprWords {ι : Type} (phrase : ι → ExprPhrase) : Language Token :=
  {ts | ∃ i, Nonempty (ExprDerivation (phrase i) ts)}

/-- What stands behind the name of a call. -/
def callWords : Language Token :=
  {ts | ∀ f : Token, f.kind = .identifier →
    ∃ name args, Nonempty (ExprDerivation (.call name args) (f :: ts))}

/-- Operators of one level, each with an operand behind it. -/
def chainWords (operator? : Token.Kind → Option BinaryOp) (operands : Language Token) :
    Language Token :=
  (wordOf (fun k => (operator? k).isSome) * operands)∗

theorem opens_factor : Opens fun _ => exprWords .factor := by
  refine opens_name.mono fun _ => ?_
  rintro _ ⟨t, ht, rfl⟩
  exact ⟨_, ⟨.name ht⟩⟩

theorem nil_mem_more : [] ∈ exprWords .more :=
  ⟨[], ⟨.moreNone⟩⟩

theorem chainWords_le_term :
    exprWords .factor * chainWords multiplicative? (exprWords .factor) ≤ exprWords .term := by
  refine mul_kstar_le ?_ ?_
  · rintro ts ⟨e, ⟨only⟩⟩
    exact ⟨e, ⟨.factor only⟩⟩
  · rintro _ ⟨ts, ⟨lhs, ⟨left⟩⟩, _, ⟨_, ⟨t, ht, rfl⟩, us, ⟨rhs, ⟨right⟩⟩, rfl⟩, rfl⟩
    obtain ⟨op, hop⟩ := Option.isSome_iff_exists.mp ht
    exact ⟨_, ⟨.product left (productWord_of_multiplicative? hop) right⟩⟩

theorem chainWords_le_expression :
    exprWords .term * chainWords additive? (exprWords .term) ≤ exprWords .expression := by
  refine mul_kstar_le ?_ ?_
  · rintro ts ⟨e, ⟨only⟩⟩
    exact ⟨e, ⟨.term only⟩⟩
  · rintro _ ⟨ts, ⟨lhs, ⟨left⟩⟩, _, ⟨_, ⟨t, ht, rfl⟩, us, ⟨rhs, ⟨right⟩⟩, rfl⟩, rfl⟩
    obtain ⟨op, hop⟩ := Option.isSome_iff_exists.mp ht
    exact ⟨_, ⟨.sum left (sumWord_of_additive? hop) right⟩⟩

/-! ## Rules of expressions -/

section Expressions

variable {operand operand' inner inner' : Parse Expr} {budget budget' : Nat} {t : Token}

theorem chainAfter_probes {operator? : Token.Kind → Option BinaryOp}
    (hend : operator? .endOfInput = none) {operands : Language Token}
    (h : ∀ t, Probes t operand operand' fun _ => operands) (hb : budget ≤ budget') (levels : Nat)
    (lhs : Expr) :
    Probes t (chainAfter operator? operand budget levels lhs)
      (chainAfter operator? operand' budget' levels lhs)
      fun _ => chainWords operator? operands := by
  have ended : [] ∈ chainWords operator? operands := Language.nil_mem_kstar _
  have opens : Opens fun _ => chainWords operator? operands :=
    opens_of_nil_mem (k := .endOfInput) ended
  have grows : wordOf (fun k => (operator? k).isSome) * operands * chainWords operator? operands ≤
      chainWords operator? operands := mul_kstar_le_kstar
  induction budget generalizing budget' levels lhs t with
  | zero => exact .spent opens
  | succ budget ih =>
    obtain ⟨budget', rfl⟩ := Nat.exists_eq_add_of_le' (Nat.le_of_add_left_le hb)
    refine .kind_bind ?_
    cases hop : operator? t.kind with
    | none => exact .leave_bind (.result lhs ended)
    | some op =>
      have ht : t.kind ≠ .endOfInput := by
        intro h
        rw [h, hend] at hop
        cases hop
      have joins : [t] ∈ wordOf fun k => (operator? k).isSome = true :=
        ⟨t, Option.isSome_of_eq_some hop, rfl⟩
      refine .advance_bind ht opens fun u => .enter_bind ((h u).bind fun rhs v us mem => ?_)
      refine (ih (Nat.le_of_succ_le_succ hb) _ _).mono fun _ vs mem' => ?_
      exact grows (Language.append_mem_mul (Language.append_mem_mul joins mem) mem')

theorem chain_probes {operator? : Token.Kind → Option BinaryOp}
    (hend : operator? .endOfInput = none) {operands : Language Token}
    (h : ∀ t, Probes t operand operand' fun _ => operands) (hb : budget ≤ budget') :
    Probes t (chain operator? operand budget) (chain operator? operand' budget')
      fun _ => operands * chainWords operator? operands := by
  refine (h t).bind fun lhs u us mem => ?_
  refine (chainAfter_probes hend h hb 0 lhs).mono fun _ vs mem' => ?_
  exact Language.append_mem_mul mem mem'

theorem expressionOf_probes (h : ∀ t, Probes t operand operand' fun _ => exprWords .factor)
    (hb : budget ≤ budget') :
    Probes t (expressionOf operand budget) (expressionOf operand' budget')
      fun _ => exprWords .expression := by
  have terms : ∀ t, Probes t (chain multiplicative? operand budget)
      (chain multiplicative? operand' budget') fun _ => exprWords .term :=
    fun _ => (chain_probes rfl h hb).mono fun _ => chainWords_le_term
  exact (chain_probes rfl terms hb).mono fun _ => chainWords_le_expression

/-- An expression in parentheses, and what comes behind it. -/
theorem Probes.group_bind {α : Type} {f g : Expr → Parse α} {L : Token.Kind → Language Token}
    (h : ∀ t, Probes t inner inner' fun _ => exprWords .expression)
    (hf : ∀ a l r ts e, l.kind = .leftParen → ExprDerivation (.expression e) ts →
      r.kind = .rightParen → ∀ u, Probes u (f a) (g a) fun k => {us | l :: (ts ++ r :: us) ∈ L k}) :
    Probes t (parenthesised inner >>= f) (parenthesised inner' >>= g) L := by
  simp only [parenthesised, bind_assoc, pure_bind]
  refine .mark_bind .leftParen rfl fun _ l opens u => (h u).bind fun a v => ?_
  rintro ts ⟨e, ⟨within⟩⟩
  exact .mark_bind .rightParen rfl fun _ r closes w => hf a l r ts e opens within closes w

theorem argumentsAfter_probes (h : ∀ t, Probes t inner inner' fun _ => exprWords .expression)
    (hb : budget ≤ budget') (read : List Expr) :
    Probes t (argumentsAfter inner budget read) (argumentsAfter inner' budget' read)
      fun _ => exprWords .more := by
  induction budget generalizing budget' read t with
  | zero => exact .spent (opens_of_nil_mem (k := .endOfInput) nil_mem_more)
  | succ budget ih =>
    obtain ⟨budget', rfl⟩ := Nat.exists_eq_add_of_le' (Nat.le_of_add_left_le hb)
    refine .kind_bind ?_
    by_cases comma : t.kind = .comma
    · rw [if_pos comma, if_pos comma]
      refine .advance_mark_bind comma rfl fun c hc u => (h u).bind fun a v => ?_
      rintro ts ⟨e, ⟨next⟩⟩
      refine (ih (Nat.le_of_succ_le_succ hb) _).mono fun _ => ?_
      rintro us ⟨es, ⟨rest⟩⟩
      exact ⟨e :: es, ⟨.moreSome hc next rest⟩⟩
    · rw [if_neg comma, if_neg comma]
      exact .result _ nil_mem_more

/-- What the parser of a call goes on with behind the name. -/
def callBehind (name : Token) (expression : Parse Expr) (budget : Nat) :
    Parse (String × List Expr) := do
  let _ ← expect .leftParen
  let args ←
    if (← kind) = .rightParen then pure []
    else do
      let first ← expression
      argumentsAfter expression budget [first]
  let _ ← expect .rightParen
  return (name.lexeme, args)

theorem call_consumes (word : t.kind = .identifier) :
    Consumes t (call inner budget) (callBehind t inner budget) := by
  have taken : Consumes t (call inner budget)
      (pure t >>= fun name => callBehind name inner budget) := (Consumes.expect word).bind
  simpa only [pure_bind] using taken

theorem callBehind_probes (h : ∀ t, Probes t inner inner' fun _ => exprWords .expression)
    (hb : budget ≤ budget') (name : Token) :
    Probes t (callBehind name inner budget) (callBehind name inner' budget')
      fun _ => callWords := by
  refine .mark_bind .leftParen rfl fun _ l opens u => .kind_bind ?_
  split
  · refine .mark_bind .rightParen rfl fun _ r closes _ => .result _ fun f callee => ?_
    exact ⟨_, _, ⟨.callNone callee opens closes⟩⟩
  · refine (h u).bind fun a v => ?_
    rintro ts ⟨e, ⟨first⟩⟩
    refine (argumentsAfter_probes h hb [a]).bind fun _ _ => ?_
    rintro us ⟨es, ⟨rest⟩⟩
    refine .mark_bind .rightParen rfl fun _ r closes _ => .result _ fun f callee => ?_
    have whole := ExprDerivation.callSome callee opens first rest closes
    rw [List.append_assoc] at whole
    exact ⟨_, _, ⟨whole⟩⟩

/-- A call if a parenthesis follows the current name, and something else if not. -/
theorem named_probes {α : Type} {f f' : String × List Expr → Parse α} {g g' : Token → Parse α}
    {L : Token.Kind → Language Token} (word : t.kind = .identifier) (opens : Opens L)
    (h : ∀ t, Probes t inner inner' fun _ => exprWords .expression) (hb : budget ≤ budget')
    (hf : ∀ x u, Probes u (f x) (f' x) fun k => {us | us = [] ∧ k = u.kind})
    (hcall : ∀ k, ∀ us ∈ callWords, t :: us ∈ L k)
    (hg : ∀ u, Probes u (g t) (g' t) fun k => {us | t :: us ∈ L k}) :
    Probes t
      (nextKind >>= fun k => if k = .leftParen then call inner budget >>= f else advance >>= g)
      (nextKind >>= fun k => if k = .leftParen then call inner' budget' >>= f' else advance >>= g')
      L := by
  refine .taken (by simp [word])
    (.nextKind_bind fun k => .ite (call_consumes word).bind Consumes.advance.bind)
    (.nextKind_bind fun k => .ite (call_consumes word).bind Consumes.advance.bind)
    (fun u => .kind_bind ?_) opens
  split
  · exact ((callBehind_probes h hb t).bind_last hf).mono hcall
  · simp only [pure_bind]
    exact hg u

/-- Factors, by induction on the smaller budget. -/
theorem factor_probes (hb : budget ≤ budget') :
    Probes t (factor budget) (factor budget') fun _ => exprWords .factor := by
  induction budget generalizing budget' t with
  | zero => exact .spent opens_factor
  | succ budget ih =>
    obtain ⟨budget', rfl⟩ := Nat.exists_eq_add_of_le' (Nat.le_of_add_left_le hb)
    have hb' : budget ≤ budget' := Nat.le_of_succ_le_succ hb
    have inner : ∀ t, Probes t (expressionOf (factor budget) budget)
        (expressionOf (factor budget') budget') fun _ => exprWords .expression :=
      fun _ => expressionOf_probes (fun _ => ih hb') hb'
    refine .nested (.current_bind ?_)
    cases hk : t.kind with
    | plus | minus =>
      obtain ⟨op, word⟩ : ∃ op, SignWord t.kind op := ⟨_, by rw [hk]; constructor⟩
      refine .advance_bind (by simp [hk]) opens_factor fun u => ?_
      refine Probes.mono ((ih hb').bind_last fun _ _ => .last _) fun _ => ?_
      rintro us ⟨e, ⟨operand⟩⟩
      exact ⟨_, ⟨.sign word operand⟩⟩
    | integer =>
      by_cases small : decimalValue t.lexeme.toList < 1 <<< 63
      · simp only [literal, if_pos small, pure_bind]
        have value : (Int64.ofNat (decimalValue t.lexeme.toList)).toInt = t.magnitude := by
          rw [Int64.toInt_ofNat_of_lt small, decimalValue_eq_ofDigits]
          rfl
        refine .advance_bind (by simp [hk]) opens_factor fun u => ?_
        exact .result _ ⟨_, ⟨.number hk value⟩⟩
      · simp only [literal, if_neg small]
        exact .abandon (by simp [hk]) Consumes.advance.bind opens_factor fun s => ⟨t, s, rfl⟩
    | leftParen =>
      have group : Probes t (parenthesised (expressionOf (factor budget) budget) >>= pure)
          (parenthesised (expressionOf (factor budget') budget') >>= pure)
          fun _ => exprWords .factor :=
        .group_bind inner fun _ l r ts e opens within closes _ =>
          .result _ ⟨e, ⟨.group opens within closes⟩⟩
      simpa only [bind_pure] using group
    | identifier =>
      refine named_probes hk opens_factor inner hb' (fun _ _ => .finish_bind fun _ => .last _) ?_
        fun _ => .result _ ⟨_, ⟨.name hk⟩⟩
      intro _ us mem
      obtain ⟨name, args, ⟨called⟩⟩ := mem t hk
      exact ⟨_, ⟨.invoke called⟩⟩
    | _ => exact .refuse opens_factor _

theorem expression_probes (hb : budget ≤ budget') :
    Probes t (expression budget) (expression budget') fun _ => exprWords .expression :=
  expressionOf_probes (fun _ => factor_probes hb) hb

end Expressions

/-! ## Words of statements -/

/-- The stretches of tokens that are derived as statements of one form, in front of a token of the
kind `k`.  A statement that ends in an open conditional does not stand in front of an `else`. -/
def stmtWords (phrase : Stmt → StmtPhrase) (k : Token.Kind) : Language Token :=
  {ts | ∀ m, ∃ s n, (s.endsOpen = true → k ≠ .kwElse) ∧ Nonempty (StmtDerivation m (phrase s) ts n)}

/-- The stretches of tokens that are derived as lists of statements. -/
def listWords : Language Token :=
  {ts | ∀ m, ∃ ss n, Nonempty (StmtDerivation m (.statements ss) ts n)}

/-- Lists of statements in braces. -/
def bracedWords : Language Token :=
  {ts | ∃ l us r, l.kind = .leftBrace ∧ us ∈ listWords ∧ r.kind = .rightBrace ∧
    ts = l :: (us ++ [r])}

/-- Simple statements without what stops them. -/
def simpleWords : Language Token :=
  {ts | ∀ stop, ∃ s, Nonempty (SimpleDerivation stop s ts)}

/-- What is a statement once a semicolon is put behind it. -/
def stoppedWords : Language Token :=
  {ts | ∀ q : Token, q.kind = .semicolon → ∀ k, ts ++ [q] ∈ stmtWords .statement k}

/-- A type. -/
def typeWords : Language Token :=
  wordOf fun k => ∃ type, TypeWord k type

/-- The parameters behind the first one. -/
def moreParamsWords : Language Token :=
  {ts | ∃ ps, Nonempty (MoreParamsDerivation ps ts)}

/-- The parameters of a procedure. -/
def paramsWords : Language Token :=
  {ts | ∃ ps, Nonempty (ParamsDerivation ps ts)}

/-- What is derived as one form and therefore as another. -/
theorem stmtWords_le_of_derives {phrase phrase' : Stmt → StmtPhrase} {k : Token.Kind}
    (h : ∀ {m n : Nat} {s : Stmt} {ts : List Token}, StmtDerivation m (phrase s) ts n →
      StmtDerivation m (phrase' s) ts n) : stmtWords phrase k ≤ stmtWords phrase' k := by
  intro ts mem m
  obtain ⟨s, n, closed, ⟨only⟩⟩ := mem m
  exact ⟨s, n, closed, ⟨h only⟩⟩

theorem nil_mem_moreParams : [] ∈ moreParamsWords :=
  ⟨[], ⟨.none⟩⟩

theorem nil_mem_listWords : [] ∈ listWords :=
  fun m => ⟨[], m, ⟨.nil⟩⟩

theorem nil_mem_simpleWords : [] ∈ simpleWords :=
  fun _ => ⟨_, ⟨.empty⟩⟩

theorem simpleWords_le_stopped : simpleWords ≤ stoppedWords := by
  intro ts mem q stop k m
  obtain ⟨s, ⟨inner⟩⟩ := mem q
  refine ⟨s, m, fun h => ?_, ⟨.simple inner stop⟩⟩
  rw [endsOpen_of_simple inner] at h
  cases h

theorem opens_type : Opens fun _ => typeWords := by
  refine (opens_mark .kwInt rfl).mono fun _ => ?_
  rintro _ ⟨w, hw, rfl⟩
  exact ⟨w, ⟨.integer, hw ▸ .int⟩, rfl⟩

theorem opens_statement : Opens (stmtWords .statement) := by
  refine (opens_mark .semicolon rfl).mono fun k => ?_
  rintro _ ⟨q, stop, rfl⟩
  exact simpleWords_le_stopped nil_mem_simpleWords q stop k

instance : Inhabited Param := ⟨⟨"", default, {}⟩⟩

/-! ## Rules of statements -/

section Statements

variable {inner inner' : Parse Stmt} {inners inners' : Parse (List Stmt)} {budget budget' : Nat}
  {t : Token}

theorem dataType_probes : Probes t dataType dataType fun _ => typeWords := by
  refine .current_bind ?_
  cases h : typeOfKind? t.kind with
  | none => exact .refuse opens_type _
  | some type =>
    have word := typeWord_of_typeOfKind? h
    refine .advance_bind (ne_endOfInput_of_typeWord word) opens_type fun _ => ?_
    exact .result _ ⟨t, ⟨type, word⟩, rfl⟩

theorem parameter_probes :
    Probes t parameter parameter fun _ => {ts | ∃ p, Nonempty (ParamDerivation p ts)} := by
  refine .start_bind (dataType_probes.bind fun _ _ => ?_)
  rintro _ ⟨w, ⟨type, word⟩, rfl⟩
  refine .name_bind fun _ x name _ => .finish_bind fun _ => .result _ ?_
  exact ⟨_, ⟨.mk word name⟩⟩

theorem parametersAfter_probes (hb : budget ≤ budget') (read : List Param) :
    Probes t (parametersAfter budget read) (parametersAfter budget' read)
      fun _ => moreParamsWords := by
  induction budget generalizing budget' read t with
  | zero => exact .spent (opens_of_nil_mem (k := .endOfInput) nil_mem_moreParams)
  | succ budget ih =>
    obtain ⟨budget', rfl⟩ := Nat.exists_eq_add_of_le' (Nat.le_of_add_left_le hb)
    refine .kind_bind ?_
    by_cases comma : t.kind = .comma
    · rw [if_pos comma, if_pos comma]
      refine .advance_mark_bind comma rfl fun c hc u => parameter_probes.bind fun a v => ?_
      rintro ts ⟨p, ⟨next⟩⟩
      refine (ih (Nat.le_of_succ_le_succ hb) _).mono fun _ => ?_
      rintro us ⟨ps, ⟨rest⟩⟩
      exact ⟨p :: ps, ⟨.some hc next rest⟩⟩
    · rw [if_neg comma, if_neg comma]
      exact .result _ nil_mem_moreParams

theorem parameters_probes (hb : budget ≤ budget') :
    Probes t (parameters budget) (parameters budget') fun _ => paramsWords := by
  refine .kind_bind ?_
  split
  · exact .result _ ⟨_, ⟨.none⟩⟩
  · refine parameter_probes.bind fun a _ => ?_
    rintro ts ⟨p, ⟨first⟩⟩
    refine (parametersAfter_probes hb [a]).mono fun _ => ?_
    rintro us ⟨ps, ⟨rest⟩⟩
    exact ⟨p :: ps, ⟨.some first rest⟩⟩

theorem braced_probes (h : ∀ t, Probes t inners inners' fun _ => listWords) :
    Probes t (braced inners) (braced inners') fun _ => bracedWords := by
  refine .mark_bind .leftBrace rfl fun _ l opens u => (h u).bind fun _ v ts within => ?_
  refine .mark_bind .rightBrace rfl fun _ r closes _ => .result _ ?_
  exact ⟨l, ts, r, opens, within, closes, rfl⟩

theorem compound_probes (h : ∀ t, Probes t inners inners' fun _ => listWords) :
    Probes t (compound inners) (compound inners') (stmtWords .compound) := by
  refine .start_bind ((braced_probes h).nested.bind fun _ _ => ?_)
  rintro _ ⟨l, ts, r, opens, within, closes, rfl⟩
  refine .finish_bind fun _ => .result _ fun m => ?_
  obtain ⟨ss, n, ⟨inner⟩⟩ := within m
  rw [List.append_nil]
  refine ⟨_, n, ?_, ⟨.compound opens inner closes⟩⟩
  simp [Stmt.endsOpen]

/-- A simple statement. -/
theorem simple_probes (hb : budget ≤ budget') :
    Probes t (simple budget) (simple budget') fun _ => simpleWords := by
  have opens : Opens fun _ => simpleWords := opens_of_nil_mem (k := .endOfInput) nil_mem_simpleWords
  refine .current_bind ?_
  cases hk : t.kind with
  | identifier =>
    refine named_probes hk opens (fun _ => expression_probes hb) hb
      (fun _ _ => .finish_bind fun _ => .last _) ?_ fun u => ?_
    · intro _ us called stop
      obtain ⟨name, args, ⟨call⟩⟩ := called t hk
      exact ⟨_, ⟨.call call⟩⟩
    · refine .mark_bind .equals rfl fun _ q equals _ => ?_
      refine Probes.mono ((expression_probes hb).bind_last fun _ _ => .finish_bind fun _ =>
        .last _) fun _ => ?_
      rintro ts ⟨e, ⟨value⟩⟩ stop
      exact ⟨_, ⟨.assign hk equals value⟩⟩
  | kwInt | kwFloat | kwVar =>
    refine dataType_probes.bind fun _ _ => ?_
    rintro _ ⟨w, ⟨type, word⟩, rfl⟩
    refine .name_bind fun _ x name _ => .finish_bind fun _ => .result _ fun stop => ?_
    exact ⟨_, ⟨.declaration word name⟩⟩
  | semicolon | rightParen => exact .result _ nil_mem_simpleWords
  | _ => exact .refuse opens _

theorem jump_probes (hb : budget ≤ budget')
    (word : t.kind = .kwReturn ∨ t.kind = .kwBreak ∨ t.kind = .kwContinue) :
    Probes t (jump budget) (jump budget') fun _ => stoppedWords := by
  have opens : Opens fun _ => stoppedWords :=
    opens_of_nil_mem (k := .endOfInput) (simpleWords_le_stopped nil_mem_simpleWords)
  have ht : t.kind ≠ .endOfInput := by
    rcases word with h | h | h <;> simp [h]
  refine .advance_bind ht opens fun u => ?_
  rcases word with hk | hk | hk
  · simp only [hk]
    refine Probes.mono ((expression_probes hb).bind_last fun _ _ => .finish_bind fun _ => .last _)
      fun _ => ?_
    rintro ts ⟨e, ⟨value⟩⟩ q stop k m
    refine ⟨_, m, ?_, ⟨.giveBack hk value stop⟩⟩
    simp [Stmt.endsOpen]
  · simp only [hk]
    refine .finish_bind fun _ => .result _ fun q stop k m => ?_
    refine ⟨_, m, ?_, ⟨.breakLoop hk stop⟩⟩
    simp [Stmt.endsOpen]
  · simp only [hk]
    refine .finish_bind fun _ => .result _ fun q stop k m => ?_
    refine ⟨_, m, ?_, ⟨.continueLoop hk stop⟩⟩
    simp [Stmt.endsOpen]

/-- A statement that a semicolon has to follow. -/
theorem stopped_probes (h : Probes t inner inner' fun _ => stoppedWords) :
    Probes t (do let s ← inner; let _ ← expect .semicolon; return s)
      (do let s ← inner'; let _ ← expect .semicolon; return s) (stmtWords .statement) := by
  refine h.bind fun s _ ts mem => .mark_bind .semicolon rfl fun _ q stop u => .result _ ?_
  exact mem q stop u.kind

/-- What the parser of a procedure goes on with behind the return type. -/
def procedureBehind (first : Token) (returnType : Option DataType) (statements : Parse (List Stmt))
    (budget : Nat) : Parse Stmt := do
  let name ← expect .identifier
  let _ ← expect .leftParen
  let params ← parameters budget
  let _ ← expect .rightParen
  let body ← nested (braced statements)
  let id ← freshId
  return .procedure id name.lexeme params returnType body (← finish first.span)

theorem procedureBehind_probes (h : ∀ t, Probes t inners inners' fun _ => listWords)
    (hb : budget ≤ budget') (first : Token) (returnType : Option DataType) {d : Token}
    (word : d.kind = .kwDef) {type : Option DataType} {ws : List Token}
    (result : ReturnTypeDerivation type ws) :
    Probes t (procedureBehind first returnType inners budget)
      (procedureBehind first returnType inners' budget')
      fun k => {ts | d :: (ws ++ ts) ∈ stmtWords .procedure k} := by
  refine .name_bind fun _ f name _ => .mark_bind .leftParen rfl fun _ l opens _ => ?_
  refine (parameters_probes hb).bind fun _ _ => ?_
  rintro us ⟨ps, ⟨formals⟩⟩
  refine .mark_bind .rightParen rfl fun _ r closes _ => (braced_probes h).nested.bind fun _ _ => ?_
  rintro _ ⟨b, vs, c, begins, within, ends, rfl⟩
  refine .freshId_bind fun _ => .finish_bind fun _ => .result _ fun m => ?_
  obtain ⟨ss, n, ⟨inner⟩⟩ := within m
  rw [List.append_nil]
  refine ⟨_, n + 1, ?_, ⟨.procedure word result name opens formals closes begins inner ends⟩⟩
  simp [Stmt.endsOpen]

theorem procedure_probes (h : ∀ t, Probes t inners inners' fun _ => listWords)
    (hb : budget ≤ budget') :
    Probes t (procedure inners budget) (procedure inners' budget') (stmtWords .procedure) := by
  refine .mark_bind .kwDef rfl fun first d word u => .kind_bind ?_
  split
  · refine Probes.bind (dataType_probes.bind_last fun _ _ => .last _) fun returnType _ => ?_
    rintro _ ⟨w, ⟨type, named⟩, rfl⟩
    exact procedureBehind_probes h hb first returnType word (.some named)
  · exact procedureBehind_probes h hb first none word .none

theorem whileLoop_probes (h : ∀ t, Probes t inner inner' (stmtWords .block))
    (hb : budget ≤ budget') :
    Probes t (whileLoop inner budget) (whileLoop inner' budget') (stmtWords .statement) := by
  refine .mark_bind .kwWhile rfl fun _ w word _ => ?_
  refine .group_bind (fun _ => expression_probes hb) fun _ l r ts e opens condition closes u => ?_
  refine Probes.mono ((h u).bind_last fun _ _ => .finish_bind fun _ => .last _)
    fun k us round m => ?_
  obtain ⟨body, n, closed, ⟨round⟩⟩ := round m
  exact ⟨.whileLoop e body _, n, closed, ⟨.whileLoop word opens condition closes round⟩⟩

theorem doWhile_probes (h : ∀ t, Probes t inner inner' (stmtWords .block))
    (hb : budget ≤ budget') :
    Probes t (doWhile inner budget) (doWhile inner' budget') (stmtWords .statement) := by
  refine .mark_bind .kwDo rfl fun _ d begins u => (h u).bind fun _ _ us round => ?_
  refine .mark_bind .kwWhile rfl fun _ w word _ => ?_
  refine .group_bind (fun _ => expression_probes hb) fun _ l r ts e opens condition closes _ => ?_
  refine .mark_bind .semicolon rfl fun _ q stop _ => .finish_bind fun _ => .result _ fun m => ?_
  obtain ⟨body, n, -, ⟨round⟩⟩ := round m
  refine ⟨_, n, ?_, ⟨.doWhile begins round word opens condition closes stop⟩⟩
  simp [Stmt.endsOpen]

theorem forLoop_probes (h : ∀ t, Probes t inner inner' (stmtWords .block))
    (hb : budget ≤ budget') :
    Probes t (forLoop inner budget) (forLoop inner' budget') (stmtWords .statement) := by
  refine .mark_bind .kwFor rfl fun _ w word _ => .mark_bind .leftParen rfl fun _ l opens _ => ?_
  refine (simple_probes hb).bind fun _ _ ts init => .mark_bind .semicolon rfl fun _ q stop _ => ?_
  refine (expression_probes hb).bind fun _ _ => ?_
  rintro us ⟨e, ⟨condition⟩⟩
  refine .mark_bind .semicolon rfl fun _ q' stop' _ => (simple_probes hb).bind fun _ _ vs step => ?_
  refine .mark_bind .rightParen rfl fun _ r closes u => ?_
  refine Probes.mono ((h u).bind_last fun _ _ => .finish_bind fun _ => .last _)
    fun k ws round m => ?_
  obtain ⟨s, ⟨first⟩⟩ := init q
  obtain ⟨s', ⟨next⟩⟩ := step r
  obtain ⟨body, n, closed, ⟨round⟩⟩ := round m
  exact ⟨.forLoop s e s' body _, n, closed,
    ⟨.forLoop word opens first stop condition stop' next closes round⟩⟩

/-- A conditional.  If an `else` follows its body, then the body is closed, since the language of
the body says so of the token behind. -/
theorem conditional_probes (h : ∀ t, Probes t inner inner' (stmtWords .block))
    (hb : budget ≤ budget') :
    Probes t (conditional inner budget) (conditional inner' budget') (stmtWords .statement) := by
  refine .mark_bind .kwIf rfl fun _ w word _ => ?_
  refine .group_bind (fun _ => expression_probes hb) fun _ l r ts e opens condition closes u => ?_
  refine (h u).bind fun _ v us branch => .kind_bind ?_
  by_cases hv : v.kind = .kwElse
  · rw [if_pos hv, if_pos hv]
    refine .advance_mark_bind hv rfl fun x other u' => ?_
    refine Probes.mono (Probes.bind_last ((h u').bind_last fun _ _ => .last _) fun _ _ =>
      .finish_bind fun _ => .last _) fun k vs alternative m => ?_
    obtain ⟨body, n, closed, ⟨branch⟩⟩ := branch m
    obtain ⟨otherwise, n', closed', ⟨alternative⟩⟩ := alternative n
    have hbody : body.endsOpen = false := by
      by_contra isOpen
      exact closed (by simpa using isOpen) hv
    exact ⟨.conditional e body (some otherwise) _, n', closed',
      ⟨.ifElse word opens condition closes branch hbody other alternative⟩⟩
  · rw [if_neg hv, if_neg hv]
    refine .finish_bind fun _ => .result _ fun m => ?_
    obtain ⟨body, n, -, ⟨branch⟩⟩ := branch m
    rw [List.append_nil]
    exact ⟨.conditional e body none _, n, fun _ => hv,
      ⟨.ifThen word opens condition closes branch⟩⟩

theorem statementOf_probes (h : ∀ t, Probes t inner inner' (stmtWords .block))
    (hb : budget ≤ budget') :
    Probes t (statementOf inner budget) (statementOf inner' budget') (stmtWords .statement) := by
  refine .current_bind ?_
  cases hk : t.kind with
  | kwIf => exact conditional_probes h hb
  | kwWhile => exact whileLoop_probes h hb
  | kwDo => exact doWhile_probes h hb
  | kwFor => exact forLoop_probes h hb
  | kwReturn | kwBreak | kwContinue => exact stopped_probes (jump_probes hb (by simp [hk]))
  | identifier | kwInt | kwFloat | kwVar | semicolon =>
    exact stopped_probes ((simple_probes hb).mono fun _ => simpleWords_le_stopped)
  | _ => exact .refuse opens_statement _

theorem blockOf_probes (h : ∀ t, Probes t inner inner' (stmtWords .statement))
    (hs : ∀ t, Probes t inners inners' fun _ => listWords) :
    Probes t (blockOf inner inners) (blockOf inner' inners') (stmtWords .block) := by
  refine .kind_bind ?_
  split
  · exact (compound_probes hs).mono fun _ => stmtWords_le_of_derives .blockCompound
  · exact (h t).mono fun _ => stmtWords_le_of_derives .blockStatement

theorem statementsAfter_probes (h : ∀ t, Probes t inner inner' (stmtWords .statement))
    (hs : ∀ t, Probes t inners inners' fun _ => listWords) (hb : budget ≤ budget')
    (read : List Stmt) :
    Probes t (statementsAfter inner inners budget read)
      (statementsAfter inner' inners' budget' read) fun _ => listWords := by
  induction budget generalizing budget' read t with
  | zero => exact .spent (opens_of_nil_mem (k := .endOfInput) nil_mem_listWords)
  | succ budget ih =>
    obtain ⟨budget', rfl⟩ := Nat.exists_eq_add_of_le' (Nat.le_of_add_left_le hb)
    have hb' : budget ≤ budget' := Nat.le_of_succ_le_succ hb
    -- whatever the item is, the rest of the list comes behind it
    have next : ∀ {p p' : Parse Stmt}, Probes t p p' (stmtWords .item) →
        Probes t (p >>= fun s => statementsAfter inner inners budget (s :: read))
          (p' >>= fun s => statementsAfter inner' inners' budget' (s :: read))
          fun _ => listWords := by
      intro p p' hp
      refine hp.bind fun s _ ts item => (ih hb' (s :: read)).mono fun _ us list m => ?_
      obtain ⟨_, n, -, ⟨first⟩⟩ := item m
      obtain ⟨_, n', ⟨rest⟩⟩ := list n
      exact ⟨_, n', ⟨.cons first rest⟩⟩
    refine .kind_bind ?_
    cases hk : t.kind with
    | rightBrace | endOfInput => exact .result _ nil_mem_listWords
    | leftBrace =>
      exact next ((compound_probes hs).mono fun _ => stmtWords_le_of_derives .itemCompound)
    | kwDef =>
      exact next ((procedure_probes hs hb').mono fun _ => stmtWords_le_of_derives .itemProcedure)
    | _ => exact next ((h t).mono fun _ => stmtWords_le_of_derives .itemStatement)

/-- Single statements and lists of them, by induction on the smaller budget. -/
theorem statement_and_statements_probes (hb : budget ≤ budget') :
    (∀ t, Probes t (statement budget) (statement budget') (stmtWords .statement)) ∧
      ∀ t, Probes t (statements budget) (statements budget') fun _ => listWords := by
  induction budget generalizing budget' with
  | zero =>
    refine ⟨fun _ => .spent opens_statement, fun _ => .spent ?_⟩
    exact opens_of_nil_mem (k := .endOfInput) nil_mem_listWords
  | succ budget ih =>
    obtain ⟨budget', rfl⟩ := Nat.exists_eq_add_of_le' (Nat.le_of_add_left_le hb)
    have hb' : budget ≤ budget' := Nat.le_of_succ_le_succ hb
    obtain ⟨one, many⟩ := ih hb'
    refine ⟨fun t => ?_, fun t => ?_⟩
    · exact (statementOf_probes (fun _ => blockOf_probes one many) hb').nested
    · exact statementsAfter_probes one many hb' []

theorem program_probes (hb : budget ≤ budget') :
    Probes t (program budget) (program budget') fun _ => listWords := by
  refine ((statement_and_statements_probes hb).2 t).bind_last fun body u => .current_bind ?_
  split
  · exact .last _
  · exact .refuse (Probes.last ()).opens _

end Statements

/-! ## Programs -/

section Programs

variable {tokens : List Token} {final found : Token} {x : Expectation} {budget : Nat} {s : Parser}

/-- A program that is given up has been read up to the unexpected token, whatever stands behind the
token and however much larger the budget is. -/
theorem program_stuck (hend : final.kind = .endOfInput)
    (h : (program budget).run (.over final tokens {} 0 0) = (.error (.unexpected x found), s)) :
    ∃ before behind, tokens = before ++ behind ∧ found = behind.headD final ∧
      Completes (fun _ => listWords) before ∧
      ∀ budget', budget ≤ budget' → ∀ behind', behind'.headD final = found →
        ∃ s', (program budget').run (.over final (before ++ behind') {} 0 0) =
          (.error (.unexpected x found), s') := by
  have seen : ∀ budget', budget ≤ budget' → ∃ before behind, tokens = before ++ behind ∧
      s.items = behind.map .ok ∧ found = behind.headD final ∧
      Completes (fun _ => listWords) before ∧
      ∀ final' behind', behind'.headD final' = found →
        ∃ s', (program budget').run (.over final' (before ++ behind') {} 0 0) =
          (.error (.unexpected x found), s') := by
    intro budget' hb
    have probed := (program_probes hb).foresees final tokens {} 0 0 hend rfl
    rw [h] at probed
    exact probed
  obtain ⟨before, behind, split, left, hfound, completes, -⟩ := seen budget le_rfl
  refine ⟨before, behind, split, hfound, completes, fun budget' hb behind' same => ?_⟩
  -- the parser tells what it has left, so all budgets split the tokens at the same place
  obtain ⟨before', rest, split', left', -, -, runs⟩ := seen budget' hb
  obtain rfl : behind = rest :=
    List.map_injective_iff.mpr (fun _ _ => Except.ok.inj) (left.symm.trans left')
  obtain rfl : before = before' := List.append_cancel_right (split.symm.trans split')
  exact runs final behind' same

/-- Tokens on which the parser gives up with every large budget are no program. -/
theorem isEmpty_of_unexpected (hend : final.kind = .endOfInput)
    (h : ∀ budget', budget ≤ budget' → ∃ s', (program budget').run (.over final tokens {} 0 0) =
      (.error (.unexpected x found), s')) (m : Module) : IsEmpty (ProgramDerivation tokens m) := by
  refine ⟨fun d => ?_⟩
  have large : tokens.length + 2 ≤ max budget (tokens.length + 2) := le_max_right _ _
  obtain ⟨s', stuck⟩ := h _ (le_max_left budget (tokens.length + 2))
  obtain ⟨ok, deep⟩ := program_accepts d large {} final [] 0 hend (Nat.zero_le _)
  rw [List.append_nil, Nat.add_zero, stuck] at ok deep
  by_cases fits : 0 + d.statements.cost ≤ maxNesting
  · exact nomatch ok fits
  · obtain ⟨span, s'', differs⟩ := deep (Nat.lt_of_not_le fits)
    exact nomatch differs

end Programs

end Parse

open Parse

/-- **An unexpected token is the first impossible one.**  Take a text that has no lexical fault and
that is refused because of an unexpected token.  The tokens in front of it go on to a program, with
tokens that can be written down; but no program begins with them and the unexpected token.  If that
is the end of the text, then they are no program themselves. -/
theorem Module.unexpected_is_first_impossible {text : String} {tokens : List Token}
    {expected : Expectation} {found : Token} (hlex : lex text = .ok tokens)
    (h : Module.parse text = .error (.unexpected expected found)) :
    ∃ before behind, tokens = before ++ behind ∧
      found = behind.headD (Cursor.ofString text).endToken ∧
      (∃ more m, (∀ t ∈ more, t.Written) ∧ Nonempty (ProgramDerivation (before ++ more) m)) ∧
      (behind ≠ [] → ∀ more m, IsEmpty (ProgramDerivation (before ++ found :: more) m)) ∧
      (behind = [] → ∀ m, IsEmpty (ProgramDerivation before m)) := by
  have hend : (Cursor.ofString text).endToken.kind = .endOfInput := rfl
  rcases run : (Parser.ofString text).parse with ⟨result, s⟩
  have stuck : result = .error (.unexpected expected found) := by
    rw [← h, Module.parse, run]
  subst stuck
  rw [Parser.parse, Parser.ofString_eq_over hlex] at run
  obtain ⟨before, behind, split, hfound, ⟨_, more, mem, written⟩, runs⟩ := program_stuck hend run
  refine ⟨before, behind, split, hfound, ?_, ?_, ?_⟩
  · obtain ⟨body, n, ⟨d⟩⟩ := mem 0
    exact ⟨more, ⟨body⟩, written, ⟨n, d⟩⟩
  · intro _ more m
    exact isEmpty_of_unexpected hend (fun budget' hb => runs budget' hb (found :: more) rfl) m
  · rintro rfl m
    have ended := fun budget' hb => runs budget' hb [] hfound.symm
    simp only [List.append_nil] at ended
    exact isEmpty_of_unexpected hend ended m

set_option maxRecDepth 4000 in
/-- The third part of a head is empty, and ends with a semicolon instead of a parenthesis.  The
front `for (;1;` goes on to a program, but not with another semicolon. -/
theorem Module.unexpected_is_first_impossible_step :
    ∃ (text : String) (tokens : List Token) (found : Token), text = "for (;1;;) x;" ∧
      lex text = .ok tokens ∧
      Module.parse text = .error (.unexpected (.kind .rightParen) found) ∧ found.span.start = 8 ∧
      ∃ before behind, tokens = before ++ behind ∧
        found = behind.headD (Cursor.ofString text).endToken ∧
        (∃ more m, (∀ t ∈ more, t.Written) ∧ Nonempty (ProgramDerivation (before ++ more) m)) ∧
        (behind ≠ [] → ∀ more m, IsEmpty (ProgramDerivation (before ++ found :: more) m)) ∧
        (behind = [] → ∀ m, IsEmpty (ProgramDerivation before m)) := by
  let found : Token := ⟨.semicolon, ";", ⟨8, 9, 1, 9⟩⟩
  have refused : Module.parse "for (;1;;) x;" = .error (.unexpected (.kind .rightParen) found) := by
    cbv
  cases lexed : lex "for (;1;;) x;" with
  | ok tokens =>
    exact ⟨_, tokens, found, rfl, lexed, refused, rfl,
      Module.unexpected_is_first_impossible lexed refused⟩
  | error fault =>
    have accepted : (lex "for (;1;;) x;").isOk = true := by cbv
    rw [lexed] at accepted
    cases accepted

end Imperative
