import Imperative.Proofs.Grammar

/-!
# The cost of a derivation

How many levels of nesting parsing takes for a stretch of tokens, read off its derivation.

* A factor takes one level, and what is inside it comes on top of that.
* A chain of operators keeps one level for each operator until it ends, so the operand behind
  the `k`-th operator comes on top of `k` levels (`ExprDerivation.links`).
* A statement takes one level, and so do a compound statement and the body of a procedure.
  The parts of the head of a loop are not statements of their own; only their expressions count.
* Parts that stand side by side cost as much as the one that costs most.
-/

namespace Imperative

namespace Grammar

/-- The number of operators in the outermost chain of a term or an expression. -/
def ExprDerivation.links {phrase : ExprPhrase} {ts : List Token} :
    ExprDerivation phrase ts → Nat
  | .product left _ _ | .sum left _ _ => left.links + 1
  | _ => 0

theorem SignWord.ne_rightParen {k : Token.Kind} {op : UnaryOp} (h : SignWord k op) :
    k ≠ .rightParen := by
  cases h <;> nofun

/-- What is not a tail of an argument list starts with a token, which does not close anything,
and has more tokens than operators. -/
theorem ExprDerivation.exists_cons {phrase : ExprPhrase} {ts : List Token}
    (d : ExprDerivation phrase ts) (h : ∀ es, phrase ≠ .more es) :
    ∃ t us, ts = t :: us ∧ t.kind ≠ .rightParen ∧ d.links ≤ us.length := by
  induction d with
  | number word | name word => exact ⟨_, _, rfl, word ▸ nofun, Nat.zero_le _⟩
  | sign word => exact ⟨_, _, rfl, word.ne_rightParen, Nat.zero_le _⟩
  | group opens => exact ⟨_, _, rfl, opens ▸ nofun, Nat.zero_le _⟩
  | callNone callee | callSome callee => exact ⟨_, _, rfl, callee ▸ nofun, Nat.zero_le _⟩
  | invoke _ ih | factor _ ih | term _ ih =>
    obtain ⟨t, us, rfl, ht, -⟩ := ih nofun
    exact ⟨t, us, rfl, ht, Nat.zero_le _⟩
  | product left word right ih | sum left word right ih =>
    obtain ⟨t, us, rfl, ht, hlinks⟩ := ih nofun
    refine ⟨t, _, List.cons_append, ht, ?_⟩
    rw [links, List.length_append, List.length_cons]
    omega
  | moreNone | moreSome => exact absurd rfl (h _)

/-- The levels of nesting that an expression takes. -/
def ExprDerivation.cost {phrase : ExprPhrase} {ts : List Token} :
    ExprDerivation phrase ts → Nat
  | .number .. | .name .. => 1
  | .sign _ operand => operand.cost + 1
  | .group _ inner _ => inner.cost + 1
  | .invoke call => call.cost + 1
  | .factor only | .term only => only.cost
  | .product left _ right | .sum left _ right => max left.cost (left.links + 1 + right.cost)
  | .callNone .. | .moreNone => 0
  | .callSome _ _ first rest _ => max first.cost rest.cost
  | .moreSome _ next rest => max next.cost rest.cost

/-- The levels of nesting that the expressions of a simple statement take. -/
def SimpleDerivation.cost {stop : Token} {s : Stmt} {ts : List Token} :
    SimpleDerivation stop s ts → Nat
  | .call invocation => invocation.cost
  | .assign _ _ value => value.cost
  | .declaration .. | .empty => 0

/-- The levels of nesting that statements take. -/
def StmtDerivation.cost {m n : Nat} {phrase : StmtPhrase} {ts : List Token} :
    StmtDerivation m phrase ts n → Nat
  | .compound _ inner _ => inner.cost + 1
  | .procedure _ _ _ _ _ _ _ inner _ => inner.cost + 1
  | .simple inner _ => inner.cost + 1
  | .giveBack _ value _ => value.cost + 1
  | .breakLoop .. | .continueLoop .. => 1
  | .ifThen _ _ condition _ branch => max condition.cost branch.cost + 1
  | .ifElse _ _ condition _ branch _ _ alternative =>
    max condition.cost (max branch.cost alternative.cost) + 1
  | .whileLoop _ _ condition _ round => max condition.cost round.cost + 1
  | .doWhile _ round _ _ condition _ _ => max round.cost condition.cost + 1
  | .forLoop _ _ first _ condition _ next _ round =>
    max first.cost (max condition.cost (max next.cost round.cost)) + 1
  | .blockCompound only | .blockStatement only => only.cost
  | .itemCompound only | .itemProcedure only | .itemStatement only => only.cost
  | .nil => 0
  | .cons first rest => max first.cost rest.cost

/-- The costs of the statements, compound statements and procedures of a list, one by one. -/
def StmtDerivation.itemCosts {m n : Nat} {ss : List Stmt} {ts : List Token} :
    StmtDerivation m (.statements ss) ts n → List Nat
  | .nil => []
  | .cons first rest => first.cost :: rest.itemCosts

/-- A list costs as much as the item that costs most. -/
theorem StmtDerivation.cost_le_iff {m n : Nat} {ss : List Stmt} {ts : List Token}
    (d : StmtDerivation m (.statements ss) ts n) (limit : Nat) :
    d.cost ≤ limit ↔ ∀ c ∈ d.itemCosts, c ≤ limit := by
  match d with
  | .nil => exact ⟨fun _ _ hc => absurd hc List.not_mem_nil, fun _ => Nat.zero_le limit⟩
  | .cons first rest =>
    change max first.cost rest.cost ≤ limit ↔ ∀ c ∈ first.cost :: rest.itemCosts, c ≤ limit
    rw [List.forall_mem_cons, max_le_iff, rest.cost_le_iff]

end Grammar

end Imperative
