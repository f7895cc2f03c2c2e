import Imperative.Proofs.Fitness
import Imperative.Proofs.JumpAncestry
import Imperative.Proofs.ParserCourse
import Imperative.Proofs.StatementSoundness

/-!
# Numbers of procedures

Parsing numbers the procedures of a text, and execution finds the procedure of a call by its number.
In between stand trees in which definitions may be nested to any depth, and two traversals that do not
look alike: a definition gets its number when it ends, behind the definitions inside it, and the table
is filled from the front, without the heads of loops.

## Over several calls

A parser can be asked again, after it has failed too, and it goes on counting
(`Parser.Counts`).  So the numbers in all modules that a parser returns are in order, and none is given
out twice (`Parser.numbers_returned`); a failed call may leave a gap behind.

## One module

* `Grammar.StmtDerivation.numbers_eq`: read in the order in which the definitions end, the numbers of
  a tree are consecutive.
* `Grammar.StmtDerivation.takesItems_of_isProcedure`: definitions are items of lists.
* `Module.find?_ofModule_iff`: so the table leads from every number to the one definition that has it,
  and it leads nowhere else.
-/

namespace Imperative

open Grammar

/-! ## Definitions -/

mutual

/-- The procedures defined in the statement, heads of loops included, in the order in which their
definitions end. -/
def Stmt.definitions : Stmt → List Procedure
  | .procedure id name params returnType body _ =>
    Stmt.allDefinitions body ++ [⟨id, name, params, returnType, body⟩]
  | .compound body _ => Stmt.allDefinitions body
  | .conditional _ body otherwise _ => body.definitions ++ Stmt.definitions? otherwise
  | .whileLoop _ body _ | .doWhile _ body _ => body.definitions
  | .forLoop init _ step body _ => init.definitions ++ (step.definitions ++ body.definitions)
  | .declaration .. | .assign .. | .call .. | .giveBack .. | .breakLoop _ | .continueLoop _
  | .pass _ => []

/-- The procedures defined in the statements. -/
def Stmt.allDefinitions : List Stmt → List Procedure
  | [] => []
  | s :: ss => s.definitions ++ Stmt.allDefinitions ss

/-- The procedures defined in a statement that may be absent. -/
def Stmt.definitions? : Option Stmt → List Procedure
  | none => []
  | some s => s.definitions

end

/-- The procedures of the module, in the order in which their definitions end. -/
def Module.definitions (m : Module) : List Procedure :=
  Stmt.allDefinitions m.body

/-- The numbers of the procedures of the module, in the order in which their definitions end. -/
def Module.numbers (m : Module) : List Nat :=
  m.definitions.map (·.id.index)

theorem Stmt.definitions_of_isSimple {s : Stmt} (h : s.IsSimple) : s.definitions = [] := by
  cases s with
  | declaration | assign | call | pass => rfl
  | _ => exact h.elim

mutual

/-- Where the heads of loops are simple, the table misses no definition. -/
theorem Stmt.definitions_perm (s : Stmt) (h : s.HeadsSimple) : s.definitions.Perm s.procedures := by
  match s with
  | .procedure id name params returnType body _ =>
    exact (List.perm_append_singleton _ _).trans ((Stmt.allDefinitions_perm body h).cons _)
  | .compound body _ => exact Stmt.allDefinitions_perm body h
  | .conditional _ body otherwise _ =>
    refine (Stmt.definitions_perm body h.1).append ?_
    match otherwise with
    | none => exact .nil
    | some s => exact Stmt.definitions_perm s h.2
  | .whileLoop _ body _ | .doWhile _ body _ => exact Stmt.definitions_perm body h
  | .forLoop init _ step body _ =>
    rw [Stmt.definitions, Stmt.definitions_of_isSimple h.1, Stmt.definitions_of_isSimple h.2.1]
    exact Stmt.definitions_perm body h.2.2
  | .declaration .. | .assign .. | .call .. | .giveBack .. | .breakLoop _ | .continueLoop _
  | .pass _ => exact .nil

theorem Stmt.allDefinitions_perm (ss : List Stmt) (h : Stmt.AllHeadsSimple ss) :
    (Stmt.allDefinitions ss).Perm (Stmt.allProcedures ss) := by
  match ss with
  | [] => exact .nil
  | s :: ss => exact (Stmt.definitions_perm s h.1).append (Stmt.allDefinitions_perm ss h.2)

end

/-! ## One module -/

/-- What stands directly inside is an item of the module, of a compound statement or of the body of a
procedure. -/
def Holder.TakesItems : List Holder → Prop
  | [] => True
  | holder :: _ =>
    match holder.stmt with
    | .compound .. | .procedure .. => True
    | _ => False

namespace Grammar

variable {m n : Nat} {q : StmtPhrase} {ts : List Token}

theorem StmtDerivation.le (d : StmtDerivation m q ts n) : m ≤ n :=
  d.numbers_perm.1

/-- Read in the order in which the definitions end, the numbers of a derived tree go from `m` up to,
but without, `n`. -/
theorem StmtDerivation.numbers_eq (d : StmtDerivation m q ts n) :
    (Stmt.allDefinitions q.trees).map (·.id.index) = List.range' m (n - m) := by
  induction d with
  | @procedure m n _ _ _ _ _ _ _ _ _ _ _ _ _ _ _ _ _ _ _ inner _ ih =>
    simp only [StmtPhrase.trees, Stmt.allDefinitions, Stmt.definitions, List.append_nil,
      List.map_append, List.map_cons, List.map_nil] at ih ⊢
    rw [ih, Nat.succ_sub inner.le, List.range'_concat, Nat.one_mul, Nat.add_sub_cancel' inner.le]
  | simple inner stop =>
    simp [StmtPhrase.trees, Stmt.allDefinitions, Stmt.definitions_of_isSimple inner.isSimple]
  | forLoop _ _ first _ _ _ next _ _ ih =>
    simpa [StmtPhrase.trees, Stmt.allDefinitions, Stmt.definitions,
      Stmt.definitions_of_isSimple first.isSimple, Stmt.definitions_of_isSimple next.isSimple] using ih
  | ifElse _ _ _ _ branch _ _ alternative ih ih' =>
    simp only [StmtPhrase.trees, Stmt.allDefinitions, Stmt.definitions, Stmt.definitions?,
      List.append_nil, List.map_append] at ih ih' ⊢
    rw [ih, ih', range'_append_of_le branch.le alternative.le]
  | cons first rest ih ih' =>
    simp only [StmtPhrase.trees, Stmt.allDefinitions, List.append_nil, List.map_append] at ih ih' ⊢
    rw [ih, ih', range'_append_of_le first.le rest.le]
  | _ => simp_all [StmtPhrase.trees, Stmt.allDefinitions, Stmt.definitions, Stmt.definitions?]

/-- The phrase may be a procedure, or hold one directly. -/
def StmtPhrase.TakesProcedure : StmtPhrase → Prop
  | procedure _ | item _ | statements _ => True
  | compound _ | statement _ | block _ => False

theorem preorder_of_isSimple {s : Stmt} (hs : s.IsSimple) (holders : List Holder) :
    ∀ h ∈ s.preorder holders, h.stmt.IsProcedure → Holder.TakesItems h.holders := by
  cases s with
  | declaration | assign | call | pass =>
    simp only [Stmt.preorder, List.forall_mem_singleton]
    exact False.elim
  | _ => exact hs.elim

/-- Procedures stand in derived trees only where lists of statements do. -/
theorem StmtDerivation.takesItems_of_isProcedure (d : StmtDerivation m q ts n)
    (holders : List Holder) (hq : q.TakesProcedure → Holder.TakesItems holders) :
    ∀ h ∈ Stmt.allPreorder holders q.trees, h.stmt.IsProcedure → Holder.TakesItems h.holders := by
  induction d generalizing holders with
  | compound _ _ _ ih =>
    simp only [StmtPhrase.trees, Stmt.allPreorder, Stmt.preorder, List.append_nil,
      List.forall_mem_cons]
    exact ⟨False.elim, ih _ fun _ => trivial⟩
  | procedure _ _ _ _ _ _ _ _ _ ih =>
    simp only [StmtPhrase.trees, Stmt.allPreorder, Stmt.preorder, List.append_nil,
      List.forall_mem_cons]
    exact ⟨fun _ => hq trivial, ih _ fun _ => trivial⟩
  | simple inner _ =>
    simp only [StmtPhrase.trees, Stmt.allPreorder, List.append_nil]
    exact preorder_of_isSimple inner.isSimple holders
  | giveBack | breakLoop | continueLoop =>
    simp only [StmtPhrase.trees, Stmt.allPreorder, Stmt.preorder, List.append_nil,
      List.forall_mem_singleton]
    exact False.elim
  | ifThen _ _ _ _ _ ih =>
    simp only [StmtPhrase.trees, Stmt.allPreorder, Stmt.preorder, Stmt.preorder?, List.append_nil,
      List.forall_mem_cons] at ih ⊢
    exact ⟨False.elim, ih _ False.elim⟩
  | ifElse _ _ _ _ _ _ _ _ ih ih' =>
    simp only [StmtPhrase.trees, Stmt.allPreorder, Stmt.preorder, Stmt.preorder?, List.append_nil,
      List.forall_mem_cons, List.forall_mem_append] at ih ih' ⊢
    exact ⟨False.elim, ih _ False.elim, ih' _ False.elim⟩
  | whileLoop _ _ _ _ _ ih =>
    simp only [StmtPhrase.trees, Stmt.allPreorder, Stmt.preorder, List.append_nil,
      List.forall_mem_cons] at ih ⊢
    exact ⟨False.elim, ih _ False.elim⟩
  | doWhile _ _ _ _ _ _ _ ih =>
    simp only [StmtPhrase.trees, Stmt.allPreorder, Stmt.preorder, List.append_nil,
      List.forall_mem_cons] at ih ⊢
    exact ⟨False.elim, ih _ False.elim⟩
  | forLoop _ _ first _ _ _ next _ _ ih =>
    simp only [StmtPhrase.trees, Stmt.allPreorder, Stmt.preorder, List.append_nil,
      List.forall_mem_cons, List.forall_mem_append] at ih ⊢
    exact ⟨False.elim, preorder_of_isSimple first.isSimple _,
      preorder_of_isSimple next.isSimple _, ih _ False.elim⟩
  | blockCompound _ ih | blockStatement _ ih => exact ih holders False.elim
  | itemCompound _ ih | itemStatement _ ih => exact ih holders False.elim
  | itemProcedure _ ih => exact ih holders hq
  | nil => exact List.forall_mem_nil _
  | cons _ _ ih ih' =>
    simp only [StmtPhrase.trees, Stmt.allPreorder, List.append_nil, List.forall_mem_append]
      at ih ih' ⊢
    exact ⟨ih holders hq, ih' holders hq⟩

end Grammar

/-- The table of a derived module leads from a number to the definition with that number, wherever it
stands, and to nothing else. -/
theorem Module.find?_ofModule_iff {m : Module} {k n : Nat} {ts : List Token}
    (d : StmtDerivation k (.statements m.body) ts n) (id : ProcedureId) (q : Procedure) :
    (ProcedureTable.ofModule m).find? id = some q ↔ q ∈ m.definitions ∧ q.id = id := by
  have hperm : m.definitions.Perm (Stmt.allProcedures m.body) :=
    Stmt.allDefinitions_perm m.body d.headsSimple
  have hids : ((Stmt.allProcedures m.body).map (·.id)).Nodup := by
    have hnumbers : (((Stmt.allProcedures m.body).map (·.id)).map (·.index)).Nodup := by
      rw [List.map_map]
      exact d.numbers_perm.2.nodup_iff.mpr List.nodup_range'
    exact hnumbers.of_map
  constructor
  · intro h
    have hmem : q ∈ (Stmt.allProcedures m.body).reverse := List.mem_of_find?_eq_some h
    refine ⟨hperm.mem_iff.mpr (List.mem_reverse.mp hmem), ?_⟩
    simpa using List.find?_some h
  · rintro ⟨hmem, rfl⟩
    exact ProcedureTable.find?_ofModule hids (hperm.mem_iff.mp hmem)

/-! ## Over several calls -/

namespace Parser

/-- The parser has lost none of what it had counted, and looks out for the same end. -/
structure Counts (s s' : Parser) : Prop where
  final : s'.final = s.final
  procedures : s.procedures ≤ s'.procedures

/-- Parsing goes on counting, whatever it comes to. -/
theorem course_counts : Parse.Course Counts where
  refl s := ⟨rfl, le_rfl⟩
  trans h h' := ⟨h'.final.trans h.final, h.procedures.trans h'.procedures⟩
  current := by
    rintro ⟨items, final, previous, procedures, depth⟩
    rcases items with _ | ⟨_ | _, _⟩ <;> exact ⟨rfl, le_rfl⟩
  nextKind := by
    rintro ⟨items, final, previous, procedures, depth⟩
    rcases items with _ | ⟨_ | _, _ | ⟨_ | _, _⟩⟩ <;> exact ⟨rfl, le_rfl⟩
  advance := by
    rintro ⟨items, final, previous, procedures, depth⟩
    rcases items with _ | ⟨_ | _, _⟩ <;> exact ⟨rfl, le_rfl⟩
  withDepth s depth := ⟨rfl, le_rfl⟩
  number s := ⟨rfl, Nat.le_succ _⟩

theorem Ends.parse {p : Parser} (h : p.Ends) : p.parse.2.Ends := by
  rw [Ends, (course_counts.parse p).final, h]

/-- The modules that so many calls return, in this order.  Calls that fail return none. -/
def returned (p : Parser) : Nat → List Module
  | 0 => []
  | calls + 1 =>
    match p.parse with
    | (.ok m, p') => m :: p'.returned calls
    | (.error _, p') => p'.returned calls

/-- A module that a parser returns is derived between the numbers that the parser had counted before
the call and behind it. -/
theorem exists_derivation_of_parse {p p' : Parser} (hp : p.Ends) {m : Module}
    (h : p.parse = (.ok m, p')) :
    ∃ ts, Nonempty (StmtDerivation p.procedures (.statements m.body) ts p'.procedures) := by
  obtain ⟨body, s, hbody, hlast⟩ := Parse.of_bind h
  obtain ⟨ts, -, d⟩ := (Parse.statement_ok_and_statements_ok p.budget).2 hp hbody
  obtain ⟨t, s', ht, hend⟩ := Parse.of_bind hlast
  obtain ⟨rfl, -⟩ := Parse.current_ok ht
  split at hend
  · cases hend
    exact ⟨ts, d⟩
  · exact (Parse.not_unexpected_ok hend).elim

/-- The numbers in a module follow on what the parser had counted before. -/
theorem numbers_of_parse {p p' : Parser} (hp : p.Ends) {m : Module} (h : p.parse = (.ok m, p')) :
    m.numbers = List.range' p.procedures (p'.procedures - p.procedures) := by
  obtain ⟨ts, ⟨d⟩⟩ := exists_derivation_of_parse hp h
  exact d.numbers_eq

/-- The numbers in all modules that a parser returns are in order, and new. -/
theorem numbers_returned {p : Parser} (hp : p.Ends) (calls : Nat) :
    ((p.returned calls).flatMap Module.numbers).Pairwise (· < ·)
      ∧ ∀ number ∈ (p.returned calls).flatMap Module.numbers, p.procedures ≤ number := by
  induction calls generalizing p with
  | zero => exact ⟨.nil, List.forall_mem_nil _⟩
  | succ calls ih =>
    have hcounts := (course_counts.parse p).procedures
    obtain ⟨hsorted, hnew⟩ := ih hp.parse
    rw [returned]
    cases hparse : p.parse with
    | mk result p' =>
      rw [hparse] at hcounts hsorted hnew
      cases result with
      | error e => exact ⟨hsorted, fun number hmem => hcounts.trans (hnew number hmem)⟩
      | ok m =>
        rw [List.flatMap_cons, numbers_of_parse hp hparse]
        refine ⟨List.pairwise_append.mpr ⟨List.pairwise_lt_range' .., hsorted, ?_⟩, ?_⟩
        · intro number hmem later hlater
          have hbelow := (List.mem_range'_1.mp hmem).2
          have habove : p'.procedures ≤ later := hnew later hlater
          have hcounted : p.procedures ≤ p'.procedures := hcounts
          omega
        · intro number hmem
          rcases List.mem_append.mp hmem with hmem | hmem
          · exact (List.mem_range'_1.mp hmem).1
          · exact hcounts.trans (hnew number hmem)

/-- Every module that a parser returns comes from one call. -/
theorem exists_parse_of_mem_returned {p : Parser} (hp : p.Ends) {calls : Nat} {m : Module}
    (h : m ∈ p.returned calls) : ∃ q q' : Parser, q.Ends ∧ q.parse = (.ok m, q') := by
  induction calls generalizing p with
  | zero => cases h
  | succ calls ih =>
    rw [returned] at h
    have hends := hp.parse
    cases hparse : p.parse with
    | mk result p' =>
      rw [hparse] at h hends
      cases result with
      | error e => exact ih hends h
      | ok first =>
        rcases List.mem_cons.mp h with rfl | hrest
        · exact ⟨p, p', hp, hparse⟩
        · exact ih hends hrest

end Parser

/-- **Numbers name definitions.**  Over any number of calls of a parser, failed ones included, the
numbers of the procedures in all modules that it returns increase in the order in which the definitions
end, so none is given out twice; the module of the first call has the numbers from 0 on, without a gap.
In each module procedures are items of the module, of compound statements or of bodies of procedures
only, and the table of the module leads from each number to the definition that has it, wherever that
stands in the tree, and to nothing else. -/
theorem Parser.numbers_name_definitions (c : Cursor) (calls : Nat) :
    (((Parser.ofCursor c).returned calls).flatMap Module.numbers).Pairwise (· < ·)
      ∧ (∀ m, (Parser.ofCursor c).parse.1 = .ok m → m.numbers = List.range m.numbers.length)
      ∧ ∀ m ∈ (Parser.ofCursor c).returned calls,
        (∀ h ∈ m.preorder, h.stmt.IsProcedure → Holder.TakesItems h.holders)
        ∧ ∀ id q, (ProcedureTable.ofModule m).find? id = some q ↔ q ∈ m.definitions ∧ q.id = id := by
  have hends : (Parser.ofCursor c).Ends := rfl
  refine ⟨(Parser.numbers_returned hends calls).1, fun m hm => ?_, fun m hm => ?_⟩
  · have hnumbers := Parser.numbers_of_parse hends (Prod.ext hm rfl)
    rw [hnumbers, List.length_range', List.range_eq_range']
    rfl
  · obtain ⟨p, p', hp, hparse⟩ := Parser.exists_parse_of_mem_returned hends hm
    obtain ⟨ts, ⟨d⟩⟩ := Parser.exists_derivation_of_parse hp hparse
    exact ⟨d.takesItems_of_isProcedure [] fun _ => trivial, Module.find?_ofModule_iff d⟩

/-- A definition inside another one ends first, and the table finds the outer one. -/
theorem Parser.numbers_name_definitions_nested :
    ∃ (text : String) (m : Module),
      text = "def f() \x7b if (1) \x7b def g() \x7b \x7d \x7d \x7d def h() \x7b \x7d"
      ∧ (Parser.ofCursor (.ofString text)).parse.1 = .ok m
      ∧ m.definitions.map (·.name) = ["g", "f", "h"] ∧ m.numbers = [0, 1, 2]
      ∧ ∃ q ∈ m.definitions, q.name = "f" ∧ (ProcedureTable.ofModule m).find? ⟨1⟩ = some q := by
  have parsed : (Module.parse
      "def f() \x7b if (1) \x7b def g() \x7b \x7d \x7d \x7d def h() \x7b \x7d").toOption.map
        (fun m => m.definitions.map (·.name)) = some ["g", "f", "h"] := by decide +kernel
  -- from here on it does not matter which text this is
  generalize "def f() \x7b if (1) \x7b def g() \x7b \x7d \x7d \x7d def h() \x7b \x7d" = text
    at parsed ⊢
  obtain ⟨m, hm, hnames⟩ := Option.map_eq_some_iff.mp parsed
  have hparse : (Parser.ofCursor (.ofString text)).parse.1 = .ok m := by
    change Module.parse text = .ok m
    generalize Module.parse text = result at hm
    cases result with
    | ok m' => exact congrArg Except.ok (Option.some.inj hm)
    | error e => cases hm
  obtain ⟨-, hfirst, hreturned⟩ := Parser.numbers_name_definitions (.ofString text) 1
  have hlength : m.definitions.length = 3 := by
    rw [← List.length_map (·.name), hnames]
    rfl
  have hnumbers : m.numbers = [0, 1, 2] := by
    rw [hfirst m hparse, Module.numbers, List.length_map, hlength]
    rfl
  have hmem : m ∈ (Parser.ofCursor (.ofString text)).returned 1 := by
    rw [Parser.returned, ← Prod.eta (Parser.ofCursor (.ofString text)).parse, hparse]
    exact List.mem_cons_self
  -- the second definition has the second number
  obtain ⟨q₀, q, q₂, hdefinitions⟩ := List.length_eq_three.mp hlength
  have hq : q ∈ m.definitions := hdefinitions ▸ List.mem_cons_of_mem _ List.mem_cons_self
  have hname : q.name = "f" := by simp_all
  have hid : q.id = ⟨1⟩ := by
    rw [Module.numbers, hdefinitions] at hnumbers
    exact congrArg ProcedureId.mk (List.cons.inj (List.cons.inj hnumbers).2).1
  exact ⟨text, m, rfl, hparse, hnames, hnumbers, q, hq, hname,
    ((hreturned m hmem).2 ⟨1⟩ q).mpr ⟨hq, hid⟩⟩

end Imperative
