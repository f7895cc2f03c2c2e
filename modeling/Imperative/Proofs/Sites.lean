import Imperative.Analysis.Error
import Imperative.Tree
import Mathlib.Data.List.Infix

/-!
# Sites

A *site* is a place of a tree where a name stands: it is introduced there, used there as a
variable, or called there.  This file lists the sites of a tree and says what a name at a
site refers to, without a table of symbols: only positions in the tree and the order of the
sites matter.

* `Module.sites`: the sites of a module, in the order in which a reader meets them.
* `referent?`: what a name refers to.  The scopes around the place are searched from the
  inside out, and the first that has an earlier introduction of the name decides.
* `Site.Fits`: the name at a site is in order, given the sites before it.
* `Site.complaint?`: what is wrong with a site that does not fit.

## Scopes

The module is a scope, and so is every procedure, whose scope holds its parameters and its
body.  A scope is given by the addresses of the procedures around a place, the innermost
first; the empty list is the scope of the module, and the tails of a scope are the scopes
around it.

## The order of the sites

Sites come in source order, with these choices: the target of an assignment before its
value, a callee before its arguments, the name of a procedure before its parameters and
these before its body, and the test of a loop before its body even where it is written
after it.
-/

namespace Imperative

/-- A place in a tree: the way down to it from the root, the last step first. -/
abbrev Address := List Nat

/-- What a site brings in under its name. -/
inductive Introduced where
  | variable (type : DataType)
  | procedure (id : ProcedureId) (params : List Param) (returnType : Option DataType)
  deriving DecidableEq, Repr

/-- What is done with a name at a site.  A call shows the number of its arguments and the
mark that it carries. -/
inductive Site.Act where
  | introduce (what : Introduced)
  | use
  | call (count : Nat) (mark : Option ProcedureSymbol)
  deriving DecidableEq, Repr

/-- A place where a name stands, inside the procedures at the addresses `around`, the
innermost first. -/
structure Site where
  around : List Address
  name : String
  act : Site.Act
  span : Span
  deriving DecidableEq, Repr

/-! ## The sites of a tree -/

mutual

/-- The sites of an expression. -/
def Expr.sites (around : List Address) : Expr → List Site
  | .number .. => []
  | .var name span => [⟨around, name, .use, span⟩]
  | .unary _ operand _ => operand.sites around
  | .binary _ lhs rhs _ => lhs.sites around ++ rhs.sites around
  | .call name args mark span =>
    ⟨around, name, .call args.length mark, span⟩ :: Expr.allSites around args

/-- The sites of a list of expressions. -/
def Expr.allSites (around : List Address) : List Expr → List Site
  | [] => []
  | e :: es => e.sites around ++ Expr.allSites around es

end

/-- The site of a parameter. -/
def Param.site (around : List Address) (p : Param) : Site :=
  ⟨around, p.name, .introduce (.variable p.type), p.span⟩

mutual

/-- The sites of the statement at the address `place`.  A procedure is the only statement
that opens a scope: its own name stands outside, its parameters and its body inside. -/
def Stmt.sites (around : List Address) (place : Address) : Stmt → List Site
  | .compound body _ => Stmt.allSites around place 0 body
  | .declaration name type span => [⟨around, name, .introduce (.variable type), span⟩]
  | .assign name value span => ⟨around, name, .use, span⟩ :: value.sites around
  | .call name args mark span =>
    ⟨around, name, .call args.length mark, span⟩ :: Expr.allSites around args
  | .conditional test body otherwise _ =>
    test.sites around ++ body.sites around (0 :: place)
      ++ Stmt.sites? around (1 :: place) otherwise
  | .whileLoop test body _ | .doWhile test body _ =>
    test.sites around ++ body.sites around (0 :: place)
  | .forLoop init test step body _ =>
    init.sites around (0 :: place) ++ test.sites around ++ step.sites around (1 :: place)
      ++ body.sites around (2 :: place)
  | .giveBack value _ => value.sites around
  | .breakLoop _ | .continueLoop _ | .pass _ => []
  | .procedure id name params returnType body span =>
    ⟨around, name, .introduce (.procedure id params returnType), span⟩
      :: params.map (Param.site (place :: around))
      ++ Stmt.allSites (place :: around) place 0 body

/-- The sites of the children of `place` from the `i`-th on. -/
def Stmt.allSites (around : List Address) (place : Address) (i : Nat) : List Stmt → List Site
  | [] => []
  | s :: ss => s.sites around (i :: place) ++ Stmt.allSites around place (i + 1) ss

/-- The sites of a statement that may be absent. -/
def Stmt.sites? (around : List Address) (place : Address) : Option Stmt → List Site
  | none => []
  | some s => s.sites around place

end

/-- The sites of a module. -/
def Module.sites (m : Module) : List Site :=
  Stmt.allSites [] [] 0 m.body

/-! ## What a name refers to -/

/-- The built-in type of a name. -/
def DataType.named? (name : String) : Option DataType :=
  DataType.all.find? (·.name == name)

/-- What a name can refer to: a built-in type, or what a site brings in. -/
inductive Referent where
  | builtin (type : DataType)
  | introduced (site : Site) (what : Introduced)
  deriving DecidableEq, Repr

/-- What a site brings into the scope `around` under the given name. -/
def Site.introduction? (around : List Address) (name : String) (t : Site) : Option Referent :=
  match t.act with
  | .introduce what =>
    if t.around = around ∧ t.name = name then some (.introduced t what) else none
  | _ => none

/-- What a name means in the scope `around` itself.  The built-in types are in every scope
from the start. -/
def meaning? (earlier : List Site) (around : List Address) (name : String) :
    Option Referent :=
  ((DataType.named? name).map .builtin).or (earlier.findSome? (·.introduction? around name))

/-- What a name refers to inside the procedures `around`: the innermost scope in which it
means something decides. -/
def referent? (earlier : List Site) (around : List Address) (name : String) :
    Option Referent :=
  around.tails.findSome? (meaning? earlier · name)

/-! ## Sites in order -/

/-- The name at a site is in order.  An introduced name is new in its scope and is not the
name of a type; a used name refers to a variable; a called name refers to a procedure with
as many parameters as the call has arguments. -/
def Site.Fits (earlier : List Site) (t : Site) : Prop :=
  match t.act with
  | .introduce _ =>
    (∀ type : DataType, t.name ≠ type.name)
      ∧ ∀ u ∈ earlier, ∀ what, u.act = .introduce what → u.around = t.around → u.name ≠ t.name
  | .use => ∃ u type, referent? earlier t.around t.name = some (.introduced u (.variable type))
  | .call count _ => ∃ u id params returnType,
    referent? earlier t.around t.name = some (.introduced u (.procedure id params returnType))
      ∧ params.length = count

/-- What is wrong with a site. -/
def Site.complaint? (earlier : List Site) (t : Site) : Option AnalysisCause :=
  match t.act with
  | .introduce _ =>
    if (meaning? earlier t.around t.name).isSome then some (.duplicateIdentifier t.name)
    else none
  | .use =>
    match referent? earlier t.around t.name with
    | some (.introduced _ (.variable _)) => none
    | some _ => some (.notAVariable t.name)
    | none => some (.identifierNotFound t.name)
  | .call count _ =>
    match referent? earlier t.around t.name with
    | some (.introduced _ (.procedure _ params _)) =>
      if params.length = count then none
      else some (.wrongParameterCount t.name params.length count)
    | some _ => some (.notAProcedure t.name)
    | none => some (.identifierNotFound t.name)

/-! ## Lemmas -/

theorem DataType.named?_eq_none_iff {name : String} :
    DataType.named? name = none ↔ ∀ type : DataType, name ≠ type.name := by
  rw [DataType.named?, List.find?_eq_none]
  constructor
  · intro h type e
    exact h type (by cases type <;> decide) (by simp [e])
  · intro h type _ e
    exact h type (by simpa using Eq.symm (eq_of_beq e))

theorem Site.introduction?_eq_some {around : List Address} {name : String} {t : Site}
    {r : Referent} :
    t.introduction? around name = some r ↔
      ∃ what, t.act = .introduce what ∧ t.around = around ∧ t.name = name
        ∧ r = .introduced t what := by
  rw [Site.introduction?]
  split <;> grind

theorem Site.introduction?_eq_none_iff {around : List Address} {name : String} {t : Site} :
    t.introduction? around name = none ↔
      ∀ what, t.act = .introduce what → t.around = around → t.name ≠ name := by
  rw [Option.eq_none_iff_forall_ne_some]
  constructor
  · intro h what act scope e
    exact h _ (Site.introduction?_eq_some.mpr ⟨what, act, scope, e, rfl⟩)
  · intro h r e
    obtain ⟨what, act, scope, name, _⟩ := Site.introduction?_eq_some.mp e
    exact h what act scope name

/-- Sites that bring nothing into a scope change no meaning in it. -/
theorem meaning?_append_of_forall {earlier later : List Site} {around : List Address}
    {name : String} (h : ∀ t ∈ later, t.introduction? around name = none) :
    meaning? (earlier ++ later) around name = meaning? earlier around name := by
  have hlater : later.findSome? (·.introduction? around name) = none :=
    List.findSome?_eq_none_iff.mpr h
  rw [meaning?, meaning?, List.findSome?_append, hlater, Option.or_none]

/-- A site gives its name a meaning if it had none. -/
theorem meaning?_append_self {earlier : List Site} {t : Site} {what : Introduced}
    (h : meaning? earlier t.around t.name = none) (ht : t.act = .introduce what) :
    meaning? (earlier ++ [t]) t.around t.name = some (.introduced t what) := by
  rw [meaning?, Option.or_eq_none_iff] at h
  rw [meaning?, List.findSome?_append, h.1, h.2]
  simp [Site.introduction?, ht]

theorem meaning?_eq_none_iff {earlier : List Site} {around : List Address} {name : String} :
    meaning? earlier around name = none ↔
      (∀ type : DataType, name ≠ type.name)
        ∧ ∀ u ∈ earlier, ∀ what, u.act = .introduce what → u.around = around →
          u.name ≠ name := by
  rw [meaning?, Option.or_eq_none_iff, Option.map_eq_none_iff, DataType.named?_eq_none_iff,
    List.findSome?_eq_none_iff]
  exact and_congr_right fun _ => forall_congr' fun u => forall_congr' fun _ =>
    Site.introduction?_eq_none_iff

/-- A name that a site gave its meaning in a scope was brought into that scope there. -/
theorem of_meaning?_eq {earlier : List Site} {around : List Address} {name : String}
    {t : Site} {what : Introduced}
    (h : meaning? earlier around name = some (.introduced t what)) :
    t ∈ earlier ∧ t.act = .introduce what ∧ t.around = around ∧ t.name = name := by
  rw [meaning?, Option.or_eq_some_iff] at h
  rcases h with h | ⟨_, h⟩
  · obtain ⟨type, _, e⟩ := Option.map_eq_some_iff.mp h
    cases e
  · obtain ⟨u, hu, e⟩ := List.exists_of_findSome?_eq_some h
    obtain ⟨what', act, scope, name, e'⟩ := Site.introduction?_eq_some.mp e
    cases e'
    exact ⟨hu, act, scope, name⟩

@[simp] theorem referent?_nil (earlier : List Site) (name : String) :
    referent? earlier [] name = meaning? earlier [] name := by
  rw [referent?, List.tails, List.findSome?_singleton]

@[simp] theorem referent?_cons (earlier : List Site) (place : Address)
    (around : List Address) (name : String) :
    referent? earlier (place :: around) name =
      (meaning? earlier (place :: around) name).or (referent? earlier around name) := by
  rw [referent?, List.tails, List.findSome?_cons, referent?]
  cases meaning? earlier (place :: around) name <;> rfl

/-- A site fits if and only if there is nothing wrong with it. -/
theorem Site.complaint?_eq_none_iff {earlier : List Site} {t : Site} :
    t.complaint? earlier = none ↔ t.Fits earlier := by
  rw [Site.complaint?, Site.Fits]
  split
  · rw [← meaning?_eq_none_iff]
    cases meaning? earlier t.around t.name <;> simp
  · split <;> simp_all
  · split <;> simp_all

/-! ## Addresses -/

mutual

/-- The sites of an expression stand in the scope of the expression and bring nothing in. -/
theorem Expr.of_mem_sites {around : List Address} {t : Site} :
    ∀ {e : Expr}, t ∈ e.sites around → t.around = around ∧ ∀ what, t.act ≠ .introduce what
  | .number .., h => by simp [Expr.sites] at h
  | .var .., h => by
    rw [Expr.sites, List.mem_singleton] at h
    rw [h]
    exact ⟨rfl, by rintro _ ⟨⟩⟩
  | .unary _ operand _, h => Expr.of_mem_sites (e := operand) h
  | .binary _ lhs rhs _, h => by
    rw [Expr.sites, List.mem_append] at h
    rcases h with h | h
    · exact Expr.of_mem_sites h
    · exact Expr.of_mem_sites h
  | .call _ args _ _, h => by
    rw [Expr.sites, List.mem_cons] at h
    rcases h with rfl | h
    · exact ⟨rfl, by rintro _ ⟨⟩⟩
    · exact Expr.of_mem_allSites h

theorem Expr.of_mem_allSites {around : List Address} {t : Site} :
    ∀ {es : List Expr}, t ∈ Expr.allSites around es →
      t.around = around ∧ ∀ what, t.act ≠ .introduce what
  | [], h => by simp [Expr.allSites] at h
  | e :: es, h => by
    rw [Expr.allSites, List.mem_append] at h
    rcases h with h | h
    · exact Expr.of_mem_sites h
    · exact Expr.of_mem_allSites h

end

/-- The procedures around a site are among the given ones or stand at or below `place`. -/
def Site.Below (around : List Address) (place : Address) (t : Site) : Prop :=
  ∀ a ∈ t.around, a ∈ around ∨ place <:+ a

namespace Site.Below

variable {around : List Address} {place : Address} {t : Site}

theorem of_eq (h : t.around = around) : t.Below around place :=
  fun _ ha => .inl (h ▸ ha)

theorem up {i : Nat} (h : t.Below around (i :: place)) : t.Below around place :=
  fun a ha => (h a ha).imp_right (List.suffix_cons i place).trans

theorem leave (h : t.Below (place :: around) place) : t.Below around place := by
  intro a ha
  rcases h a ha with h | h
  · rcases List.mem_cons.mp h with rfl | h
    · exact .inr List.suffix_rfl
    · exact .inl h
  · exact .inr h

end Site.Below

mutual

/-- The scopes that a statement opens stand at or below its address. -/
theorem Stmt.below_of_mem_sites {around : List Address} {place : Address} {t : Site} :
    ∀ {s : Stmt}, t ∈ s.sites around place → t.Below around place
  | .compound body _, h => Stmt.below_of_mem_allSites h
  | .declaration .., h => by
    rw [Stmt.sites, List.mem_singleton] at h
    exact .of_eq (by rw [h])
  | .assign _ value _, h => by
    rw [Stmt.sites, List.mem_cons] at h
    rcases h with rfl | h
    · exact .of_eq rfl
    · exact .of_eq (Expr.of_mem_sites h).1
  | .call _ args _ _, h => by
    rw [Stmt.sites, List.mem_cons] at h
    rcases h with rfl | h
    · exact .of_eq rfl
    · exact .of_eq (Expr.of_mem_allSites h).1
  | .conditional test body otherwise _, h => by
    rw [Stmt.sites, List.mem_append, List.mem_append] at h
    rcases h with (h | h) | h
    · exact .of_eq (Expr.of_mem_sites h).1
    · exact (Stmt.below_of_mem_sites h).up
    · exact (Stmt.below_of_mem_sites? h).up
  | .whileLoop test body _, h | .doWhile test body _, h => by
    rw [Stmt.sites, List.mem_append] at h
    rcases h with h | h
    · exact .of_eq (Expr.of_mem_sites h).1
    · exact (Stmt.below_of_mem_sites h).up
  | .forLoop init test step body _, h => by
    rw [Stmt.sites, List.mem_append, List.mem_append, List.mem_append] at h
    rcases h with ((h | h) | h) | h
    · exact (Stmt.below_of_mem_sites h).up
    · exact .of_eq (Expr.of_mem_sites h).1
    · exact (Stmt.below_of_mem_sites h).up
    · exact (Stmt.below_of_mem_sites h).up
  | .giveBack value _, h => .of_eq (Expr.of_mem_sites (e := value) h).1
  | .breakLoop _, h | .continueLoop _, h | .pass _, h => by simp [Stmt.sites] at h
  | .procedure _ _ params _ body _, h => by
    rw [Stmt.sites, List.cons_append, List.mem_cons, List.mem_append, List.mem_map] at h
    rcases h with rfl | ⟨p, _, rfl⟩ | h
    · exact .of_eq rfl
    · exact .leave (.of_eq rfl)
    · exact .leave (Stmt.below_of_mem_allSites h)

theorem Stmt.below_of_mem_allSites {around : List Address} {place : Address} {t : Site} :
    ∀ {ss : List Stmt} {i : Nat}, t ∈ Stmt.allSites around place i ss → t.Below around place
  | [], _, h => by simp [Stmt.allSites] at h
  | s :: ss, i, h => by
    rw [Stmt.allSites, List.mem_append] at h
    rcases h with h | h
    · exact (Stmt.below_of_mem_sites h).up
    · exact Stmt.below_of_mem_allSites h

theorem Stmt.below_of_mem_sites? {around : List Address} {place : Address} {t : Site} :
    ∀ {s : Option Stmt}, t ∈ Stmt.sites? around place s → t.Below around place
  | none, h => by simp [Stmt.sites?] at h
  | some s, h => Stmt.below_of_mem_sites (s := s) h

end

/-- The place is deeper than the procedures around it. -/
def Inside (around : List Address) (place : Address) : Prop :=
  ∀ a ∈ around, a.length < place.length

theorem Inside.child {around : List Address} {place : Address} (h : Inside around place)
    (i : Nat) : Inside around (i :: place) :=
  fun a ha => Nat.lt_succ_of_lt (h a ha)

theorem Inside.enter {around : List Address} {place : Address} (h : Inside around place)
    (i : Nat) : Inside (place :: around) (i :: place) := by
  intro a ha
  rcases List.mem_cons.mp ha with rfl | ha
  · exact Nat.lt_succ_self _
  · exact h.child i a ha

/-- No site so far stands in a procedure at or below `place`. -/
def Untouched (earlier : List Site) (place : Address) : Prop :=
  ∀ t ∈ earlier, ∀ a ∈ t.around, ¬ place <:+ a

namespace Untouched

variable {earlier later : List Site} {around : List Address} {place : Address}

theorem append (h : Untouched earlier place) (hl : Untouched later place) :
    Untouched (earlier ++ later) place := by
  intro t ht
  rcases List.mem_append.mp ht with ht | ht
  · exact h t ht
  · exact hl t ht

theorem child (h : Untouched earlier place) (i : Nat) : Untouched earlier (i :: place) :=
  fun t ht a ha hs => h t ht a ha ((List.suffix_cons i place).trans hs)

/-- The scope of a procedure is new before its parameters are met. -/
theorem introduction?_eq_none (h : Untouched earlier place) {t : Site} (ht : t ∈ earlier)
    (name : String) : t.introduction? (place :: around) name = none := by
  rw [Site.introduction?_eq_none_iff]
  intro what _ hscope _
  refine h t ht place ?_ List.suffix_rfl
  rw [hscope]
  exact List.mem_cons_self

/-- Sites in scopes around the place do not stand below it. -/
theorem of_inside (h : ∀ t ∈ later, Inside t.around place) : Untouched later place :=
  fun t ht a ha hs => absurd hs.length_le (Nat.not_le.mpr (h t ht a ha))

theorem expr (hin : Inside around place) (e : Expr) : Untouched (e.sites around) place :=
  of_inside fun _ ht => (Expr.of_mem_sites ht).1 ▸ hin

/-- The sites of one child do not stand below another. -/
theorem sibling {i j : Nat} (hin : Inside around (j :: place)) (hij : i ≠ j) (s : Stmt) :
    Untouched (s.sites around (i :: place)) (j :: place) := by
  intro t ht a ha hs
  rcases Stmt.below_of_mem_sites ht a ha with ha | hi
  · exact absurd hs.length_le (Nat.not_le.mpr (hin a ha))
  · -- Two suffixes of one length are equal.
    have hji := List.suffix_of_suffix_length_le hs hi (by simp)
    have e := hji.eq_of_length (by simp)
    exact hij (List.cons.inj e).1.symm

end Untouched

end Imperative
