import Imperative.Proofs.Verdicts
import Mathlib.Logic.Relation

/-!
# Statements where they stand

The same statement can stand in many places of a module.  An *occurrence* is a statement together
with its place: the procedures around it, its address, and the sites that a reader has met before.
The occurrences in a module are reached from the statements of its body by going down to the parts
of a statement any number of times (`Occurrence.Within`).

* `Occurrence.parts`: one step down.
* `Occurrence.induction`: what holds of an occurrence if it holds of its parts holds of all.  This
  is the induction over trees in the form in which places and scopes come along by themselves.
* `Module.Has.sites_eq`: the sites of an occurrence are a stretch of the sites of the module, and
  those before them are the ones that the occurrence knows of.
* `Occurrence.exists_introduces`: whatever is introduced is introduced by a declaration, as a
  parameter or as a procedure, and that statement occurs.
-/

namespace Imperative

/-- A statement inside the procedures `around`, at the address `place`, behind the sites
`earlier`. -/
structure Occurrence where
  around : List Address
  place : Address
  earlier : List Site
  stmt : Stmt

namespace Occurrence

/-- The sites of the statement. -/
def sites (o : Occurrence) : List Site :=
  o.stmt.sites o.around o.place

/-- Statements that stand side by side, from the `i`-th child of `place` on. -/
def row (around : List Address) (place : Address) :
    Nat → List Site → List Stmt → List Occurrence
  | _, _, [] => []
  | i, earlier, s :: ss =>
    ⟨around, i :: place, earlier, s⟩
      :: row around place (i + 1) (earlier ++ s.sites around (i :: place)) ss

/-- The sites that a procedure has in front of its body: its name, outside, and its parameters. -/
def header (around : List Address) (place : Address) (id : ProcedureId) (name : String)
    (params : List Param) (returnType : Option DataType) (span : Span) : List Site :=
  ⟨around, name, .introduce (.procedure id params returnType), span⟩
    :: params.map (Param.site (place :: around))

/-- The statements of which the statement is made, where they stand. -/
def parts (o : Occurrence) : List Occurrence :=
  match o.stmt with
  | .compound body _ => row o.around o.place 0 o.earlier body
  | .conditional test body otherwise _ =>
    ⟨o.around, 0 :: o.place, o.earlier ++ test.sites o.around, body⟩
      :: (otherwise.map fun s => ⟨o.around, 1 :: o.place,
        o.earlier ++ (test.sites o.around ++ body.sites o.around (0 :: o.place)), s⟩).toList
  | .whileLoop test body _ | .doWhile test body _ =>
    [⟨o.around, 0 :: o.place, o.earlier ++ test.sites o.around, body⟩]
  | .forLoop init test step body _ =>
    [⟨o.around, 0 :: o.place, o.earlier, init⟩,
      ⟨o.around, 1 :: o.place,
        o.earlier ++ (init.sites o.around (0 :: o.place) ++ test.sites o.around), step⟩,
      ⟨o.around, 2 :: o.place,
        o.earlier ++ (init.sites o.around (0 :: o.place) ++ test.sites o.around
          ++ step.sites o.around (1 :: o.place)), body⟩]
  | .procedure id name params returnType body span =>
    row (o.place :: o.around) o.place 0
      (o.earlier ++ header o.around o.place id name params returnType span) body
  | .declaration .. | .assign .. | .call .. | .giveBack .. | .breakLoop _ | .continueLoop _
  | .pass _ => []

/-- The second occurrence is the first or lies inside it. -/
def Within : Occurrence → Occurrence → Prop :=
  Relation.ReflTransGen fun o o' => o' ∈ o.parts

theorem Within.refl (o : Occurrence) : o.Within o :=
  Relation.ReflTransGen.refl

theorem Within.of_mem {o p o' : Occurrence} (hp : p ∈ o.parts) (h : p.Within o') : o.Within o' :=
  Relation.ReflTransGen.head hp h

/-- What lies inside an occurrence is the occurrence itself or lies inside one of its parts. -/
theorem Within.eq_or_exists_part {o w : Occurrence} (h : o.Within w) :
    o = w ∨ ∃ p ∈ o.parts, p.Within w := by
  rcases Relation.ReflTransGen.cases_head h with h | ⟨p, hp, h⟩
  · exact .inl h
  · exact .inr ⟨p, hp, h⟩

/-! ## Rows -/

section Row

variable {around : List Address} {place : Address} {i : Nat} {earlier : List Site}
  {ss : List Stmt} {o : Occurrence}

theorem stmt_mem_of_mem_row (h : o ∈ row around place i earlier ss) : o.stmt ∈ ss := by
  induction ss generalizing i earlier with
  | nil => cases h
  | cons s ss ih =>
    rcases List.mem_cons.mp h with rfl | h
    · exact List.mem_cons_self
    · exact List.mem_cons_of_mem s (ih h)

theorem around_of_mem_row (h : o ∈ row around place i earlier ss) : o.around = around := by
  induction ss generalizing i earlier with
  | nil => cases h
  | cons s ss ih =>
    rcases List.mem_cons.mp h with rfl | h
    · rfl
    · exact ih h

theorem place_of_mem_row (h : o ∈ row around place i earlier ss) :
    ∃ j, i ≤ j ∧ o.place = j :: place := by
  induction ss generalizing i earlier with
  | nil => cases h
  | cons s ss ih =>
    rcases List.mem_cons.mp h with rfl | h
    · exact ⟨i, Nat.le_refl i, rfl⟩
    · obtain ⟨j, hj, hplace⟩ := ih h
      exact ⟨j, Nat.le_of_succ_le hj, hplace⟩

theorem exists_mem_row_of_site {t : Site} (h : t ∈ Stmt.allSites around place i ss) :
    ∃ o ∈ row around place i earlier ss, t ∈ o.sites := by
  induction ss generalizing i earlier with
  | nil => cases h
  | cons s ss ih =>
    rw [Stmt.allSites, List.mem_append] at h
    rcases h with h | h
    · exact ⟨_, List.mem_cons_self, h⟩
    · obtain ⟨o, ho, ht⟩ := ih h
      exact ⟨o, List.mem_cons_of_mem _ ho, ht⟩

end Row

/-! ## The sites of a part -/

/-- The sites of the occurrence are a stretch of the given ones, and it knows of the sites
`earlier` and of those in front of the stretch. -/
def Covers (earlier sites : List Site) (o : Occurrence) : Prop :=
  ∃ before after, sites = before ++ o.sites ++ after ∧ o.earlier = earlier ++ before

theorem Covers.prepend {earlier first sites : List Site} {o : Occurrence}
    (h : o.Covers (earlier ++ first) sites) : o.Covers earlier (first ++ sites) := by
  obtain ⟨before, after, rfl, he⟩ := h
  exact ⟨first ++ before, after, by simp, by rw [he, List.append_assoc]⟩

theorem covers_of_mem_row {around : List Address} {place : Address} {i : Nat}
    {earlier : List Site} {ss : List Stmt} {o : Occurrence}
    (h : o ∈ row around place i earlier ss) :
    o.Covers earlier (Stmt.allSites around place i ss) := by
  induction ss generalizing i earlier with
  | nil => cases h
  | cons s ss ih =>
    rw [Stmt.allSites]
    rcases List.mem_cons.mp h with rfl | h
    · exact ⟨[], _, rfl, (List.append_nil _).symm⟩
    · exact (ih h).prepend

theorem covers_of_mem_parts {o p : Occurrence} (h : p ∈ o.parts) : p.Covers o.earlier o.sites := by
  obtain ⟨around, place, earlier, s⟩ := o
  cases s with
  | compound body => exact covers_of_mem_row h
  | conditional test body otherwise =>
    rcases List.mem_cons.mp h with rfl | h
    · exact ⟨test.sites around, _, rfl, rfl⟩
    · obtain ⟨s, rfl, rfl⟩ := Option.map_eq_some_iff.mp (Option.mem_toList.mp h)
      exact ⟨_, [], (List.append_nil _).symm, rfl⟩
  | whileLoop test body | doWhile test body =>
    obtain rfl := List.mem_singleton.mp h
    exact ⟨_, [], (List.append_nil _).symm, rfl⟩
  | forLoop init test step body =>
    simp only [parts, List.mem_cons, List.not_mem_nil, or_false] at h
    rcases h with rfl | rfl | rfl
    · refine ⟨[], test.sites around ++ step.sites around (1 :: place)
        ++ body.sites around (2 :: place), ?_, (List.append_nil _).symm⟩
      simp only [sites, Stmt.sites, List.append_assoc, List.nil_append]
    · exact ⟨_, _, rfl, rfl⟩
    · exact ⟨_, [], (List.append_nil _).symm, rfl⟩
  | procedure id name params returnType body span => exact (covers_of_mem_row h).prepend
  | _ => cases h

theorem Covers.trans {earlier sites : List Site} {o p : Occurrence} (h : o.Covers earlier sites)
    (hp : p.Covers o.earlier o.sites) : p.Covers earlier sites := by
  obtain ⟨before, after, rfl, he⟩ := h
  obtain ⟨before', after', hsites, he'⟩ := hp
  refine ⟨before ++ before', after' ++ after, ?_, ?_⟩
  · rw [hsites]
    simp
  · rw [he', he, List.append_assoc]

theorem Within.covers {o o' : Occurrence} (h : o.Within o') {earlier sites : List Site}
    (ho : o.Covers earlier sites) : o'.Covers earlier sites := by
  induction h with
  | refl => exact ho
  | tail _ hp ih => exact ih.trans (covers_of_mem_parts hp)

/-! ## Places -/

/-- A part stands one step below the whole. -/
theorem place_of_mem_parts {o p : Occurrence} (h : p ∈ o.parts) : ∃ j, p.place = j :: o.place := by
  obtain ⟨around, place, earlier, s⟩ := o
  cases s with
  | compound body =>
    obtain ⟨j, _, hj⟩ := place_of_mem_row h
    exact ⟨j, hj⟩
  | procedure =>
    obtain ⟨j, _, hj⟩ := place_of_mem_row h
    exact ⟨j, hj⟩
  | conditional test body otherwise =>
    rcases List.mem_cons.mp h with rfl | h
    · exact ⟨0, rfl⟩
    · obtain ⟨s, rfl, rfl⟩ := Option.map_eq_some_iff.mp (Option.mem_toList.mp h)
      exact ⟨1, rfl⟩
  | whileLoop | doWhile =>
    obtain rfl := List.mem_singleton.mp h
    exact ⟨0, rfl⟩
  | forLoop =>
    simp only [parts, List.mem_cons, List.not_mem_nil, or_false] at h
    rcases h with rfl | rfl | rfl
    · exact ⟨0, rfl⟩
    · exact ⟨1, rfl⟩
    · exact ⟨2, rfl⟩
  | _ => cases h

/-- What lies inside an occurrence has an address below it. -/
theorem Within.suffix {o o' : Occurrence} (h : o.Within o') : o.place <:+ o'.place := by
  induction h with
  | refl => exact List.suffix_rfl
  | tail _ hp ih =>
    obtain ⟨j, hj⟩ := place_of_mem_parts hp
    rw [hj]
    exact ih.trans (List.suffix_cons _ _)

/-! ## Induction -/

theorem sizeOf_lt_of_mem_parts {o p : Occurrence} (h : p ∈ o.parts) :
    sizeOf p.stmt < sizeOf o.stmt := by
  obtain ⟨around, place, earlier, s⟩ := o
  cases s with
  | compound body =>
    have := List.sizeOf_lt_of_mem (stmt_mem_of_mem_row h)
    simp only [Stmt.compound.sizeOf_spec]
    omega
  | procedure id name params returnType body =>
    have := List.sizeOf_lt_of_mem (stmt_mem_of_mem_row h)
    simp only [Stmt.procedure.sizeOf_spec]
    omega
  | conditional test body otherwise =>
    simp only [Stmt.conditional.sizeOf_spec]
    rcases List.mem_cons.mp h with rfl | h
    · dsimp only
      omega
    · obtain ⟨s, rfl, rfl⟩ := Option.map_eq_some_iff.mp (Option.mem_toList.mp h)
      simp only [Option.some.sizeOf_spec]
      omega
  | whileLoop | doWhile =>
    obtain rfl := List.mem_singleton.mp h
    simp only [Stmt.whileLoop.sizeOf_spec, Stmt.doWhile.sizeOf_spec]
    omega
  | forLoop =>
    simp only [parts, List.mem_cons, List.not_mem_nil, or_false] at h
    simp only [Stmt.forLoop.sizeOf_spec]
    rcases h with rfl | rfl | rfl <;> dsimp only <;> omega
  | _ => cases h

/-- **Induction over occurrences.**  What an occurrence has as soon as its parts have it, every
occurrence has. -/
theorem induction {P : Occurrence → Prop} (h : ∀ o, (∀ p ∈ o.parts, P p) → P o) (o : Occurrence) :
    P o :=
  h o fun p _ => induction h p
termination_by sizeOf o.stmt
decreasing_by exact sizeOf_lt_of_mem_parts ‹_›

/-! ## Introductions -/

/-- The site is where the statement itself introduces a name: it is a declaration, or it is a
procedure and introduces itself and its parameters. -/
def Introduces (o : Occurrence) (t : Site) : Prop :=
  (∃ type, t = ⟨o.around, t.name, .introduce (.variable type), t.span⟩
    ∧ o.stmt = .declaration t.name type t.span)
  ∨ ∃ id name params returnType body span, o.stmt = .procedure id name params returnType body span
    ∧ t ∈ header o.around o.place id name params returnType span

/-- A site that introduces a name belongs to a statement that does, or to one of its parts. -/
theorem introduces_or_exists_part {o : Occurrence} {t : Site} {what : Introduced} (h : t ∈ o.sites)
    (ht : t.act = .introduce what) : o.Introduces t ∨ ∃ p ∈ o.parts, t ∈ p.sites := by
  obtain ⟨around, place, earlier, s⟩ := o
  have noExpr : ∀ e : Expr, t ∉ e.sites around := fun e he => (Expr.of_mem_sites he).2 what ht
  have noArgs : ∀ es : List Expr, t ∉ Expr.allSites around es :=
    fun es he => (Expr.of_mem_allSites he).2 what ht
  cases s with
  | compound body => exact .inr (exists_mem_row_of_site h)
  | declaration name type span =>
    obtain rfl := List.mem_singleton.mp h
    exact .inl (.inl ⟨type, rfl, rfl⟩)
  | assign name value span =>
    rcases List.mem_cons.mp h with rfl | h
    · cases ht
    · exact absurd h (noExpr value)
  | call name args mark span =>
    rcases List.mem_cons.mp h with rfl | h
    · cases ht
    · exact absurd h (noArgs args)
  | conditional test body otherwise =>
    rw [sites, Stmt.sites, List.mem_append, List.mem_append] at h
    rcases h with (h | h) | h
    · exact absurd h (noExpr test)
    · exact .inr ⟨_, List.mem_cons_self, h⟩
    · cases otherwise with
      | none => cases h
      | some s => exact .inr ⟨_, List.mem_cons_of_mem _ List.mem_cons_self, h⟩
  | whileLoop test body | doWhile test body =>
    rw [sites, Stmt.sites, List.mem_append] at h
    rcases h with h | h
    · exact absurd h (noExpr test)
    · exact .inr ⟨_, List.mem_cons_self, h⟩
  | forLoop init test step body =>
    rw [sites, Stmt.sites, List.mem_append, List.mem_append, List.mem_append] at h
    rcases h with ((h | h) | h) | h
    · exact .inr ⟨_, List.mem_cons_self, h⟩
    · exact absurd h (noExpr test)
    · exact .inr ⟨_, List.mem_cons_of_mem _ List.mem_cons_self, h⟩
    · exact .inr ⟨_, List.mem_cons_of_mem _ (List.mem_cons_of_mem _ List.mem_cons_self), h⟩
  | giveBack value => exact absurd h (noExpr value)
  | procedure id name params returnType body span =>
    rw [sites, Stmt.sites, List.mem_append] at h
    rcases h with h | h
    · exact .inl (.inr ⟨id, name, params, returnType, body, span, rfl, h⟩)
    · exact .inr (exists_mem_row_of_site h)
  | breakLoop | continueLoop | pass => cases h

/-- Whatever is introduced in a statement is introduced by a statement that occurs in it. -/
theorem exists_introduces {o : Occurrence} {t : Site} {what : Introduced} (h : t ∈ o.sites)
    (ht : t.act = .introduce what) : ∃ o', o.Within o' ∧ o'.Introduces t := by
  induction o using induction with
  | h o ih =>
    rcases introduces_or_exists_part h ht with h | ⟨p, hp, h⟩
    · exact ⟨o, .refl o, h⟩
    · obtain ⟨o', hwithin, hintro⟩ := ih p hp h
      exact ⟨o', .of_mem hp hwithin, hintro⟩

end Occurrence

/-! ## Modules -/

/-- The statements of the body of the module, where they stand. -/
def Module.items (m : Module) : List Occurrence :=
  Occurrence.row [] [] 0 [] m.body

/-- The statement occurs in the module. -/
def Module.Has (m : Module) (o : Occurrence) : Prop :=
  ∃ item ∈ m.items, item.Within o

theorem Module.Has.within {m : Module} {o o' : Occurrence} (h : m.Has o) (hw : o.Within o') :
    m.Has o' := by
  obtain ⟨item, hitem, hwithin⟩ := h
  exact ⟨item, hitem, hwithin.trans hw⟩

/-- The sites of an occurrence stand in the module right behind those that it knows of. -/
theorem Module.Has.sites_eq {m : Module} {o : Occurrence} (h : m.Has o) :
    ∃ after, m.sites = o.earlier ++ o.sites ++ after := by
  obtain ⟨item, hitem, hwithin⟩ := h
  obtain ⟨before, after, hsites, hearlier⟩ :=
    hwithin.covers (Occurrence.covers_of_mem_row hitem)
  rw [hearlier]
  exact ⟨after, hsites⟩

/-- In a module whose sites are in order, so are those of an occurrence, given what it knows of. -/
theorem Module.Has.judge_sites {m : Module} {o : Occurrence} (h : m.Has o)
    (hok : judge [] m.sites = .ok ()) : judge o.earlier o.sites = .ok () := by
  obtain ⟨after, hsites⟩ := h.sites_eq
  rw [hsites, judge_append_eq_ok_iff, judge_append_eq_ok_iff] at hok
  exact hok.1.2

/-- Whatever is introduced in a module is introduced by a statement that occurs in it. -/
theorem Module.exists_introduces {m : Module} {t : Site} {what : Introduced} (h : t ∈ m.sites)
    (ht : t.act = .introduce what) : ∃ o, m.Has o ∧ o.Introduces t := by
  obtain ⟨item, hitem, hsite⟩ := Occurrence.exists_mem_row_of_site h
  obtain ⟨o, hwithin, hintro⟩ := Occurrence.exists_introduces hsite ht
  exact ⟨o, ⟨item, hitem, hwithin⟩, hintro⟩

end Imperative
