import Imperative.Analysis.Resolution
import Imperative.Proofs.Sites

/-!
# Scopes that track sites

The walk that resolves names keeps a chain of tables.  `Tracks` says that the chain is
right: its tables belong to the scopes around the current place, and each of them holds
exactly the symbols of what the sites so far have brought into its scope, and the built-in
types.

* `Tracks.find?_eq`: a name is then found in the chain if and only if it refers to something,
  and what is found is the symbol of that.
* `Tracks.introduce`, `Tracks.enter`, `Tracks.skip`: bringing in a name that is new, entering
  a procedure, and passing a site that brings nothing in keep a chain right.
-/

namespace Imperative

/-! ## Symbols of sites -/

/-- The symbol of a procedure that was brought into a scope of the given level.  Its
parameters belong to the scope that it opens, one level deeper. -/
def ProcedureSymbol.introduced (name : String) (level : Nat) (id : ProcedureId)
    (params : List Param) (returnType : Option DataType) : ProcedureSymbol where
  id
  name
  params := params.map fun p => { name := p.name, type := p.type, level := level + 1 }
  returnType
  level

/-- The symbol under which a scope of the given level holds what was brought in. -/
def Introduced.symbol (name : String) (level : Nat) : Introduced → Symbol
  | .variable type => .var { name, type, level }
  | .procedure id params returnType =>
    .procedure (.introduced name level id params returnType)

/-- The symbol under which a scope of the given level holds a referent. -/
def Referent.symbol (level : Nat) : Referent → Symbol
  | .builtin type => .type type level
  | .introduced t what => what.symbol t.name level

@[simp] theorem Introduced.name_symbol (name : String) (level : Nat) (what : Introduced) :
    (what.symbol name level).name = name := by
  cases what <;> rfl

/-! ## Tables -/

/-- A new table holds the built-in types and nothing else. -/
theorem Scope.find?_new (name : String) (level : Nat) (x : String) :
    (Scope.new name level).find? x = (DataType.named? x).map (Symbol.type · level) := by
  rw [DataType.named?]
  -- The names of the types differ, so at most one of the three is looked for.
  by_cases hu : "UNIVERSAL" = x
  · subst hu; rfl
  by_cases hf : "FLOAT" = x
  · subst hf; rfl
  by_cases hi : "INTEGER" = x
  · subst hi; rfl
  simp [Scope.new, Scope.builtins, DataType.all, Scope.define, Scope.find?, Symbol.atLevel,
    Symbol.name, DataType.name, hu, hf, hi]

/-- The table `s` belongs to the scope `around` and holds what the sites so far have brought
into it. -/
structure Scope.Holds (s : Scope) (earlier : List Site) (around : List Address) : Prop where
  level_eq : s.level = around.length + 1
  find?_eq : ∀ name, s.find? name = (meaning? earlier around name).map (·.symbol s.level)

namespace Scope.Holds

variable {s : Scope} {earlier later : List Site} {around : List Address}

theorem isSome_find? (h : s.Holds earlier around) (name : String) :
    (s.find? name).isSome = (meaning? earlier around name).isSome := by
  rw [h.find?_eq, Option.isSome_map]

/-- Sites that bring nothing into the scope leave its table right. -/
theorem append (h : s.Holds earlier around)
    (hl : ∀ t ∈ later, ∀ name, t.introduction? around name = none) :
    s.Holds (earlier ++ later) around := by
  refine ⟨h.level_eq, fun name => ?_⟩
  rw [meaning?_append_of_forall fun t ht => hl t ht name]
  exact h.find?_eq name

/-- Taking the symbol of a new name in makes the table right for the site of that name. -/
theorem define {t : Site} {what : Introduced} (h : s.Holds earlier t.around)
    (ht : t.act = .introduce what) (hnew : meaning? earlier t.around t.name = none)
    (symbol : Symbol) (hsymbol : symbol.atLevel s.level = what.symbol t.name s.level) :
    (s.define symbol).Holds (earlier ++ [t]) t.around := by
  have hname : symbol.name = t.name := by
    have := congrArg Symbol.name hsymbol
    simpa using this
  refine ⟨h.level_eq, fun name => ?_⟩
  by_cases e : name = t.name
  · subst e
    rw [meaning?_append_self hnew ht, ← hname, Scope.find?_define_self, hsymbol]
    rfl
  · have hne : ∀ u ∈ [t], u.introduction? t.around name = none := by
      intro u hu
      obtain rfl := List.mem_singleton.mp hu
      rw [Site.introduction?_eq_none_iff]
      intro _ _ _ hn
      exact e hn.symm
    rw [meaning?_append_of_forall hne, Scope.find?_define_of_ne s symbol (by rwa [hname])]
    exact h.find?_eq name

/-- A new table is right for a scope into which nothing was brought yet. -/
theorem new {name : String} {level : Nat} (hlevel : level = around.length + 1)
    (h : ∀ t ∈ earlier, ∀ name, t.introduction? around name = none) :
    (Scope.new name level).Holds earlier around := by
  refine ⟨hlevel, fun x => ?_⟩
  have hx : earlier.findSome? (·.introduction? around x) = none :=
    List.findSome?_eq_none_iff.mpr fun t ht => h t ht x
  rw [meaning?, hx, Option.or_none, Option.map_map]
  exact Scope.find?_new name level x

/-- A new table is right for the scope of a procedure whose name has just been met. -/
theorem new_procedure {name : String} {t : Site} {place : Address}
    (hnew : Untouched earlier place) :
    (Scope.new name (t.around.length + 2)).Holds (earlier ++ [t]) (place :: t.around) := by
  refine .new rfl fun u hu x => ?_
  rcases List.mem_append.mp hu with hu | hu
  · exact hnew.introduction?_eq_none hu x
  · obtain rfl := List.mem_singleton.mp hu
    rw [Site.introduction?_eq_none_iff]
    intro _ _ e
    exact absurd e.symm (List.cons_ne_self place u.around)

end Scope.Holds

/-! ## Chains -/

/-- The tables of a chain belong to the scopes around a place and hold what the sites so far
have brought into them. -/
inductive Tracks (earlier : List Site) : List Address → List Scope → Prop
  | module {s : Scope} (h : s.Holds earlier []) : Tracks earlier [] [s]
  | procedure {s : Scope} {place : Address} {around : List Address} {rest : List Scope}
      (h : s.Holds earlier (place :: around)) (hr : Tracks earlier around rest) :
      Tracks earlier (place :: around) (s :: rest)

namespace Tracks

variable {earlier later : List Site} {around : List Address} {chain : List Scope}

/-- The current table of a right chain. -/
theorem exists_cons (h : Tracks earlier around chain) :
    ∃ s rest, chain = s :: rest ∧ s.Holds earlier around := by
  cases h with
  | module h => exact ⟨_, _, rfl, h⟩
  | procedure h _ => exact ⟨_, _, rfl, h⟩

/-- Sites of deeper scopes, and sites that bring nothing in, leave a chain right. -/
theorem append (h : Tracks earlier around chain)
    (hl : ∀ t ∈ later, ∀ scope, scope <:+ around → ∀ name, t.introduction? scope name = none) :
    Tracks (earlier ++ later) around chain := by
  induction h with
  | module h => exact .module (h.append fun t ht => hl t ht [] List.suffix_rfl)
  | @procedure s place around rest h _ ih =>
    refine .procedure (h.append fun t ht => hl t ht _ List.suffix_rfl) (ih fun t ht scope hs => ?_)
    exact hl t ht scope (hs.trans (List.suffix_cons place around))

/-- A site that brings nothing in leaves a chain right. -/
theorem skip (h : Tracks earlier around chain) {t : Site}
    (ht : ∀ what, t.act ≠ .introduce what) : Tracks (earlier ++ [t]) around chain := by
  refine h.append fun u hu scope _ name => ?_
  obtain rfl := List.mem_singleton.mp hu
  rw [Site.introduction?_eq_none_iff]
  intro what hw
  exact absurd hw (ht what)

/-- Sites of scopes that are deeper than the current one leave a chain right. -/
theorem append_of_deeper (h : Tracks earlier around chain)
    (hl : ∀ t ∈ later, around.length < t.around.length) :
    Tracks (earlier ++ later) around chain := by
  refine h.append fun t ht scope hs name => ?_
  rw [Site.introduction?_eq_none_iff]
  intro _ _ e _
  have h₁ := hl t ht
  have h₂ := hs.length_le
  rw [e] at h₁
  omega

/-- Bringing a name into the current scope changes the current table only. -/
theorem introduce {s s₁ : Scope} {rest : List Scope} {t : Site}
    (h : Tracks earlier t.around (s :: rest)) (hs : s₁.Holds (earlier ++ [t]) t.around) :
    Tracks (earlier ++ [t]) t.around (s₁ :: rest) := by
  generalize ha : t.around = around at h hs
  cases h with
  | module _ => exact .module hs
  | procedure _ hr =>
    refine .procedure hs (hr.append_of_deeper fun u hu => ?_)
    obtain rfl := List.mem_singleton.mp hu
    rw [ha, List.length_cons]
    omega

/-- Entering a procedure: the table of its scope holds its parameters, and the procedure itself
has come into the table of the scope around it. -/
theorem enter {s s₁ : Scope} {rest : List Scope} {t : Site} {id : ProcedureId}
    {params : List Param} {returnType : Option DataType} {place : Address}
    (h : Tracks earlier t.around (s :: rest))
    (ht : t.act = .introduce (.procedure id params returnType))
    (hnew : meaning? earlier t.around t.name = none)
    (hs : s₁.Holds (earlier ++ [t] ++ params.map (Param.site (place :: t.around)))
      (place :: t.around)) :
    Tracks (earlier ++ t :: params.map (Param.site (place :: t.around))) (place :: t.around)
      (s₁ :: s.define (.procedure
        { id, name := t.name, returnType
          params := params.map fun p =>
            { name := p.name, type := p.type, level := (place :: t.around).length + 1 } })
        :: rest) := by
  obtain ⟨_, _, ⟨rfl, rfl⟩, hholds⟩ := h.exists_cons
  have hout := h.introduce (hholds.define ht hnew (.procedure
    { id, name := t.name, returnType
      params := params.map fun p =>
        { name := p.name, type := p.type, level := (place :: t.around).length + 1 } })
    (by rw [hholds.level_eq]; rfl))
  rw [List.append_cons]
  refine .procedure hs (hout.append_of_deeper fun u hu => ?_)
  obtain ⟨p, _, rfl⟩ := List.mem_map.mp hu
  exact Nat.lt_succ_self _

/-- A name is found in a right chain if and only if it refers to something.  What is found is
the symbol of the referent, at the level of the scope into which it was brought. -/
theorem find?_eq (h : Tracks earlier around chain) (name : String) :
    ∃ level, chain.findSome? (·.find? name) = (referent? earlier around name).map (·.symbol level)
      ∧ ∀ t what, referent? earlier around name = some (.introduced t what) →
        level = t.around.length + 1 := by
  induction h with
  | @module s h =>
    rw [referent?_nil]
    refine ⟨s.level, ?_, fun t what ht => ?_⟩
    · rw [List.findSome?_singleton]
      exact h.find?_eq name
    · rw [(of_meaning?_eq ht).2.2.1]
      exact h.level_eq
  | @procedure s place around rest h _ ih =>
    obtain ⟨level, hfind, hlevel⟩ := ih
    rw [referent?_cons, List.findSome?_cons, h.find?_eq name]
    -- Either the current scope decides, or the search goes on outside it.
    cases hm : meaning? earlier (place :: around) name with
    | none => exact ⟨level, hfind, hlevel⟩
    | some r =>
      refine ⟨s.level, rfl, fun t what ht => ?_⟩
      rw [Option.some_or] at ht
      rw [ht] at hm
      rw [(of_meaning?_eq hm).2.2.1]
      exact h.level_eq

end Tracks

end Imperative
