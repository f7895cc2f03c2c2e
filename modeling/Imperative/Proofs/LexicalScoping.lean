import Imperative.Proofs.NameResolution

/-!
# Lexical scoping

What a resolver says about a module, in terms of the sites of the module alone: it accepts
the module if and only if every site fits the sites before it, it reports the first that does
not, and in a module that it accepts every call is marked with the symbol of the procedure in
the innermost scope around it that knows the name.

* `of_referent?_eq`: a referent is in the innermost scope in which the name means something.
* `Resolver.exists_definition`: a call that was marked has its definition among the sites.
* `Resolver.introduced_once`: a scope introduces a name only once.  Without it, two sites of
  one scope could compete for the name.
-/

namespace Imperative

theorem Site.mem_take_iff {sites : List Site} {i : Nat} {t : Site} :
    t ∈ sites.take i ↔ ∃ j, j < i ∧ sites[j]? = some t := by
  rw [List.mem_iff_getElem?]
  refine exists_congr fun j => ?_
  rw [List.getElem?_take]
  by_cases h : j < i
  · simp [h]
  · simp [h]

/-- What a name refers to was brought into a scope around the place, and means nothing in
the scopes further in. -/
theorem of_referent?_eq {earlier : List Site} {around : List Address} {name : String}
    {t : Site} {what : Introduced}
    (h : referent? earlier around name = some (.introduced t what)) :
    t.around <:+ around ∧ meaning? earlier t.around name = some (.introduced t what)
      ∧ ∀ scope, scope <:+ around → t.around.length < scope.length →
        meaning? earlier scope name = none := by
  induction around with
  | nil =>
    rw [referent?_nil] at h
    have hscope := (of_meaning?_eq h).2.2.1
    rw [hscope]
    refine ⟨List.suffix_rfl, h, fun scope hs hlt => ?_⟩
    have := hs.length_le
    omega
  | cons place around ih =>
    rw [referent?_cons] at h
    cases hm : meaning? earlier (place :: around) name with
    | some r =>
      rw [hm, Option.some_or] at h
      rw [h] at hm
      have hscope := (of_meaning?_eq hm).2.2.1
      rw [hscope]
      refine ⟨List.suffix_rfl, hm, fun scope hs hlt => ?_⟩
      have := hs.length_le
      omega
    | none =>
      rw [hm, Option.none_or] at h
      obtain ⟨hsuffix, hmean, hinner⟩ := ih h
      refine ⟨hsuffix.trans (List.suffix_cons _ _), hmean, fun scope hs hlt => ?_⟩
      rcases List.suffix_cons_iff.mp hs with rfl | hs
      · exact hm
      · exact hinner scope hs hlt

/-- A site that brings something in carries no mark, so it is the same in two lists that
differ in marks only. -/
theorem Site.getElem?_of_blank {xs ys : List Site} (h : xs.map Site.blank = ys.map Site.blank)
    {i : Nat} {t : Site} {what : Introduced} (ht : t.act = .introduce what)
    (hi : ys[i]? = some t) : xs[i]? = some t := by
  have hx : (xs.map Site.blank)[i]? = some t.blank := by
    rw [h, List.getElem?_map, hi]
    rfl
  have ht' : t.blank = t := by rw [Site.blank, ht]
  rw [List.getElem?_map] at hx
  obtain ⟨u, hu, hblank⟩ := Option.map_eq_some_iff.mp hx
  rw [hu]
  rw [ht'] at hblank
  rw [Site.blank] at hblank
  split at hblank
  · rw [← hblank] at ht
    cases ht
  · rw [hblank]

/-- A resolver accepts a module if and only if every name in it fits the names before it;
otherwise it reports what is wrong with the first that does not, at the place where that
stands. -/
theorem Resolver.verdict_iff_fits (r : Resolver) (m : Module) :
    ((r.resolve m).1.2 = .ok () ↔
        ∀ (i : Nat) (t : Site), m.sites[i]? = some t → t.Fits (m.sites.take i))
      ∧ ∀ e, (r.resolve m).1.2 = .error e ↔
        ∃ (i : Nat) (t : Site), m.sites[i]? = some t
          ∧ (∀ (j : Nat) (u : Site), j < i → m.sites[j]? = some u → u.Fits (m.sites.take j))
          ∧ ∃ cause, t.complaint? (m.sites.take i) = some cause ∧ e = ⟨cause, t.span⟩ := by
  obtain ⟨r', h⟩ := m.walked_resolve r
  rw [h.verdict_eq]
  exact ⟨judge_eq_ok_iff, fun e => judge_eq_error_iff⟩

/-- In a module that was accepted, a call refers to a procedure that was introduced before
it, and is marked with the symbol of that procedure. -/
theorem Resolver.exists_definition {r : Resolver} {m : Module}
    (h : (r.resolve m).1.2 = .ok ()) {i : Nat} {t : Site} {count : Nat}
    {mark : Option ProcedureSymbol} (hi : (r.resolve m).1.1.sites[i]? = some t)
    (ht : t.act = .call count mark) :
    ∃ (j : Nat) (d : Site) (id : ProcedureId) (params : List Param)
      (returnType : Option DataType), j < i ∧ (r.resolve m).1.1.sites[j]? = some d
        ∧ d.act = .introduce (.procedure id params returnType)
        ∧ referent? (m.sites.take i) t.around t.name =
          some (.introduced d (.procedure id params returnType))
        ∧ params.length = count
        ∧ mark = some (.introduced d.name (d.around.length + 1) id params returnType) := by
  obtain ⟨r', hwalk⟩ := m.walked_resolve r
  obtain ⟨d, id, params, returnType, href, hcount, hmark⟩ :=
    hwalk.marked h i t hi count mark ht
  rw [List.nil_append] at href
  obtain ⟨hd, hact, _, _⟩ := of_meaning?_eq (of_referent?_eq href).2.1
  obtain ⟨j, hlt, hj⟩ := Site.mem_take_iff.mp hd
  exact ⟨j, d, id, params, returnType, hlt, Site.getElem?_of_blank hwalk.blank_eq hact hj,
    hact, href, hcount, hmark⟩

/-- In one scope of a module that was accepted, a name is introduced only once. -/
theorem Resolver.introduced_once {r : Resolver} {m : Module} (h : (r.resolve m).1.2 = .ok ())
    {j k : Nat} {t u : Site} {what what' : Introduced} (hj : m.sites[j]? = some t)
    (hk : m.sites[k]? = some u) (ht : t.act = .introduce what) (hu : u.act = .introduce what')
    (hscope : t.around = u.around) (hname : t.name = u.name) : ¬ j < k := by
  obtain ⟨r', hwalk⟩ := m.walked_resolve r
  rw [hwalk.verdict_eq, judge_eq_ok_iff] at h
  have hfits := h k u hk
  rw [Site.Fits, hu] at hfits
  intro hlt
  exact hfits.2 t (Site.mem_take_iff.mpr ⟨j, hlt, hj⟩) what ht hscope hname

/-- In a module that was accepted, every call is marked with the symbol of the procedure that
lexical scoping selects: of all sites before the call that bring its name into a scope around
it, the definition `d` is the one in the innermost scope, and all others stand further out.
The symbol gives the number, the name, the parameters and the return type of the definition,
and the level of the scope that holds it. -/
theorem Resolver.call_marked_lexically (r : Resolver) (m : Module)
    (h : (r.resolve m).1.2 = .ok ()) :
    let sites := (r.resolve m).1.1.sites
    ∀ (i : Nat) (t : Site) (count : Nat) (mark : Option ProcedureSymbol),
      sites[i]? = some t → t.act = .call count mark →
      ∃ (j : Nat) (d : Site) (id : ProcedureId) (params : List Param)
        (returnType : Option DataType) (symbol : ProcedureSymbol),
        j < i ∧ sites[j]? = some d ∧ d.act = .introduce (.procedure id params returnType)
        ∧ d.name = t.name ∧ d.around <:+ t.around
        ∧ (∀ (k : Nat) (u : Site) (what : Introduced), k < i → sites[k]? = some u →
          u.act = .introduce what → u.name = t.name → u.around <:+ t.around →
          k = j ∨ u.around.length < d.around.length)
        ∧ mark = some symbol
        ∧ symbol.id = id ∧ symbol.name = d.name ∧ symbol.returnType = returnType
        ∧ symbol.params.map (fun v => (v.name, v.type)) =
          params.map (fun p => (p.name, p.type))
        ∧ symbol.level = 1 + d.around.length
        ∧ (∀ v ∈ symbol.params, v.level = symbol.level + 1)
        ∧ count = params.length := by
  intro sites i t count mark hi ht
  obtain ⟨j, d, id, params, returnType, hlt, hj, hd, href, hcount, hmark⟩ :=
    Resolver.exists_definition h hi ht
  obtain ⟨hsuffix, hmean, hinner⟩ := of_referent?_eq href
  obtain ⟨_, _, _, hname⟩ := of_meaning?_eq hmean
  obtain ⟨r', hwalk⟩ := m.walked_resolve r
  refine ⟨j, d, id, params, returnType, _, hlt, hj, hd, hname, hsuffix, ?_, hmark, rfl, rfl, rfl,
    ?_, ?_, ?_, hcount.symm⟩
  · intro k u what hk hu hact huname husuffix
    have hk' : m.sites[k]? = some u := Site.getElem?_of_blank hwalk.blank_eq.symm hact hu
    have hj' : m.sites[j]? = some d := Site.getElem?_of_blank hwalk.blank_eq.symm hd hj
    rcases Nat.lt_trichotomy u.around.length d.around.length with hlen | hlen | hlen
    · exact .inr hlen
    · -- Two scopes around one place that are as deep as each other are the same.
      have hscope : u.around = d.around :=
        (List.suffix_of_suffix_length_le husuffix hsuffix (by omega)).eq_of_length hlen
      have h₁ := Resolver.introduced_once h hj' hk' hd hact hscope.symm (by rw [hname, huname])
      have h₂ := Resolver.introduced_once h hk' hj' hact hd hscope (by rw [hname, huname])
      exact .inl (by omega)
    · -- In a scope further in, the name would have had a meaning.
      have hnone := hinner u.around husuffix hlen
      rw [meaning?_eq_none_iff] at hnone
      exact absurd huname (hnone.2 u (Site.mem_take_iff.mpr ⟨k, hk, hk'⟩) what hact rfl)
  · simp [ProcedureSymbol.introduced]
  · simp [ProcedureSymbol.introduced, Nat.add_comm]
  · intro v hv
    obtain ⟨p, _, rfl⟩ := List.mem_map.mp hv
    rfl

/-- A procedure `p` with a parameter, which holds another `p` without one and calls it. -/
def Module.shadowing : Module where
  body :=
    [.procedure ⟨0⟩ "p" [⟨"x", .integer, default⟩] none
      [.procedure ⟨1⟩ "p" [] none [] default, .call "p" [] none default] default]

/-- The call refers to the inner procedure. -/
theorem Resolver.call_marked_lexically_shadowing :
    (({} : Resolver).resolve .shadowing).1.2 = .ok ()
      ∧ ∃ (j : Nat) (d : Site) (symbol : ProcedureSymbol), j < 3
        ∧ (({} : Resolver).resolve .shadowing).1.1.sites[j]? = some d
        ∧ d.name = "p" ∧ d.around.length = 1
        ∧ (({} : Resolver).resolve .shadowing).1.1.sites[3]? =
          some ⟨[[0]], "p", .call 0 (some symbol), default⟩
        ∧ symbol.level = 2 := by
  have h : (({} : Resolver).resolve .shadowing).1.2 = .ok () := rfl
  have h₃ : (({} : Resolver).resolve .shadowing).1.1.sites[3]? =
      some ⟨[[0]], "p", .call 0 (some ⟨⟨1⟩, "p", [], none, 2⟩), default⟩ := rfl
  obtain ⟨j, d, _, _, _, _, hj, hd, _, hname, _, _, ⟨rfl⟩, _, _, _, _, hlevel, _⟩ :=
    Resolver.call_marked_lexically {} .shadowing h 3 _ _ _ h₃ rfl
  have hdepth : 2 = 1 + d.around.length := hlevel
  exact ⟨h, j, d, _, hj, hd, hname, by omega, h₃, rfl⟩

end Imperative
