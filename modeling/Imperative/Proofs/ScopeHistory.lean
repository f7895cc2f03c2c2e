import Imperative.Proofs.ScopeTracking

/-!
# Scope chains and their histories

Scopes are opened, closed and given symbols, in any order, and all that is left of it is a chain of
tables.  Here a chain is compared with its *history*, the list of everything that was done to it, the
latest act first.

An act has a number, which is how many acts were done before it.  The history alone tells which acts
opened the scopes that are still open (`ScopeChain.opened`), and to which of them an act gives a symbol
(`ScopeChain.Act.gives?`); so it tells what a scope holds under a name, namely what it was last given
under that name, or else a built-in type (`ScopeChain.held?`).  No table is needed to say so.

* `ScopeChain.shown_after`: the tables of a chain are those that its history asks for.
* `ScopeChain.after_closed`: a scope that is opened and closed again leaves the chain as it was, if
  nothing in between gives a symbol to an older scope.
* `ScopeChain.history_decides`: what a chain is, and what is found in it.
-/

namespace Imperative

namespace ScopeChain

/-- What can be done with a chain of scopes. -/
inductive Act where
  | push (name : String)
  | pop
  | define (symbol : Symbol)
  | defineEnclosing (symbol : Symbol)
  | lookup (name : String) (currentOnly : Bool)
  deriving DecidableEq, Repr

/-- The chain behind an act.  An act that needs a scope which is not there does nothing. -/
def act (c : ScopeChain) : Act → ScopeChain
  | .push name => c.push name
  | .pop => (c.pop?.map Prod.snd).getD c
  | .define symbol => (c.define? symbol).getD c
  | .defineEnclosing symbol => (c.defineEnclosing? symbol).getD c
  | .lookup .. => c

/-- The chain behind a history that starts without scopes. -/
def after : List Act → ScopeChain
  | [] => {}
  | a :: earlier => (after earlier).act a

/-! ## What a history tells -/

/-- The numbers of the acts that opened the scopes which are open now, the current scope first. -/
def opened : List Act → List Nat
  | [] => []
  | .push _ :: earlier => earlier.length :: opened earlier
  | .pop :: earlier => (opened earlier).tail
  | .define _ :: earlier | .defineEnclosing _ :: earlier | .lookup .. :: earlier => opened earlier

/-- The symbol that an act gives to scope `i`, if it gives it one; `now` are the scopes that are open
then. -/
def Act.gives? (now : List Nat) (i : Nat) : Act → Option Symbol
  | .define symbol => if now.head? = some i then some symbol else none
  | .defineEnclosing symbol => if now.tail.head? = some i then some symbol else none
  | .push _ | .pop | .lookup .. => none

/-- The symbol that scope `i` was last given under a name. -/
def latest? (i : Nat) (name : String) : List Act → Option Symbol
  | [] => none
  | a :: earlier =>
    match a.gives? (opened earlier) i with
    | none => latest? i name earlier
    | some symbol => if symbol.name = name then some symbol else latest? i name earlier

/-- What scope `i` holds under a name: the symbol that it was last given, or else the built-in type
with which it was opened. -/
def held? (h : List Act) (i : Nat) (name : String) : Option Symbol :=
  (latest? i name h).or ((DataType.named? name).map (Symbol.type · 0))

/-- No act of `inner`, which follows the opening of a scope behind the history `h`, gives a symbol to a
scope that is older than this one. -/
def SparesOlder (h : List Act) (name : String) : (inner : List Act) → Prop
  | [] => True
  | a :: earlier => (∀ i < h.length, a.gives? (opened (earlier ++ .push name :: h)) i = none)
      ∧ SparesOlder h name earlier

instance SparesOlder.decidable (h : List Act) (name : String) :
    (inner : List Act) → Decidable (SparesOlder h name inner)
  | [] => inferInstanceAs (Decidable True)
  | _ :: earlier =>
    have := decidable h name earlier
    inferInstanceAs (Decidable (_ ∧ _))

variable {h inner : List Act} {a : Act} {i : Nat} {name : String} {symbol : Symbol}

theorem held?_cons_of_none (ha : a.gives? (opened h) i = none) (name : String) :
    held? (a :: h) i name = held? h i name := by
  simp only [held?, latest?, ha]

theorem held?_cons_of_some (ha : a.gives? (opened h) i = some symbol) (name : String) :
    held? (a :: h) i name = if symbol.name = name then some symbol else held? h i name := by
  by_cases hname : symbol.name = name
  · simp [held?, latest?, ha, hname]
  · simp [held?, latest?, ha, hname]

/-! ## Scopes that are open -/

theorem lt_length_of_mem_opened : ∀ {h : List Act} {i : Nat}, i ∈ opened h → i < h.length
  | .push _ :: h, i, hi => by
    rcases List.mem_cons.mp hi with rfl | hi
    · exact Nat.lt_succ_self _
    · exact Nat.lt_succ_of_lt (lt_length_of_mem_opened hi)
  | .pop :: h, i, hi => Nat.lt_succ_of_lt (lt_length_of_mem_opened (List.mem_of_mem_tail hi))
  | .define _ :: h, i, hi | .defineEnclosing _ :: h, i, hi | .lookup .. :: h, i, hi =>
    Nat.lt_succ_of_lt (lt_length_of_mem_opened (h := h) hi)

/-- A scope inside another one is younger. -/
theorem pairwise_opened : ∀ h : List Act, (opened h).Pairwise fun i j => j < i
  | [] => .nil
  | .push _ :: h => .cons (fun _ hj => lt_length_of_mem_opened hj) (pairwise_opened h)
  | .pop :: h => (pairwise_opened h).tail
  | .define _ :: h | .defineEnclosing _ :: h | .lookup .. :: h => pairwise_opened h

theorem mem_opened_of_gives? {now : List Nat} (ha : a.gives? now i = some symbol) : i ∈ now := by
  cases a with
  | define x =>
    simp only [Act.gives?, Option.ite_none_right_eq_some] at ha
    exact List.mem_of_mem_head? ha.1
  | defineEnclosing x =>
    simp only [Act.gives?, Option.ite_none_right_eq_some] at ha
    exact List.mem_of_mem_tail (List.mem_of_mem_head? ha.1)
  | push | pop | lookup => cases ha

/-- A scope is given nothing before it is opened. -/
theorem latest?_of_length_le : ∀ {h : List Act} {i : Nat}, h.length ≤ i → ∀ name, latest? i name h = none
  | [], _, _, _ => rfl
  | a :: h, i, hi, name => by
    have hi : h.length < i := hi
    have ha : a.gives? (opened h) i = none := by
      rw [Option.eq_none_iff_forall_ne_some]
      intro symbol hgives
      have := lt_length_of_mem_opened (mem_opened_of_gives? hgives)
      omega
    rw [latest?, ha]
    exact latest?_of_length_le hi.le name

/-! ## Tables against histories -/

/-- The table `s` is of the given level, and holds what scope `i` holds. -/
structure Shows (h : List Act) (level i : Nat) (s : Scope) : Prop where
  level_eq : s.level = level
  find?_eq : ∀ name, s.find? name = (held? h i name).map (Symbol.atLevel level)

/-- The tables are those of the given scopes, the current one first.  The level of a scope is the number
of scopes up to it. -/
inductive Shown (h : List Act) : List Nat → List Scope → Prop
  | nil : Shown h [] []
  | cons {i : Nat} {outer : List Nat} {s : Scope} {scopes : List Scope}
      (first : Shows h (outer.length + 1) i s) (rest : Shown h outer scopes) :
      Shown h (i :: outer) (s :: scopes)

section Tables

variable {level : Nat} {s : Scope} {now : List Nat} {scopes : List Scope}

theorem Shows.keep (hs : Shows h level i s) (ha : a.gives? (opened h) i = none) :
    Shows (a :: h) level i s := by
  refine ⟨hs.level_eq, fun name => ?_⟩
  rw [held?_cons_of_none ha, hs.find?_eq]

/-- A table that takes in what its scope is given stays right. -/
theorem Shows.define (hs : Shows h level i s) (ha : a.gives? (opened h) i = some symbol) :
    Shows (a :: h) level i (s.define symbol) := by
  refine ⟨hs.level_eq, fun name => ?_⟩
  rw [held?_cons_of_some ha]
  by_cases hname : symbol.name = name
  · rw [if_pos hname, ← hname, Scope.find?_define_self, hs.level_eq]
    rfl
  · rw [if_neg hname, Scope.find?_define_of_ne s symbol (Ne.symm hname), hs.find?_eq]

/-- A new table is right for the scope that is opened with it. -/
theorem Shows.new (h : List Act) (name : String) (level : Nat) :
    Shows (.push name :: h) level h.length (.new name level) := by
  refine ⟨rfl, fun x => ?_⟩
  rw [held?_cons_of_none rfl, held?, latest?_of_length_le (le_refl _), Option.none_or, Option.map_map]
  exact Scope.find?_new name level x

theorem Shown.keep (hs : Shown h now scopes) (ha : ∀ i ∈ now, a.gives? (opened h) i = none) :
    Shown (a :: h) now scopes := by
  induction hs with
  | nil => exact .nil
  | @cons i outer _ _ first rest ih =>
    refine .cons (first.keep (ha i (List.mem_cons_self ..))) (ih ?_)
    intro j hj
    exact ha j (List.mem_cons_of_mem _ hj)

theorem Shown.level_eq (hs : Shown h now scopes) : (ScopeChain.mk scopes).level = now.length := by
  cases hs with
  | nil => rfl
  | cons first _ => exact first.level_eq

end Tables

/-- What an act does to the tables is what it does to the history. -/
theorem Shown.act (hs : Shown h (opened h) (after h).scopes) (a : Act) :
    Shown (a :: h) (opened (a :: h)) (after (a :: h)).scopes := by
  have hyounger := pairwise_opened h
  rw [after]
  generalize after h = c at hs
  obtain ⟨scopes⟩ := c
  cases a with
  | push name =>
    refine .cons ?_ (hs.keep fun _ _ => rfl)
    rw [hs.level_eq]
    exact .new h name _
  | pop =>
    rw [opened]
    generalize opened h = now at hs
    cases hs with
    | nil => exact .nil
    | cons first rest => exact rest.keep fun _ _ => rfl
  | define symbol =>
    rw [opened]
    generalize hnow : opened h = now at hs hyounger
    cases hs with
    | nil => exact .nil
    | @cons i outer s scopes first rest =>
      have hfirst : (Act.define symbol).gives? (opened h) i = some symbol := by
        simp [Act.gives?, hnow]
      refine .cons (first.define hfirst) (rest.keep ?_)
      intro j hj
      have hne : i ≠ j := (List.rel_of_pairwise_cons hyounger hj).ne'
      simp [Act.gives?, hnow, hne]
  | defineEnclosing symbol =>
    rw [opened]
    generalize hnow : opened h = now at hs hyounger
    cases hs with
    | nil => exact .nil
    | @cons i outer s scopes first rest =>
      cases rest with
      | nil =>
        refine .cons (first.keep ?_) .nil
        simp [Act.gives?, hnow]
      | @cons j outer t scopes second rest =>
        have hij : j ≠ i := (List.rel_of_pairwise_cons hyounger (List.mem_cons_self ..)).ne
        have hsecond : (Act.defineEnclosing symbol).gives? (opened h) j = some symbol := by
          simp [Act.gives?, hnow]
        refine .cons (first.keep ?_) (.cons (second.define hsecond) (rest.keep ?_))
        · simp [Act.gives?, hnow, hij]
        · intro k hk
          have hne : j ≠ k := (List.rel_of_pairwise_cons hyounger.tail hk).ne'
          simp [Act.gives?, hnow, hne]
  | lookup name currentOnly => exact hs.keep fun _ _ => rfl

/-- **The tables of a chain** are those that its history asks for. -/
theorem shown_after (h : List Act) : Shown h (opened h) (after h).scopes := by
  induction h with
  | nil => exact .nil
  | cons a h ih => exact ih.act a

/-! ## What is found -/

theorem name_of_latest? : ∀ {h : List Act}, latest? i name h = some symbol → symbol.name = name
  | a :: h, hlatest => by
    rw [latest?] at hlatest
    split at hlatest
    · exact name_of_latest? hlatest
    · split at hlatest
      · next hname =>
        cases hlatest
        exact hname
      · exact name_of_latest? hlatest

/-- What is held under a name is of that name. -/
theorem name_of_held? (hheld : held? h i name = some symbol) : symbol.name = name := by
  rcases Option.or_eq_some_iff.mp hheld with hlatest | ⟨-, htype⟩
  · exact name_of_latest? hlatest
  · obtain ⟨type, hfound, rfl⟩ := Option.map_eq_some_iff.mp htype
    rw [DataType.named?] at hfound
    show type.name = name
    simpa using List.find?_some hfound

/-- The names of the built-in types are never free. -/
theorem isSome_held?_type (h : List Act) (i : Nat) (type : DataType) :
    (held? h i type.name).isSome := by
  have htype : (DataType.named? type.name).isSome := by cases type <;> decide
  rw [held?, Option.isSome_or, Option.isSome_map, htype, Bool.or_true]

section Found

variable {now : List Nat} {scopes : List Scope} {x : Symbol}

theorem Shows.of_find? {level : Nat} {s : Scope} (hs : Shows h level i s)
    (hx : s.find? name = some x) : x.name = name ∧ x.level = s.level := by
  rw [hs.find?_eq] at hx
  obtain ⟨symbol, hheld, rfl⟩ := Option.map_eq_some_iff.mp hx
  rw [Symbol.name_atLevel, Symbol.level_atLevel]
  exact ⟨name_of_held? hheld, hs.level_eq.symm⟩

theorem Shown.exists_shows (hs : Shown h now scopes) {s : Scope} (hmem : s ∈ scopes) :
    ∃ level i, Shows h level i s := by
  induction hs with
  | nil => cases hmem
  | cons first _ ih =>
    rcases List.mem_cons.mp hmem with rfl | hmem
    · exact ⟨_, _, first⟩
    · exact ih hmem

/-- Levels count the scopes from the outermost one. -/
theorem Shown.levels (hs : Shown h now scopes) :
    scopes.reverse.map Scope.level = List.range' 1 now.length := by
  induction hs with
  | nil => rfl
  | @cons i outer s scopes first _ ih =>
    have hlevel : s.level = 1 + 1 * outer.length := by
      have := first.level_eq
      omega
    rw [List.reverse_cons, List.map_append, ih, List.length_cons, List.range'_concat,
      List.map_singleton, hlevel]

/-- What is found from the current scope outwards is what the innermost scope holds that holds
anything. -/
theorem Shown.findSome?_iff (hs : Shown h now scopes) :
    scopes.findSome? (·.find? name) = some x ↔ ∃ (inside : List Nat) (i : Nat) (outside : List Nat),
      now = inside ++ i :: outside ∧ (∀ j ∈ inside, held? h j name = none)
        ∧ (held? h i name).map (Symbol.atLevel (outside.length + 1)) = some x := by
  induction hs with
  | nil => simp
  | @cons i outer s scopes first rest ih =>
    rw [List.findSome?_cons, first.find?_eq]
    cases hheld : held? h i name with
    | none =>
      simp only [Option.map_none]
      rw [ih]
      constructor
      · rintro ⟨inside, j, outside, rfl, hinside, hj⟩
        exact ⟨i :: inside, j, outside, rfl, List.forall_mem_cons.mpr ⟨hheld, hinside⟩, hj⟩
      · rintro ⟨inside, j, outside, hsplit, hinside, hj⟩
        cases inside with
        | nil =>
          obtain ⟨rfl, rfl⟩ := List.cons.inj hsplit
          rw [hheld] at hj
          cases hj
        | cons k inside =>
          obtain ⟨rfl, rfl⟩ := List.cons.inj hsplit
          exact ⟨inside, j, outside, rfl, (List.forall_mem_cons.mp hinside).2, hj⟩
    | some symbol =>
      simp only [Option.map_some]
      constructor
      · intro hx
        exact ⟨[], i, outer, rfl, List.forall_mem_nil _, by rw [hheld]; exact hx⟩
      · rintro ⟨inside, j, outside, hsplit, hinside, hj⟩
        cases inside with
        | nil =>
          obtain ⟨rfl, rfl⟩ := List.cons.inj hsplit
          rw [hheld] at hj
          exact hj
        | cons k inside =>
          obtain ⟨rfl, rfl⟩ := List.cons.inj hsplit
          rw [(List.forall_mem_cons.mp hinside).1] at hheld
          cases hheld

theorem Shown.head?_iff (hs : Shown h now scopes) :
    (scopes.head?.bind (·.find? name)) = some x ↔ ∃ (i : Nat) (outside : List Nat),
      now = i :: outside ∧ (held? h i name).map (Symbol.atLevel (outside.length + 1)) = some x := by
  cases hs with
  | nil => simp
  | cons first rest =>
    rw [List.head?_cons, Option.bind_some, first.find?_eq]
    constructor
    · intro hx
      exact ⟨_, _, rfl, hx⟩
    · rintro ⟨i, outside, hsplit, hx⟩
      obtain ⟨rfl, rfl⟩ := List.cons.inj hsplit
      exact hx

end Found

/-! ## Scopes that are closed again -/

/-- A scope that is open behind an act was open before, unless the act has opened it. -/
theorem mem_opened_of_cons (hi : i ∈ opened (a :: h)) : i ∈ opened h ∨ i = h.length := by
  cases a with
  | push name => exact (List.mem_cons.mp hi).symm
  | pop => exact .inl (List.mem_of_mem_tail hi)
  | define | defineEnclosing | lookup => exact .inl hi

/-- As long as a scope stays open, what was there before it lies untouched below it. -/
theorem exists_drop_after (hopen : h.length ∈ opened (inner ++ .push name :: h))
    (hspares : SparesOlder h name inner) :
    ∃ inside : List Nat, opened (inner ++ .push name :: h) = inside ++ h.length :: opened h
      ∧ (after (inner ++ .push name :: h)).scopes.drop (inside.length + 1) = (after h).scopes := by
  induction inner with
  | nil => exact ⟨[], rfl, rfl⟩
  | cons a inner ih =>
    have hbefore : h.length ∈ opened (inner ++ .push name :: h) := by
      rcases mem_opened_of_cons hopen with hmem | heq
      · exact hmem
      · have hlt : h.length < (inner ++ .push name :: h).length := by
          simp only [List.length_append, List.length_cons]
          omega
        exact absurd heq hlt.ne
    obtain ⟨inside, hnow, hscopes⟩ := ih hbefore hspares.2
    have ha := hspares.1
    rw [hnow] at ha
    rw [List.cons_append, after]
    rw [List.cons_append] at hopen
    generalize after (inner ++ .push name :: h) = c at hscopes
    obtain ⟨scopes⟩ := c
    cases a with
    | push x =>
      refine ⟨(inner ++ .push name :: h).length :: inside, ?_, hscopes⟩
      rw [opened, hnow, List.cons_append]
    | pop =>
      rw [opened, hnow] at hopen ⊢
      cases inside with
      | nil =>
        -- otherwise it would be the scope itself that is closed
        exact absurd (lt_length_of_mem_opened hopen) (Nat.lt_irrefl _)
      | cons i inside =>
        refine ⟨inside, rfl, ?_⟩
        cases scopes <;> exact hscopes
    | define x =>
      refine ⟨inside, hnow, ?_⟩
      cases scopes <;> exact hscopes
    | defineEnclosing x =>
      refine ⟨inside, hnow, ?_⟩
      match scopes, inside with
      | [], _ | [_], _ => exact hscopes
      | _ :: _ :: _, _ :: _ => exact hscopes
      | s :: t :: scopes, [] =>
        -- the scope around would be an older one
        exfalso
        have hshown := shown_after h
        rw [← hscopes] at hshown
        generalize hold : opened h = old at hshown
        cases hshown with
        | @cons j outer _ _ _ _ =>
          have hj : j < h.length := lt_length_of_mem_opened (by rw [hold]; exact List.mem_cons_self ..)
          have hgives := ha j hj
          simp [Act.gives?, hold] at hgives
    | lookup x currentOnly => exact ⟨inside, hnow, hscopes⟩

/-- **A scope that is closed again** leaves the chain as it was, if nothing in between gives a symbol to
an older scope. -/
theorem after_closed (hcurrent : (opened (inner ++ .push name :: h)).head? = some h.length)
    (hspares : SparesOlder h name inner) : after (.pop :: (inner ++ .push name :: h)) = after h := by
  obtain ⟨inside, hnow, hscopes⟩ := exists_drop_after (List.mem_of_mem_head? hcurrent) hspares
  have hyounger := pairwise_opened (inner ++ .push name :: h)
  rw [hnow] at hcurrent hyounger
  have hinside : inside = [] := by
    cases inside with
    | nil => rfl
    | cons i inside =>
      obtain rfl : i = h.length := Option.some.inj hcurrent
      have hmem : h.length ∈ inside ++ h.length :: opened h := by simp
      exact absurd (List.rel_of_pairwise_cons hyounger hmem) (Nat.lt_irrefl _)
  subst hinside
  rw [after]
  generalize after (inner ++ .push name :: h) = c at hscopes
  obtain ⟨scopes⟩ := c
  cases scopes with
  | nil => exact congrArg mk hscopes
  | cons s scopes => exact congrArg mk hscopes

/-- **A chain is what its history makes it.**  The levels of its scopes are counted from the outermost
one.  What a scope has under a name is of that name and of the level of the scope, and the built-in
types are in all of them.  From the current scope outwards a name is found in the innermost open scope
that holds something under it, and what is found is what this scope was last given under that name; in
the current scope alone it is what that scope was last given.  If a scope is opened and closed again,
and nothing in between gives a symbol to an older scope, then everything is found that was found
before. -/
theorem history_decides (h : List Act) :
    (after h).scopes.reverse.map Scope.level = List.range' 1 (opened h).length
      ∧ (∀ s ∈ (after h).scopes,
        (∀ name x, s.find? name = some x → x.name = name ∧ x.level = s.level)
        ∧ ∀ type : DataType, (s.find? type.name).isSome)
      ∧ (∀ name x, (after h).lookup name false = some x ↔
        ∃ (inside : List Nat) (i : Nat) (outside : List Nat), opened h = inside ++ i :: outside
          ∧ (∀ j ∈ inside, held? h j name = none)
          ∧ (held? h i name).map (Symbol.atLevel (outside.length + 1)) = some x)
      ∧ (∀ name x, (after h).lookup name true = some x ↔
        ∃ (i : Nat) (outside : List Nat), opened h = i :: outside
          ∧ (held? h i name).map (Symbol.atLevel (outside.length + 1)) = some x)
      ∧ ∀ (name : String) (inner : List Act),
        (opened (inner ++ .push name :: h)).head? = some h.length → SparesOlder h name inner →
        ∀ x currentOnly, (after (.pop :: (inner ++ .push name :: h))).lookup x currentOnly =
          (after h).lookup x currentOnly := by
  have hshown := shown_after h
  refine ⟨hshown.levels, fun s hs => ?_, fun name x => hshown.findSome?_iff,
    fun name x => hshown.head?_iff, fun name inner hcurrent hspares x currentOnly => ?_⟩
  · obtain ⟨level, i, hshows⟩ := hshown.exists_shows hs
    refine ⟨fun name x => hshows.of_find?, fun type => ?_⟩
    rw [hshows.find?_eq, Option.isSome_map]
    exact isSome_held?_type h i type
  · rw [after_closed hcurrent hspares]

/-- `x` is defined twice in the outer scope, behind a pop that finds nothing to close.  Inside, it is
hidden and hidden once more from a scope further in, and when the inner scopes are closed the second of
the outer symbols is found again. -/
theorem history_decides_hidden :
    ∃ h inner : List Act,
      h = [.define (.var ⟨"x", .float, 0⟩), .define (.var ⟨"x", .integer, 0⟩), .push "global", .pop]
      ∧ inner = [.pop, .lookup "x" false, .defineEnclosing (.var ⟨"x", .integer, 0⟩), .push "g",
        .define (.var ⟨"x", .universal, 0⟩)]
      ∧ (opened (inner ++ .push "f" :: h)).head? = some h.length ∧ SparesOlder h "f" inner
      ∧ (after h).lookup "x" false = some (.var ⟨"x", .float, 1⟩)
      ∧ (after (inner ++ .push "f" :: h)).lookup "x" false = some (.var ⟨"x", .integer, 2⟩)
      ∧ (after (.pop :: (inner ++ .push "f" :: h))).lookup "x" false =
        some (.var ⟨"x", .float, 1⟩) := by
  refine ⟨_, _, rfl, rfl, by decide +kernel, by decide +kernel, ?_, ?_, ?_⟩
  · exact ((history_decides _).2.2.1 "x" _).mpr ⟨[], 1, [], by decide +kernel⟩
  · exact ((history_decides _).2.2.1 "x" _).mpr ⟨[], 4, [1], by decide +kernel⟩
  · rw [(history_decides _).2.2.2.2 "f" _ (by decide +kernel) (by decide +kernel)]
    exact ((history_decides _).2.2.1 "x" _).mpr ⟨[], 1, [], by decide +kernel⟩

end ScopeChain

end Imperative
