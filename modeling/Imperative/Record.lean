import Imperative.Value

/-!
# Activation records

One invocation of the program or of a procedure keeps its variables in a *record*.  The
bindings of a record stand in the order of their names, every name once, so they are
printed as they stand.  Names are ordered by code points, which is also the order of their
UTF-8 bytes.
-/

namespace Imperative

/-- Names with their values, in ascending order of the names. -/
structure Bindings where
  entries : List (String × Value) := []
  ascending : entries.Pairwise (fun x y => x.1 < y.1) := by exact .nil

namespace Bindings

/-- No bindings at all. -/
def empty : Bindings := {}

instance : Inhabited Bindings := ⟨empty⟩

/-- The value bound to a name. -/
def get? (b : Bindings) (name : String) : Option Value :=
  b.entries.lookup name

/-- Binds a name in a list of bindings, in its place or over its earlier value. -/
def insertSorted (name : String) (value : Value) :
    List (String × Value) → List (String × Value)
  | [] => [(name, value)]
  | (other, held) :: rest =>
    if name < other then (name, value) :: (other, held) :: rest
    else if name = other then (name, value) :: rest
    else (other, held) :: insertSorted name value rest

/-- Every name in the new list was there before or is the one just bound. -/
theorem eq_or_mem_of_mem_insertSorted {name : String} {value : Value}
    {entries : List (String × Value)} {entry : String × Value}
    (h : entry ∈ insertSorted name value entries) : entry = (name, value) ∨ entry ∈ entries := by
  induction entries with
  | nil => exact .inl (List.mem_singleton.mp h)
  | cons first rest ih =>
    obtain ⟨other, held⟩ := first
    unfold insertSorted at h
    split at h
    · rcases List.mem_cons.mp h with h | h
      · exact .inl h
      · exact .inr h
    · split at h
      · rcases List.mem_cons.mp h with h | h
        · exact .inl h
        · exact .inr (List.mem_cons_of_mem _ h)
      · rcases List.mem_cons.mp h with h | h
        · exact .inr (h ▸ List.mem_cons_self)
        · rcases ih h with h | h
          · exact .inl h
          · exact .inr (List.mem_cons_of_mem _ h)

/-- Binding a name keeps the order of the names. -/
theorem ascending_insertSorted (name : String) (value : Value) {entries : List (String × Value)}
    (h : entries.Pairwise (fun x y => x.1 < y.1)) :
    (insertSorted name value entries).Pairwise (fun x y => x.1 < y.1) := by
  induction entries with
  | nil => exact List.pairwise_singleton _ _
  | cons first rest ih =>
    obtain ⟨other, held⟩ := first
    obtain ⟨below, sorted⟩ := List.pairwise_cons.mp h
    unfold insertSorted
    split
    · next hlt =>
      refine List.pairwise_cons.mpr ⟨fun entry hmem => ?_, h⟩
      rcases List.mem_cons.mp hmem with rfl | hmem
      · exact hlt
      · exact String.lt_trans hlt (below entry hmem)
    · next hle =>
      split
      · next heq =>
        subst heq
        exact List.pairwise_cons.mpr ⟨below, sorted⟩
      · next hne =>
        -- neither below nor equal, so the new name comes later
        have later : other < name := by
          rcases String.le_total name other with h' | h'
          · exact absurd (String.le_antisymm h' (String.not_lt.mp hle)) hne
          · exact Decidable.byContradiction fun h'' =>
              hne (String.le_antisymm (String.not_lt.mp h'') h')
        refine List.pairwise_cons.mpr ⟨fun entry hmem => ?_, ih sorted⟩
        rcases eq_or_mem_of_mem_insertSorted hmem with rfl | hmem
        · exact later
        · exact below entry hmem

/-- Binds a name, over its earlier value if it has one. -/
def set (b : Bindings) (name : String) (value : Value) : Bindings :=
  ⟨insertSorted name value b.entries, ascending_insertSorted name value b.ascending⟩

/-- Number of names bound. -/
def size (b : Bindings) : Nat :=
  b.entries.length

/-- The binding just made is the one found. -/
@[simp] theorem get?_set_self (b : Bindings) (name : String) (value : Value) :
    (b.set name value).get? name = some value := by
  obtain ⟨entries, sorted⟩ := b
  simp only [set, get?]
  clear sorted
  induction entries with
  | nil => simp [insertSorted]
  | cons entry rest ih =>
    obtain ⟨other, held⟩ := entry
    unfold insertSorted
    split
    · simp
    · split
      · simp
      · next h =>
        have : (name == other) = false := by simpa using h
        simp [List.lookup_cons, this, ih]

/-- Binding one name changes no other. -/
theorem get?_set_of_ne (b : Bindings) {name other : String} (value : Value)
    (h : other ≠ name) : (b.set name value).get? other = b.get? other := by
  obtain ⟨entries, sorted⟩ := b
  simp only [set, get?]
  clear sorted
  have hne : (other == name) = false := by simpa using h
  induction entries with
  | nil => simp [insertSorted, List.lookup_cons, hne]
  | cons entry rest ih =>
    obtain ⟨key, held⟩ := entry
    unfold insertSorted
    split
    · simp [List.lookup_cons, hne]
    · split
      · next hkey => subst hkey; simp [List.lookup_cons, hne]
      · simp [List.lookup_cons, ih]

end Bindings

/-- Whose invocation a record belongs to. -/
inductive RecordKind where
  | program | procedure
  deriving DecidableEq, Repr, Inhabited

/-- The kind as it is printed. -/
def RecordKind.text : RecordKind → String
  | program => "PROGRAM"
  | procedure => "PROCEDURE"

/-- The variables of one invocation, and what it has returned so far. -/
structure Record where
  name : String
  kind : RecordKind
  level : Nat
  bindings : Bindings := .empty
  returned : Option Value := none
  deriving Inhabited

namespace Record

/-- The value bound to a name. -/
def get? (r : Record) (name : String) : Option Value :=
  r.bindings.get? name

/-- Binds a name, over its earlier value if it has one. -/
def set (r : Record) (name : String) (value : Value) : Record :=
  { r with bindings := r.bindings.set name value }

/-- A name followed by blanks up to 20 characters; a longer name is not cut. -/
def padded (name : String) : String :=
  name ++ String.ofList (List.replicate (20 - name.length) ' ')

/-- The printed form of a record: a heading, then a line for each binding. -/
def display (r : Record) : String :=
  toString r.level ++ ": " ++ r.kind.text ++ " " ++ r.name ++ "\n"
    ++ String.join (r.bindings.entries.map fun entry =>
      "   " ++ padded entry.1 ++ ": " ++ entry.2.display ++ "\n")

end Record

end Imperative
