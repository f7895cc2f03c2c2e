import Imperative.Symbol

/-!
# Scopes

A *scope* is a table of symbols with a name and a level.  A *scope chain* is a stack of
scopes, the current one on top of those that enclose it; the outermost has level 1.

Every scope holds the built-in types from the start.  Taking in a symbol stamps it with
the level of the scope and hides an earlier symbol of the same name in that scope; callers
who do not want that look first.  Looking a name up finds the latest symbol of that name
in the innermost scope that has one.
-/

namespace Imperative

/-- A table of symbols, latest first. -/
structure Scope where
  name : String
  level : Nat
  symbols : List Symbol
  deriving DecidableEq, Repr

namespace Scope

/-- The latest symbol of a name. -/
def find? (s : Scope) (name : String) : Option Symbol :=
  s.symbols.find? (·.name == name)

/-- Takes a symbol in, stamped with the level of the scope. -/
def define (s : Scope) (symbol : Symbol) : Scope :=
  { s with symbols := symbol.atLevel s.level :: s.symbols }

/-- The symbols of the built-in types, in the order in which a scope takes them in. -/
def builtins : List Symbol :=
  DataType.all.map (Symbol.type · 0)

/-- A new scope, which holds the built-in types. -/
def new (name : String) (level : Nat) : Scope :=
  builtins.foldl define ⟨name, level, []⟩

/-- The symbol just taken in is the one found under its name. -/
theorem find?_define_self (s : Scope) (symbol : Symbol) :
    (s.define symbol).find? symbol.name = some (symbol.atLevel s.level) := by
  simp [define, find?]

/-- Taking a symbol in changes no other name. -/
theorem find?_define_of_ne (s : Scope) (symbol : Symbol) {name : String}
    (h : name ≠ symbol.name) : (s.define symbol).find? name = s.find? name := by
  have : (symbol.name == name) = false := by simpa using fun e => h e.symm
  simp [define, find?, this]

end Scope

/-- A stack of scopes, the current one first. -/
structure ScopeChain where
  scopes : List Scope := []
  deriving DecidableEq, Repr, Inhabited

namespace ScopeChain

/-- The current scope. -/
def current? (c : ScopeChain) : Option Scope :=
  c.scopes.head?

/-- The level of the current scope, and 0 without one. -/
def level (c : ScopeChain) : Nat :=
  match c.current? with
  | none => 0
  | some s => s.level

/-- Opens a scope inside the current one. -/
def push (c : ScopeChain) (name : String) : ScopeChain :=
  ⟨.new name (c.level + 1) :: c.scopes⟩

/-- Leaves the current scope. -/
def pop? (c : ScopeChain) : Option (Scope × ScopeChain) :=
  match c.scopes with
  | [] => none
  | s :: rest => some (s, ⟨rest⟩)

/-- Takes a symbol into the current scope. -/
def define? (c : ScopeChain) (symbol : Symbol) : Option ScopeChain :=
  match c.scopes with
  | [] => none
  | s :: rest => some ⟨s.define symbol :: rest⟩

/-- The scope around the current one. -/
def enclosing? (c : ScopeChain) : Option Scope :=
  c.scopes.tail.head?

/-- Takes a symbol into the scope around the current one. -/
def defineEnclosing? (c : ScopeChain) (symbol : Symbol) : Option ScopeChain :=
  match c.scopes with
  | s :: t :: rest => some ⟨s :: t.define symbol :: rest⟩
  | _ => none

/-- The latest symbol of a name in the current scope. -/
def findCurrent? (c : ScopeChain) (name : String) : Option Symbol :=
  c.current?.bind (·.find? name)

/-- The latest symbol of a name in the innermost scope that has one. -/
def find? (c : ScopeChain) (name : String) : Option Symbol :=
  c.scopes.findSome? (·.find? name)

/-- Looks a name up in the current scope only, or from there outwards. -/
def lookup (c : ScopeChain) (name : String) (currentOnly : Bool) : Option Symbol :=
  if currentOnly then c.findCurrent? name else c.find? name

end ScopeChain

end Imperative
