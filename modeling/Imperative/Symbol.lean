/-!
# Symbols

What a name can stand for: one of the three built-in types, a variable, or a procedure.
A symbol carries the level of the scope that holds it, where the outermost scope has
level 1; a symbol that no scope holds yet has level 0.
-/

namespace Imperative

/-- The types of the language, written `int`, `float` and `var` in a source text. -/
inductive DataType where
  | integer | float | universal
  deriving DecidableEq, Repr, Inhabited

namespace DataType

/-- The name under which every scope holds the type. -/
def name : DataType → String
  | integer => "INTEGER"
  | float => "FLOAT"
  | universal => "UNIVERSAL"

/-- The types in the order in which a new scope takes them in. -/
def all : List DataType :=
  [universal, float, integer]

end DataType

/-- Tells procedure definitions apart within what one parser reads. -/
structure ProcedureId where
  index : Nat
  deriving DecidableEq, Repr, Inhabited

/-- A variable or parameter. -/
structure VariableSymbol where
  name : String
  type : DataType
  level : Nat := 0
  deriving DecidableEq, Repr

/-- A procedure as its callers see it; `id` leads back to the definition. -/
structure ProcedureSymbol where
  id : ProcedureId
  name : String
  params : List VariableSymbol
  returnType : Option DataType
  level : Nat := 0
  deriving DecidableEq, Repr

/-- What a name stands for. -/
inductive Symbol where
  | type (type : DataType) (level : Nat)
  | var (symbol : VariableSymbol)
  | procedure (symbol : ProcedureSymbol)
  deriving DecidableEq, Repr

namespace Symbol

/-- The name under which a scope holds the symbol. -/
def name : Symbol → String
  | type t _ => t.name
  | var v => v.name
  | procedure p => p.name

/-- The level of the scope that holds the symbol. -/
def level : Symbol → Nat
  | type _ l => l
  | var v => v.level
  | procedure p => p.level

/-- The same symbol, held by a scope of level `l`. -/
def atLevel (l : Nat) : Symbol → Symbol
  | type t _ => type t l
  | var v => var { v with level := l }
  | procedure p => procedure { p with level := l }

/-- The printed form of a symbol.  It does not show the level. -/
def display : Symbol → String
  | type t _ => "<BuiltinTypeSymbol(name='" ++ t.name ++ "')>"
  | var v => "<VarSymbol(name='" ++ v.name ++ "', type='" ++ v.type.name ++ "')>"
  | procedure p =>
    "<ProcedureSymbol(name=" ++ p.name ++ ", parameters=["
      ++ ", ".intercalate (p.params.map fun v => v.name ++ ": " ++ v.type.name) ++ "])>"

@[simp] theorem name_atLevel (l : Nat) (s : Symbol) : (s.atLevel l).name = s.name := by
  cases s <;> rfl

@[simp] theorem level_atLevel (l : Nat) (s : Symbol) : (s.atLevel l).level = l := by
  cases s <;> rfl

end Symbol

end Imperative
