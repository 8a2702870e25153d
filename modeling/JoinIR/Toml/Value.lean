/-
# JoinIR.Toml.Value — a document while it is put together

While a document is read, a table remembers how it came to be, for that decides who may add to it:
one that a header opened, one that the path of a header passed through, one that a dotted key made,
and one written in braces, which is complete where it stands. An array made by repeated headers
(`tables`) is apart from an array written in brackets, which is complete too.

When the document is complete, all this is forgotten (`Value.tree`).
-/
import JoinIR.Toml.Tree

namespace JoinIR.Toml

/-- How a table came to be. -/
inductive Origin
  /-- A header named it. -/
  | header
  /-- A header named a table below it. -/
  | implied
  /-- A dotted key passed through it. -/
  | dotted
  /-- It was written in braces. -/
  | literal
  deriving DecidableEq, Repr

/-- A value of a document. -/
inductive Value
  | string (s : String)
  | integer (n : Int)
  | float (text : String)
  | boolean (b : Bool)
  | dateTime (text : String)
  | array (items : List Value)
  | table (origin : Origin) (entries : List (String × Value))
  /-- An array of tables, one for each of its headers. -/
  | tables (elements : List (List (String × Value)))
  deriving Repr

/-- The entries of a table. -/
abbrev Entries := List (String × Value)

mutual

/-- What a value says. -/
def Value.tree : Value → Tree
  | .string s => .string s
  | .integer n => .integer n
  | .float text => .float text
  | .boolean b => .boolean b
  | .dateTime text => .dateTime text
  | .array items => .array (Value.trees items)
  | .table _ entries => .table (Entries.branches entries)
  | .tables elements => .array (Entries.tables elements)

/-- What the items of an array say. -/
def Value.trees : List Value → List Tree
  | [] => []
  | v :: rest => v.tree :: Value.trees rest

/-- What the entries of a table say. -/
def Entries.branches : List (String × Value) → Branches
  | [] => []
  | (name, v) :: rest => (name, v.tree) :: Entries.branches rest

/-- What the elements of an array of tables say. -/
def Entries.tables : List (List (String × Value)) → List Tree
  | [] => []
  | es :: rest => .table (Entries.branches es) :: Entries.tables rest

end

end JoinIR.Toml
