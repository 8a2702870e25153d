/-
# JoinIR.Toml.Builtin — the library that settings are read with

The settings of the program are read with the library here. It parses the documents of TOML 1.0 but
for those that go beyond its limits: keys of 80 parts, values 80 deep, and decimal floats above the
largest double are refused.

Besides a table, a record may be an array, which gives its fields in the order of the declaration,
and a date, which gives none of them. A choice is the name of an alternative, or a table with that
name as its one key and nothing below it.
-/
import JoinIR.Toml.Document
import JoinIR.Toml.Library

namespace JoinIR.Toml.Builtin

/-- The truth value that a value is. -/
def boolean? : Tree → Option Bool
  | .boolean b => some b
  | _ => none

/-- The alternative that a value names. -/
def choice? {α : Type} (alternatives : List (String × α)) : Tree → Option α
  | .string s => alternatives.lookup s
  | .table [(s, .table [])] => alternatives.lookup s
  | .table [(s, .array [])] => alternatives.lookup s
  | _ => none

/-- The record that a value is. -/
def record? {S : Type} (d : Declaration S) : Tree → Option S
  | .table bs => d.ofBranches? bs
  | .array items =>
    (d.fields.zip items).foldlM (fun s (f, v) => (f.set? v).map (· s)) d.standard
  | .dateTime _ => some d.standard
  | _ => none

end JoinIR.Toml.Builtin

namespace JoinIR.Toml

/-- The library that settings are read with. -/
def builtin : Library := ⟨parse?, Builtin.boolean?, Builtin.choice?, Builtin.record?⟩

end JoinIR.Toml
