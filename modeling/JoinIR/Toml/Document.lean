/-
# JoinIR.Toml.Document — from lines to a table

The settings of a document belong to the table that the last header before them opened, and those
before any header to the document itself.
-/
import JoinIR.Toml.Line

namespace JoinIR.Toml

/-- A document under construction: its entries, and the path of the table that settings go to. -/
structure Draft where
  entries : Entries
  path : List String

namespace Draft

/-- The draft with one more line. -/
def add? (d : Draft) : Line → Option Draft
  | .header key => do return ⟨← d.entries.openTable? key, key.parts⟩
  | .element key => do return ⟨← d.entries.openElement? key, key.parts⟩
  | .setting key v => do
    return ⟨← Entries.enter false (fun _ es => es.assign? key v) d.path false d.entries, d.path⟩

end Draft

/-- The table that lines make. -/
def Entries.ofLines? (ls : List Line) : Option Entries :=
  (ls.foldlM Draft.add? ⟨[], []⟩).map Draft.entries

/-- The table that a text says, if the text is a valid document within the limits on how deep keys
and values nest and on how large numbers are. -/
def parse? (text : String) : Option Branches := do
  return Entries.branches (← Entries.ofLines? (← Line.ofText? text))

end JoinIR.Toml
