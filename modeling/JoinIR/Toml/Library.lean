/-
# JoinIR.Toml.Library — what a program leaves to its TOML library

A program that reads a document says only what it expects there: it **declares** its records, each
with named fields and with defaults, and its choices, each with named alternatives. The rest is the
work of a library: to parse the text, and to read a declared record, a declared choice or a truth
value from a part of the document. A `Library` is any such library; the program is written over it.

What is documented of a library is stated as `Library.Conforms`, with TOML 1.0 itself as an
argument. It says that documents are parsed, and that a record is read from a table entry by entry:
an entry that the declaration does not name is passed over, an entry that it names sets its field,
no field is set twice, and what is not set keeps its default. Nothing is assumed of records that are
given as anything but a table, of choices and of truth values.
-/
import JoinIR.Toml.Tree

namespace JoinIR.Toml

/-! ## Declarations -/

/-- A field of a record that is read from a document. -/
structure Field (S : Type) where
  name : String
  /-- What a value of the field makes of a record; nothing if the field has no such value. -/
  set? : Tree → Option (S → S)

/-- The field that is read by `read?` and put in place by `set`. -/
def Field.of {S α : Type} (name : String) (read? : Tree → Option α) (set : α → S → S) : Field S :=
  ⟨name, fun v => (read? v).map set⟩

/-- A record that is read from a document. -/
structure Declaration (S : Type) where
  fields : List (Field S)
  /-- The record that has the default of each field. -/
  standard : S

/-- A record while it is read from a table. -/
structure Filling (S : Type) where
  record : S
  /-- The names of the fields that are set. -/
  given : List String

namespace Declaration

variable {S : Type} (d : Declaration S)

/-- Reads one entry of a table. -/
def enter? (p : Filling S) (e : String × Tree) : Option (Filling S) :=
  match d.fields.find? (·.name == e.1) with
  | none => some p
  | some f =>
    if e.1 ∈ p.given then none else (f.set? e.2).map fun set => ⟨set p.record, e.1 :: p.given⟩

/-- The record that a table gives, read entry by entry. -/
def ofBranches? (bs : Branches) : Option S :=
  (bs.foldlM d.enter? ⟨d.standard, []⟩).map Filling.record

end Declaration

/-! ## Libraries -/

/-- What a program uses of a TOML library. -/
structure Library where
  /-- The table that a text says, if the library takes the text for a document. -/
  parse? : String → Option Branches
  /-- The truth value that a value is. -/
  boolean? : Tree → Option Bool
  /-- The one of some named alternatives that a value names. -/
  choice? : {α : Type} → List (String × α) → Tree → Option α
  /-- The record that a value is. -/
  record? : {S : Type} → Declaration S → Tree → Option S

namespace Library

/-- The record that the document in a text is. -/
def read? (L : Library) {S : Type} (d : Declaration S) (text : String) : Option S := do
  L.record? d (.table (← L.parse? text))

/-- What is documented of a library, where `Says text bs` stands for the rules of TOML 1.0: by them
the text is a valid document and says the table. -/
structure Conforms (L : Library) (Says : String → Branches → Prop) : Prop where
  /-- Every valid document is parsed to the table that it says. -/
  parse?_eq : ∀ {text : String} {bs : Branches}, Says text bs → L.parse? text = some bs
  /-- A record is read from a table entry by entry. -/
  record?_table : ∀ {S : Type} (d : Declaration S) (bs : Branches),
    L.record? d (.table bs) = d.ofBranches? bs

end Library

end JoinIR.Toml
