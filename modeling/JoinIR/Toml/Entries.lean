/-
# JoinIR.Toml.Entries — putting tables together

Who may add what to which table. A path leads from a table inward; a table that is missing on the
way is made there, and an array of tables is entered at its last element.

* Nobody enters a table in braces, an array in brackets, or a plain value.
* A dotted key does not enter a table that a header opened, and it adds only to a table that dotted
  keys made; a key without a dot adds only to a table that they did not make.
* No name is given twice.
* A header opens a table that is new or was only implied so far; an array of tables is extended by
  its headers alone.
-/
import JoinIR.Toml.Key
import JoinIR.Toml.Value

namespace JoinIR.Toml.Entries

/-! ## One table -/

/-- The entries with the value of a name replaced, or added at the end. -/
def put (name : String) (v : Value) : Entries → Entries
  | [] => [(name, v)]
  | e :: rest => if e.1 = name then (name, v) :: rest else e :: put name v rest

/-! ## Along a path -/

/-- Acts on the table at the end of a path. The action learns whether dotted keys made that table;
`here` says so of the table that the path starts from. -/
def enter (dotted : Bool) (act : Bool → Entries → Option Entries) :
    List String → (here : Bool) → Entries → Option Entries
  | [], here, es => act here es
  | part :: path, _, es =>
    match es.lookup part with
    | none => do
      let origin : Origin := if dotted then .dotted else .implied
      return put part (.table origin (← enter dotted act path dotted [])) es
    | some (.table origin sub) =>
      if origin = .literal ∨ (dotted ∧ origin = .header) then none
      else do
        let sub ← enter dotted act path (origin == .dotted) sub
        return put part (.table origin sub) es
    | some (.tables elements) => do
      let sub ← enter dotted act path false (← elements.getLast?)
      return put part (.tables (elements.dropLast ++ [sub])) es
    | some _ => none

/-- The entries with a setting added. -/
def assign? (key : Key) (v : Value) (es : Entries) : Option Entries :=
  enter true (fun byDots es =>
    if byDots = key.parents.isEmpty ∨ (es.lookup key.name).isSome then none
    else some (put key.name v es)) key.parents false es

/-- The entries with a table opened by a header. -/
def openTable? (key : Key) (es : Entries) : Option Entries :=
  enter false (fun _ es =>
    match es.lookup key.name with
    | none => some (put key.name (.table .header []) es)
    | some (.table .implied sub) => some (put key.name (.table .header sub) es)
    | some _ => none) key.parents false es

/-- The entries with an element added to an array of tables by a header. -/
def openElement? (key : Key) (es : Entries) : Option Entries :=
  enter false (fun _ es =>
    match es.lookup key.name with
    | none => some (put key.name (.tables [[]]) es)
    | some (.tables elements) => some (put key.name (.tables (elements ++ [[]])) es)
    | some _ => none) key.parents false es

/-- The entries that settings give, from the first one on. -/
def ofSettings? (settings : List (Key × Value)) : Option Entries :=
  settings.foldlM (fun es (key, v) => assign? key v es) []

end JoinIR.Toml.Entries
