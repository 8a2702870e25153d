/-
# JoinIR.Declarations — the slots that a body declares

The emitter declares every local of a function up front. The analysis walks a body, meets each
local where it is bound, and builds a table from slots to types. A local may be bound at several
places, but always with the same type; the first place where it is not is an error, and the error
shows the slot as it was **first** declared.

When the parameters of a join point are passed together, a join point with two or more of them
also needs a slot for the tuple, keyed by its label and declared right after its own parameters.
-/
import JoinIR.Report
import JoinIR.Table
import JoinIR.Term.Visitor

namespace JoinIR

/-! ## The error -/

/-- A slot was bound with two types. -/
structure TypeMismatch where
  /-- The slot, as it was first declared. -/
  slot : Slot
  previous : Ty
  found : Ty
  deriving Repr

namespace TypeMismatch

/-- Errors about the same slot with the same types are equal. -/
instance : BEq TypeMismatch :=
  ⟨fun a b => a.slot == b.slot && a.previous == b.previous && a.found == b.found⟩

/-- The message of the error. -/
def message (e : TypeMismatch) : String :=
  "local " ++ e.slot.text ++ " declared with type " ++ e.found.text
    ++ ", but it was already declared with type " ++ e.previous.text

end TypeMismatch

/-! ## The analysis -/

/-- The slots of a body with their types, in slot order. -/
abbrev SlotTable := Table Slot Ty

/-- Tables are equal when they list equal slots with equal types. -/
instance : BEq SlotTable := ⟨fun s t => s.toList == t.toList⟩

namespace Declarations

/-- Work on a table, which is lost with the first error. -/
abbrev Analysis := StateT SlotTable (Report TypeMismatch)

/-- Declares a slot: a new one is entered, and one that is there has to have the same type. -/
def declare (slot : Slot) (ty : Ty) : Analysis Unit := fun table =>
  match table.find? slot with
  | none => do
    .note (.declared slot ty)
    pure ((), table.insertNew slot ty)
  | some (first, previous) =>
    if previous = ty then pure ((), table)
    else do
      .note (.rebound first ty previous)
      .fail ⟨first, previous, ty⟩

/-- The slot for the tuple of a join point's arguments and its type, if one is needed. -/
def tupleSlot? (mode : Mode) (k : Label) (params : List ContParam) : Option (Slot × Ty) :=
  if mode = .aggregate ∧ 2 ≤ params.length then
    some (.ofLabel k, .tuple (params.map ContParam.ty))
  else none

/-- The visitor that declares what it meets. -/
def visitor (mode : Mode) : Visitor Analysis where
  binder x ty := declare (.ofLocal x) ty
  joinPoint k params below := do
    below
    match tupleSlot? mode k params with
    | some (slot, ty) => declare slot ty
    | none => pure ()

end Declarations

/-- The slots that the emitted function has to declare for a body. -/
def Body.declarations (mode : Mode) (b : Body) : Report TypeMismatch SlotTable := do
  .note (.analysisBegun mode)
  let (_, table) ← ((Declarations.visitor mode).visitBody b).run ∅
  .note (.analysisDone table.size)
  return table

end JoinIR
