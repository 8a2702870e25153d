/-
# JoinIR.Proofs.Declarations.Renaming — the analysis does not read debug names

A rewriting that keeps the numbers of handles (`Rewriting.KeepsNumbers`) may change any debug name
and any constant, each occurrence by itself. The analysis of a body commutes with it
(`Body.declarations_rewrite`): what it answers for the rewritten body is what it answers for the
body, rewritten. Slots are compared by kind and number alone, so at every declaration the scan
takes the same branch in both runs, and the table of the one stays the table of the other with
other names in its keys.
-/
import JoinIR.Proofs.Declarations.Scan
import JoinIR.Proofs.Rewriting

namespace JoinIR

/-- The rewriting leaves the numbers of handles as they are. -/
def Rewriting.KeepsNumbers (R : Rewriting) : Prop :=
  ∀ {κ : Space} (h : Handle κ), (R.handle h).id = h.id

/-! ## What is declared -/

/-- A call, rewritten. -/
def Call.rewrite (R : Rewriting) : Call → Call
  | binder x ty => binder (R.handle x) ty
  | joinPoint k params => joinPoint (R.handle k) (params.map (ContParam.rewrite R))

/-- A slot, rewritten. -/
def Slot.rewrite (R : Rewriting) : Slot → Slot
  | ofLocal x => ofLocal (R.handle x)
  | ofLabel k => ofLabel (R.handle k)

section Declared

variable (R : Rewriting)

theorem Call.map_rewrite_ofParams (params : List ContParam) :
    (Call.ofParams params).map (Call.rewrite R)
      = Call.ofParams (params.map (ContParam.rewrite R)) := by
  induction params with
  | nil => rfl
  | cons p rest ih =>
    obtain ⟨_ | x, ty⟩ := p
    · exact ih
    · exact congrArg (Call.binder (R.handle x) ty :: ·) ih

theorem Term.calls_rewrite {σ : Kind} (t : Term σ) :
    (t.rewrite R).calls = t.calls.map (Call.rewrite R) := by
  induction t using Term.parts_induction with
  | step t ih =>
    rw [calls_eq_parts, calls_eq_parts t, parts_rewrite, List.flatMap_map, List.map_flatMap]
    refine List.flatMap_congr fun p hp => ?_
    cases p with
    | child c => exact ih c hp
    | bind x ty => rfl
    | join k ps => simp [Part.rewrite, Part.calls, Call.rewrite, Call.map_rewrite_ofParams]

theorem Body.calls_rewrite (b : Body) : (b.rewrite R).calls = b.calls.map (Call.rewrite R) := by
  cases b <;> exact Term.calls_rewrite R _

theorem Call.declared_rewrite (mode : Mode) (c : Call) :
    (c.rewrite R).declared mode = (c.declared mode).map (Prod.map (Slot.rewrite R) id) := by
  cases c with
  | binder x ty => rfl
  | joinPoint k params =>
    have hty : (params.map (ContParam.rewrite R)).map ContParam.ty = params.map ContParam.ty := by
      rw [List.map_map]
      rfl
    by_cases h : mode = .aggregate ∧ 2 ≤ params.length <;>
      simp [rewrite, declared, Slot.rewrite, hty, h]

theorem Body.declared_rewrite (mode : Mode) (b : Body) :
    (b.rewrite R).declared mode = (b.declared mode).map (Prod.map (Slot.rewrite R) id) := by
  rw [declared, declared, calls_rewrite, List.flatMap_map, List.map_flatMap]
  exact List.flatMap_congr fun c _ => c.declared_rewrite R mode

end Declared

/-! ## The scan -/

section Scan

variable {R : Rewriting} (hR : R.KeepsNumbers)

include hR in
theorem Slot.compare_rewrite (s t : Slot) : compare (s.rewrite R) (t.rewrite R) = compare s t := by
  have hrank (s : Slot) : (s.rewrite R).rank = s.rank := by cases s <;> rfl
  have hid (s : Slot) : (s.rewrite R).id = s.id := by cases s <;> exact hR _
  show compareLex (compareOn rank) (compareOn id) _ _
    = compareLex (compareOn rank) (compareOn id) s t
  simp only [compareLex, compareOn, hrank, hid]

namespace SlotTable

/-- A table of slots, rewritten. -/
def rewrite (table : SlotTable) : SlotTable := table.mapKeys (Slot.compare_rewrite hR)

theorem toList_rewrite (table : SlotTable) :
    (table.rewrite hR).toList = table.toList.map (Prod.map (Slot.rewrite R) id) :=
  table.toList_mapKeys (Slot.compare_rewrite hR)

@[simp] theorem rewrite_empty : rewrite hR ∅ = ∅ := Table.mapKeys_empty (Slot.compare_rewrite hR)

theorem find?_rewrite (table : SlotTable) (slot : Slot) :
    (table.rewrite hR).find? (slot.rewrite R)
      = (table.find? slot).map (Prod.map (Slot.rewrite R) id) :=
  table.find?_mapKeys (Slot.compare_rewrite hR) slot

theorem insertNew_rewrite (table : SlotTable) (slot : Slot) (ty : Ty) :
    (table.rewrite hR).insertNew (slot.rewrite R) ty = rewrite hR (table.insertNew slot ty) :=
  table.insertNew_mapKeys (Slot.compare_rewrite hR) slot ty

end SlotTable

/-- An error, rewritten. -/
def TypeMismatch.rewrite (R : Rewriting) (e : TypeMismatch) : TypeMismatch :=
  ⟨e.slot.rewrite R, e.previous, e.found⟩

/-- The scan of rewritten declarations ends as the scan of the declarations does. -/
theorem Declarations.scan_rewrite (table : SlotTable) (l : List (Slot × Ty)) :
    scan (table.rewrite hR) (l.map (Prod.map (Slot.rewrite R) id))
      = ((scan table l).map (SlotTable.rewrite hR)).mapError (TypeMismatch.rewrite R) := by
  induction l generalizing table with
  | nil => rfl
  | cons d rest ih =>
    obtain ⟨slot, ty⟩ := d
    -- the look-up answers the same entry, under its other name
    rw [List.map_cons, Prod.map_apply, id, scan, scan, SlotTable.find?_rewrite]
    cases table.find? slot with
    | none => simp only [Option.map_none, SlotTable.insertNew_rewrite, ih]
    | some entry =>
      obtain ⟨first, previous⟩ := entry
      simp only [Option.map_some, Prod.map_apply, id]
      split
      next => exact ih table
      next => rfl

/-- The analysis of a rewritten body ends as the analysis of the body does. -/
theorem Body.declarations_rewrite (mode : Mode) (b : Body) :
    ((b.rewrite R).declarations mode).outcome
      = ((b.declarations mode).outcome.map (SlotTable.rewrite hR)).mapError
        (TypeMismatch.rewrite R) := by
  rw [outcome_declarations, outcome_declarations, declared_rewrite, ← Declarations.scan_rewrite,
    SlotTable.rewrite_empty]

end Scan

end JoinIR
