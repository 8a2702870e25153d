/-
# JoinIR.Proofs.Declarations.Modes — the two modes agree on locals

How the arguments of a join point are passed decides which slots a body declares, but only for
labels: a tuple slot comes in between the locals and never in the place of one. So the list of
declarations in one mode is the list in the other without its labels (`Body.declared_perParameter`).

The analyses then run side by side. The table of the one is at every step the table of the other
restricted to locals, and a local that clashes does so in both (`Declarations.restricts_scan`). What
the mode can change is that a label clashes first.
-/
import JoinIR.Proofs.Declarations.Occurring

namespace JoinIR

/-- The slot is that of a local. -/
def Slot.isLocal : Slot → Bool
  | ofLocal _ => true
  | ofLabel _ => false

namespace Slot

theorem isLocal_iff {s : Slot} : s.isLocal = true ↔ ∃ x, s = .ofLocal x := by
  cases s <;> simp [isLocal]

theorem not_isLocal_iff {s : Slot} : s.isLocal = false ↔ ∃ k, s = .ofLabel k := by
  cases s <;> simp [isLocal]

/-- Whether a slot is that of a local is a matter of its key. -/
theorem isLocal_eq_of_compare {s t : Slot} (h : compare s t = .eq) : s.isLocal = t.isLocal := by
  have hrank : s.rank = t.rank := (compare_eq_iff.mp h).1
  cases s <;> cases t <;> simp_all [rank, isLocal]

end Slot

/-- The entries of the locals. -/
def SlotTable.locals (table : SlotTable) : SlotTable := table.filter Slot.isLocal

namespace SlotTable

variable {table : SlotTable} {slot : Slot}

theorem find?_locals_of_isLocal (h : slot.isLocal = true) :
    table.locals.find? slot = table.find? slot := by
  rw [locals, Table.find?_filter fun _ _ => Slot.isLocal_eq_of_compare, if_pos h]

theorem locals_insertNew_of_isLocal (h : slot.isLocal = true) (ty : Ty) :
    SlotTable.locals (table.insertNew slot ty) = table.locals.insertNew slot ty := by
  rw [locals, Table.filter_insertNew fun _ _ => Slot.isLocal_eq_of_compare, if_pos h, locals]

theorem locals_insertNew_of_not_isLocal (h : slot.isLocal = false) (ty : Ty) :
    SlotTable.locals (table.insertNew slot ty) = table.locals := by
  rw [locals, Table.filter_insertNew fun _ _ => Slot.isLocal_eq_of_compare, h, locals]
  rfl

end SlotTable

/-! ## What is declared in the two modes -/

/-- The declarations of locals. -/
def localDeclarations (l : List (Slot × Ty)) : List (Slot × Ty) := l.filter fun d => d.1.isLocal

theorem Call.declared_perParameter (c : Call) :
    c.declared .perParameter = localDeclarations (c.declared .aggregate) := by
  cases c with
  | binder x ty => rfl
  | joinPoint k params =>
    by_cases h : 2 ≤ params.length <;> simp [declared, localDeclarations, Slot.isLocal, h]

/-- One by one, the locals of a body are declared in both modes, and nothing else is. -/
theorem Body.declared_perParameter (b : Body) :
    b.declared .perParameter = localDeclarations (b.declared .aggregate) := by
  rw [Body.declared, Body.declared, localDeclarations, List.filter_flatMap]
  congr 1
  funext c
  exact c.declared_perParameter

/-- No join point in the body has two or more parameters, placeholders among them. -/
def Body.NarrowJoins (b : Body) : Prop :=
  ∀ {σ : Kind} (s : Term σ), s.Subterm b.term → ∀ k ps, Part.join k ps ∈ s.parts → ps.length < 2

/-- Without a join point that needs a tuple the mode makes no difference. -/
theorem Body.declared_eq_of_narrowJoins {b : Body} (h : b.NarrowJoins) :
    b.declared .perParameter = b.declared .aggregate := by
  rw [b.declared_perParameter, localDeclarations, List.filter_eq_self]
  rintro ⟨slot, ty⟩ hd
  obtain ⟨σ, s, hs, hintroduces⟩ := Body.mem_declared_iff.mp hd
  cases hintroduces with
  | letIn | thrown | param | paramTail => rfl
  | @tuple k ps _ _ _ hl | @tupleTail k ps _ _ _ hl =>
    have hnarrow : ps.length < 2 := h _ hs k ps List.mem_cons_self
    omega

/-! ## Two scans side by side -/

namespace Declarations

/-- What the scan of the locals alone ends with, told from how the scan of all slots ends: with
the locals of its table, or at the same clash if that is about a local. If it is about a label,
nothing is said. -/
def Restricts : Except TypeMismatch SlotTable → Except TypeMismatch SlotTable → Prop
  | .ok table, r => r = .ok table.locals
  | .error e, r => e.slot.isLocal = true → r = .error e

/-- Scans that start with the same locals keep the same locals. -/
theorem restricts_scan (table : SlotTable) (l : List (Slot × Ty)) :
    Restricts (scan table l) (scan table.locals (localDeclarations l)) := by
  induction l generalizing table with
  | nil => rfl
  | cons d rest ih =>
    obtain ⟨slot, ty⟩ := d
    cases hlocal : slot.isLocal with
    -- a local is read by both scans, and both tables answer alike for it
    | true =>
      have hcons : localDeclarations ((slot, ty) :: rest) = (slot, ty) :: localDeclarations rest :=
        List.filter_cons_of_pos hlocal
      rw [hcons, scan, scan, SlotTable.find?_locals_of_isLocal hlocal]
      cases table.find? slot with
      | none =>
        have hrest := ih (table.insertNew slot ty)
        rwa [SlotTable.locals_insertNew_of_isLocal hlocal] at hrest
      | some entry =>
        obtain ⟨first, previous⟩ := entry
        by_cases hty : previous = ty
        · simp only [if_pos hty]
          exact ih table
        · simp only [if_neg hty]
          exact fun _ => rfl
    -- a label is read by one of them only, and leaves the locals as they are
    | false =>
      have hcons : localDeclarations ((slot, ty) :: rest) = localDeclarations rest :=
        List.filter_cons_of_neg (by simp [hlocal])
      rw [hcons, scan]
      cases hfind : table.find? slot with
      | none =>
        have hrest := ih (table.insertNew slot ty)
        rwa [SlotTable.locals_insertNew_of_not_isLocal hlocal] at hrest
      | some entry =>
        obtain ⟨first, previous⟩ := entry
        by_cases hty : previous = ty
        · simp only [if_pos hty]
          exact ih table
        · have hfirst : first.isLocal = false := by
            rw [← Slot.isLocal_eq_of_compare (Table.compare_of_find? hfind), hlocal]
          simp only [if_neg hty]
          intro hclash
          rw [hfirst] at hclash
          cases hclash

end Declarations

theorem Body.restricts_declarations (b : Body) :
    Declarations.Restricts (b.declarations .aggregate).outcome
      (b.declarations .perParameter).outcome := by
  rw [b.outcome_declarations, b.outcome_declarations, b.declared_perParameter]
  exact Declarations.restricts_scan ∅ (b.declared .aggregate)

/-- The two modes differ in slots of labels only. With the parameters passed one by one no label
has a slot. If the analysis goes through with the parameters passed together, then so it does with
them passed one by one, to the table of the locals, under the same debug names and with the same
types; if it fails at a local, then it does so with the same error. An error with the parameters
passed one by one is the error with them passed together, unless a label clashes there. Where no
join point has two or more parameters, the two modes lead to the same. -/
theorem modes_agree_on_locals (b : Body) :
    (∀ table, (b.declarations .perParameter).outcome = .ok table →
        ∀ e ∈ table.toList, ∃ x, e.1 = .ofLocal x) ∧
      (∀ table, (b.declarations .aggregate).outcome = .ok table →
        ∃ locals, (b.declarations .perParameter).outcome = .ok locals ∧
          locals.toList = table.toList.filter fun e => e.1.isLocal) ∧
      (∀ e x, (b.declarations .aggregate).outcome = .error e → e.slot = .ofLocal x →
        (b.declarations .perParameter).outcome = .error e) ∧
      (∀ e, (b.declarations .perParameter).outcome = .error e →
        (b.declarations .aggregate).outcome = .error e ∨
          ∃ e' k, (b.declarations .aggregate).outcome = .error e' ∧ e'.slot = .ofLabel k) ∧
      (b.NarrowJoins →
        (b.declarations .perParameter).outcome = (b.declarations .aggregate).outcome) := by
  have hrestricts := b.restricts_declarations
  refine ⟨fun table hok e he => ?_, fun table hok => ?_, fun e x herror hx => ?_,
    fun e herror => ?_, fun hnarrow => ?_⟩
  -- the entries of the table are declarations of the body
  · have hmem : e ∈ localDeclarations (b.declared .aggregate) :=
      b.declared_perParameter ▸ (Body.reflects_of_ok hok).1.mem_of_mem_toList he
    exact Slot.isLocal_iff.mp (List.mem_filter.mp hmem).2
  · rw [hok] at hrestricts
    exact ⟨table.locals, hrestricts, rfl⟩
  · rw [herror] at hrestricts
    exact hrestricts (Slot.isLocal_iff.mpr ⟨x, hx⟩)
  -- the aggregate analysis cannot go through, and a clash of a local would be the same one
  · rw [herror] at hrestricts
    cases haggregate : (b.declarations .aggregate).outcome with
    | ok table =>
      rw [haggregate] at hrestricts
      cases hrestricts
    | error e' =>
      rw [haggregate] at hrestricts
      cases hlocal : e'.slot.isLocal with
      | true =>
        obtain rfl : e = e' := Except.error.inj (hrestricts hlocal)
        exact .inl rfl
      | false =>
        obtain ⟨k, hk⟩ := Slot.not_isLocal_iff.mp hlocal
        exact .inr ⟨e', k, rfl, hk⟩
  · rw [b.outcome_declarations, b.outcome_declarations, Body.declared_eq_of_narrowJoins hnarrow]

end JoinIR
