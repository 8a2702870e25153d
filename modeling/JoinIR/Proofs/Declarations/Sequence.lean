/-
# JoinIR.Proofs.Declarations.Sequence — the analysis of a sequence from those of its halves

In a sequence the second half is analysed on the table that the first half leaves, so a half that
fails on its own may fail earlier there, and at another slot. Still the result for the whole
sequence can be told from the two results that the halves have on their own
(`analysis_of_sequence_merges`): the first error of the first half stays, and two tables merge if
they agree on the slots that they share.

The declarations of the whole are those of the halves one after the other, and this is all that is
used of terms. What remains is about scans (`Declarations.merges_scan`): each table reflects its own
half, so agreement of the tables is agreement of the halves, and where they disagree the first clash
of the whole has its first place in the first half and its second place in the other
(`FirstClash.across`).

How a sequence is grouped into blocks makes no difference: its declarations are those of its steps,
which are the effects in it once all blocks are opened.
-/
import JoinIR.Proofs.Declarations.Scan

namespace JoinIR

/-! ## Merging two results -/

/-- The tables give equal types to every slot that they share. -/
def SlotTable.AgreeOn (s t : SlotTable) : Prop :=
  ∀ d ∈ s.toList, ∀ e ∈ t.toList, d.1 == e.1 → d.2 = e.2

/-- The result for a whole from the results for its two halves. -/
structure Merges (first second whole : Except TypeMismatch SlotTable) : Prop where
  /-- An error of the first half is the error of the whole. -/
  first_fails : ∀ e, first = .error e → whole = .error e
  /-- If the second half fails, the whole fails, perhaps with another error. -/
  second_fails : ∀ s e, first = .ok s → second = .error e → ∃ e', whole = .error e'
  /-- Two tables merge exactly if they agree on the slots that they share. -/
  accepted_iff : ∀ s t, first = .ok s → second = .ok t →
    ((∃ table, whole = .ok table) ↔ s.AgreeOn t)
  /-- The merged table is the union, with the entry of the first half for a shared slot. -/
  union : ∀ s t table, first = .ok s → second = .ok t → whole = .ok table →
    ∀ slot, table.find? slot = (s.find? slot).or (t.find? slot)
  /-- Otherwise the error is about a shared slot: it shows the slot and the type that the first
  half has for it, and the type that the second half has for it. -/
  clash : ∀ s t, first = .ok s → second = .ok t → ¬ s.AgreeOn t →
    ∃ d ∈ s.toList, ∃ e ∈ t.toList, d.1 == e.1 ∧ d.2 ≠ e.2 ∧ whole = .error ⟨d.1, d.2, e.2⟩

/-! ## Two lists of declarations, one after the other -/

section Halves

variable {l m : List (Slot × Ty)}

/-- Two coherent lists are coherent together if the one agrees with the other. -/
theorem Coherent.append (hl : Coherent l) (hm : Coherent m)
    (h : ∀ d ∈ l, ∀ e ∈ m, d.1 == e.1 → d.2 = e.2) : Coherent (l ++ m) := by
  intro d hd e he hde
  rcases List.mem_append.mp hd with hd | hd <;> rcases List.mem_append.mp he with he | he
  · exact hl d hd e he hde
  · exact h d hd e he hde
  · exact (h e he d hd (BEq.symm hde)).symm
  · exact hm d hd e he hde

/-- A clash of two coherent lists is between a declaration of the one and one of the other. -/
theorem FirstClash.across {i j : Nat} {first later : Slot × Ty}
    (h : FirstClash (l ++ m) i j first later) (hl : Coherent l) (hm : Coherent m) :
    l[i]? = some first ∧ later ∈ m := by
  have hij := h.lt
  have hj : l.length ≤ j := by
    -- otherwise both places are in the first list
    by_contra hj
    have hfirst := h.get_first
    have hlater := h.get_later
    rw [List.getElem?_append_left (by omega)] at hfirst hlater
    exact h.not_both_mem hl (List.mem_of_getElem? hfirst) (List.mem_of_getElem? hlater)
  have hlater := h.get_later
  rw [List.getElem?_append_right hj] at hlater
  have hmem := List.mem_of_getElem? hlater
  have hi : i < l.length := by
    -- otherwise both places are in the second list
    by_contra hi
    have hfirst := h.get_first
    rw [List.getElem?_append_right (by omega)] at hfirst
    exact h.not_both_mem hm (List.mem_of_getElem? hfirst) hmem
  have hfirst := h.get_first
  rw [List.getElem?_append_left hi] at hfirst
  exact ⟨hfirst, hmem⟩

/-- The first place of a clash has the first declaration of its slot. -/
theorem FirstClash.find?_first {i j : Nat} {first later : Slot × Ty}
    (h : FirstClash (l ++ m) i j first later) (hi : l[i]? = some first) :
    l.find? (fun d => d.1 == first.1) = some first := by
  obtain ⟨hlt, hget⟩ := List.getElem?_eq_some_iff.mp hi
  refine List.find?_eq_some_iff_getElem.mpr ⟨BEq.refl first.1, i, hlt, hget, fun k hk => ?_⟩
  have hread : (l ++ m)[k]? = some l[k] := by
    rw [List.getElem?_append_left (by omega), List.getElem?_eq_getElem (by omega)]
  rw [h.no_earlier k hk _ hread]
  rfl

variable {s t : SlotTable}

/-- A table that reflects a coherent list has the type of every declaration in it. -/
theorem Reflects.exists_typed (h : Reflects s l) (hl : Coherent l) {d : Slot × Ty} (hd : d ∈ l) :
    ∃ e ∈ s.toList, e.1 == d.1 ∧ e.2 = d.2 := by
  obtain ⟨e, he, hed⟩ := h.exists_entry hd
  exact ⟨e, he, hed, hl e (h.mem_of_mem_toList he) d hd hed⟩

/-- Tables agree exactly if the lists that they reflect are coherent together. -/
theorem Reflects.agreeOn_iff (hs : Reflects s l) (ht : Reflects t m) (hl : Coherent l)
    (hm : Coherent m) : s.AgreeOn t ↔ Coherent (l ++ m) := by
  constructor
  · intro h
    refine hl.append hm fun d hd e he hde => ?_
    obtain ⟨d', hd', hdslot, hdty⟩ := hs.exists_typed hl hd
    obtain ⟨e', he', heslot, hety⟩ := ht.exists_typed hm he
    rw [← hdty, ← hety]
    exact h d' hd' e' he' (BEq.trans hdslot (BEq.trans hde (BEq.symm heslot)))
  · intro h d hd e he
    exact h d (List.mem_append_left m (hs.mem_of_mem_toList hd)) e
      (List.mem_append_right l (ht.mem_of_mem_toList he))

end Halves

namespace Declarations

/-- The second part of a list is scanned on the table that the first part leaves. -/
theorem scan_append (table : SlotTable) (l m : List (Slot × Ty)) :
    scan table (l ++ m) = (scan table l).bind fun t => scan t m := by
  induction l generalizing table with
  | nil => rfl
  | cons d rest ih =>
    obtain ⟨slot, ty⟩ := d
    rw [List.cons_append, scan, scan]
    cases table.find? slot with
    | none => exact ih _
    | some entry =>
      obtain ⟨first, previous⟩ := entry
      by_cases hty : previous = ty
      · simp only [if_pos hty]
        exact ih table
      · simp only [if_neg hty]
        rfl

/-- The scan of two lists, one after the other, is told from the scans of each. -/
theorem merges_scan (l m : List (Slot × Ty)) :
    Merges (scan ∅ l) (scan ∅ m) (scan ∅ (l ++ m)) where
  first_fails e he := by
    rw [scan_append, he]
    rfl
  second_fails s e hs he := by
    obtain ⟨table, hok⟩ | ⟨i, j, first, later, -, herror⟩ :=
      scan_empty_cases (l ++ m)
    · exact absurd (hok.2.2.of_subset (List.subset_append_right l m)) (not_coherent_of_scan he)
    · exact ⟨_, herror⟩
  accepted_iff s t hs ht := by
    obtain ⟨hsl, hl⟩ := reflects_of_scan hs
    obtain ⟨htm, hm⟩ := reflects_of_scan ht
    rw [hsl.agreeOn_iff htm hl hm]
    constructor
    · rintro ⟨table, htable⟩
      exact (reflects_of_scan htable).2
    · intro hcoherent
      cases hscan : scan ∅ (l ++ m) with
      | ok table => exact ⟨table, rfl⟩
      | error e => exact absurd hcoherent (not_coherent_of_scan hscan)
  union s t table hs ht htable slot := by
    rw [(reflects_of_scan htable).1 slot, (reflects_of_scan hs).1 slot,
      (reflects_of_scan ht).1 slot, List.find?_append]
  clash s t hs ht hdisagree := by
    obtain ⟨hsl, hl⟩ := reflects_of_scan hs
    obtain ⟨htm, hm⟩ := reflects_of_scan ht
    rw [hsl.agreeOn_iff htm hl hm] at hdisagree
    obtain ⟨table, hok⟩ | ⟨i, j, first, later, hclash, herror⟩ :=
      scan_empty_cases (l ++ m)
    · exact absurd hok.2.2 hdisagree
    · obtain ⟨hfirst, hlater⟩ := hclash.across hl hm
      -- the second table may have the slot of `later` under another debug name
      obtain ⟨e, he, heslot, hety⟩ := htm.exists_typed hm hlater
      refine ⟨first, hsl.mem_toList_iff.mpr (hclash.find?_first hfirst), e, he,
        BEq.trans hclash.same_slot (BEq.symm heslot), ?_, ?_⟩
      · rw [hety]
        exact hclash.other_type
      · rw [hety]
        exact herror

end Declarations

/-! ## Sequences -/

namespace Term

mutual

/-- The effects that a term consists of once all blocks at its top are opened. -/
def steps : {σ : Kind} → Term σ → List (Term σ)
  | _, block es => stepsEach es
  | _, t => [t]

/-- The steps of effects, from the left. -/
def stepsEach : List Effect → List Effect
  | [] => []
  | e :: rest => e.steps ++ stepsEach rest

end

theorem stepsEach_eq (es : List Effect) : stepsEach es = es.flatMap steps := by
  induction es with
  | nil => rw [stepsEach]; rfl
  | cons e rest ih => rw [stepsEach, ih]; rfl

theorem calls_block (es : List Effect) : (block es).calls = es.flatMap calls := by
  rw [calls_eq_parts, parts, childParts, List.flatMap_map]
  rfl

/-- A walk over a term makes the calls of its steps, from the left. -/
theorem calls_eq_steps {σ : Kind} (t : Term σ) : t.calls = t.steps.flatMap calls := by
  induction t using Term.parts_induction with
  | step t ih =>
    cases t with
    | block es =>
      rw [calls_block, steps, stepsEach_eq, List.flatMap_assoc]
      exact List.flatMap_congr fun e he => ih e (List.mem_map.mpr ⟨e, he, rfl⟩)
    | _ => simp [steps]

end Term

namespace Body

/-- The body that has effects one after the other. -/
def sequence (es : List Effect) : Body := .effect (.block es)

theorem calls_sequence (es : List Effect) : (sequence es).calls = es.flatMap Term.calls :=
  Term.calls_block es

theorem calls_sequence_eq_steps (es : List Effect) :
    (sequence es).calls = (Term.stepsEach es).flatMap Term.calls :=
  Term.calls_eq_steps (.block es)

theorem declared_sequence_append (mode : Mode) (es fs : List Effect) :
    (sequence (es ++ fs)).declared mode
      = (sequence es).declared mode ++ (sequence fs).declared mode := by
  simp only [declared, calls_sequence, List.flatMap_append]

end Body

/-- The analysis of a sequence is told from the analyses of its two halves, whatever they are. An
error of the first half is the error of the whole; if the second half fails, so does the whole; and
two tables merge if they give equal types to the slots that they share, while a shared slot with
two types is an error that shows it as the first half has it. The grouping of a sequence into blocks
makes no difference to the analysis, down to what it notes on the way. -/
theorem analysis_of_sequence_merges (mode : Mode) :
    (∀ es fs : List Effect,
        Merges ((Body.sequence es).declarations mode).outcome
          ((Body.sequence fs).declarations mode).outcome
          ((Body.sequence (es ++ fs)).declarations mode).outcome) ∧
      ∀ es gs : List Effect, Term.stepsEach gs = Term.stepsEach es →
        (Body.sequence gs).declarations mode = (Body.sequence es).declarations mode := by
  constructor
  · intro es fs
    rw [Body.outcome_declarations, Body.outcome_declarations, Body.outcome_declarations,
      Body.declared_sequence_append]
    exact Declarations.merges_scan _ _
  · intro es gs hsteps
    have hcalls : (Body.sequence gs).calls = (Body.sequence es).calls := by
      rw [Body.calls_sequence_eq_steps, Body.calls_sequence_eq_steps, hsteps]
    rw [Body.declarations, Body.declarations, Declarations.visitBody_eq_declareAll,
      Declarations.visitBody_eq_declareAll, Body.declared, Body.declared, hcalls]

/-- Blocks in blocks and empty blocks. -/
example (a b c : Value) :
    Term.stepsEach [.block [.drop a, .block [.drop b]], .block [], .drop c]
      = Term.stepsEach [.drop a, .drop b, .drop c] := rfl

end JoinIR
