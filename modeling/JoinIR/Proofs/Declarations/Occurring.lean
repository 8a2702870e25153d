/-
# JoinIR.Proofs.Declarations.Occurring — acceptance from what occurs in a body

Which slots a body declares can be said without any walk: a node **introduces** a slot with a type
when it binds a local or, if parameters are passed together, when it is a join point with two or
more of them; and a body declares what the subterms of its term introduce, at any depth.

The analysis accepts a body exactly when no slot is declared with two types in this sense, and its
table then lists exactly the declared slots, once each, with their types. Any order in which the
declarations are met leads to the same answer, up to debug names.
-/
import JoinIR.Proofs.Declarations.Scan

namespace JoinIR

/-! ## What occurs -/

/-- A node declares a slot with a type by itself, whatever lies below it. -/
inductive Term.Introduces (mode : Mode) : {σ : Kind} → Term σ → Slot → Ty → Prop
  | letIn {x ty} {d b : Value} : Introduces mode (.letIn x ty d b) (.ofLocal x) ty
  | thrown {ty x xty} {b h : Value} : Introduces mode (.tryCatch ty b x xty h) (.ofLocal x) xty
  | param {k ps x ty} {h b : Value} :
      ⟨some x, ty⟩ ∈ ps → Introduces mode (.letCont k ps h b) (.ofLocal x) ty
  | paramTail {k ps x ty} {h b : Tail} :
      ⟨some x, ty⟩ ∈ ps → Introduces mode (.letContTail k ps h b) (.ofLocal x) ty
  | tuple {k ps} {h b : Value} :
      mode = .aggregate → 2 ≤ ps.length →
        Introduces mode (.letCont k ps h b) (.ofLabel k) (.tuple (ps.map ContParam.ty))
  | tupleTail {k ps} {h b : Tail} :
      mode = .aggregate → 2 ≤ ps.length →
        Introduces mode (.letContTail k ps h b) (.ofLabel k) (.tuple (ps.map ContParam.ty))

/-- A body declares a slot with a type: some subterm of its term introduces it. -/
def Body.Declares (mode : Mode) (b : Body) (slot : Slot) (ty : Ty) : Prop :=
  ∃ (σ : Kind) (s : Term σ), s.Subterm b.term ∧ s.Introduces mode slot ty

/-! ## Occurring is being met on the walk -/

/-- What a part that is not a subterm declares. -/
def Part.Introduces (mode : Mode) (slot : Slot) (ty : Ty) : Part → Prop
  | child _ => False
  | bind x xty => slot = .ofLocal x ∧ ty = xty
  | join k ps =>
    (∃ x, slot = .ofLocal x ∧ ⟨some x, ty⟩ ∈ ps) ∨
      (mode = .aggregate ∧ 2 ≤ ps.length) ∧ slot = .ofLabel k ∧ ty = .tuple (ps.map ContParam.ty)

theorem Term.introduces_iff {mode : Mode} {slot : Slot} {ty : Ty} {σ : Kind} {t : Term σ} :
    t.Introduces mode slot ty ↔ ∃ p ∈ t.parts, p.Introduces mode slot ty := by
  constructor
  · intro h
    cases h with
    | letIn | thrown => simp [parts, Part.Introduces]
    | param h | paramTail h => simp [parts, Part.Introduces, h]
    | tuple hm hl | tupleTail hm hl => simp [parts, Part.Introduces, hm, hl]
  · rintro ⟨p, hp, h⟩
    cases p with
    | child c => exact h.elim
    | bind x xty =>
      obtain ⟨rfl, rfl⟩ := h
      cases t with
      | letIn | tryCatch =>
        simp [parts] at hp
        obtain ⟨rfl, rfl⟩ := hp
        constructor
      | _ => simp [parts, childParts] at hp
    | join k ps =>
      cases t with
      | letCont k' ps' hd b =>
        simp [parts] at hp
        obtain ⟨rfl, rfl⟩ := hp
        obtain ⟨x, rfl, hx⟩ | ⟨⟨hm, hl⟩, rfl, rfl⟩ := h
        · exact .param hx
        · exact .tuple hm hl
      | letContTail k' ps' hd b =>
        simp [parts] at hp
        obtain ⟨rfl, rfl⟩ := hp
        obtain ⟨x, rfl, hx⟩ | ⟨⟨hm, hl⟩, rfl, rfl⟩ := h
        · exact .paramTail hx
        · exact .tupleTail hm hl
      -- no other node has a join point among its parts
      | _ => simp [parts, childParts] at hp

theorem Call.mem_ofParams {c : Call} {ps : List ContParam} :
    c ∈ Call.ofParams ps ↔ ∃ x ty, c = .binder x ty ∧ ⟨some x, ty⟩ ∈ ps := by
  rw [Call.ofParams, List.mem_filterMap]
  constructor
  · rintro ⟨⟨_ | x, ty⟩, hp, h⟩
    · simp at h
    · exact ⟨x, ty, by simpa using h.symm, hp⟩
  · rintro ⟨x, ty, rfl, hp⟩
    exact ⟨_, hp, rfl⟩

/-- A part that is not a subterm declares what its calls declare. -/
theorem Part.introduces_iff {mode : Mode} {slot : Slot} {ty : Ty} {p : Part}
    (hp : ∀ {τ : Kind} (c : Term τ), p ≠ child c) :
    p.Introduces mode slot ty ↔ (slot, ty) ∈ p.calls.flatMap (Call.declared mode) := by
  cases p with
  | child c => exact absurd rfl (hp c)
  | bind x xty => simp [Part.Introduces, Part.calls, Call.declared]
  | join k ps =>
    simp only [Part.Introduces, Part.calls, List.flatMap_append, List.mem_append,
      List.mem_flatMap, Call.mem_ofParams]
    refine or_congr ⟨?_, ?_⟩ ?_
    · rintro ⟨x, rfl, hx⟩
      exact ⟨_, ⟨x, ty, rfl, hx⟩, by simp [Call.declared]⟩
    · rintro ⟨_, ⟨x, xty, rfl, hx⟩, h⟩
      simp only [Call.declared, List.mem_singleton, Prod.mk.injEq] at h
      obtain ⟨rfl, rfl⟩ := h
      exact ⟨x, rfl, hx⟩
    · by_cases h : mode = .aggregate ∧ 2 ≤ ps.length <;> simp [Call.declared, h]

/-- The calls of a term declare what its subterms introduce. -/
theorem Term.mem_declared_iff {mode : Mode} {slot : Slot} {ty : Ty} {σ : Kind} (t : Term σ) :
    (slot, ty) ∈ t.calls.flatMap (Call.declared mode) ↔
      ∃ (τ : Kind) (s : Term τ), s.Subterm t ∧ s.Introduces mode slot ty := by
  induction t using Term.parts_induction with
  | step t ih =>
    rw [Term.calls_eq_parts, List.flatMap_assoc, List.mem_flatMap]
    constructor
    · rintro ⟨p, hp, h⟩
      cases p with
      | child c =>
        obtain ⟨τ, s, hs, hintro⟩ := (ih c hp).mp h
        exact ⟨τ, s, .deeper hp hs, hintro⟩
      | bind x xty =>
        rw [← Part.introduces_iff (by simp)] at h
        exact ⟨_, t, .refl t, introduces_iff.mpr ⟨_, hp, h⟩⟩
      | join k ps =>
        rw [← Part.introduces_iff (by simp)] at h
        exact ⟨_, t, .refl t, introduces_iff.mpr ⟨_, hp, h⟩⟩
    · rintro ⟨τ, s, hs, hintro⟩
      cases hs with
      | refl =>
        obtain ⟨p, hp, h⟩ := introduces_iff.mp hintro
        refine ⟨p, hp, (Part.introduces_iff ?_).mp h⟩
        rintro τ c rfl
        exact h
      | deeper hc hs => exact ⟨_, hc, (ih _ hc).mpr ⟨τ, s, hs, hintro⟩⟩

theorem Body.mem_declared_iff {mode : Mode} {b : Body} {slot : Slot} {ty : Ty} :
    (slot, ty) ∈ b.declared mode ↔ b.Declares mode slot ty :=
  Term.mem_declared_iff b.term

/-! ## Any order leads to the same table -/

namespace SlotTable

/-- Tables with equal slots and equal types at every position are equal. -/
theorem beq_of_forall₂ {s t : SlotTable}
    (h : List.Forall₂ (fun d e => compare d.1 e.1 = .eq ∧ d.2 = e.2) s.toList t.toList) :
    (s == t) = true := by
  show (s.toList == t.toList) = true
  generalize s.toList = l, t.toList = m at h
  induction h with
  | nil => rfl
  | @cons d e l m hde _ ih =>
    obtain ⟨hslot, hty⟩ := hde
    have hpair : (d == e) = (d.1 == e.1 && d.2 == e.2) := rfl
    rw [List.cons_beq_cons, ih, hpair, hty, BEq.symm (Slot.compare_eq_iff_beq.mp hslot)]
    simp

/-- No slot has two entries. -/
theorem pairwise_ne (t : SlotTable) : t.toList.Pairwise fun d e => (d.1 == e.1) = false := by
  apply t.ascending.imp
  intro d e hlt
  cases hbeq : d.1 == e.1 with
  | false => rfl
  | true =>
    rw [Slot.compare_eq_iff_beq.mpr (BEq.symm hbeq)] at hlt
    cases hlt

end SlotTable

/-- Two outcomes of an analysis agree: both are errors, or tables that are equal. -/
def Agree : Except TypeMismatch SlotTable → Except TypeMismatch SlotTable → Prop
  | .ok s, .ok t => (s == t) = true
  | .error _, .error _ => True
  | _, _ => False

/-- In coherent lists of the same declarations every slot has the same type. -/
theorem rel_find?_of_mem_iff {l m : List (Slot × Ty)} (hm : Coherent m)
    (hlm : ∀ d, d ∈ l ↔ d ∈ m) (slot : Slot) :
    Option.Rel (fun d e => d.2 = e.2) (l.find? fun d => d.1 == slot)
      (m.find? fun d => d.1 == slot) := by
  cases hl : l.find? fun d => d.1 == slot with
  | none =>
    have hnone : (m.find? fun d => d.1 == slot) = none := by
      rw [List.find?_eq_none] at hl ⊢
      exact fun d hd => hl d ((hlm d).mpr hd)
    rw [hnone]
    exact .none
  | some d =>
    have hd : d.1 == slot := by simpa using List.find?_some hl
    have hdm : d ∈ m := (hlm d).mp (List.mem_of_find?_eq_some hl)
    cases he : m.find? fun d => d.1 == slot with
    | none => exact absurd hd (List.find?_eq_none.mp he d hdm)
    | some e =>
      have heslot : e.1 == slot := by simpa using List.find?_some he
      exact .some (hm d hdm e (List.mem_of_find?_eq_some he) (BEq.trans hd (BEq.symm heslot)))

/-- Scans of the same declarations agree, in whatever order and however often they come. -/
theorem Declarations.agree_scan {l m : List (Slot × Ty)} (hlm : ∀ d, d ∈ l ↔ d ∈ m) :
    Agree (scan ∅ l) (scan ∅ m) := by
  have hl := scan_empty_cases l
  have hm := scan_empty_cases m
  -- a clash in one list is one in the other, so the scans cannot end differently
  obtain ⟨s, hs, hsl, hcl⟩ | ⟨_, _, _, _, hcl, hs⟩ := hl <;>
    obtain ⟨t, ht, htm, hcm⟩ | ⟨_, _, _, _, hcm, ht⟩ := hm <;> rw [hs, ht]
  · refine SlotTable.beq_of_forall₂ (Table.forall₂_of_find? fun slot => ?_)
    rw [hsl slot, htm slot]
    exact rel_find?_of_mem_iff hcm hlm slot
  · exact hcm.not_coherent (hcl.of_subset fun d hd => (hlm d).mpr hd)
  · exact hcl.not_coherent (hcm.of_subset fun d hd => (hlm d).mp hd)
  · trivial

/-- The declarations of a body are coherent when no slot is declared with two types in it. -/
theorem Body.coherent_iff {mode : Mode} {b : Body} :
    Coherent (b.declared mode) ↔
      ∀ s ty s' ty', b.Declares mode s ty → b.Declares mode s' ty' → s == s' → ty = ty' := by
  simp only [← Body.mem_declared_iff]
  constructor
  · intro h s ty s' ty' hs hs'
    exact h (s, ty) hs (s', ty') hs'
  · intro h d hd e he
    exact h d.1 d.2 e.1 e.2 hd he

/-- Acceptance and the table of a body are decided by what occurs in it. It is accepted exactly
when no slot is declared with two types; the table then has exactly the declared slots, each of
them once and with the type of every one of its declarations; and declaring what occurs in any
other order, with any repetitions, leads to the same acceptance and to an equal table. -/
theorem declarations_decided_by_occurring (mode : Mode) (b : Body) :
    ((∃ table, (b.declarations mode).outcome = .ok table) ↔
        ∀ s ty s' ty', b.Declares mode s ty → b.Declares mode s' ty' → s == s' → ty = ty') ∧
      (∀ table, (b.declarations mode).outcome = .ok table →
        (∀ slot, (∃ e ∈ table.toList, e.1 == slot) ↔ ∃ s ty, b.Declares mode s ty ∧ s == slot) ∧
          (table.toList.Pairwise fun d e => (d.1 == e.1) = false) ∧
          ∀ e ∈ table.toList, ∀ s ty, b.Declares mode s ty → s == e.1 → e.2 = ty) ∧
      ∀ l : List (Slot × Ty), (∀ s ty, (s, ty) ∈ l ↔ b.Declares mode s ty) →
        Agree (((Declarations.declareAll l).run ∅).outcome.map Prod.snd)
          (b.declarations mode).outcome := by
  refine ⟨⟨?_, fun h => ?_⟩, fun table hok => ?_, fun l hl => ?_⟩
  -- acceptance
  · rintro ⟨table, hok⟩
    exact Body.coherent_iff.mp (Body.reflects_of_ok hok).2
  · obtain ⟨table, hok, -, -⟩ | ⟨_, _, _, _, hclash, -⟩ := b.declarations_cases mode
    · exact ⟨table, hok⟩
    · exact absurd (Body.coherent_iff.mpr h) hclash.not_coherent
  -- the table, which reflects a coherent list of declarations
  · have hreflects : Reflects table (b.declared mode) := (Body.reflects_of_ok hok).1
    have hcoherent := (Body.reflects_of_ok hok).2
    refine ⟨fun slot => ⟨?_, ?_⟩, table.pairwise_ne, fun e he s ty hs hse => ?_⟩
    · rintro ⟨e, he, heslot⟩
      exact ⟨e.1, e.2, Body.mem_declared_iff.mp (hreflects.mem_of_mem_toList he), heslot⟩
    · rintro ⟨s, ty, hs, hslot⟩
      obtain ⟨e, he, hes⟩ := hreflects.exists_entry (Body.mem_declared_iff.mpr hs)
      exact ⟨e, he, BEq.trans hes hslot⟩
    · exact hcoherent e (hreflects.mem_of_mem_toList he) (s, ty) (Body.mem_declared_iff.mpr hs)
        (BEq.symm hse)
  -- any other list with the same declarations in it
  · rw [Declarations.outcome_declareAll, Body.outcome_declarations]
    have hscan : ((Declarations.scan ∅ l).map fun t => ((), t)).map Prod.snd
        = Declarations.scan ∅ l := by
      cases Declarations.scan ∅ l <;> rfl
    rw [hscan]
    exact Declarations.agree_scan fun d => (hl d.1 d.2).trans Body.mem_declared_iff.symm

end JoinIR
