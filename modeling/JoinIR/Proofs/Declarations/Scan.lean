/-
# JoinIR.Proofs.Declarations.Scan — the analysis as a scan of a flat list

The analysis of a body runs inside the walk over its term. What it declares, and in which order,
is a list that can be read off the calls of the walk (`Body.declared`), and the whole report of
the analysis is a function of that list.

The result is that of a left-to-right **scan**. The invariant of the scan is that the table
reflects the declarations read so far: it answers for every slot with the first of them
(`Reflects`), so that a key keeps the debug name of its first declaration. A scan ends with such a
table if no slot has two types, and otherwise with the first clash, shown with that first
declaration.
-/
import JoinIR.Declarations
import JoinIR.Proofs.Calls
import JoinIR.Proofs.Table

namespace JoinIR

/-! ## Slots and tables -/

namespace Slot

theorem compare_eq_iff_beq {s t : Slot} : compare s t = .eq ↔ (t == s) = true := by
  rw [Std.LawfulBEqCmp.compare_eq_iff_beq, BEq.comm]

end Slot

namespace SlotTable

theorem find?_insertNew (table : SlotTable) (slot slot' : Slot) (ty : Ty) :
    (table.insertNew slot ty).find? slot'
      = (table.find? slot').or (if slot == slot' then some (slot, ty) else none) := by
  rw [Table.find?_insertNew]
  simp only [Slot.compare_eq_iff_beq]

end SlotTable

/-! ## The declarations of a body -/

/-- What a call declares: a local that is bound, and a join point whose parameters are passed
together, if it has two or more. -/
def Call.declared (mode : Mode) : Call → List (Slot × Ty)
  | binder x ty => [(.ofLocal x, ty)]
  | joinPoint k params =>
    if mode = .aggregate ∧ 2 ≤ params.length then
      [(.ofLabel k, .tuple (params.map ContParam.ty))]
    else []

/-- The declarations of a body, in the order of the walk. -/
def Body.declared (mode : Mode) (b : Body) : List (Slot × Ty) :=
  b.calls.flatMap (Call.declared mode)

namespace Declarations

/-- Declares slots from the left. -/
def declareAll (l : List (Slot × Ty)) : Analysis Unit := l.forM fun d => declare d.1 d.2

/-- What the analysis does once the parameters of a join point have been walked. -/
def declareTuple (mode : Mode) (k : Label) (params : List ContParam) : Analysis Unit :=
  match tupleSlot? mode k params with
  | some (slot, ty) => declare slot ty
  | none => pure ()

theorem flat_visitor (mode : Mode) : (visitor mode).Flat (declareTuple mode) where
  node _ _ := rfl
  joinPoint _ _ _ := rfl

theorem call_eq_declareAll (mode : Mode) (c : Call) :
    (visitor mode).call (declareTuple mode) c = declareAll (c.declared mode) := by
  cases c with
  | binder x ty => simp [Visitor.call, Call.declared, declareAll, visitor]
  | joinPoint k params =>
    by_cases h : mode = .aggregate ∧ 2 ≤ params.length <;>
      simp [Visitor.call, declareTuple, tupleSlot?, Call.declared, declareAll, h]

/-- The analysis of a body declares, from the left, what the calls of its walk declare. -/
theorem visitBody_eq_declareAll (mode : Mode) (b : Body) :
    (visitor mode).visitBody b = declareAll (b.declared mode) := by
  rw [Visitor.visitBody, Visitor.visit_eq_calls (flat_visitor mode)]
  exact Visitor.forM_eq_forM_flatMap fun c _ => call_eq_declareAll mode c

/-! ## The scan -/

/-- Reads declarations from the left into a table. The first one of a slot is entered; a later
one has to have the same type. -/
def scan (table : SlotTable) : List (Slot × Ty) → Except TypeMismatch SlotTable
  | [] => .ok table
  | (slot, ty) :: rest =>
    match table.find? slot with
    | none => scan (table.insertNew slot ty) rest
    | some (first, previous) =>
      if previous = ty then scan table rest else .error ⟨first, previous, ty⟩

section Step

variable {table : SlotTable} {slot first : Slot} {ty previous : Ty}

theorem run_declare_new (h : table.find? slot = none) :
    (declare slot ty).run table = ⟨[.declared slot ty], .ok ((), table.insertNew slot ty)⟩ := by
  simp only [declare, StateT.run, h]
  rfl

theorem run_declare_again (h : table.find? slot = some (first, ty)) :
    (declare slot ty).run table = ⟨[], .ok ((), table)⟩ := by
  simp only [declare, StateT.run, h, if_true]
  rfl

theorem run_declare_clash (h : table.find? slot = some (first, previous)) (hne : previous ≠ ty) :
    (declare slot ty).run table
      = ⟨[.rebound first ty previous], .error ⟨first, previous, ty⟩⟩ := by
  simp only [declare, StateT.run, h, if_neg hne]
  rfl

end Step

theorem run_declareAll_cons (table : SlotTable) (d : Slot × Ty) (rest : List (Slot × Ty)) :
    (declareAll (d :: rest)).run table
      = (declare d.1 d.2).run table >>= fun r => (declareAll rest).run r.2 := rfl

theorem outcome_declareAll (table : SlotTable) (l : List (Slot × Ty)) :
    ((declareAll l).run table).outcome = (scan table l).map fun t => ((), t) := by
  induction l generalizing table with
  | nil => rfl
  | cons d rest ih =>
    obtain ⟨slot, ty⟩ := d
    rw [run_declareAll_cons, scan]
    cases hfind : table.find? slot with
    | none =>
      rw [Report.outcome_bind, run_declare_new hfind]
      exact ih _
    | some entry =>
      obtain ⟨first, previous⟩ := entry
      by_cases hty : previous = ty
      · subst hty
        rw [Report.outcome_bind, run_declare_again hfind]
        simp only [if_true]
        exact ih _
      · rw [Report.outcome_bind, run_declare_clash hfind hty]
        simp only [if_neg hty]
        rfl

end Declarations

/-- The analysis of a body is a scan of its declarations. -/
theorem Body.outcome_declarations (mode : Mode) (b : Body) :
    (b.declarations mode).outcome = Declarations.scan ∅ (b.declared mode) := by
  rw [Body.declarations, Declarations.visitBody_eq_declareAll]
  simp only [Report.outcome_bind, Declarations.outcome_declareAll, Report.outcome_note]
  cases Declarations.scan ∅ (b.declared mode) <;> rfl

/-! ## What a scan keeps -/

/-- No two declarations give one slot different types. -/
def Coherent (l : List (Slot × Ty)) : Prop :=
  ∀ d ∈ l, ∀ e ∈ l, d.1 == e.1 → d.2 = e.2

/-- For every slot the table has the first declaration of it in the list, and no other entry. -/
def Reflects (table : SlotTable) (l : List (Slot × Ty)) : Prop :=
  ∀ slot, table.find? slot = l.find? fun d => d.1 == slot

namespace Reflects

variable {table : SlotTable} {l : List (Slot × Ty)}

theorem empty : Reflects ∅ [] := fun _ => rfl

/-- Declaring a slot that is not in the table. -/
theorem insertNew (h : Reflects table l) (slot : Slot) (ty : Ty) :
    Reflects (table.insertNew slot ty) (l ++ [(slot, ty)]) := by
  intro slot'
  rw [SlotTable.find?_insertNew, List.find?_append, h slot']
  cases hs : slot == slot' <;> simp [hs]

/-- Declaring a slot that is in the table. -/
theorem again (h : Reflects table l) {slot first : Slot} {ty ty' : Ty}
    (hfind : table.find? slot = some (first, ty')) : Reflects table (l ++ [(slot, ty)]) := by
  intro slot'
  rw [h slot', List.find?_append]
  cases hs : slot == slot' with
  | false => simp [hs]
  | true =>
    -- the slot was declared before, so the later declaration is not the first one of any slot
    have hsome : (l.find? fun d => d.1 == slot').isSome = true := by
      rw [h slot] at hfind
      have hmem := List.mem_of_find?_eq_some hfind
      have hbeq : first == slot := by simpa using List.find?_some hfind
      rw [List.find?_isSome]
      exact ⟨_, hmem, BEq.trans hbeq hs⟩
    rw [Option.or_of_isSome hsome]

/-- The entries of the table are the first declarations of their slots. -/
theorem mem_toList_iff (h : Reflects table l) {d : Slot × Ty} :
    d ∈ table.toList ↔ l.find? (fun e => e.1 == d.1) = some d := by
  rw [Table.mem_toList_iff, h d.1]

theorem mem_of_mem_toList (h : Reflects table l) {d : Slot × Ty} (hd : d ∈ table.toList) :
    d ∈ l := List.mem_of_find?_eq_some (h.mem_toList_iff.mp hd)

/-- Every slot that is declared has an entry. -/
theorem exists_entry (h : Reflects table l) {d : Slot × Ty} (hd : d ∈ l) :
    ∃ e ∈ table.toList, e.1 == d.1 := by
  cases hfind : l.find? fun e => e.1 == d.1 with
  | none => exact absurd (BEq.refl d.1) (List.find?_eq_none.mp hfind d hd)
  | some e =>
    have he : e.1 == d.1 := by simpa using List.find?_some hfind
    have hsame : (l.find? fun a => a.1 == e.1) = some e := by
      rw [← hfind]
      congr 1
      funext a
      exact BEq.congr_right he
    exact ⟨e, h.mem_toList_iff.mpr hsame, he⟩

end Reflects

theorem Coherent.nil : Coherent [] := fun _ hd => absurd hd List.not_mem_nil

theorem Coherent.of_subset {l m : List (Slot × Ty)} (h : Coherent m) (hlm : l ⊆ m) : Coherent l :=
  fun d hd e he => h d (hlm hd) e (hlm he)

/-- A declaration that agrees with all of a coherent list keeps it coherent. -/
theorem Coherent.concat {l : List (Slot × Ty)} (h : Coherent l) {d : Slot × Ty}
    (hd : ∀ e ∈ l, e.1 == d.1 → e.2 = d.2) : Coherent (l ++ [d]) := by
  intro a ha b hb hab
  rw [List.mem_append, List.mem_singleton] at ha hb
  rcases ha with ha | rfl <;> rcases hb with hb | rfl
  · exact h a ha b hb hab
  · exact hd a ha hab
  · exact (hd b hb (BEq.symm hab)).symm
  · rfl

/-- Declaration `j` of a list is the first one whose slot was declared before with another type,
and `i` is where the slot was declared first. -/
structure FirstClash (l : List (Slot × Ty)) (i j : Nat) (first later : Slot × Ty) : Prop where
  lt : i < j
  get_first : l[i]? = some first
  get_later : l[j]? = some later
  same_slot : (first.1 == later.1) = true
  other_type : first.2 ≠ later.2
  no_earlier : ∀ i' < i, ∀ d, l[i']? = some d → (d.1 == first.1) = false
  least : ∀ j' < j, ∀ i' < j', ∀ d e, l[i']? = some d → l[j']? = some e → d.1 == e.1 → d.2 = e.2

/-- The two declarations of a clash are not in one coherent list. -/
theorem FirstClash.not_both_mem {l m : List (Slot × Ty)} {i j : Nat} {first later : Slot × Ty}
    (h : FirstClash l i j first later) (hm : Coherent m) (hfirst : first ∈ m) : later ∉ m :=
  fun hlater => h.other_type (hm first hfirst later hlater h.same_slot)

theorem FirstClash.not_coherent {l : List (Slot × Ty)} {i j : Nat} {first later : Slot × Ty}
    (h : FirstClash l i j first later) : ¬ Coherent l := fun hc =>
  h.not_both_mem hc (List.mem_of_getElem? h.get_first) (List.mem_of_getElem? h.get_later)

/-- The first declaration that disagrees with a coherent list before it. -/
theorem FirstClash.of_find? {pre : List (Slot × Ty)} {first : Slot × Ty} (later : Slot × Ty)
    (rest : List (Slot × Ty)) (hc : Coherent pre)
    (hfind : pre.find? (fun d => d.1 == later.1) = some first) (hne : first.2 ≠ later.2) :
    ∃ i, FirstClash (pre ++ later :: rest) i pre.length first later := by
  obtain ⟨hslot, before, after, hpre, hbefore⟩ := List.find?_eq_some_iff_append.mp hfind
  have hread : ∀ n < pre.length, (pre ++ later :: rest)[n]? = pre[n]? :=
    fun n hn => List.getElem?_append_left hn
  have hlt : before.length < pre.length := by rw [hpre]; simp
  refine ⟨before.length, hlt, ?_, ?_, hslot, hne, ?_, ?_⟩
  · rw [hread _ hlt, hpre]
    simp
  · simp
  · intro n hn d hd
    rw [hread n (by omega), hpre, List.getElem?_append_left hn] at hd
    have hnot := hbefore d (List.mem_of_getElem? hd)
    cases hbeq : d.1 == first.1 with
    | false => rfl
    | true => simp [BEq.trans hbeq hslot] at hnot
  · intro n hn n' hn' d e hd he hde
    rw [hread n' (by omega)] at hd
    rw [hread n hn] at he
    exact hc d (List.mem_of_getElem? hd) e (List.mem_of_getElem? he) hde

namespace Declarations

/-- A scan goes through to a table that reflects the whole list, which is then coherent, or stops
at the first clash. -/
theorem scan_cases {table : SlotTable} {pre : List (Slot × Ty)} (hr : Reflects table pre)
    (hc : Coherent pre) (l : List (Slot × Ty)) :
    (∃ t, scan table l = .ok t ∧ Reflects t (pre ++ l) ∧ Coherent (pre ++ l)) ∨
      ∃ i j first later, FirstClash (pre ++ l) i j first later ∧
        scan table l = .error ⟨first.1, first.2, later.2⟩ := by
  induction l generalizing table pre with
  | nil => exact .inl ⟨table, rfl, by rwa [List.append_nil], by rwa [List.append_nil]⟩
  | cons d rest ih =>
    obtain ⟨slot, ty⟩ := d
    have happ : pre ++ (slot, ty) :: rest = (pre ++ [(slot, ty)]) ++ rest := by simp
    rw [scan, happ]
    cases hfind : table.find? slot with
    -- the slot is new: no earlier declaration to disagree with
    | none =>
      have hnone := hfind
      rw [hr slot, List.find?_eq_none] at hnone
      exact ih (hr.insertNew slot ty) (hc.concat fun e he hes => absurd hes (hnone e he))
    | some entry =>
      obtain ⟨first, previous⟩ := entry
      have hfirst := hfind
      rw [hr slot] at hfirst
      have hmem := List.mem_of_find?_eq_some hfirst
      have hslot : first == slot := by simpa using List.find?_some hfirst
      -- the table has the first declaration of the slot, so one comparison covers them all
      by_cases hty : previous = ty
      · subst hty
        simp only [if_true]
        refine ih (hr.again hfind) (hc.concat fun e he hes => ?_)
        exact hc e he (first, previous) hmem (BEq.trans hes (BEq.symm hslot))
      · simp only [if_neg hty]
        rw [← happ]
        obtain ⟨i, hclash⟩ := FirstClash.of_find? (slot, ty) rest hc hfirst hty
        exact .inr ⟨i, _, _, _, hclash, rfl⟩

/-- A scan from the empty table. -/
theorem scan_empty_cases (l : List (Slot × Ty)) :
    (∃ t, scan ∅ l = .ok t ∧ Reflects t l ∧ Coherent l) ∨
      ∃ i j first later, FirstClash l i j first later ∧
        scan ∅ l = .error ⟨first.1, first.2, later.2⟩ :=
  scan_cases Reflects.empty Coherent.nil l

theorem reflects_of_scan {l : List (Slot × Ty)} {t : SlotTable} (h : scan ∅ l = .ok t) :
    Reflects t l ∧ Coherent l := by
  obtain ⟨t', ht', hreflects⟩ | ⟨_, _, _, _, -, herror⟩ := scan_empty_cases l
  · rw [h] at ht'
    cases ht'
    exact hreflects
  · rw [h] at herror
    cases herror

theorem not_coherent_of_scan {l : List (Slot × Ty)} {e : TypeMismatch}
    (h : scan ∅ l = .error e) : ¬ Coherent l := by
  obtain ⟨t, ht, -⟩ | ⟨_, _, _, _, hclash, -⟩ := scan_empty_cases l
  · rw [h] at ht
    cases ht
  · exact hclash.not_coherent

end Declarations

/-- The analysis of a body ends with a table that reflects its declarations, or at the first
clash. -/
theorem Body.declarations_cases (mode : Mode) (b : Body) :
    (∃ table, (b.declarations mode).outcome = .ok table ∧ Reflects table (b.declared mode) ∧
        Coherent (b.declared mode)) ∨
      ∃ i j first later, FirstClash (b.declared mode) i j first later ∧
        (b.declarations mode).outcome = .error ⟨first.1, first.2, later.2⟩ := by
  rw [b.outcome_declarations mode]
  exact Declarations.scan_empty_cases (b.declared mode)

theorem Body.reflects_of_ok {mode : Mode} {b : Body} {table : SlotTable}
    (h : (b.declarations mode).outcome = .ok table) :
    Reflects table (b.declared mode) ∧ Coherent (b.declared mode) := by
  rw [b.outcome_declarations mode] at h
  exact Declarations.reflects_of_scan h

/-- The analysis of a body depends on the list of its declarations only, and scans it from the
left. Without a clash the table has the first declaration of every slot, under the debug name that
it has there. Otherwise the error is about the first declaration that disagrees with an earlier
one: it shows the slot and the type of the first declaration of that slot, and the other type. -/
theorem declarations_eq_scan (mode : Mode) (b : Body) :
    (∀ c : Body, c.declared mode = b.declared mode → c.declarations mode = b.declarations mode) ∧
      (b.declarations mode).outcome = Declarations.scan ∅ (b.declared mode) ∧
      (Coherent (b.declared mode) →
        ∃ table, (b.declarations mode).outcome = .ok table ∧
          ∀ d, d ∈ table.toList ↔ (b.declared mode).find? (fun e => e.1 == d.1) = some d) ∧
      (¬ Coherent (b.declared mode) →
        ∃ i j first later, FirstClash (b.declared mode) i j first later ∧
          (b.declarations mode).outcome = .error ⟨first.1, first.2, later.2⟩) := by
  have hcases := b.declarations_cases mode
  refine ⟨fun c hc => ?_, b.outcome_declarations mode, fun hcoherent => ?_, fun hclash => ?_⟩
  · simp only [Body.declarations, Declarations.visitBody_eq_declareAll, hc]
  · obtain ⟨table, hok, hreflects, -⟩ | ⟨i, j, first, later, hfirst, -⟩ := hcases
    · exact ⟨table, hok, fun d => hreflects.mem_toList_iff⟩
    · exact absurd hcoherent hfirst.not_coherent
  · obtain ⟨-, -, -, hcoherent⟩ | herror := hcases
    · exact absurd hcoherent hclash
    · exact herror

end JoinIR
