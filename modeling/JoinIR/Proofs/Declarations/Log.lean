/-
# JoinIR.Proofs.Declarations.Log — what the analysis reports

The analysis of a body announces a slot when it enters it into the table, and it says how it ends.
So its report is a function of the declarations that it reads: the **firsts** of them, one for every
slot, in order, are announced, and they are also what the table consists of. That the two stay in
step is one invariant of the scan (`Declarations.run_declareAll_of_coherent`): as long as no slot
has two types, what is announced are the firsts of what has been read, and the table reflects it.

At a clash the analysis has read a coherent list, and it reports the clash and nothing else
(`Body.declarations_of_clash`).
-/
import JoinIR.Proofs.Declarations.Occurring

namespace JoinIR

/-! ## The first declaration of every slot -/

/-- The first declaration of every slot, in order. -/
def firsts : List (Slot × Ty) → List (Slot × Ty)
  | [] => []
  | d :: rest => d :: (firsts rest).filter fun e => !(e.1 == d.1)

/-- Of every slot the first declaration is kept, and no other. -/
theorem filter_firsts (slot : Slot) (l : List (Slot × Ty)) :
    (firsts l).filter (fun d => d.1 == slot) = (l.find? fun d => d.1 == slot).toList := by
  induction l with
  | nil => rfl
  | cons d rest ih =>
    rw [firsts, List.filter_cons, List.filter_filter, List.find?_cons]
    cases hd : d.1 == slot with
    -- what is kept behind the first declaration of the slot has other slots
    | true =>
      have hnone : (firsts rest).filter (fun e => e.1 == slot && !(e.1 == d.1)) = [] := by
        refine List.filter_eq_nil_iff.mpr fun e _ he => ?_
        obtain ⟨heslot, hed⟩ : e.1 == slot ∧ (e.1 == d.1) = false := by simpa using he
        rw [BEq.trans heslot (BEq.symm hd)] at hed
        cases hed
      rw [if_pos rfl, hnone]
      rfl
    | false =>
      have hkeep : (firsts rest).filter (fun e => e.1 == slot && !(e.1 == d.1))
          = (firsts rest).filter fun e => e.1 == slot := by
        refine List.filter_congr fun e _ => ?_
        cases hes : e.1 == slot with
        | false => rfl
        | true => rw [BEq.congr_left hes, BEq.comm, hd]; rfl
      rw [if_neg Bool.false_ne_true, hkeep, ih]

theorem mem_firsts_iff {d : Slot × Ty} {l : List (Slot × Ty)} :
    d ∈ firsts l ↔ l.find? (fun e => e.1 == d.1) = some d := by
  rw [← Option.mem_toList, ← filter_firsts, List.mem_filter, and_iff_left (BEq.refl d.1)]

theorem eq_of_mem_firsts {d e : Slot × Ty} {l : List (Slot × Ty)} (hd : d ∈ firsts l)
    (he : e ∈ firsts l) (hde : d.1 == e.1) : d = e := by
  rw [mem_firsts_iff] at hd he
  have hsame : (fun a : Slot × Ty => a.1 == d.1) = fun a => a.1 == e.1 := by
    funext a
    exact BEq.congr_right hde
  rw [hsame, he] at hd
  exact (Option.some.inj hd).symm

/-- No slot is kept twice. -/
theorem pairwise_firsts (l : List (Slot × Ty)) :
    (firsts l).Pairwise fun d e => (d.1 == e.1) = false := by
  induction l with
  | nil => exact .nil
  | cons d rest ih =>
    refine .cons (fun e he => ?_) (ih.filter _)
    rw [BEq.comm]
    simpa using (List.mem_filter.mp he).2

/-- A declaration at the end is kept if its slot is new. -/
theorem firsts_concat (l : List (Slot × Ty)) (d : Slot × Ty) :
    firsts (l ++ [d]) = firsts l ++ if l.any fun e => e.1 == d.1 then [] else [d] := by
  induction l with
  | nil => rfl
  | cons e rest ih =>
    rw [List.cons_append, firsts, firsts, ih, List.filter_append, List.any_cons]
    cases hed : e.1 == d.1 with
    | true => cases rest.any fun e => e.1 == d.1 <;> simp [BEq.symm hed]
    | false =>
      have hde : (d.1 == e.1) = false := by rw [BEq.comm, hed]
      cases rest.any fun e => e.1 == d.1 <;> simp [hde]

/-! ## The table -/

/-- Whether the slot of one declaration comes no later than that of another one. -/
def slotLE (d e : Slot × Ty) : Bool := (compare d.1 e.1).isLE

namespace Reflects

variable {table : SlotTable} {l : List (Slot × Ty)}

theorem mem_toList_iff_mem_firsts (h : Reflects table l) {d : Slot × Ty} :
    d ∈ table.toList ↔ d ∈ firsts l := by
  rw [h.mem_toList_iff, mem_firsts_iff]

theorem perm_firsts (h : Reflects table l) : (firsts l).Perm table.toList := by
  have hne {m : List (Slot × Ty)} (hm : m.Pairwise fun d e => (d.1 == e.1) = false) : m.Nodup := by
    refine hm.imp fun {d e} hde heq => ?_
    rw [heq, BEq.refl] at hde
    cases hde
  rw [List.perm_ext_iff_of_nodup (hne (pairwise_firsts l)) (hne table.pairwise_ne)]
  exact fun d => h.mem_toList_iff_mem_firsts.symm

/-- The table lists the firsts in slot order. -/
theorem mergeSort_firsts (h : Reflects table l) : (firsts l).mergeSort slotLE = table.toList := by
  have hsorted : ((firsts l).mergeSort slotLE).Pairwise fun d e => slotLE d e = true := by
    apply List.pairwise_mergeSort
    · intro d e f
      exact Std.TransCmp.isLE_trans
    · intro d e
      have hswap : compare e.1 d.1 = (compare d.1 e.1).swap := Std.OrientedCmp.eq_swap
      rw [slotLE, slotLE, hswap]
      cases compare d.1 e.1 <;> rfl
  have htable : table.toList.Pairwise fun d e => slotLE d e = true := by
    refine table.ascending.imp fun {d e} hlt => ?_
    rw [slotLE, hlt]
    rfl
  refine List.Perm.eq_of_pairwise ?_ hsorted htable ((List.mergeSort_perm _ _).trans h.perm_firsts)
  -- entries of one slot are the same entry
  intro d e hd he hde hed
  have hslot : e.1 == d.1 :=
    Slot.compare_eq_iff_beq.mp (Std.OrientedCmp.isLE_antisymm hde hed)
  exact eq_of_mem_firsts (List.mem_mergeSort.mp hd) (h.mem_toList_iff_mem_firsts.mp he)
    (BEq.symm hslot)

end Reflects

/-! ## A scan without a clash -/

/-- The notice that a slot is declared for the first time. -/
def announcement (d : Slot × Ty) : Notice := .declared d.1 d.2

namespace Declarations

theorem run_declareAll_append (table : SlotTable) (l m : List (Slot × Ty)) :
    (declareAll (l ++ m)).run table
      = (declareAll l).run table >>= fun r => (declareAll m).run r.2 := by
  rw [declareAll, List.forM_eq_forM, List.forM_append, StateT.run_bind]
  rfl

/-- As long as no slot has two types, the firsts of what has been read are announced. -/
theorem run_declareAll_of_coherent {table : SlotTable} {pre : List (Slot × Ty)}
    (hr : Reflects table pre) (l : List (Slot × Ty)) (hc : Coherent (pre ++ l)) :
    ∃ t new, (declareAll l).run table = ⟨new.map announcement, .ok ((), t)⟩ ∧
      Reflects t (pre ++ l) ∧ firsts (pre ++ l) = firsts pre ++ new := by
  induction l generalizing table pre with
  | nil =>
    refine ⟨table, [], rfl, ?_, ?_⟩
    · rwa [List.append_nil]
    · rw [List.append_nil, List.append_nil]
  | cons d rest ih =>
    obtain ⟨slot, ty⟩ := d
    have happ : pre ++ (slot, ty) :: rest = (pre ++ [(slot, ty)]) ++ rest := by simp
    have hconcat := firsts_concat pre (slot, ty)
    rw [← List.isSome_find?, ← hr slot] at hconcat
    rw [happ] at hc ⊢
    rw [run_declareAll_cons]
    cases hfind : table.find? slot with
    | none =>
      rw [hfind, Option.isSome_none, if_neg Bool.false_ne_true] at hconcat
      obtain ⟨t, new, hrun, hreflects, hnew⟩ := ih (hr.insertNew slot ty) hc
      refine ⟨t, (slot, ty) :: new, ?_, hreflects, ?_⟩
      · rw [Report.bind_of_ok (by rw [run_declare_new hfind]), hrun, run_declare_new hfind]
        rfl
      · rw [hnew, hconcat, List.append_assoc, List.singleton_append]
    | some entry =>
      obtain ⟨first, previous⟩ := entry
      rw [hfind, Option.isSome_some, if_pos rfl, List.append_nil] at hconcat
      have hty : previous = ty := by
        rw [hr slot] at hfind
        have hmem : (first, previous) ∈ pre := List.mem_of_find?_eq_some hfind
        have hslot : first == slot := by simpa using List.find?_some hfind
        exact hc (first, previous) (by simp [hmem]) (slot, ty) (by simp) hslot
      subst hty
      obtain ⟨t, new, hrun, hreflects, hnew⟩ := ih (hr.again hfind) hc
      refine ⟨t, new, ?_, hreflects, ?_⟩
      · rw [Report.bind_of_ok (by rw [run_declare_again hfind]), hrun, run_declare_again hfind]
        rfl
      · rw [hnew, hconcat]

end Declarations

namespace Body

variable {mode : Mode} {b : Body}

/-- If no slot has two types, the firsts of all declarations are announced, and then the number of
slots. -/
theorem declarations_of_coherent (hc : Coherent (b.declared mode)) :
    ∃ table, Reflects table (b.declared mode) ∧ b.declarations mode
      = ⟨.analysisBegun mode :: (firsts (b.declared mode)).map announcement
          ++ [.analysisDone table.size], .ok table⟩ := by
  obtain ⟨table, new, hrun, hreflects, hnew⟩ :=
    Declarations.run_declareAll_of_coherent Reflects.empty (b.declared mode) hc
  rw [List.nil_append] at hreflects hnew
  refine ⟨table, hreflects, ?_⟩
  rw [declarations, Declarations.visitBody_eq_declareAll, hrun, hnew]
  rfl

/-- At a clash the firsts of the declarations before it have been announced. -/
theorem declarations_of_clash {before after : List (Slot × Ty)} {first later : Slot × Ty}
    (hsplit : b.declared mode = before ++ later :: after) (hc : Coherent before)
    (hfind : (before.find? fun d => d.1 == later.1) = some first) (hne : first.2 ≠ later.2) :
    b.declarations mode
      = ⟨.analysisBegun mode :: (firsts before).map announcement
          ++ [.rebound first.1 later.2 first.2], .error ⟨first.1, first.2, later.2⟩⟩ := by
  obtain ⟨table, new, hrun, hreflects, hnew⟩ :=
    Declarations.run_declareAll_of_coherent Reflects.empty before hc
  rw [List.nil_append] at hreflects hnew
  have hclash := Declarations.run_declare_clash ((hreflects later.1).trans hfind) hne
  have hall : (Declarations.declareAll (before ++ later :: after)).run ∅
      = ⟨new.map announcement ++ [.rebound first.1 later.2 first.2],
          .error ⟨first.1, first.2, later.2⟩⟩ := by
    rw [Declarations.run_declareAll_append, hrun, Report.bind_of_ok rfl,
      Declarations.run_declareAll_cons, hclash]
    rfl
  rw [declarations, Declarations.visitBody_eq_declareAll, hsplit, hall, hnew]
  rfl

end Body

/-- A list that is not coherent has a first declaration that disagrees with the first one of its
slot. -/
theorem exists_clash {pre : List (Slot × Ty)} (hpre : Coherent pre) (l : List (Slot × Ty))
    (h : ¬ Coherent (pre ++ l)) :
    ∃ before first later after, pre ++ l = before ++ later :: after ∧ Coherent before ∧
      (before.find? fun d => d.1 == later.1) = some first ∧ first.2 ≠ later.2 := by
  induction l generalizing pre with
  | nil => exact absurd hpre (by rwa [List.append_nil] at h)
  | cons d rest ih =>
    by_cases hd : Coherent (pre ++ [d])
    · have happ : pre ++ d :: rest = (pre ++ [d]) ++ rest := by simp
      rw [happ] at h ⊢
      exact ih hd h
    · have hclash : ∃ e ∈ pre, e.1 == d.1 ∧ e.2 ≠ d.2 := by
        by_contra hnone
        push Not at hnone
        exact hd (hpre.concat hnone)
      obtain ⟨e, he, hslot, hne⟩ := hclash
      cases hfind : pre.find? fun a => a.1 == d.1 with
      | none => exact absurd hslot (List.find?_eq_none.mp hfind e he)
      | some first =>
        have hfirst : first.1 == d.1 := by simpa using List.find?_some hfind
        -- the first declaration of the slot has the type of all before
        have hty : first.2 = e.2 := hpre first (List.mem_of_find?_eq_some hfind) e he
          (BEq.trans hfirst (BEq.symm hslot))
        exact ⟨pre, first, d, rest, rfl, hpre, hfind, hty ▸ hne⟩

/-- The report of an analysis accounts for its outcome. It says first that the analysis begins; then
it announces each slot once, where it is declared first and in that order; and then it says how the
analysis ends, and nothing else. If the analysis goes through, all declarations have been read, the
number that is reported is that of the announced slots and of the entries of the table, and what is
announced is the table, once it is sorted by slot. If not, it is the error that is reported, about
the declaration at which it occurs, and the slot of the error has been announced once, as the error
shows it and with the previous type. -/
theorem report_accounts_for_outcome (mode : Mode) (b : Body) :
    ∃ read unread, b.declared mode = read ++ unread ∧
      ((firsts read).Pairwise fun d e => (d.1 == e.1) = false) ∧
      ((∃ table, unread = [] ∧
          b.declarations mode = ⟨.analysisBegun mode :: (firsts read).map announcement
            ++ [.analysisDone table.size], .ok table⟩ ∧
          (firsts read).length = table.size ∧
          (firsts read).mergeSort slotLE = table.toList) ∨
        ∃ e slot rest, unread = (slot, e.found) :: rest ∧ slot == e.slot ∧
          b.declarations mode = ⟨.analysisBegun mode :: (firsts read).map announcement
            ++ [.rebound e.slot e.found e.previous], .error e⟩ ∧
          (firsts read).filter (fun d => d.1 == e.slot) = [(e.slot, e.previous)]) := by
  by_cases hc : Coherent (b.declared mode)
  · obtain ⟨table, hreflects, hreport⟩ := Body.declarations_of_coherent hc
    refine ⟨b.declared mode, [], (List.append_nil _).symm, pairwise_firsts _, .inl ?_⟩
    exact ⟨table, rfl, hreport, hreflects.perm_firsts.length_eq, hreflects.mergeSort_firsts⟩
  · obtain ⟨before, first, later, after, hsplit, hbefore, hfind, hne⟩ :=
      exists_clash Coherent.nil (b.declared mode) hc
    have hslot : first.1 == later.1 := by simpa using List.find?_some hfind
    refine ⟨before, later :: after, hsplit, pairwise_firsts _, .inr ?_⟩
    refine ⟨⟨first.1, first.2, later.2⟩, later.1, after, rfl, BEq.symm hslot,
      Body.declarations_of_clash hsplit hbefore hfind hne, ?_⟩
    have hsame : (fun d : Slot × Ty => d.1 == first.1) = fun d => d.1 == later.1 := by
      funext d
      exact BEq.congr_right hslot
    rw [filter_firsts, hsame, hfind]
    rfl

end JoinIR
