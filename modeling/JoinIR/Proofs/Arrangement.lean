/-
# JoinIR.Proofs.Arrangement — equality, order and hash agree

Handles, symbols, types, variables, slots and operators are compared by `==`, by `compare` and by
`hash`. That the three agree is a law of each kind (`Std.TransOrd`, `Std.LawfulBEqOrd` and
`LawfulHashable`), proved beside its definition; here is what it means for lists of items, for
every kind that has the law.

* A hashed set finds an item new exactly if no earlier item equals it (`fresh_iff`), although it
  compares only items of one hash.
* Sorting does not disturb equal items (`filter_sorted`): each class of equal items stands in the
  sorted list as it stood in the input.
* Hence the sorted list falls into runs, one for each class (`filter_eq_of_mem_runs`), and the runs
  ascend strictly (`pairwise_runs`). The items marked as new are the firsts of the runs
  (`sorted_selected_fresh`), the members of the ordered set are their lasts (`distinct_eq_lasts`).

So the marks and the ordered set agree on the classes, and on the items themselves for a kind whose
equal items are identical. For handles they differ: of several debug names of one number the marks
point at the first, and the ordered set holds the last (`ordered_set_drops_first_name`).
-/
import Mathlib.Data.List.SplitBy
import Mathlib.Data.List.TakeWhile
import JoinIR.Arrangement
import JoinIR.Handle
import JoinIR.Op
import JoinIR.Ty.Order

namespace JoinIR.Arrangement

variable {α : Type}

/-! ## The hashed set -/

/-- The items that carry a mark. -/
def selected (items : List α) (marks : List Bool) : List α :=
  ((items.zip marks).filter Prod.snd).map Prod.fst

@[simp] theorem selected_nil (marks : List Bool) : selected ([] : List α) marks = [] := rfl

@[simp] theorem selected_cons_true (a : α) (items : List α) (marks : List Bool) :
    selected (a :: items) (true :: marks) = a :: selected items marks := rfl

@[simp] theorem selected_cons_false (a : α) (items : List α) (marks : List Bool) :
    selected (a :: items) (false :: marks) = selected items marks := rfl

section Hashed

variable [BEq α] [Hashable α] [LawfulHashable α]

theorem finds_iff {held : List α} {a : α} :
    finds held a = true ↔ ∃ b ∈ held, (b == a) = true := by
  simp only [finds, List.any_eq_true, Bool.and_eq_true, beq_iff_eq]
  exact exists_congr fun b => and_congr_right fun _ =>
    ⟨fun h => h.2, fun h => ⟨LawfulHashable.hash_eq b a h, h⟩⟩

theorem finds_cons_eq_false {held : List α} {a b : α} :
    finds (b :: held) a = false ↔ finds held a = false ∧ (b == a) = false := by
  simp only [← Bool.not_eq_true, finds_iff, List.exists_mem_cons_iff, not_or]
  exact and_comm

variable [PartialEquivBEq α]

/-- If a set finds an item, then none that it does not find is equal to it. -/
theorem bne_of_finds {held : List α} {a b : α} (ha : finds held a = true)
    (hb : finds held b = false) : (a == b) = false := by
  rw [← Bool.not_eq_true] at hb ⊢
  intro hab
  obtain ⟨c, hc, hca⟩ := finds_iff.mp ha
  exact hb (finds_iff.mpr ⟨c, hc, PartialEquivBEq.trans hca hab⟩)

/-- An item is marked if neither the set at the start nor an earlier item has one equal to it. -/
theorem getElem?_freshAfter {held items : List α} {i : Nat} (h : i < items.length) :
    (freshAfter held items)[i]? = some true ↔
      finds held items[i] = false ∧ ∀ b ∈ items.take i, (b == items[i]) = false := by
  induction items generalizing held i with
  | nil => cases h
  | cons a rest ih =>
    rw [freshAfter]
    cases i with
    | zero => cases ha : finds held a <;> simp [ha]
    | succ i =>
      have hi : i < rest.length := Nat.lt_of_succ_lt_succ h
      rw [List.getElem_cons_succ, List.take_succ_cons, List.forall_mem_cons]
      split
      next ha =>
        rw [List.getElem?_cons_succ, ih hi]
        constructor
        · rintro ⟨hx, hall⟩
          exact ⟨hx, bne_of_finds ha hx, hall⟩
        · rintro ⟨hx, -, hall⟩
          exact ⟨hx, hall⟩
      next => rw [List.getElem?_cons_succ, ih hi, finds_cons_eq_false, and_assoc]

theorem fresh_iff {items : List α} {i : Nat} (h : i < items.length) :
    (fresh items)[i]? = some true ↔ ∀ b ∈ items.take i, (b == items[i]) = false := by
  rw [fresh, getElem?_freshAfter h]
  simp [finds]

/-- The marked items are the first ones of their classes, as far as the set at the start has none
equal to them. -/
theorem mem_selected_freshAfter [ReflBEq α] {held items : List α} {a : α} :
    a ∈ selected items (freshAfter held items) ↔
      finds held a = false ∧ (items.filter (· == a)).head? = some a := by
  induction items generalizing held with
  | nil => simp
  | cons b rest ih =>
    rw [freshAfter, List.filter_cons]
    cases hb : finds held b with
    | true =>
      rw [if_pos rfl, selected_cons_false, ih]
      refine and_congr_right fun ha => ?_
      rw [if_neg (Bool.not_eq_true _ ▸ bne_of_finds hb ha)]
    | false =>
      rw [if_neg Bool.false_ne_true, selected_cons_true, List.mem_cons, ih, finds_cons_eq_false]
      cases hba : b == a with
      | true =>
        simp only [if_pos, List.head?_cons, Option.some.injEq]
        constructor
        · rintro (rfl | ⟨⟨-, h⟩, -⟩)
          · exact ⟨hb, rfl⟩
          · cases h
        · exact fun h => .inl h.2.symm
      | false =>
        have hne : a ≠ b := by
          rintro rfl
          simp at hba
        simp [hne]

/-- No two marked items are equal. -/
theorem pairwise_selected_freshAfter [ReflBEq α] (held items : List α) :
    (selected items (freshAfter held items)).Pairwise fun a b => (a == b) = false := by
  induction items generalizing held with
  | nil => exact .nil
  | cons a rest ih =>
    rw [freshAfter]
    split
    next => exact ih held
    next =>
      refine .cons (fun b hb => ?_) (ih (a :: held))
      exact (finds_cons_eq_false.mp (mem_selected_freshAfter.mp hb).1).2

end Hashed

/-! ## Runs -/

section Runs

variable [BEq α]

/-- The list cut into runs of equal neighbours. -/
def runs (l : List α) : List (List α) := l.splitBy (· == ·)

theorem mem_of_mem_runs {l g : List α} {a : α} (hg : g ∈ runs l) (ha : a ∈ g) : a ∈ l := by
  rw [← List.flatten_splitBy (· == ·) l]
  exact List.mem_flatten_of_mem hg ha

theorem bne_of_head?_dropWhile {a b : α} {l : List α}
    (h : b ∈ (l.dropWhile (a == ·)).head?) : (a == b) = false := by
  have hnot := List.head?_dropWhile_not (a == ·) l
  rw [h] at hnot
  exact hnot

/-- A property of lists follows from the empty list and from what is behind the first run. -/
theorem runs_induction {motive : List α → Prop} (nil : motive [])
    (cons : ∀ a l, motive (l.dropWhile (a == ·)) → motive (a :: l)) (l : List α) : motive l :=
  match l with
  | [] => nil
  | a :: l => cons a l (runs_induction nil cons (l.dropWhile (a == ·)))
termination_by l.length
decreasing_by exact Nat.lt_succ_of_le (List.dropWhile_sublist _).length_le

variable [EquivBEq α]

theorem beq_of_mem_first {a b : α} {l : List α} (h : b ∈ a :: l.takeWhile (a == ·)) :
    (a == b) = true := by
  rcases List.mem_cons.mp h with rfl | h
  · exact BEq.rfl
  · exact List.mem_takeWhile_imp h

/-- The first run is the first item with those right behind it that are equal to it. -/
theorem runs_cons (a : α) (l : List α) :
    runs (a :: l) = (a :: l.takeWhile (a == ·)) :: runs (l.dropWhile (a == ·)) := by
  have hchain : (a :: l.takeWhile (a == ·)).IsChain fun x y => (x == y) = true :=
    List.Pairwise.isChain (List.pairwise_of_forall_mem_list fun b hb c hc =>
      PartialEquivBEq.trans (PartialEquivBEq.symm (beq_of_mem_first hb)) (beq_of_mem_first hc))
  have hsplit : a :: l = (a :: l.takeWhile (a == ·)) ++ l.dropWhile (a == ·) := by
    rw [List.cons_append, List.takeWhile_append_dropWhile]
  conv_lhs => rw [hsplit]
  rw [runs, List.splitBy_append, List.splitBy_of_isChain (List.cons_ne_nil _ _) hchain]
  · rfl
  -- the run ends where it does: what comes next is not equal to any of its items
  · intro b hb c hc
    rw [← BEq.congr_left (beq_of_mem_first (List.mem_of_getLast? hb))]
    exact bne_of_head?_dropWhile hc

end Runs

/-! ## Lists in order -/

section Ordered

variable [Ord α]

/-- The items ascend; equal ones may stand in any order. -/
def Ascending (l : List α) : Prop := l.Pairwise fun a b => (compare a b).isLE = true

/-- The items ascend, and no two of them are equal. -/
def StrictlyAscending (l : List α) : Prop := l.Pairwise fun a b => compare a b = .lt

theorem Ascending.dropWhile {a : α} {l : List α} {p : α → Bool} (h : Ascending (a :: l)) :
    Ascending (l.dropWhile p) :=
  (List.pairwise_cons.mp h).2.sublist (List.dropWhile_sublist p)

section Lawful

variable [BEq α] [Std.LawfulBEqOrd α] {a b : α}

theorem compare_of_beq (h : (a == b) = true) : compare a b = .eq :=
  Std.LawfulBEqCmp.compare_eq_iff_beq.mpr h

theorem compare_ne_of_bne (h : (a == b) = false) : compare a b ≠ .eq := by
  rw [Ne, Std.LawfulBEqCmp.compare_eq_iff_beq, h]
  exact Bool.false_ne_true

theorem lt_of_isLE_of_bne (hle : (compare a b).isLE = true) (hne : (a == b) = false) :
    compare a b = .lt :=
  (Ordering.isLE_iff_eq_lt_or_eq_eq.mp hle).resolve_right (compare_ne_of_bne hne)

theorem bne_of_lt (h : compare a b = .lt) : (a == b) = false := by
  rw [← Bool.not_eq_true]
  intro hab
  rw [compare_of_beq hab] at h
  cases h

end Lawful

variable [Std.TransOrd α]

theorem isLE_or_isLE (a b : α) : (compare a b).isLE = true ∨ (compare b a).isLE = true := by
  rw [Std.OrientedOrd.eq_swap (a := b)]
  cases compare a b <;> simp

theorem ascending_sorted (items : List α) : Ascending (sorted items) :=
  List.pairwise_mergeSort (fun _ _ _ => Std.TransCmp.isLE_trans)
    (fun a b => (Bool.or_eq_true _ _).mpr (isLE_or_isLE a b)) items

theorem StrictlyAscending.nodup {l : List α} (h : StrictlyAscending l) : l.Nodup := by
  refine h.imp fun hab => ?_
  rintro rfl
  rw [Std.ReflOrd.compare_self] at hab
  cases hab

/-- Lists that ascend strictly and have the same members are identical. -/
theorem StrictlyAscending.eq_of_mem_iff {l m : List α} (hl : StrictlyAscending l)
    (hm : StrictlyAscending m) (h : ∀ a, a ∈ l ↔ a ∈ m) : l = m := by
  refine List.Perm.eq_of_pairwise (fun a b _ _ hab hba => ?_) hl hm
    ((List.perm_ext_iff_of_nodup hl.nodup hm.nodup).mpr h)
  rw [Std.OrientedOrd.eq_swap, hba] at hab
  cases hab

variable [BEq α] [Std.LawfulBEqOrd α]

/-- Sorting does not disturb equal items. -/
theorem filter_sorted (items : List α) (a : α) :
    (sorted items).filter (· == a) = items.filter (· == a) := by
  have hascending : Ascending (items.filter (· == a)) := by
    refine List.pairwise_of_forall_mem_list fun b hb c hc => ?_
    have hba : (b == a) = true := (List.mem_filter.mp hb).2
    have hca : (c == a) = true := (List.mem_filter.mp hc).2
    rw [compare_of_beq (PartialEquivBEq.trans hba (PartialEquivBEq.symm hca))]
    rfl
  -- a class of equal items ascends, so the sorted list holds it in the order of the input
  have hsublist : (items.filter (· == a)).Sublist (sorted items) :=
    List.sublist_mergeSort (fun _ _ _ => Std.TransCmp.isLE_trans)
      (fun a b => (Bool.or_eq_true _ _).mpr (isLE_or_isLE a b)) hascending List.filter_sublist
  have hclass := hsublist.filter (· == a)
  rw [List.filter_filter] at hclass
  simp only [Bool.and_self] at hclass
  exact (hclass.eq_of_length ((sorted_perm items).filter _).length_eq.symm).symm

/-! ## Runs of a list in order -/

variable {l : List α}

/-- In an ascending list everything behind the first run is greater. -/
theorem lt_of_mem_dropWhile {a b : α} (h : Ascending (a :: l))
    (hb : b ∈ l.dropWhile (a == ·)) : compare a b = .lt := by
  have hrest : Ascending (l.dropWhile (a == ·)) := h.dropWhile
  cases hd : l.dropWhile (a == ·) with
  | nil =>
    rw [hd] at hb
    cases hb
  | cons c m =>
    have hc : c ∈ l := (List.dropWhile_sublist (a == ·)).subset (hd ▸ List.mem_cons_self)
    have hac : compare a c = .lt :=
      lt_of_isLE_of_bne ((List.pairwise_cons.mp h).1 c hc)
        (bne_of_head?_dropWhile (l := l) (by rw [hd]; rfl))
    rw [hd] at hb hrest
    rcases List.mem_cons.mp hb with rfl | hb
    · exact hac
    · exact Std.TransCmp.lt_of_lt_of_isLE hac ((List.pairwise_cons.mp hrest).1 b hb)

/-- The first run of an ascending list is less than everything behind it. -/
theorem lt_of_mem_first {a b c : α} (h : Ascending (a :: l)) (hb : b ∈ a :: l.takeWhile (a == ·))
    (hc : c ∈ l.dropWhile (a == ·)) : compare b c = .lt := by
  rw [← Std.TransCmp.congr_left (compare_of_beq (beq_of_mem_first hb))]
  exact lt_of_mem_dropWhile h hc

/-- In an ascending list a run is the class of each of its items. -/
theorem filter_eq_of_mem_runs {g : List α} {b : α} (h : Ascending l) (hg : g ∈ runs l)
    (hb : b ∈ g) : l.filter (· == b) = g := by
  induction l using runs_induction with
  | nil => cases hg
  | cons a l ih =>
    rw [← List.takeWhile_append_dropWhile (p := (a == ·)) (l := l), ← List.cons_append,
      List.filter_append]
    rw [runs_cons] at hg
    rcases List.mem_cons.mp hg with rfl | hg
    -- the first run: all of it is equal to the item, and nothing behind it
    · have hnone : (l.dropWhile (a == ·)).filter (· == b) = [] := by
        refine List.filter_eq_nil_iff.mpr fun c hc => ?_
        rw [BEq.comm, bne_of_lt (lt_of_mem_first h hb hc)]
        exact Bool.false_ne_true
      rw [hnone, List.append_nil, List.filter_eq_self]
      exact fun c hc =>
        PartialEquivBEq.trans (PartialEquivBEq.symm (beq_of_mem_first hc)) (beq_of_mem_first hb)
    -- a later run: nothing of the first run is equal to the item
    · have hnone : (a :: l.takeWhile (a == ·)).filter (· == b) = [] := by
        refine List.filter_eq_nil_iff.mpr fun c hc => ?_
        rw [bne_of_lt (lt_of_mem_first h hc (mem_of_mem_runs hg hb))]
        exact Bool.false_ne_true
      rw [hnone, List.nil_append]
      exact ih h.dropWhile hg

/-- The runs of an ascending list ascend strictly. -/
theorem pairwise_runs (h : Ascending l) :
    (runs l).Pairwise fun g g' => ∀ a ∈ g, ∀ b ∈ g', compare a b = .lt := by
  induction l using runs_induction with
  | nil => exact .nil
  | cons a l ih =>
    rw [runs_cons]
    exact .cons (fun g hg b hb c hc => lt_of_mem_first h hb (mem_of_mem_runs hg hc))
      (ih h.dropWhile)

section Pick

variable {pick : List α → Option α} (hpick : ∀ {g a}, pick g = some a → a ∈ g)
include hpick

/-- The items picked from the runs of an ascending list are those picked from their classes. -/
theorem mem_pick_runs_iff (h : Ascending l) {a : α} :
    a ∈ (runs l).filterMap pick ↔ pick (l.filter (· == a)) = some a := by
  rw [List.mem_filterMap]
  constructor
  · rintro ⟨g, hg, ha⟩
    rwa [filter_eq_of_mem_runs h hg (hpick ha)]
  · intro ha
    have hmem : a ∈ (runs l).flatten := by
      rw [runs, List.flatten_splitBy]
      exact (List.mem_filter.mp (hpick ha)).1
    obtain ⟨g, hg, hag⟩ := List.mem_flatten.mp hmem
    rw [filter_eq_of_mem_runs h hg hag] at ha
    exact ⟨g, hg, ha⟩

theorem strictlyAscending_pick_runs (h : Ascending l) :
    StrictlyAscending ((runs l).filterMap pick) :=
  List.pairwise_filterMap.mpr ((pairwise_runs h).imp fun hlt a ha b hb =>
    hlt a (hpick ha) b (hpick hb))

end Pick

/-! ## The marked items and the ordered set -/

theorem lastOfRuns_append {a : α} {g m : List α} (hg : ∀ b ∈ g, (a == b) = true)
    (hm : ∀ b ∈ m.head?, (a == b) = false) :
    lastOfRuns (a :: (g ++ m)) = (a :: g).getLast (List.cons_ne_nil a g) :: lastOfRuns m := by
  induction g generalizing a with
  | nil =>
    cases m with
    | nil => rfl
    | cons b m =>
      rw [List.nil_append, lastOfRuns]
      split
      next heq => exact absurd heq (compare_ne_of_bne (hm b rfl))
      next => rfl
  | cons c g ih =>
    obtain ⟨hac, hg⟩ := List.forall_mem_cons.mp hg
    rw [List.cons_append, lastOfRuns, compare_of_beq hac, List.getLast_cons_cons]
    exact ih (fun b hb => PartialEquivBEq.trans (PartialEquivBEq.symm hac) (hg b hb))
      fun b hb => by rw [← BEq.congr_left hac, hm b hb]

theorem lastOfRuns_eq (l : List α) : lastOfRuns l = (runs l).filterMap List.getLast? := by
  induction l using runs_induction with
  | nil => rfl
  | cons a l ih =>
    rw [runs_cons, List.filterMap_cons, List.getLast?_eq_some_getLast (List.cons_ne_nil _ _), ← ih]
    conv_lhs => rw [← List.takeWhile_append_dropWhile (p := (a == ·)) (l := l)]
    exact lastOfRuns_append (fun b hb => List.mem_takeWhile_imp hb) fun b => bne_of_head?_dropWhile

/-- The ordered set holds the last item of each run of the sorted list. -/
theorem distinct_eq_lasts (items : List α) :
    distinct items = (runs (sorted items)).filterMap List.getLast? :=
  lastOfRuns_eq (sorted items)

/-- An item is in the ordered set if it is the last one of its class. -/
theorem mem_distinct_iff {items : List α} {a : α} :
    a ∈ distinct items ↔ (items.filter (· == a)).getLast? = some a := by
  rw [distinct_eq_lasts, mem_pick_runs_iff List.mem_of_getLast? (ascending_sorted items),
    filter_sorted]

theorem strictlyAscending_distinct (items : List α) : StrictlyAscending (distinct items) := by
  rw [distinct_eq_lasts]
  exact strictlyAscending_pick_runs List.mem_of_getLast? (ascending_sorted items)

variable [Hashable α] [LawfulHashable α]

/-- The marked items, sorted, are the first items of the runs of the sorted list. -/
theorem sorted_selected_fresh (items : List α) :
    sorted (selected items (fresh items)) = (runs (sorted items)).filterMap List.head? := by
  have hascending := ascending_sorted items
  have hstrict : StrictlyAscending (sorted (selected items (fresh items))) := by
    have hne := (sorted_perm _).symm.pairwise (pairwise_selected_freshAfter [] items)
      fun hab => by rw [BEq.comm, hab]
    exact ((ascending_sorted _).and hne).imp fun h => lt_of_isLE_of_bne h.1 h.2
  refine hstrict.eq_of_mem_iff (strictlyAscending_pick_runs List.mem_of_head? hascending)
    fun a => ?_
  rw [mem_pick_runs_iff List.mem_of_head? hascending, filter_sorted,
    (sorted_perm _).mem_iff, fresh, mem_selected_freshAfter]
  simp [finds]

/-- The ordered set holds, for each marked item, the last item of the input equal to it. -/
theorem distinct_eq_lasts_of_marked (items : List α) :
    distinct items = (sorted (selected items (fresh items))).filterMap fun a =>
      (items.filter (· == a)).getLast? := by
  rw [distinct_eq_lasts, sorted_selected_fresh, List.filterMap_filterMap]
  refine List.filterMap_congr fun g hg => ?_
  cases g with
  | nil => rfl
  | cons a g =>
    -- the run of a marked item is its class, in the order of the input
    rw [List.head?_cons, Option.bind_some, ← filter_sorted,
      filter_eq_of_mem_runs (ascending_sorted items) hg List.mem_cons_self]

end Ordered

/-! ## The kinds of item -/

/-- Equality, order and hash of a kind agree, on two items and on lists of items. -/
structure Coherent (α : Type) [BEq α] [Ord α] [Hashable α] : Prop where
  total : ∀ a b : α, (compare a b).isLE = true ∨ (compare b a).isLE = true
  swap : ∀ a b : α, compare b a = (compare a b).swap
  trans : ∀ a b c : α,
    (compare a b).isLE = true → (compare b c).isLE = true → (compare a c).isLE = true
  compare_eq_iff : ∀ a b : α, compare a b = .eq ↔ (a == b) = true
  hash_eq : ∀ a b : α, (a == b) = true → hash a = hash b
  /-- An item is marked exactly if no earlier item equals it. -/
  fresh_iff : ∀ (items : List α) (i : Nat) (h : i < items.length),
    (fresh items)[i]? = some true ↔ ∀ b ∈ items.take i, (b == items[i]) = false
  perm_sorted : ∀ items : List α, (sorted items).Perm items
  ascending_sorted : ∀ items : List α, Ascending (sorted items)
  /-- Equal items keep their order when they are sorted. -/
  filter_sorted : ∀ (items : List α) (a : α),
    (sorted items).filter (· == a) = items.filter (· == a)
  /-- The marked items in ascending order are the firsts of the runs. -/
  sorted_selected : ∀ items : List α,
    sorted (selected items (fresh items)) = (runs (sorted items)).filterMap List.head?
  /-- The items of the ordered set are the lasts of the runs. -/
  distinct_eq : ∀ items : List α, distinct items = (runs (sorted items)).filterMap List.getLast?
  strictlyAscending_distinct : ∀ items : List α, StrictlyAscending (distinct items)
  /-- For each marked item the ordered set holds the last item of the input equal to it. -/
  distinct_eq_of_marked : ∀ items : List α,
    distinct items = (sorted (selected items (fresh items))).filterMap fun a =>
      (items.filter (· == a)).getLast?

theorem coherent_of_lawful [BEq α] [Ord α] [Hashable α] [Std.TransOrd α] [Std.LawfulBEqOrd α]
    [LawfulHashable α] : Coherent α where
  total := isLE_or_isLE
  swap _ _ := Std.OrientedOrd.eq_swap
  trans _ _ _ := Std.TransCmp.isLE_trans
  compare_eq_iff _ _ := Std.LawfulBEqCmp.compare_eq_iff_beq
  hash_eq := LawfulHashable.hash_eq
  fresh_iff _ _ := fresh_iff
  perm_sorted := sorted_perm
  ascending_sorted := ascending_sorted
  filter_sorted := filter_sorted
  sorted_selected := sorted_selected_fresh
  distinct_eq := distinct_eq_lasts
  strictlyAscending_distinct := strictlyAscending_distinct
  distinct_eq_of_marked := distinct_eq_lasts_of_marked

/-- Handles of every space, symbols of every entity, types nested to any depth, variables, slots and
operators: for each of these kinds the order is total and says equal exactly of equal items, which
have one hash; the marks, the sorted list and the ordered set of every list of items agree on the
classes of equal items. The marks are at the first of each class, and the ordered set holds the
last. Of handles it holds, for each number, the last one with that number, whatever their debug
names. -/
theorem comparisons_cohere :
    (∀ κ : Space, Coherent (Handle κ)) ∧ (∀ ε : Entity, Coherent (Symbol ε)) ∧ Coherent Ty ∧
      Coherent Var ∧ Coherent Slot ∧ Coherent BinOp ∧ Coherent UnOp ∧ Coherent StoreOp ∧
      ∀ (κ : Space) (items : List (Handle κ)) (h : Handle κ),
        h ∈ distinct items ↔ (items.filter (·.id == h.id)).getLast? = some h :=
  ⟨fun _ => coherent_of_lawful, fun _ => coherent_of_lawful, coherent_of_lawful,
    coherent_of_lawful, coherent_of_lawful, coherent_of_lawful, coherent_of_lawful,
    coherent_of_lawful, fun _ _ _ => mem_distinct_iff⟩

/-- Of two debug names of one number the first one is marked, but the ordered set has the other. -/
theorem ordered_set_drops_first_name :
    distinct [(⟨3, some "x"⟩ : Local), ⟨3, some "y"⟩] ≠
      sorted (selected [(⟨3, some "x"⟩ : Local), ⟨3, some "y"⟩]
        (fresh [(⟨3, some "x"⟩ : Local), ⟨3, some "y"⟩])) := by
  intro h
  have hlast : (⟨3, some "y"⟩ : Local) ∈ distinct [(⟨3, some "x"⟩ : Local), ⟨3, some "y"⟩] :=
    mem_distinct_iff.mpr rfl
  rw [h, (sorted_perm _).mem_iff, fresh, mem_selected_freshAfter] at hlast
  have hfirst : some (⟨3, some "x"⟩ : Local) = some ⟨3, some "y"⟩ := hlast.2
  simp at hfirst

end JoinIR.Arrangement
