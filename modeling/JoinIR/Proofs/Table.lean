/-
# JoinIR.Proofs.Table — a table is what it answers

The entries of a table are in strictly ascending order, so that what a table answers for every key
determines its list of entries. `Table.forall₂_of_find?` says so up to any relation between
entries: two tables that answer alike list alike, position by position.

So what an operation does to a table can be told from its answers. `Table.filter` keeps the entries
whose keys have some property, and it goes through an insertion as long as equal keys agree on the
property (`Table.filter_insertNew`). `Table.mapKeys` replaces keys by others in the same order, and
it goes through an insertion and a look-up alike.
-/
import Mathlib.Data.List.Forall2
import JoinIR.Table

namespace JoinIR.Table

variable {κ ν : Type} [Ord κ]

theorem entryOf?_cons_of_eq {k : κ} {e : κ × ν} {l : List (κ × ν)} (h : compare k e.1 = .eq) :
    entryOf? k (e :: l) = some e := List.find?_cons_of_pos (by simp [h])

theorem entryOf?_cons_of_ne {k : κ} {e : κ × ν} {l : List (κ × ν)} (h : compare k e.1 ≠ .eq) :
    entryOf? k (e :: l) = entryOf? k l := List.find?_cons_of_neg (by simp [h])

variable [Std.TransOrd κ]

/-- A key below the first one is not there. -/
theorem entryOf?_of_lt_head {k : κ} {d : κ × ν} {l : List (κ × ν)}
    (hl : (d :: l).Pairwise fun a b => compare a.1 b.1 = .lt) (h : compare k d.1 = .lt) :
    entryOf? k (d :: l) = none := by
  apply entryOf?_eq_none
  intro e he
  rcases List.mem_cons.mp he with rfl | he
  · exact h
  · exact Std.TransCmp.lt_trans h (List.rel_of_pairwise_cons hl he)

/-- Behind the first entry its key does not come again. -/
theorem entryOf?_tail_of_eq_head {k : κ} {d : κ × ν} {l : List (κ × ν)}
    (hl : (d :: l).Pairwise fun a b => compare a.1 b.1 = .lt) (h : compare k d.1 = .eq) :
    entryOf? k l = none :=
  entryOf?_eq_none fun _ he =>
    Std.TransCmp.lt_of_eq_of_lt h (List.rel_of_pairwise_cons hl he)

/-- The entries of a table are what it answers for their own keys. -/
theorem mem_toList_iff {t : Table κ ν} {e : κ × ν} : e ∈ t.toList ↔ t.find? e.1 = some e := by
  obtain ⟨l, hl⟩ := t
  show e ∈ l ↔ entryOf? e.1 l = some e
  constructor
  · intro he
    induction l with
    | nil => simp at he
    | cons d rest ih =>
      rcases List.mem_cons.mp he with rfl | he
      · exact entryOf?_cons_of_eq (by simp)
      · have hgt : compare e.1 d.1 = .gt :=
          Std.OrientedCmp.gt_of_lt (List.rel_of_pairwise_cons hl he)
        rw [entryOf?_cons_of_ne (by simp [hgt])]
        exact ih hl.of_cons he
  · exact List.mem_of_find?_eq_some

theorem forall₂_of_entryOf? {R : κ × ν → κ × ν → Prop} {l m : List (κ × ν)}
    (hl : l.Pairwise fun a b => compare a.1 b.1 = .lt)
    (hm : m.Pairwise fun a b => compare a.1 b.1 = .lt)
    (h : ∀ k, Option.Rel R (entryOf? k l) (entryOf? k m)) :
    List.Forall₂ (fun d e => compare d.1 e.1 = .eq ∧ R d e) l m := by
  induction l generalizing m with
  | nil =>
    cases m with
    | nil => exact .nil
    | cons e m =>
      have he := h e.1
      rw [entryOf?_cons_of_eq (by simp)] at he
      cases he
  | cons d l ih =>
    cases m with
    | nil =>
      have hd := h d.1
      rw [entryOf?_cons_of_eq (by simp)] at hd
      cases hd
    | cons e m =>
      -- were one of the first keys the smaller, only its own list would have an entry for it
      cases hde : compare d.1 e.1 with
      | lt =>
        have hd := h d.1
        rw [entryOf?_of_lt_head hm hde, entryOf?_cons_of_eq (by simp)] at hd
        cases hd
      | gt =>
        have he := h e.1
        rw [entryOf?_of_lt_head hl (Std.OrientedCmp.lt_of_gt hde),
          entryOf?_cons_of_eq (by simp)] at he
        cases he
      | eq =>
        have hd := h d.1
        rw [entryOf?_cons_of_eq (by simp), entryOf?_cons_of_eq hde] at hd
        cases hd with
        | some hd =>
        -- the rests answer alike: for the key of the heads they answer nothing
        refine .cons ⟨hde, hd⟩ (ih hl.of_cons hm.of_cons fun k => ?_)
        by_cases hk : compare k d.1 = .eq
        · rw [entryOf?_tail_of_eq_head hl hk,
            entryOf?_tail_of_eq_head hm (Std.TransCmp.eq_trans hk hde)]
          exact .none
        · have hke : compare k e.1 ≠ .eq := fun hke =>
            hk (Std.TransCmp.eq_trans hke (Std.OrientedCmp.eq_symm hde))
          have hrest := h k
          rwa [entryOf?_cons_of_ne hk, entryOf?_cons_of_ne hke] at hrest

/-- Tables that answer alike list alike. -/
theorem forall₂_of_find? {R : κ × ν → κ × ν → Prop} {s t : Table κ ν}
    (h : ∀ k, Option.Rel R (s.find? k) (t.find? k)) :
    List.Forall₂ (fun d e => compare d.1 e.1 = .eq ∧ R d e) s.toList t.toList :=
  forall₂_of_entryOf? s.ascending t.ascending h

theorem eq_of_find? {s t : Table κ ν} (h : ∀ k, s.find? k = t.find? k) : s = t := by
  have hrel : ∀ k, Option.Rel (· = ·) (s.find? k) (t.find? k) := by
    intro k
    rw [h k]
    cases t.find? k with
    | none => exact .none
    | some e => exact .some rfl
  apply Table.ext
  exact List.forall₂_eq_eq_eq ▸ (forall₂_of_find? hrel).imp fun _ _ hde => hde.2

/-! ## Some of the keys -/

omit [Std.TransOrd κ] in
/-- The entry that a table answers for a key has that key. -/
theorem compare_of_find? {t : Table κ ν} {k : κ} {e : κ × ν} (h : t.find? k = some e) :
    compare k e.1 = .eq := by
  simpa using List.find?_some h

/-- The table of the entries whose keys have the property. -/
def filter (p : κ → Bool) (t : Table κ ν) : Table κ ν :=
  ⟨t.entries.filter fun e => p e.1, t.ascending.filter _⟩

omit [Std.TransOrd κ] in
@[simp] theorem toList_filter (p : κ → Bool) (t : Table κ ν) :
    (t.filter p).toList = t.toList.filter fun e => p e.1 := rfl

omit [Std.TransOrd κ] in
@[simp] theorem filter_empty (p : κ → Bool) : (∅ : Table κ ν).filter p = ∅ := rfl

section Filter

/- Equal keys agree on the property. -/
variable {p : κ → Bool} (hp : ∀ k k', compare k k' = .eq → p k = p k')
include hp

omit [Std.TransOrd κ] in
theorem find?_filter (t : Table κ ν) (k : κ) :
    (t.filter p).find? k = if p k then t.find? k else none := by
  show (t.entries.filter fun e => p e.1).find? (fun e => compare k e.1 == .eq) = _
  rw [List.find?_filter]
  cases hk : p k with
  | true =>
    -- an entry with this key passes the filter
    rw [if_pos rfl]
    congr 1
    funext e
    by_cases he : compare k e.1 = .eq <;> simp [he, ← hp k e.1, hk]
  | false =>
    rw [if_neg Bool.false_ne_true, List.find?_eq_none]
    intro e _ he
    obtain ⟨hpe, hke⟩ : p e.1 = true ∧ compare k e.1 = .eq := by simpa using he
    rw [hp k e.1 hke, hpe] at hk
    cases hk

theorem filter_insertNew (t : Table κ ν) (k : κ) (v : ν) :
    (t.insertNew k v).filter p = if p k then (t.filter p).insertNew k v else t.filter p := by
  apply eq_of_find?
  intro k'
  rw [find?_filter hp, find?_insertNew]
  by_cases hkk : compare k' k = .eq
  · cases hk : p k <;> simp [find?_insertNew, find?_filter hp, hkk, hp k' k hkk, hk]
  · cases hk : p k <;> cases hk' : p k' <;>
      simp [find?_insertNew, find?_filter hp, hkk, hk']

end Filter

/-! ## Other keys in the same order -/

section MapKeys

variable {φ : κ → κ} (hφ : ∀ k k', compare (φ k) (φ k') = compare k k')

omit [Std.TransOrd κ] in
/-- The table with other keys, which are in the order of the old ones. -/
def mapKeys (t : Table κ ν) : Table κ ν where
  entries := t.entries.map (Prod.map φ id)
  ascending := List.pairwise_map.mpr (t.ascending.imp fun h => (hφ _ _).trans h)

omit [Std.TransOrd κ] in
@[simp] theorem toList_mapKeys (t : Table κ ν) :
    (t.mapKeys hφ).toList = t.toList.map (Prod.map φ id) := rfl

omit [Std.TransOrd κ] in
@[simp] theorem mapKeys_empty : (∅ : Table κ ν).mapKeys hφ = ∅ := rfl

omit [Std.TransOrd κ] in
theorem find?_mapKeys (t : Table κ ν) (k : κ) :
    (t.mapKeys hφ).find? (φ k) = (t.find? k).map (Prod.map φ id) := by
  show (t.entries.map (Prod.map φ id)).find? (fun e => compare (φ k) e.1 == .eq) = _
  rw [List.find?_map]
  congr 2
  funext e
  rw [Function.comp_apply, Prod.map_fst, hφ]

theorem insertNew_mapKeys (t : Table κ ν) (k : κ) (v : ν) :
    (t.mapKeys hφ).insertNew (φ k) v = (t.insertNew k v).mapKeys hφ := by
  have hentries (l : List (κ × ν)) :
      insertEntry (φ k) v (l.map (Prod.map φ id)) = (insertEntry k v l).map (Prod.map φ id) := by
    induction l with
    | nil => rfl
    | cons e rest ih =>
      rw [List.map_cons, insertEntry, insertEntry, Prod.map_fst, hφ, ih]
      cases compare k e.1 <;> rfl
  exact ext (hentries t.entries)

end MapKeys

end JoinIR.Table
