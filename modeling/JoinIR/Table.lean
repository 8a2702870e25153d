/-
# JoinIR.Table — ordered tables in which the first entry stays

A table maps keys to values and lists its entries in ascending order of the keys. Two keys that
`compare` finds equal are the same key for a table, even when they differ in something that the
order does not see (a debug name, say). Which of two such keys survives is then visible, and the
rule is that **the first one stays**: `insertNew` of a key that is there already changes nothing.

The strict order of the entries is a field of the type, so "no key twice" and "in order" need no
separate argument. `find?` answers the entry itself, with the key as it was inserted.
-/

namespace JoinIR

variable {κ : Type} {ν : Type} [Ord κ]

/-- Entries in strictly ascending order of their keys. -/
structure Table (κ : Type) (ν : Type) [Ord κ] where
  entries : List (κ × ν)
  ascending : entries.Pairwise fun a b => compare a.1 b.1 = .lt

namespace Table

/-! ## Insertion into a list of entries -/

/-- The entries with one more at its place, unless its key is there. -/
def insertEntry (k : κ) (v : ν) : List (κ × ν) → List (κ × ν)
  | [] => [(k, v)]
  | e :: rest =>
    match compare k e.1 with
    | .lt => (k, v) :: e :: rest
    | .eq => e :: rest
    | .gt => e :: insertEntry k v rest

theorem mem_insertEntry {k : κ} {v : ν} {e : κ × ν} {l : List (κ × ν)}
    (h : e ∈ insertEntry k v l) : e = (k, v) ∨ e ∈ l := by
  induction l with
  | nil => simpa [insertEntry] using h
  | cons d rest ih => grind [insertEntry]

theorem pairwise_insertEntry [Std.TransOrd κ] (k : κ) (v : ν) {l : List (κ × ν)}
    (h : l.Pairwise fun a b => compare a.1 b.1 = .lt) :
    (insertEntry k v l).Pairwise fun a b => compare a.1 b.1 = .lt := by
  induction l with
  | nil => simp [insertEntry]
  | cons d rest ih =>
    obtain ⟨hd, hrest⟩ := List.pairwise_cons.mp h
    rw [insertEntry]
    split
    next hlt =>
      refine .cons (fun e he => ?_) h
      rcases List.mem_cons.mp he with rfl | he
      · exact hlt
      · exact Std.TransCmp.lt_trans hlt (hd e he)
    next => exact h
    next hgt =>
      refine .cons (fun e he => ?_) (ih hrest)
      rcases mem_insertEntry he with rfl | he
      · exact Std.OrientedCmp.lt_of_gt hgt
      · exact hd e he

/-- The entry of a key in a list of entries. -/
def entryOf? (k : κ) (l : List (κ × ν)) : Option (κ × ν) :=
  l.find? fun e => compare k e.1 == .eq

theorem entryOf?_eq_none {k : κ} {l : List (κ × ν)} (h : ∀ e ∈ l, compare k e.1 = .lt) :
    entryOf? k l = none := by
  rw [entryOf?, List.find?_eq_none]
  intro e he
  simp [h e he]

/-- After an insertion a key has the entry that it had before, or else the new one if it is the
new key. -/
theorem entryOf?_insertEntry [Std.TransOrd κ] (k k' : κ) (v : ν) {l : List (κ × ν)}
    (h : l.Pairwise fun a b => compare a.1 b.1 = .lt) :
    entryOf? k' (insertEntry k v l)
      = (entryOf? k' l).or (if compare k' k = .eq then some (k, v) else none) := by
  induction l with
  | nil => by_cases hk : compare k' k = .eq <;> simp [insertEntry, entryOf?, hk]
  | cons d rest ih =>
    obtain ⟨hd, hrest⟩ := List.pairwise_cons.mp h
    rw [insertEntry]
    split
    next hlt =>
      by_cases hk : compare k' k = .eq
      · have hkd : compare k' d.1 = .lt := Std.TransCmp.lt_of_eq_of_lt hk hlt
        have hnone : entryOf? k' (d :: rest) = none := by
          refine entryOf?_eq_none fun e he => ?_
          rcases List.mem_cons.mp he with rfl | he
          · exact hkd
          · exact Std.TransCmp.lt_trans hkd (hd e he)
        rw [hnone]
        simp [entryOf?, hk]
      · simp [entryOf?, hk]
    next heq =>
      by_cases hk : compare k' k = .eq
      · have hkd : compare k' d.1 = .eq := Std.TransCmp.eq_trans hk heq
        simp [entryOf?, hkd]
      · simp [hk]
    next hgt =>
      by_cases hkd : compare k' d.1 = .eq
      · simp [entryOf?, hkd]
      · have := ih hrest
        simp only [entryOf?] at this
        simp [entryOf?, hkd, this]

/-! ## Tables -/

/-- The table without entries. -/
def empty : Table κ ν := ⟨[], .nil⟩

instance : EmptyCollection (Table κ ν) := ⟨empty⟩

/-- The entries in ascending order of the keys. -/
def toList (t : Table κ ν) : List (κ × ν) := t.entries

/-- The number of entries. -/
def size (t : Table κ ν) : Nat := t.entries.length

/-- The entry of a key, with the key as it was inserted. -/
def find? (t : Table κ ν) (k : κ) : Option (κ × ν) := entryOf? k t.entries

/-- The table with an entry for the key, which is the present one if there is any. -/
def insertNew [Std.TransOrd κ] (t : Table κ ν) (k : κ) (v : ν) : Table κ ν :=
  ⟨insertEntry k v t.entries, pairwise_insertEntry k v t.ascending⟩

/-- A table is its list of entries. -/
theorem ext {s t : Table κ ν} (h : s.toList = t.toList) : s = t := by
  obtain ⟨l, _⟩ := s
  obtain ⟨m, _⟩ := t
  cases h
  rfl

@[simp] theorem toList_empty : (∅ : Table κ ν).toList = [] := rfl

@[simp] theorem find?_empty (k : κ) : (∅ : Table κ ν).find? k = none := rfl

@[simp] theorem toList_insertNew [Std.TransOrd κ] (t : Table κ ν) (k : κ) (v : ν) :
    (t.insertNew k v).toList = insertEntry k v t.toList := rfl

theorem find?_insertNew [Std.TransOrd κ] (t : Table κ ν) (k k' : κ) (v : ν) :
    (t.insertNew k v).find? k'
      = (t.find? k').or (if compare k' k = .eq then some (k, v) else none) :=
  entryOf?_insertEntry k k' v t.ascending

end Table

end JoinIR
