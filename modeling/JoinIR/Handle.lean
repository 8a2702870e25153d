/-
# JoinIR.Handle — numbered handles for locals, parameters and labels

A function body refers to its locals, its parameters and its block labels by **numbered
handles**. A handle's identity is its number; the debug name that it may carry is for the reader
of a listing and takes no part in equality or order.

The three spaces share one definition, indexed by `Space`, so that a label can never stand where
a local is expected. `Var` is what a body can read or write, `Slot` is what the emitted function
has to declare; both order the first kind wholly before the second, and inside a kind by number.

What is fixed here:

* `==`, `compare` and `hash` look at the number only (`Handle.beq_iff`, `Handle.compare_eq_iff`),
  hence `==` agrees with "`compare` says equal", and equal handles have one hash;
* the text of a handle keeps the name apart from the number by the **last** slash, whatever
  characters the name holds; a nameless handle is its space's letter and the number.
-/

namespace JoinIR

/-! ## Handles -/

/-- The three spaces of numbered handles. -/
inductive Space
  | locals
  | params
  | labels
  deriving DecidableEq, Repr

namespace Space

/-- The mark that opens the text of a handle: labels have one of their own. -/
def sigil : Space → String
  | locals => "$"
  | params => "$"
  | labels => "@"

/-- The letter that stands for the missing name of a nameless handle. -/
def letter : Space → String
  | locals => "l"
  | params => "p"
  | labels => "k"

end Space

/-- A numbered handle of one space, with an optional debug name. -/
structure Handle (κ : Space) where
  id : UInt32
  name : Option String
  deriving Repr

/-- A local bound inside a body, by a `let`, a `try` or a join point. -/
abbrev Local := Handle .locals

/-- A parameter of the function, declared by its signature and never bound in its body. -/
abbrev Param := Handle .params

/-- A block label, which names a join point or a loop. -/
abbrev Label := Handle .labels

namespace Handle

variable {κ : Space}

/-- Two handles of a space are the same handle when their numbers agree. -/
instance : BEq (Handle κ) := ⟨fun a b => a.id == b.id⟩

/-- Handles of a space are ordered by number. -/
instance : Ord (Handle κ) := ⟨compareOn Handle.id⟩

/-- A handle is hashed by its number. -/
instance : Hashable (Handle κ) := ⟨fun h => hash h.id⟩

theorem beq_iff {a b : Handle κ} : (a == b) = true ↔ a.id = b.id :=
  beq_iff_eq (a := a.id) (b := b.id)

theorem compare_eq_iff {a b : Handle κ} : compare a b = .eq ↔ a.id = b.id :=
  Std.LawfulEqOrd.compare_eq_iff_eq (a := a.id) (b := b.id)

instance : Std.TransOrd (Handle κ) := inferInstanceAs (Std.TransCmp (compareOn Handle.id))

instance : Std.LawfulBEqOrd (Handle κ) where
  compare_eq_iff_beq := compare_eq_iff.trans beq_iff.symm

instance : LawfulHashable (Handle κ) where
  hash_eq _ _ h := congrArg (fun id : UInt32 => hash id) (beq_iff.mp h)

/-- The text of a handle: `$x/1` or `@k/1` with a debug name, `$l1`, `$p1` or `@k1` without. The
name is written as it is. -/
def text (h : Handle κ) : String :=
  match h.name with
  | some name => κ.sigil ++ name ++ "/" ++ toString h.id.toNat
  | none => κ.sigil ++ κ.letter ++ toString h.id.toNat

end Handle

/-! ## Variables -/

/-- What a body can read or assign: a local or a parameter. -/
inductive Var
  | ofLocal (x : Local)
  | ofParam (p : Param)
  deriving Repr

namespace Var

/-- Locals come before parameters. -/
def rank : Var → Nat
  | ofLocal _ => 0
  | ofParam _ => 1

/-- The number of the handle. -/
def id : Var → UInt32
  | ofLocal x => x.id
  | ofParam p => p.id

instance : BEq Var := ⟨fun v w => v.rank == w.rank && v.id == w.id⟩

instance : Ord Var := ⟨compareLex (compareOn rank) (compareOn id)⟩

instance : Hashable Var := ⟨fun v => mixHash (hash v.rank) (hash v.id)⟩

instance : Std.TransOrd Var :=
  inferInstanceAs (Std.TransCmp (compareLex (compareOn rank) (compareOn id)))

theorem beq_iff {v w : Var} : (v == w) = true ↔ v.rank = w.rank ∧ v.id = w.id := by
  change (v.rank == w.rank && v.id == w.id) = true ↔ _
  simp

theorem compare_eq_iff {v w : Var} : compare v w = .eq ↔ v.rank = w.rank ∧ v.id = w.id := by
  change (compareLex (compareOn rank) (compareOn id) v w) = .eq ↔ _
  simp [compareLex, compareOn]

instance : Std.LawfulBEqOrd Var where
  compare_eq_iff_beq := compare_eq_iff.trans beq_iff.symm

instance : LawfulHashable Var where
  hash_eq v w h := by
    obtain ⟨hrank, hid⟩ := beq_iff.mp h
    change mixHash (hash v.rank) (hash v.id) = mixHash (hash w.rank) (hash w.id)
    rw [hrank, hid]

/-- The text of a variable is that of its handle; the kinds share a sigil. -/
def text : Var → String
  | ofLocal x => x.text
  | ofParam p => p.text

end Var

/-! ## Slots -/

/-- A storage slot that the emitted function has to declare. Most slots are locals; a join point
whose parameters are passed together has one keyed by its label. -/
inductive Slot
  | ofLocal (x : Local)
  | ofLabel (k : Label)
  deriving Repr

namespace Slot

/-- Locals come before labels. -/
def rank : Slot → Nat
  | ofLocal _ => 0
  | ofLabel _ => 1

/-- The number of the handle. -/
def id : Slot → UInt32
  | ofLocal x => x.id
  | ofLabel k => k.id

/-- The debug name of the handle. -/
def name : Slot → Option String
  | ofLocal x => x.name
  | ofLabel k => k.name

instance : BEq Slot := ⟨fun s t => s.rank == t.rank && s.id == t.id⟩

instance : Ord Slot := ⟨compareLex (compareOn rank) (compareOn id)⟩

instance : Hashable Slot := ⟨fun s => mixHash (hash s.rank) (hash s.id)⟩

instance : Std.TransOrd Slot :=
  inferInstanceAs (Std.TransCmp (compareLex (compareOn rank) (compareOn id)))

theorem beq_iff {s t : Slot} : (s == t) = true ↔ s.rank = t.rank ∧ s.id = t.id := by
  change (s.rank == t.rank && s.id == t.id) = true ↔ _
  simp

theorem compare_eq_iff {s t : Slot} : compare s t = .eq ↔ s.rank = t.rank ∧ s.id = t.id := by
  change (compareLex (compareOn rank) (compareOn id) s t) = .eq ↔ _
  simp [compareLex, compareOn]

instance : Std.LawfulBEqOrd Slot where
  compare_eq_iff_beq := compare_eq_iff.trans beq_iff.symm

instance : LawfulHashable Slot where
  hash_eq s t h := by
    obtain ⟨hrank, hid⟩ := beq_iff.mp h
    change mixHash (hash s.rank) (hash s.id) = mixHash (hash t.rank) (hash t.id)
    rw [hrank, hid]

/-- The text of a slot is that of its handle. -/
def text : Slot → String
  | ofLocal x => x.text
  | ofLabel k => k.text

end Slot

end JoinIR
