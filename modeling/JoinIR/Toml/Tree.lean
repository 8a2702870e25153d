/-
# JoinIR.Toml.Tree — what a document says

A document says a table, and a table has named values, some of which are tables again. How a table
was written, by a header, by a dotted key or in braces, is no part of what is said, and neither is
whether an array of tables stands under repeated headers or in brackets. Floats and dates are kept
as they were written.
-/

namespace JoinIR.Toml

/-- What a value says. -/
inductive Tree
  | string (s : String)
  | integer (n : Int)
  | float (text : String)
  | boolean (b : Bool)
  | dateTime (text : String)
  | array (items : List Tree)
  | table (branches : List (String × Tree))
  deriving Repr

/-- What a table says: its names with their values, in the order in which they are first written. -/
abbrev Branches := List (String × Tree)

/-! ## Equality -/

namespace Tree

mutual

/-- Structural comparison. -/
def beq : Tree → Tree → Bool
  | string s, string t => s == t
  | integer m, integer n => m == n
  | float s, float t => s == t
  | boolean a, boolean b => a == b
  | dateTime s, dateTime t => s == t
  | array vs, array ws => beqItems vs ws
  | table bs, table cs => beqBranches bs cs
  | _, _ => false

/-- Structural comparison of the items of arrays. -/
def beqItems : List Tree → List Tree → Bool
  | [], [] => true
  | v :: vs, w :: ws => v.beq w && beqItems vs ws
  | _, _ => false

/-- Structural comparison of the branches of tables. -/
def beqBranches : List (String × Tree) → List (String × Tree) → Bool
  | [], [] => true
  | (m, v) :: bs, (n, w) :: cs => m == n && v.beq w && beqBranches bs cs
  | _, _ => false

end

mutual

theorem beq_iff : ∀ {v w : Tree}, v.beq w = true ↔ v = w
  | string _, w | integer _, w | float _, w | boolean _, w | dateTime _, w => by
    cases w <;> simp [beq]
  | array vs, w => by cases w <;> simp [beq, @beqItems_iff vs]
  | table bs, w => by cases w <;> simp [beq, @beqBranches_iff bs]

theorem beqItems_iff : ∀ {vs ws : List Tree}, beqItems vs ws = true ↔ vs = ws
  | [], ws => by cases ws <;> simp [beqItems]
  | v :: vs, ws => by cases ws <;> simp [beqItems, @beq_iff v, @beqItems_iff vs]

theorem beqBranches_iff : ∀ {bs cs : List (String × Tree)}, beqBranches bs cs = true ↔ bs = cs
  | [], cs => by cases cs <;> simp [beqBranches]
  | (m, v) :: bs, cs => by
    rcases cs with _ | ⟨⟨n, w⟩, cs⟩ <;> simp [beqBranches, @beq_iff v, @beqBranches_iff bs]

end

instance : DecidableEq Tree := fun v w => decidable_of_iff (v.beq w = true) beq_iff

end Tree

end JoinIR.Toml
