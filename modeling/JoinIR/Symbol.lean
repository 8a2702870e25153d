/-
# JoinIR.Symbol — names that the module declares

Functions, globals and heap types are declared by the module around a function and referred to by
name. A symbol **is** its name, in contrast to a numbered handle: equality and order compare the
whole name, order by code point. The name is arbitrary text and is written without escapes.
-/

namespace JoinIR

/-- The kinds of entity that a module declares by name. -/
inductive Entity
  | func
  | global
  | heap
  deriving DecidableEq, Repr

/-- The name of an entity of one kind. -/
@[ext]
structure Symbol (ε : Entity) where
  name : String
  deriving DecidableEq, Hashable, Repr

/-- The name of a function. -/
abbrev FuncName := Symbol .func

/-- The name of a global. -/
abbrev GlobalName := Symbol .global

/-- The name of a heap type: a struct, an array or a function type. -/
abbrev HeapName := Symbol .heap

namespace Symbol

variable {ε : Entity}

instance : Ord (Symbol ε) := ⟨compareOn Symbol.name⟩

instance : Std.TransOrd (Symbol ε) := inferInstanceAs (Std.TransCmp (compareOn Symbol.name))

theorem compare_eq_iff {a b : Symbol ε} : compare a b = .eq ↔ a = b := by
  obtain ⟨a⟩ := a
  obtain ⟨b⟩ := b
  exact (Std.LawfulEqOrd.compare_eq_iff_eq (a := a) (b := b)).trans (by simp)

instance : Std.LawfulEqOrd (Symbol ε) where
  eq_of_compare := compare_eq_iff.mp

/-- The text of a symbol: its name after a dollar sign. -/
def text (s : Symbol ε) : String := "$" ++ s.name

end Symbol

end JoinIR
