/-
# JoinIR.Supply — where fresh handles come from

A **supply** hands out handles with the numbers one, two, three and so on, up to the last one that
a word of 32 bits holds. One counter serves locals, parameters and labels, so a number identifies a
handle of the supply even across spaces. A supply is a plain value: a copy remembers the same
history and goes on by itself.

A **pool** is a growing family of supplies that share history only through copies. A step of a
pool acts on the supply that it names; the steps are data (`Pool.Step`), so that a whole run is a
fold and the law "a step on one supply leaves the others alone" (`Pool.get?_draw_ne`) has
something to talk about.
-/
import JoinIR.Handle

namespace JoinIR

/-! ## One supply -/

/-- A supply of fresh handles: the number handed out last, zero at the start. -/
structure Supply where
  last : UInt32
  deriving DecidableEq, Repr

namespace Supply

/-- The supply that has handed out nothing. -/
def new : Supply := ⟨0⟩

instance : Inhabited Supply := ⟨new⟩

/-- A fresh handle of any space with the given debug name, and the supply after it. -/
def fresh (κ : Space) (name : Option String) (s : Supply) : Handle κ × Supply :=
  (⟨s.last + 1, name⟩, ⟨s.last + 1⟩)

end Supply

/-! ## A pool of supplies -/

/-- Supplies numbered from zero. -/
structure Pool where
  supplies : List Supply
  deriving DecidableEq, Repr

namespace Pool

/-- The pool that holds one new supply. -/
def start : Pool := ⟨[.new]⟩

/-- What can be asked of a pool. A supply is named by its number in the pool. -/
inductive Step
  /-- A fresh handle of supply `g`. -/
  | draw (g : Nat) (κ : Space) (name : Option String)
  /-- A copy of supply `g` at the end of the pool. -/
  | copy (g : Nat)
  /-- A new supply at the end of the pool, asked for beside the existing supply `g`. -/
  | new (g : Nat)
  /-- Whether supplies `g` and `h` are equal. -/
  | same (g h : Nat)
  deriving Repr

/-- What a step answers. -/
inductive Answer
  | handle (κ : Space) (h : Handle κ)
  | number (n : Nat)
  | verdict (equal : Bool)
  deriving Repr

/-- The supply numbered `g`. -/
def get? (p : Pool) (g : Nat) : Option Supply := p.supplies[g]?

/-- The pool with one supply more. -/
def push (p : Pool) (s : Supply) : Pool := ⟨p.supplies ++ [s]⟩

/-- A fresh handle of supply `g`, and the pool after it. -/
def draw (p : Pool) (g : Nat) (κ : Space) (name : Option String) : Option (Handle κ × Pool) := do
  let (h, s) := (← p.get? g).fresh κ name
  return (h, ⟨p.supplies.set g s⟩)

/-- One step; it fails when a supply that it names is not there. -/
def step (p : Pool) : Step → Option (Answer × Pool)
  | .draw g κ name => do
    let (h, p) ← p.draw g κ name
    return (.handle κ h, p)
  | .copy g => do return (.number p.supplies.length, p.push (← p.get? g))
  | .new g => do
    let _ ← p.get? g
    return (.number p.supplies.length, p.push .new)
  | .same g h => do return (.verdict ((← p.get? g) == (← p.get? h)), p)

/-- The answers of a run of steps, and the pool after them. -/
def run (p : Pool) : List Step → Option (List Answer × Pool)
  | [] => some ([], p)
  | s :: steps => do
    let (answer, p) ← p.step s
    let (answers, p) ← p.run steps
    return (answer :: answers, p)

/-- Drawing from one supply leaves the others as they are. -/
theorem get?_draw_ne {p q : Pool} {g g' : Nat} {κ : Space} {name : Option String} {h : Handle κ}
    (hd : p.draw g κ name = some (h, q)) (hne : g ≠ g') : q.get? g' = p.get? g' := by
  simp only [draw, Option.bind_eq_bind, Option.bind_eq_some_iff] at hd
  obtain ⟨s, -, hs⟩ := hd
  cases hs
  simp [get?, hne]

end Pool

end JoinIR
