/-
# JoinIR.Term — expression trees of three kinds

Terms come in three kinds, by how they hand control back:

* a **value** evaluates to exactly one value;
* an **effect** is evaluated for what it does and produces nothing;
* a **tail** never returns to its successor.

The kind is an index of the type, so a branch table cannot stand where a value is read and an
effect cannot be an operand. One indexed family holds all three, and a function on terms is one
structural recursion with two companions for the lists of values and of effects inside.

Scoping, which nothing here checks: the local of a `letIn` is visible in its body only; the
parameters of a join point in its handler only, and its label in its body only; the local of a
`tryCatch` in its handler only; the label of a `loop` in its body.
-/
import JoinIR.Handle
import JoinIR.Ty
import JoinIR.Op
import JoinIR.Binary64

namespace JoinIR

/-- The three kinds of term, by how they hand control back. -/
inductive Kind
  | value
  | effect
  | tail
  deriving DecidableEq, Repr

/-- A parameter of a join point. One without a local is a placeholder that nothing reads. -/
structure ContParam where
  local? : Option Local
  ty : Ty
  deriving Repr

namespace ContParam

/-- Parameters are equal when both bind the same local or neither binds one, and the types agree. -/
instance : BEq ContParam := ⟨fun p q => p.local? == q.local? && p.ty == q.ty⟩

end ContParam

/-- Terms of the three kinds. -/
inductive Term : Kind → Type
  -- Values
  | i32 (n : Int32) : Term .value
  | i64 (n : Int64) : Term .value
  | f64 (x : Binary64) : Term .value
  /-- A reference to a function of the module. -/
  | refFunc (f : FuncName) : Term .value
  | var (v : Var) : Term .value
  /-- Binds a local to the value of `defn` in `body`. -/
  | letIn (x : Local) (ty : Ty) (defn body : Term .value) : Term .value
  | ite (ty : Ty) (cond thn els : Term .value) : Term .value
  | binary (op : BinOp) (lhs rhs : Term .value) : Term .value
  | unary (op : UnOp) (arg : Term .value) : Term .value
  | structNew (heap : HeapName) (fields : List (Term .value)) : Term .value
  | arrayNewFixed (heap : HeapName) (elems : List (Term .value)) : Term .value
  /-- A checked cast to a narrower heap type. -/
  | refCast (heap : HeapName) (arg : Term .value) : Term .value
  | call (f : FuncName) (args : List (Term .value)) : Term .value
  /-- A call through a reference; the arguments are evaluated before the callee. -/
  | callRef (heap : HeapName) (args : List (Term .value)) (callee : Term .value) : Term .value
  | globalGet (g : GlobalName) : Term .value
  | seq (effects : List (Term .effect)) (last : Term .value) : Term .value
  /-- Introduces the join point `k`: a jump to it in `body` runs `handler`. -/
  | letCont (k : Label) (params : List ContParam) (handler body : Term .value) : Term .value
  /-- Jumps to a join point, whose handler produces the value. -/
  | applyCont (k : Label) (args : List (Term .value)) : Term .value
  /-- Branches to `k` with the recast value if `arg` has the heap type, else evaluates `els`. -/
  | brOnCast (arg : Term .value) (heap : HeapName) (k : Label) (els : Term .value) : Term .value
  | brIf (cond : Term .value) (k : Label) (els : Term .value) : Term .value
  /-- Evaluates `body`; if it throws, binds what is thrown and evaluates `handler`. -/
  | tryCatch (ty : Ty) (body : Term .value) (x : Local) (thrown : Ty) (handler : Term .value) :
      Term .value
  | raise (arg : Term .value) : Term .value
  /-- An effect where a value is expected. -/
  | effect (e : Term .effect) : Term .value
  /-- A tail where a value is expected. -/
  | noReturn (t : Term .tail) : Term .value
  -- Effects
  | block (effects : List (Term .effect)) : Term .effect
  | drop (arg : Term .value) : Term .effect
  | store (op : StoreOp) (target arg : Term .value) : Term .effect
  | assign (v : Var) (arg : Term .value) : Term .effect
  /-- Binds `k` for backward branches from inside `body`. -/
  | loop (k : Label) (body : Term .effect) : Term .effect
  | brWhen (cond : Term .value) (k : Label) : Term .effect
  | iteEffect (cond : Term .value) (thn els : Term .effect) : Term .effect
  | nop : Term .effect
  -- Tails
  | letContTail (k : Label) (params : List ContParam) (handler body : Term .tail) : Term .tail
  | iteTail (cond : Term .value) (thn els : Term .tail) : Term .tail
  /-- Jumps to the case numbered by `index`, or to `default` when there is none. -/
  | brTable (index : Term .value) (cases : List Label) (default : Label) : Term .tail
  | br (k : Label) (arg : Term .value) : Term .tail
  /-- A branch to a join point without parameters. -/
  | brBare (k : Label) : Term .tail
  | unreachable : Term .tail

/-- A term that evaluates to one value. -/
abbrev Value := Term .value

/-- A term that is evaluated for what it does. -/
abbrev Effect := Term .effect

/-- A term that does not return to its successor. -/
abbrev Tail := Term .tail

namespace Term

/-- Writes a field of a struct: the store with the operator for that field. -/
def structSet (heap : HeapName) (field : UInt32) (target arg : Value) : Effect :=
  store (.structSet heap field) target arg

end Term

end JoinIR
