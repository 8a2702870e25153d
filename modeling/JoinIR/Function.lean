/-
# JoinIR.Function — bodies and functions

A function has a name, parameters declared by its signature, and a body, which either produces
one value of a stated type or is an effect. Parameters are not part of the locals of the body.
-/
import JoinIR.Term

namespace JoinIR

/-- The body of a function. -/
inductive Body
  /-- A body that returns one value of type `result`. -/
  | value (term : Value) (result : Ty)
  /-- A body without a result. -/
  | effect (term : Effect)

namespace Body

/-- The type of what the body returns, if it returns anything. -/
def result? : Body → Option Ty
  | value _ result => some result
  | effect _ => none

/-- The kind of the term of a body. -/
def kind : Body → Kind
  | value .. => .value
  | effect _ => .effect

/-- The term of a body. -/
def term : (b : Body) → Term b.kind
  | value term _ => term
  | effect term => term

end Body

/-- A function, as the lowering stage builds it. -/
structure Function where
  name : FuncName
  params : List (Param × Ty)
  body : Body

namespace Function

/-- The parameters of the signature, in order. -/
def handles (f : Function) : List Param := f.params.map Prod.fst

end Function

end JoinIR
