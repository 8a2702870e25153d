/-
# JoinIR.Prepare — making functions ready for emission

To prepare a function is to check its signature, to find the slots that its body declares and, if
the session asks for it, to make its listing. The three stages come in this order, and the first
one that fails decides the error. A unit is prepared function by function and stops at the first
that fails.
-/
import JoinIR.Declarations
import JoinIR.Term.Equality
import JoinIR.Term.Listing

namespace JoinIR

/-! ## Errors -/

/-- Why a function cannot be prepared. Every error names the function. -/
inductive PrepareError
  /-- The body declares a slot with two types. -/
  | slots (f : FuncName) (cause : TypeMismatch)
  /-- The listing failed. -/
  | print (f : FuncName) (cause : PrintError)
  /-- A parameter has the number of an earlier one. -/
  | duplicateParam (f : FuncName) (param : Param)
  deriving Repr

namespace PrepareError

/-- The name of the function. -/
def function : PrepareError → FuncName
  | slots f _ => f
  | print f _ => f
  | duplicateParam f _ => f

/-- The message of the error behind this one, if there is one. -/
def cause? : PrepareError → Option String
  | slots _ cause => some cause.message
  | print _ cause => some cause.message
  | duplicateParam .. => none

/-- The message of the error. -/
def message : PrepareError → String
  | slots f cause => "in function " ++ f.text ++ ": " ++ cause.message
  | print f cause => "in function " ++ f.text ++ ": " ++ cause.message
  | duplicateParam f param =>
    "parameter " ++ param.text ++ " of function " ++ f.text ++ " is declared more than once"

/-- Errors of one kind about the same function, with equal causes or parameters, are equal. -/
instance : BEq PrepareError where
  beq
    | slots f cause, slots f' cause' => f == f' && cause == cause'
    | print f cause, print f' cause' => f == f' && cause == cause'
    | duplicateParam f p, duplicateParam f' p' => f == f' && p == p'
    | _, _ => false

end PrepareError

/-! ## One function -/

/-- A function ready for emission. -/
structure Prepared where
  function : Function
  /-- The slots that the body declares, in slot order. Parameters are not among them. -/
  slots : List (Slot × Ty)
  /-- The listing, if the session asks for it. -/
  listing : Option String

/-- The first item that is equal to one of `seen` or to an earlier item. -/
def firstRepeat? {α : Type} [BEq α] (seen : List α) : List α → Option α
  | [] => none
  | a :: rest => if seen.contains a then some a else firstRepeat? (a :: seen) rest

namespace Function

/-- The parameter whose number occurs earlier in the signature, if there is one. -/
def duplicateParam? (f : Function) : Option Param := firstRepeat? [] f.handles

/-- Prepares a function. -/
def prepare (session : Session) (f : Function) : Report PrepareError Prepared := do
  .note (.functionBegun f.name)
  if let some p := f.duplicateParam? then
    .fail (.duplicateParam f.name p)
  let table ← (f.body.declarations session.mode).mapError (.slots f.name)
  if session.listings then
    let listing ← (Report.ofExcept f.listing).mapError (.print f.name)
    .note (.listed listing)
    return ⟨f, table.toList, some listing⟩
  else
    return ⟨f, table.toList, none⟩

end Function

/-! ## A unit -/

/-- Prepares functions from the left, until one fails. -/
def prepareEach (session : Session) : List Function → Report PrepareError (List Prepared)
  | [] => pure []
  | f :: rest => do
    let p ← f.prepare session
    let ps ← prepareEach session rest
    return p :: ps

/-- Prepares the functions of a compilation unit. -/
def prepareUnit (session : Session) (functions : List Function) :
    Report PrepareError (List Prepared) := do
  let prepared ← prepareEach session functions
  .note (.unitDone prepared.length)
  return prepared

end JoinIR
