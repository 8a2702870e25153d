/-
# JoinIR.Term.Visitor — walking a term in evaluation order

A visitor is a record of three hooks. Walking a term calls them in the order in which a
left-to-right evaluator would run the term: operands before the operation that consumes them, what
a local is bound to before the local, both arms of every conditional, and the handler of a join
point before its body.

A hook for a node or a join point gets the walk of what lies below it as an argument, so it can do
something before, after or instead of that walk. The defaults just walk on. The hooks run in any
monad; one with failures ends the walk at the first of them.
-/
import JoinIR.Function

namespace JoinIR

/-- What is done on a walk. -/
structure Visitor (m : Type → Type) [Monad m] where
  /-- Called for every node, with the walk of what lies below it. -/
  node : {σ : Kind} → Term σ → m Unit → m Unit := fun _ below => below
  /-- Called for the local bound by a `letIn`, by a `tryCatch` or by a parameter of a join point. -/
  binder : Local → Ty → m Unit := fun _ _ => pure ()
  /-- Called once for a join point, before its handler, with the walk of its parameters. -/
  joinPoint : Label → List ContParam → m Unit → m Unit := fun _ _ below => below

namespace Visitor

variable {m : Type → Type} [Monad m]

/-- Walks the parameters of a join point: those that bind a local, in order. -/
def walkParams (V : Visitor m) : List ContParam → m Unit
  | [] => pure ()
  | p :: rest =>
    match p.local? with
    | some x => do V.binder x p.ty; V.walkParams rest
    | none => V.walkParams rest

/-- Visits a join point. -/
def visitJoin (V : Visitor m) (k : Label) (params : List ContParam) : m Unit :=
  V.joinPoint k params (V.walkParams params)

mutual

/-- Walks what lies below the root of a term. -/
def walk (V : Visitor m) : {σ : Kind} → Term σ → m Unit
  | _, .i32 _ => pure ()
  | _, .i64 _ => pure ()
  | _, .f64 _ => pure ()
  | _, .refFunc _ => pure ()
  | _, .var _ => pure ()
  | _, .globalGet _ => pure ()
  | _, .letIn x ty d b => do V.node d (walk V d); V.binder x ty; V.node b (walk V b)
  | _, .ite _ c a b => do V.node c (walk V c); V.node a (walk V a); V.node b (walk V b)
  | _, .binary _ a b => do V.node a (walk V a); V.node b (walk V b)
  | _, .unary _ a => V.node a (walk V a)
  | _, .structNew _ vs => walkValues V vs
  | _, .arrayNewFixed _ vs => walkValues V vs
  | _, .refCast _ a => V.node a (walk V a)
  | _, .call _ vs => walkValues V vs
  | _, .callRef _ vs c => do walkValues V vs; V.node c (walk V c)
  | _, .seq es l => do walkEffects V es; V.node l (walk V l)
  | _, .letCont k ps h b => do V.visitJoin k ps; V.node h (walk V h); V.node b (walk V b)
  | _, .applyCont _ vs => walkValues V vs
  | _, .brOnCast a _ _ e => do V.node a (walk V a); V.node e (walk V e)
  | _, .brIf c _ e => do V.node c (walk V c); V.node e (walk V e)
  | _, .tryCatch _ b x xty h => do V.node b (walk V b); V.binder x xty; V.node h (walk V h)
  | _, .raise a => V.node a (walk V a)
  | _, .effect e => V.node e (walk V e)
  | _, .noReturn t => V.node t (walk V t)
  | _, .block es => walkEffects V es
  | _, .drop a => V.node a (walk V a)
  | _, .store _ t a => do V.node t (walk V t); V.node a (walk V a)
  | _, .assign _ a => V.node a (walk V a)
  | _, .loop _ b => V.node b (walk V b)
  | _, .brWhen c _ => V.node c (walk V c)
  | _, .iteEffect c a b => do V.node c (walk V c); V.node a (walk V a); V.node b (walk V b)
  | _, .nop => pure ()
  | _, .letContTail k ps h b => do V.visitJoin k ps; V.node h (walk V h); V.node b (walk V b)
  | _, .iteTail c a b => do V.node c (walk V c); V.node a (walk V a); V.node b (walk V b)
  | _, .brTable i _ _ => V.node i (walk V i)
  | _, .br _ a => V.node a (walk V a)
  | _, .brBare _ => pure ()
  | _, .unreachable => pure ()

/-- Visits values from the left. -/
def walkValues (V : Visitor m) : List Value → m Unit
  | [] => pure ()
  | v :: vs => do V.node v (walk V v); walkValues V vs

/-- Visits effects from the left. -/
def walkEffects (V : Visitor m) : List Effect → m Unit
  | [] => pure ()
  | e :: es => do V.node e (walk V e); walkEffects V es

end

/-- Visits a term: the hook of its root, with the walk below it. -/
def visit (V : Visitor m) {σ : Kind} (t : Term σ) : m Unit := V.node t (V.walk t)

/-- Visits the term of a body. -/
def visitBody (V : Visitor m) (b : Body) : m Unit := V.visit b.term

@[simp] theorem walkParams_nil (V : Visitor m) : V.walkParams [] = pure () := rfl

@[simp] theorem walkValues_nil (V : Visitor m) : V.walkValues [] = pure () := by rw [walkValues]

@[simp] theorem walkValues_cons (V : Visitor m) (v : Value) (vs : List Value) :
    V.walkValues (v :: vs) = (do V.visit v; V.walkValues vs) := by rw [walkValues]; rfl

@[simp] theorem walkEffects_nil (V : Visitor m) : V.walkEffects [] = pure () := by
  rw [walkEffects]

@[simp] theorem walkEffects_cons (V : Visitor m) (e : Effect) (es : List Effect) :
    V.walkEffects (e :: es) = (do V.visit e; V.walkEffects es) := by rw [walkEffects]; rfl

end Visitor

end JoinIR
