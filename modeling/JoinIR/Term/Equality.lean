/-
# JoinIR.Term.Equality — when two trees are the same

Trees are compared node by node. Handles count as the same by number, so debug names make no
difference; floating-point constants compare as numbers, so a tree that holds a NaN differs even
from itself, and `0.0` is the same as `-0.0`. Everything else has to agree exactly.
-/
import JoinIR.Function

namespace JoinIR

namespace Term

mutual

/-- Whether two terms of a kind are the same up to debug names and the sign of zeros. -/
def beq : {σ : Kind} → Term σ → Term σ → Bool
  | _, i32 n, t => match t with | i32 n' => n == n' | _ => false
  | _, i64 n, t => match t with | i64 n' => n == n' | _ => false
  | _, f64 x, t => match t with | f64 x' => x == x' | _ => false
  | _, refFunc f, t => match t with | refFunc f' => f == f' | _ => false
  | _, var v, t => match t with | var v' => v == v' | _ => false
  | _, letIn x ty d b, t =>
    match t with
    | letIn x' ty' d' b' => x == x' && ty == ty' && beq d d' && beq b b'
    | _ => false
  | _, ite ty c a b, t =>
    match t with
    | ite ty' c' a' b' => ty == ty' && beq c c' && beq a a' && beq b b'
    | _ => false
  | _, binary op a b, t =>
    match t with
    | binary op' a' b' => op == op' && beq a a' && beq b b'
    | _ => false
  | _, unary op a, t => match t with | unary op' a' => op == op' && beq a a' | _ => false
  | _, structNew h vs, t =>
    match t with
    | structNew h' vs' => h == h' && beqValues vs vs'
    | _ => false
  | _, arrayNewFixed h vs, t =>
    match t with
    | arrayNewFixed h' vs' => h == h' && beqValues vs vs'
    | _ => false
  | _, refCast h a, t => match t with | refCast h' a' => h == h' && beq a a' | _ => false
  | _, call f vs, t => match t with | call f' vs' => f == f' && beqValues vs vs' | _ => false
  | _, callRef h vs c, t =>
    match t with
    | callRef h' vs' c' => h == h' && beqValues vs vs' && beq c c'
    | _ => false
  | _, globalGet g, t => match t with | globalGet g' => g == g' | _ => false
  | _, seq es l, t => match t with | seq es' l' => beqEffects es es' && beq l l' | _ => false
  | _, letCont k ps h b, t =>
    match t with
    | letCont k' ps' h' b' => k == k' && ps == ps' && beq h h' && beq b b'
    | _ => false
  | _, applyCont k vs, t =>
    match t with
    | applyCont k' vs' => k == k' && beqValues vs vs'
    | _ => false
  | _, brOnCast a h k e, t =>
    match t with
    | brOnCast a' h' k' e' => beq a a' && h == h' && k == k' && beq e e'
    | _ => false
  | _, brIf c k e, t => match t with | brIf c' k' e' => beq c c' && k == k' && beq e e' | _ => false
  | _, tryCatch ty b x xty h, t =>
    match t with
    | tryCatch ty' b' x' xty' h' => ty == ty' && beq b b' && x == x' && xty == xty' && beq h h'
    | _ => false
  | _, raise a, t => match t with | raise a' => beq a a' | _ => false
  | _, effect e, t => match t with | effect e' => beq e e' | _ => false
  | _, noReturn u, t => match t with | noReturn u' => beq u u' | _ => false
  | _, block es, t => match t with | block es' => beqEffects es es' | _ => false
  | _, drop a, t => match t with | drop a' => beq a a' | _ => false
  | _, store op u a, t =>
    match t with
    | store op' u' a' => op == op' && beq u u' && beq a a'
    | _ => false
  | _, assign v a, t => match t with | assign v' a' => v == v' && beq a a' | _ => false
  | _, loop k b, t => match t with | loop k' b' => k == k' && beq b b' | _ => false
  | _, brWhen c k, t => match t with | brWhen c' k' => beq c c' && k == k' | _ => false
  | _, iteEffect c a b, t =>
    match t with
    | iteEffect c' a' b' => beq c c' && beq a a' && beq b b'
    | _ => false
  | _, nop, t => match t with | nop => true | _ => false
  | _, letContTail k ps h b, t =>
    match t with
    | letContTail k' ps' h' b' => k == k' && ps == ps' && beq h h' && beq b b'
    | _ => false
  | _, iteTail c a b, t =>
    match t with
    | iteTail c' a' b' => beq c c' && beq a a' && beq b b'
    | _ => false
  | _, brTable i ks k, t =>
    match t with
    | brTable i' ks' k' => beq i i' && ks == ks' && k == k'
    | _ => false
  | _, br k a, t => match t with | br k' a' => k == k' && beq a a' | _ => false
  | _, brBare k, t => match t with | brBare k' => k == k' | _ => false
  | _, unreachable, t => match t with | unreachable => true | _ => false

/-- Position by position. -/
def beqValues : List Value → List Value → Bool
  | [], [] => true
  | a :: as, b :: bs => beq a b && beqValues as bs
  | _, _ => false

/-- Position by position. -/
def beqEffects : List Effect → List Effect → Bool
  | [], [] => true
  | a :: as, b :: bs => beq a b && beqEffects as bs
  | _, _ => false

end

instance {σ : Kind} : BEq (Term σ) := ⟨beq⟩

end Term

/-- Bodies of the same kind with the same term and the same result. -/
def Body.beq : Body → Body → Bool
  | .value t r, .value t' r' => t == t' && r == r'
  | .effect e, .effect e' => e == e'
  | _, _ => false

instance : BEq Body := ⟨Body.beq⟩

/-- Whether two functions have the same name, parameters and body. -/
def Function.beq (f g : Function) : Bool :=
  f.name == g.name && f.params == g.params && f.body == g.body

instance : BEq Function := ⟨Function.beq⟩

end JoinIR
