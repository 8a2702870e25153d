/-
# JoinIR.Proofs.Rewriting — replacing what a tree carries

A **rewriting** replaces the handles, the variables and the floating-point constants of a tree and
leaves everything else as it is: the constructs, the types, the operators, the symbols and the
other constants. Two trees that a rewriting takes to one tree are identical except for what it
identifies, so a rewriting to a canonical form states exactly in what two trees may differ.
-/
import JoinIR.Proofs.Parts
import JoinIR.Function

namespace JoinIR

/-- What to put in the place of handles, of variables and of floating-point constants. -/
structure Rewriting where
  handle : {κ : Space} → Handle κ → Handle κ
  var : Var → Var
  literal : Binary64 → Binary64

/-- A parameter of a join point, rewritten. -/
def ContParam.rewrite (R : Rewriting) (p : ContParam) : ContParam :=
  ⟨p.local?.map R.handle, p.ty⟩

namespace Term

mutual

/-- A term, rewritten throughout. -/
def rewrite (R : Rewriting) : {σ : Kind} → Term σ → Term σ
  | _, i32 n => i32 n
  | _, i64 n => i64 n
  | _, f64 x => f64 (R.literal x)
  | _, refFunc f => refFunc f
  | _, var v => var (R.var v)
  | _, letIn x ty d b => letIn (R.handle x) ty (rewrite R d) (rewrite R b)
  | _, ite ty c a b => ite ty (rewrite R c) (rewrite R a) (rewrite R b)
  | _, binary op a b => binary op (rewrite R a) (rewrite R b)
  | _, unary op a => unary op (rewrite R a)
  | _, structNew h vs => structNew h (rewriteValues R vs)
  | _, arrayNewFixed h vs => arrayNewFixed h (rewriteValues R vs)
  | _, refCast h a => refCast h (rewrite R a)
  | _, call f vs => call f (rewriteValues R vs)
  | _, callRef h vs c => callRef h (rewriteValues R vs) (rewrite R c)
  | _, globalGet g => globalGet g
  | _, seq es l => seq (rewriteEffects R es) (rewrite R l)
  | _, letCont k ps h b =>
    letCont (R.handle k) (ps.map (ContParam.rewrite R)) (rewrite R h) (rewrite R b)
  | _, applyCont k vs => applyCont (R.handle k) (rewriteValues R vs)
  | _, brOnCast a h k e => brOnCast (rewrite R a) h (R.handle k) (rewrite R e)
  | _, brIf c k e => brIf (rewrite R c) (R.handle k) (rewrite R e)
  | _, tryCatch ty b x thrown h =>
    tryCatch ty (rewrite R b) (R.handle x) thrown (rewrite R h)
  | _, raise a => raise (rewrite R a)
  | _, effect e => effect (rewrite R e)
  | _, noReturn t => noReturn (rewrite R t)
  | _, block es => block (rewriteEffects R es)
  | _, drop a => drop (rewrite R a)
  | _, store op t a => store op (rewrite R t) (rewrite R a)
  | _, assign v a => assign (R.var v) (rewrite R a)
  | _, loop k b => loop (R.handle k) (rewrite R b)
  | _, brWhen c k => brWhen (rewrite R c) (R.handle k)
  | _, iteEffect c a b => iteEffect (rewrite R c) (rewrite R a) (rewrite R b)
  | _, nop => nop
  | _, letContTail k ps h b =>
    letContTail (R.handle k) (ps.map (ContParam.rewrite R)) (rewrite R h) (rewrite R b)
  | _, iteTail c a b => iteTail (rewrite R c) (rewrite R a) (rewrite R b)
  | _, brTable i ks k => brTable (rewrite R i) (ks.map R.handle) (R.handle k)
  | _, br k a => br (R.handle k) (rewrite R a)
  | _, brBare k => brBare (R.handle k)
  | _, unreachable => unreachable

/-- Values, rewritten. -/
def rewriteValues (R : Rewriting) : List Value → List Value
  | [] => []
  | v :: vs => rewrite R v :: rewriteValues R vs

/-- Effects, rewritten. -/
def rewriteEffects (R : Rewriting) : List Effect → List Effect
  | [] => []
  | e :: es => rewrite R e :: rewriteEffects R es

end

variable (R : Rewriting)

@[simp] theorem rewriteValues_eq_map (vs : List Value) :
    rewriteValues R vs = vs.map (rewrite R) := by
  induction vs with
  | nil => rw [rewriteValues, List.map_nil]
  | cons v rest ih => rw [rewriteValues, ih, List.map_cons]

@[simp] theorem rewriteEffects_eq_map (es : List Effect) :
    rewriteEffects R es = es.map (rewrite R) := by
  induction es with
  | nil => rw [rewriteEffects, List.map_nil]
  | cons e rest ih => rw [rewriteEffects, ih, List.map_cons]

end Term

/-! ## Parts -/

/-- A part, rewritten. -/
def Part.rewrite (R : Rewriting) : Part → Part
  | child t => child (t.rewrite R)
  | bind x ty => bind (R.handle x) ty
  | join k ps => join (R.handle k) (ps.map (ContParam.rewrite R))

namespace Term

@[simp] theorem childParts_inj {τ : Kind} {ts us : List (Term τ)} :
    childParts ts = childParts us ↔ ts = us := by
  apply List.map_inj_right
  intro c d h
  cases h
  rfl

variable (R : Rewriting)

theorem map_rewrite_childParts {τ : Kind} (ts : List (Term τ)) :
    (childParts ts).map (Part.rewrite R) = childParts (ts.map (rewrite R)) := by
  simp [childParts, Part.rewrite]

/-- Below the root a tree is rewritten part by part. -/
theorem parts_rewrite {σ : Kind} (t : Term σ) :
    (t.rewrite R).parts = t.parts.map (Part.rewrite R) := by
  cases t <;> simp [rewrite, parts, Part.rewrite, map_rewrite_childParts]

end Term

/-! ## Bodies and functions -/

/-- A body, rewritten. -/
def Body.rewrite (R : Rewriting) : Body → Body
  | value t result => value (t.rewrite R) result
  | effect t => effect (t.rewrite R)

/-- A function, rewritten: its signature and its body. -/
def Function.rewrite (R : Rewriting) (f : Function) : Function where
  name := f.name
  params := f.params.map fun p => (R.handle p.1, p.2)
  body := f.body.rewrite R

end JoinIR
