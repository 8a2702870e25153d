/-
# JoinIR.Proofs.Parts — a node and what stands directly below it

A term has many constructors, and most facts about walks do not care which one stands at a node:
they care about what lies directly below it and in which order an evaluator meets it. That is a
list of **parts**: subterms, locals that the node binds, and the join point that it introduces.

`Term.parts` says it once for every constructor. The walk of a visitor and the complete stream of
events are then two functions of that list (`Visitor.walk_eq_parts`, `Term.inside_eq_parts`), and
`Term.parts_induction` proves a property of all terms from one step that never mentions a
constructor. A change to a constructor changes its clause of `parts` and nothing else here.
-/
import Mathlib.Algebra.GroupWithZero.Nat
import JoinIR.Term.Recording

namespace JoinIR

/-- One thing that stands directly below a node. -/
inductive Part
  | child {τ : Kind} (t : Term τ)
  /-- A local that a `letIn` or a `tryCatch` binds. -/
  | bind (x : Local) (ty : Ty)
  /-- The join point that a `letCont` introduces, with its parameters. -/
  | join (k : Label) (params : List ContParam)

namespace Term

/-- The subterms in a list of terms of one kind, as parts. -/
def childParts {τ : Kind} (ts : List (Term τ)) : List Part := ts.map Part.child

/-- What stands directly below the root, in evaluation order. A local stands after what it is
bound to, and a join point before its handler. -/
def parts : {σ : Kind} → Term σ → List Part
  | _, i32 _ => []
  | _, i64 _ => []
  | _, f64 _ => []
  | _, refFunc _ => []
  | _, var _ => []
  | _, letIn x ty d b => [.child d, .bind x ty, .child b]
  | _, ite _ c a b => [.child c, .child a, .child b]
  | _, binary _ a b => [.child a, .child b]
  | _, unary _ a => [.child a]
  | _, structNew _ vs => childParts vs
  | _, arrayNewFixed _ vs => childParts vs
  | _, refCast _ a => [.child a]
  | _, call _ vs => childParts vs
  | _, callRef _ vs c => childParts vs ++ [.child c]
  | _, globalGet _ => []
  | _, seq es l => childParts es ++ [.child l]
  | _, letCont k ps h b => [.join k ps, .child h, .child b]
  | _, applyCont _ vs => childParts vs
  | _, brOnCast a _ _ e => [.child a, .child e]
  | _, brIf c _ e => [.child c, .child e]
  | _, tryCatch _ b x xty h => [.child b, .bind x xty, .child h]
  | _, raise a => [.child a]
  | _, effect e => [.child e]
  | _, noReturn t => [.child t]
  | _, block es => childParts es
  | _, drop a => [.child a]
  | _, store _ t a => [.child t, .child a]
  | _, assign _ a => [.child a]
  | _, loop _ b => [.child b]
  | _, brWhen c _ => [.child c]
  | _, iteEffect c a b => [.child c, .child a, .child b]
  | _, nop => []
  | _, letContTail k ps h b => [.join k ps, .child h, .child b]
  | _, iteTail c a b => [.child c, .child a, .child b]
  | _, brTable i _ _ => [.child i]
  | _, br _ a => [.child a]
  | _, brBare _ => []
  | _, unreachable => []

/-- The number of subterms among the parts. -/
def childCount (ps : List Part) : Nat :=
  (ps.map fun p => match p with | .child _ => 1 | _ => 0).sum

@[simp] theorem childCount_nil : childCount [] = 0 := rfl

@[simp] theorem childCount_child {τ : Kind} (c : Term τ) (ps : List Part) :
    childCount (.child c :: ps) = childCount ps + 1 := by
  simp [childCount, Nat.add_comm]

@[simp] theorem childCount_bind (x : Local) (ty : Ty) (ps : List Part) :
    childCount (.bind x ty :: ps) = childCount ps := by
  simp [childCount]

@[simp] theorem childCount_join (k : Label) (qs : List ContParam) (ps : List Part) :
    childCount (.join k qs :: ps) = childCount ps := by
  simp [childCount]

@[simp] theorem childCount_append (ps qs : List Part) :
    childCount (ps ++ qs) = childCount ps + childCount qs := by
  simp [childCount]

@[simp] theorem childCount_childParts {τ : Kind} (ts : List (Term τ)) :
    childCount (childParts ts) = ts.length := by
  induction ts with
  | nil => rfl
  | cons t rest ih =>
    rw [childParts, List.map_cons, childCount_child, ← childParts, ih, List.length_cons]

end Term

/-! ## Induction -/

/-- The term in the part, if it is one, is smaller than `n`. -/
def Part.Below (n : Nat) : Part → Prop
  | child c => sizeOf c < n
  | _ => True

namespace Term

theorem below_of_mem_childParts {τ : Kind} {ts : List (Term τ)} {n : Nat} (h : sizeOf ts ≤ n) :
    ∀ p ∈ childParts ts, p.Below n := by
  intro p hp
  obtain ⟨t, ht, rfl⟩ := List.mem_map.mp hp
  have hlt := List.sizeOf_lt_of_mem ht
  simp only [Part.Below]
  omega

theorem parts_below {σ : Kind} (t : Term σ) : ∀ p ∈ t.parts, p.Below (sizeOf t) := by
  cases t with
  | structNew _ vs | arrayNewFixed _ vs | call _ vs | applyCont _ vs | block vs =>
    apply below_of_mem_childParts
    simp
  | callRef _ vs c =>
    rw [parts, List.forall_mem_append, List.forall_mem_singleton]
    refine ⟨below_of_mem_childParts ?_, ?_⟩
    · rw [callRef.sizeOf_spec]
      omega
    · show sizeOf c < _
      rw [callRef.sizeOf_spec]
      omega
  | seq es l =>
    rw [parts, List.forall_mem_append, List.forall_mem_singleton]
    refine ⟨below_of_mem_childParts ?_, ?_⟩
    · rw [seq.sizeOf_spec]
      omega
    · show sizeOf l < _
      rw [seq.sizeOf_spec]
      omega
  | _ => simp [parts, Part.Below] <;> omega

/-- A property of all terms follows from one step: it holds of a term if it holds of the subterms
among its parts. -/
theorem parts_induction {motive : {σ : Kind} → Term σ → Prop}
    (step : ∀ {σ : Kind} (t : Term σ),
      (∀ {τ : Kind} (c : Term τ), Part.child c ∈ t.parts → motive c) → motive t)
    {σ : Kind} (t : Term σ) : motive t :=
  step t fun c _ => parts_induction step c
termination_by sizeOf t
decreasing_by exact parts_below t _ ‹_›

/-- A term and everything below it, at any depth. -/
inductive Subterm : {σ τ : Kind} → Term σ → Term τ → Prop
  | refl {σ : Kind} (t : Term σ) : Subterm t t
  | deeper {σ τ ρ : Kind} {s : Term σ} {c : Term τ} {t : Term ρ} :
      Part.child c ∈ t.parts → Subterm s c → Subterm s t

/-- The property holds of the term and of everything below it. -/
def Everywhere (P : ∀ {τ : Kind}, Term τ → Prop) {σ : Kind} (t : Term σ) : Prop :=
  ∀ ⦃τ : Kind⦄ (s : Term τ), Subterm s t → P s

theorem everywhere_iff {P : ∀ {τ : Kind}, Term τ → Prop} {σ : Kind} {t : Term σ} :
    Everywhere P t ↔ P t ∧ ∀ {τ : Kind} (c : Term τ), Part.child c ∈ t.parts → Everywhere P c := by
  constructor
  · intro h
    exact ⟨h t (.refl t), fun c hc _ s hs => h s (.deeper hc hs)⟩
  · rintro ⟨hroot, hchildren⟩ τ s hs
    cases hs with
    | refl => exact hroot
    | deeper hc hs => exact hchildren _ hc s hs

end Term

/-! ## The complete stream, part by part -/

/-- The events of a part. -/
def Part.tour : Part → List Event
  | child t => t.tour
  | bind x ty => [.bind x ty]
  | join k ps => Term.tourJoin k ps

namespace Term

theorem insideValues_eq (vs : List Value) :
    insideValues vs = (childParts vs).flatMap Part.tour := by
  induction vs with
  | nil => rw [insideValues]; rfl
  | cons v rest ih => rw [insideValues, ih]; rfl

theorem insideEffects_eq (es : List Effect) :
    insideEffects es = (childParts es).flatMap Part.tour := by
  induction es with
  | nil => rw [insideEffects]; rfl
  | cons e rest ih => rw [insideEffects, ih]; rfl

/-- What lies below the root is recorded part by part. -/
theorem inside_eq_parts {σ : Kind} (t : Term σ) : t.inside = t.parts.flatMap Part.tour := by
  cases t <;> simp [inside, parts, Part.tour, tour, insideValues_eq, insideEffects_eq]

end Term

/-! ## A walk, part by part -/

namespace Visitor

variable {m : Type → Type} [Monad m]

/-- What a walk does at a part. -/
def walkPart (V : Visitor m) : Part → m Unit
  | .child t => V.visit t
  | .bind x ty => V.binder x ty
  | .join k ps => V.visitJoin k ps

theorem walkValues_eq (V : Visitor m) (vs : List Value) :
    V.walkValues vs = (Term.childParts vs).forM V.walkPart := by
  induction vs with
  | nil => rw [walkValues_nil]; rfl
  | cons v rest ih => rw [walkValues_cons, ih]; rfl

theorem walkEffects_eq (V : Visitor m) (es : List Effect) :
    V.walkEffects es = (Term.childParts es).forM V.walkPart := by
  induction es with
  | nil => rw [walkEffects_nil]; rfl
  | cons e rest ih => rw [walkEffects_cons, ih]; rfl

/-- Below the root a walk goes part by part. -/
theorem walk_eq_parts [LawfulMonad m] (V : Visitor m) {σ : Kind} (t : Term σ) :
    V.walk t = t.parts.forM V.walkPart := by
  cases t <;>
    simp [walk, Term.parts, walkPart, visit, walkValues_eq, walkEffects_eq]

end Visitor
end JoinIR
