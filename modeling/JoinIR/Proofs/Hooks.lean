/-
# JoinIR.Proofs.Hooks — a walk as the hooks that it runs

Many visitors do something of their own before the walk of what lies below a node and something
after it, and let every failure of that walk through. What such a visitor does with a whole term is
no recursion any more: the term alone says which hooks are due and in which order (`Term.hooks`),
and the walk runs them from the left, in any lawful monad (`Visitor.visit_eq_hooks`).

In a monad with failures this settles how a walk ends: the first hook that fails is the last one
that runs, at whatever depth it stands, and its error is that of the walk
(`Visitor.run_visit_of_error`).
-/
import JoinIR.Proofs.Calls

namespace JoinIR

/-- A hook that is due on a walk. A node and a join point have two, one before and one after the
walk of what lies below. -/
inductive Hook
  | enter {σ : Kind} (t : Term σ)
  | leave {σ : Kind} (t : Term σ)
  | bind (x : Local) (ty : Ty)
  | join (k : Label) (params : List ContParam)
  /-- The walk of a join point's parameters is over, and its handler comes next. -/
  | joined (k : Label) (params : List ContParam)

namespace Hook

/-- The hooks for the parameters of a join point: those that bind a local. -/
def ofParams (params : List ContParam) : List Hook :=
  params.filterMap fun p => p.local?.map fun x => .bind x p.ty

/-- The hooks for a join point, whose parameters may be left out. -/
def ofJoin (joins : Bool) (k : Label) (params : List ContParam) : List Hook :=
  .join k params :: ((if joins then ofParams params else []) ++ [.joined k params])

end Hook

/-- The hooks that are due on a walk over a term, in order; `joins` says whether the parameters of
join points are walked. -/
def Term.hooks (joins : Bool) {σ : Kind} (t : Term σ) : List Hook :=
  .enter t :: (t.parts.attach.flatMap fun
    | ⟨.child c, _⟩ => c.hooks joins
    | ⟨.bind x ty, _⟩ => [.bind x ty]
    | ⟨.join k ps, _⟩ => Hook.ofJoin joins k ps) ++ [.leave t]
termination_by sizeOf t
decreasing_by exact parts_below t _ ‹_›

/-- The hooks that are due at a part. -/
def Part.hooks (joins : Bool) : Part → List Hook
  | child t => t.hooks joins
  | bind x ty => [.bind x ty]
  | join k ps => Hook.ofJoin joins k ps

/-- The hooks of a node stand around those of its parts. -/
theorem Term.hooks_eq (joins : Bool) {σ : Kind} (t : Term σ) :
    t.hooks joins = .enter t :: t.parts.flatMap (Part.hooks joins) ++ [.leave t] := by
  have hparts : t.parts.flatMap (Part.hooks joins)
      = t.parts.attach.flatMap fun p => p.1.hooks joins := by
    rw [List.flatMap_def, List.flatMap_def, List.attach_map_val]
  rw [hooks, hparts]
  congr 3
  funext ⟨p, hp⟩
  cases p <;> rfl

namespace Visitor

variable {m : Type → Type} [Monad m]

/-- The visitor runs a hook before the walk below a node and one after it, and lets the failures of
that walk through. At a join point it walks the parameters if `joins` says so. -/
structure Around (V : Visitor m) (joins : Bool) (hook : Hook → m Unit) : Prop where
  node : ∀ {σ : Kind} (t : Term σ) (below : m Unit),
    V.node t below = (do hook (.enter t); below; hook (.leave t))
  binder : ∀ x ty, V.binder x ty = hook (.bind x ty)
  joinPoint : ∀ k params (below : m Unit),
    V.joinPoint k params below = (do
      hook (.join k params)
      if joins then below else pure ()
      hook (.joined k params))

variable {V : Visitor m} {joins : Bool} {hook : Hook → m Unit}

theorem Around.walkParams_eq (hV : V.Around joins hook) (params : List ContParam) :
    V.walkParams params = (Hook.ofParams params).forM hook := by
  induction params with
  | nil => rfl
  | cons p rest ih =>
    obtain ⟨_ | x, ty⟩ := p
    · exact ih
    · rw [walkParams, ih]
      exact congrArg (· >>= fun _ => (Hook.ofParams rest).forM hook) (hV.binder x ty)

variable [LawfulMonad m]

theorem Around.visitJoin_eq (hV : V.Around joins hook) (k : Label) (params : List ContParam) :
    V.visitJoin k params = (Hook.ofJoin joins k params).forM hook := by
  rw [visitJoin, hV.joinPoint, hV.walkParams_eq]
  cases joins <;> simp [Hook.ofJoin]

/-- The walk over a term runs the hooks that are due, from the left. -/
theorem visit_eq_hooks (hV : V.Around joins hook) {σ : Kind} (t : Term σ) :
    V.visit t = (t.hooks joins).forM hook := by
  induction t using Term.parts_induction with
  | step t ih =>
    have hpart : ∀ p ∈ t.parts, V.walkPart p = (p.hooks joins).forM hook := by
      intro p hp
      cases p with
      | child c => exact ih c hp
      | bind x ty => simp [walkPart, Part.hooks, hV.binder]
      | join k ps => exact hV.visitJoin_eq k ps
    rw [visit, hV.node, walk_eq_parts, forM_eq_forM_flatMap hpart, Term.hooks_eq]
    simp

/-! ## Failures -/

section Failures

variable {ε S α β : Type} {s s' : S} {e : ε}

theorem run_bind_of_ok {x : ExceptT ε (StateM S) α} {a : α} (h : x.run.run s = (.ok a, s'))
    (f : α → ExceptT ε (StateM S) β) : (x >>= f).run.run s = (f a).run.run s' := by
  rw [ExceptT.run_bind, StateT.run_bind, h]
  rfl

theorem run_bind_of_error {x : ExceptT ε (StateM S) α} (h : x.run.run s = (.error e, s'))
    (f : α → ExceptT ε (StateM S) β) : (x >>= f).run.run s = (.error e, s') := by
  rw [ExceptT.run_bind, StateT.run_bind, h]
  rfl

/-- If the hooks before one of those that are due go through, and this one fails, then the walk
fails with its error and leaves what this hook has left: no hook is run afterwards. -/
theorem run_visit_of_error {V : Visitor (ExceptT ε (StateM S))} {joins : Bool}
    {hook : Hook → ExceptT ε (StateM S) Unit} (hV : V.Around joins hook) {σ : Kind} {t : Term σ}
    {before after : List Hook} {h : Hook} (hsplit : t.hooks joins = before ++ h :: after) {s₁ : S}
    (hbefore : (before.forM hook).run.run s = (.ok (), s₁))
    (hfail : (hook h).run.run s₁ = (.error e, s')) :
    (V.visit t).run.run s = (.error e, s') := by
  rw [List.forM_eq_forM] at hbefore
  rw [visit_eq_hooks hV, hsplit, List.forM_eq_forM, List.forM_append, List.forM_cons,
    run_bind_of_ok hbefore, run_bind_of_error hfail]

end Failures

end Visitor
end JoinIR
