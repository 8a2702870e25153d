/-
# JoinIR.Proofs.Calls — a walk as a flat list of calls

A visitor that does nothing of its own at a node sees only two things of a term: the locals that
are bound and the join points. `Term.calls` is the list of them in the order of the walk. It is
what a visitor receives that writes down its calls and never stops.

Such a walk is then no recursion any more: `Visitor.visit_eq_calls` runs the calls of a term from
the left, in any lawful monad, so also in one where the first failure ends the walk.
-/
import JoinIR.Proofs.Parts

namespace JoinIR

/-! ## Work that only writes -/

/-- The work adds the list at the end of what is written, whatever that is. -/
def Writes {α : Type} (work : StateM (Array α) Unit) (l : List α) : Prop :=
  ∀ written : Array α, (work.run written).2.toList = written.toList ++ l

namespace Writes

variable {α β : Type} {x y : StateM (Array α) Unit} {l l' : List α}

theorem nothing : Writes (pure () : StateM (Array α) Unit) [] := by
  intro written
  exact (List.append_nil _).symm

theorem push (a : α) : Writes (modify fun written => written.push a) [a] := by
  intro written
  exact Array.toList_push

theorem bind (hx : Writes x l) (hy : Writes y l') : Writes (x >>= fun _ => y) (l ++ l') := by
  intro written
  have hfirst := hx written
  have hsecond := hy (x.run written).2
  rw [hfirst, List.append_assoc] at hsecond
  exact hsecond

theorem forM {f : β → StateM (Array α) Unit} {g : β → List α} {bs : List β}
    (h : ∀ b ∈ bs, Writes (f b) (g b)) : Writes (bs.forM f) (bs.flatMap g) := by
  induction bs with
  | nil => exact nothing
  | cons b rest ih =>
    rw [List.forM_eq_forM, List.forM_cons, List.flatMap_cons]
    exact (h b List.mem_cons_self).bind (ih fun c hc => h c (List.mem_cons_of_mem _ hc))

/-- What is written from nothing. -/
theorem toList_run (hx : Writes x l) : (x.run #[]).2.toList = l := hx #[]

end Writes

/-! ## The calls of a walk -/

/-- A call that a visitor receives on a walk, nodes apart. -/
inductive Call
  | binder (x : Local) (ty : Ty)
  /-- The walk of a join point's parameters is over, and its handler comes next. -/
  | joinPoint (k : Label) (params : List ContParam)

namespace Call

/-- The visitor that writes down its calls, that of a join point when its parameters are done. -/
def visitor : Visitor (StateM (Array Call)) where
  binder x ty := modify fun calls => calls.push (.binder x ty)
  joinPoint k params below := do
    below
    modify fun calls => calls.push (.joinPoint k params)

/-- The calls for the parameters of a join point: those that bind a local. -/
def ofParams (params : List ContParam) : List Call :=
  params.filterMap fun p => p.local?.map fun x => .binder x p.ty

end Call

/-- The calls of a walk over a term. -/
def Term.calls {σ : Kind} (t : Term σ) : List Call := ((Call.visitor.visit t).run #[]).2.toList

/-- The calls of a walk over the term of a body. -/
def Body.calls (b : Body) : List Call := ((Call.visitor.visitBody b).run #[]).2.toList

/-- The calls of a part. -/
def Part.calls : Part → List Call
  | child t => t.calls
  | bind x ty => [.binder x ty]
  | join k ps => Call.ofParams ps ++ [.joinPoint k ps]

theorem Call.writes_walkParams (params : List ContParam) :
    Writes (Call.visitor.walkParams params) (Call.ofParams params) := by
  induction params with
  | nil => exact Writes.nothing
  | cons p rest ih =>
    obtain ⟨x, ty⟩ := p
    cases x with
    | none => exact ih
    | some x => exact (Writes.push (Call.binder x ty)).bind ih

/-- What a term writes follows from what the subterms among its parts write. -/
theorem Call.writes_of_parts {σ : Kind} (t : Term σ)
    (h : ∀ {τ : Kind} (c : Term τ), Part.child c ∈ t.parts →
      Writes (Call.visitor.visit c) c.calls) :
    Writes (Call.visitor.visit t) (t.parts.flatMap Part.calls) := by
  show Writes (Call.visitor.walk t) _
  rw [Visitor.walk_eq_parts]
  apply Writes.forM
  intro p hp
  cases p with
  | child c => exact h c hp
  | bind x ty => exact Writes.push (Call.binder x ty)
  | join k ps => exact (Call.writes_walkParams ps).bind (Writes.push (Call.joinPoint k ps))

theorem Call.writes_visit {σ : Kind} (t : Term σ) : Writes (Call.visitor.visit t) t.calls := by
  induction t using Term.parts_induction with
  | step t ih =>
    have hparts := Call.writes_of_parts t ih
    have hcalls : t.calls = t.parts.flatMap Part.calls := hparts.toList_run
    rw [hcalls]
    exact hparts

/-- The calls of a term are those of its parts, one part after the other. -/
theorem Term.calls_eq_parts {σ : Kind} (t : Term σ) : t.calls = t.parts.flatMap Part.calls :=
  (Call.writes_of_parts t fun c _ => Call.writes_visit c).toList_run

/-! ## A walk that does nothing of its own at nodes -/

namespace Visitor

variable {m : Type → Type} [Monad m]

/-- What a visitor does at a call, when `joined` is what it does once the parameters of a join
point have been walked. -/
def call (V : Visitor m) (joined : Label → List ContParam → m Unit) : Call → m Unit
  | .binder x ty => V.binder x ty
  | .joinPoint k params => joined k params

/-- The walk of a join point's parameters runs the calls for them. -/
theorem walkParams_eq_calls (V : Visitor m) (joined : Label → List ContParam → m Unit)
    (params : List ContParam) :
    V.walkParams params = (Call.ofParams params).forM (V.call joined) := by
  induction params with
  | nil => rfl
  | cons p rest ih =>
    obtain ⟨x, ty⟩ := p
    cases x with
    | none => exact ih
    | some x => rw [walkParams, ih]; rfl

/-- The visitor adds nothing at a node, and at a join point it walks the parameters and then does
`joined`. -/
structure Flat (V : Visitor m) (joined : Label → List ContParam → m Unit) : Prop where
  node : ∀ {σ : Kind} (t : Term σ) (below : m Unit), V.node t below = below
  joinPoint : ∀ k params (below : m Unit),
    V.joinPoint k params below = below >>= fun _ => joined k params

variable [LawfulMonad m]

/-- Work on parts is work on what the parts consist of, from the left. -/
theorem forM_eq_forM_flatMap {α β : Type} {f : β → m Unit} {g : β → List α} {h : α → m Unit}
    {bs : List β} (hparts : ∀ b ∈ bs, f b = (g b).forM h) :
    bs.forM f = (bs.flatMap g).forM h := by
  induction bs with
  | nil => rfl
  | cons b rest ih =>
    have hrest := ih fun c hc => hparts c (List.mem_cons_of_mem _ hc)
    simp only [List.forM_eq_forM] at hparts hrest ⊢
    rw [List.forM_cons, List.flatMap_cons, List.forM_append, hrest,
      hparts b List.mem_cons_self]

/-- A walk that adds nothing at nodes is the run of the calls from the left. -/
theorem visit_eq_calls {V : Visitor m} {joined : Label → List ContParam → m Unit}
    (hV : V.Flat joined) {σ : Kind} (t : Term σ) :
    V.visit t = t.calls.forM (V.call joined) := by
  induction t using Term.parts_induction with
  | step t ih =>
    have hpart : ∀ p ∈ t.parts, V.walkPart p = p.calls.forM (V.call joined) := by
      intro p hp
      cases p with
      | child c => exact ih c hp
      | bind x ty => simp [walkPart, Part.calls, call]
      | join k ps =>
        rw [walkPart, visitJoin, hV.joinPoint, V.walkParams_eq_calls joined]
        simp [Part.calls, call]
    rw [visit, hV.node, walk_eq_parts, Term.calls_eq_parts]
    exact forM_eq_forM_flatMap hpart

end Visitor

end JoinIR
