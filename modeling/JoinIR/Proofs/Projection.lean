/-
# JoinIR.Proofs.Projection — every recording is part of the complete one

The options of a recording leave out events of the complete recording of the same term, and never
reorder or change the others. Without entering, the entries are left out. Without the parameters of
join points, the run of bound locals directly after each join point is left out, and these are the
parameters and nothing else: all other locals are bound directly after a subterm
(`Term.placed_parts`), which the walk leaves before it binds them. What is left of the events is cut
off where the room ends.
-/
import Mathlib.Data.List.Basic
import Mathlib.Data.List.TakeWhile
import JoinIR.Proofs.Recording

namespace JoinIR

/-! ## Without the parameters of join points -/

/-- The event is that of binding a local. -/
def Event.isBind : Event → Bool
  | bind .. => true
  | enter _ | leave _ | join .. => false

/-- The events without the run of bound locals directly after each join point. -/
def withoutParams : List Event → List Event
  | [] => []
  | .join k n :: rest => .join k n :: withoutParams (rest.dropWhile Event.isBind)
  | e :: rest => e :: withoutParams rest
termination_by l => l.length
decreasing_by
  · exact Nat.lt_succ_of_le (List.length_dropWhile_le _ _)
  · exact Nat.lt_succ_self _

/-- The list does not start with a bound local. -/
def StartsUnbound (l : List Event) : Prop := ∀ e ∈ l.head?, e.isBind = false

theorem StartsUnbound.of_cons {e : Event} {l : List Event} (h : e.isBind = false) :
    StartsUnbound (e :: l) := by
  rintro d ⟨⟩
  exact h

@[simp] theorem withoutParams_nil : withoutParams [] = [] := by rw [withoutParams]

@[simp] theorem withoutParams_enter (c : Caption) (l : List Event) :
    withoutParams (.enter c :: l) = .enter c :: withoutParams l := by simp [withoutParams]

@[simp] theorem withoutParams_leave (c : Caption) (l : List Event) :
    withoutParams (.leave c :: l) = .leave c :: withoutParams l := by simp [withoutParams]

@[simp] theorem withoutParams_bind (x : Local) (ty : Ty) (l : List Event) :
    withoutParams (.bind x ty :: l) = .bind x ty :: withoutParams l := by simp [withoutParams]

@[simp] theorem withoutParams_join (k : Label) (n : Nat) (l : List Event) :
    withoutParams (.join k n :: l) = .join k n :: withoutParams (l.dropWhile Event.isBind) := by
  rw [withoutParams]

theorem StartsUnbound.dropWhile_append {m : List Event} (hm : StartsUnbound m) (l : List Event) :
    (l ++ m).dropWhile Event.isBind = l.dropWhile Event.isBind ++ m := by
  induction l with
  | nil =>
    cases m with
    | nil => rfl
    | cons e m => exact List.dropWhile_cons_of_neg (by simp [hm e rfl])
  | cons e l ih =>
    rw [List.cons_append]
    cases he : e.isBind with
    | true => rw [List.dropWhile_cons_of_pos he, List.dropWhile_cons_of_pos he, ih]
    | false =>
      have hneg : ¬ e.isBind = true := by simp [he]
      rw [List.dropWhile_cons_of_neg hneg, List.dropWhile_cons_of_neg hneg, List.cons_append]

/-- A run of bound locals does not go on where no bound local comes next. -/
theorem StartsUnbound.withoutParams_append {m : List Event} (hm : StartsUnbound m)
    (l : List Event) : withoutParams (l ++ m) = withoutParams l ++ withoutParams m := by
  fun_induction withoutParams l with
  | case1 => rfl
  | case2 k n rest ih =>
    rw [List.cons_append, withoutParams_join, hm.dropWhile_append, ih, List.cons_append]
  | case3 e rest hjoin ih =>
    cases e with
    | join k n => exact absurd rfl (hjoin k n)
    | _ => simp [ih]

/-- Nor does it go on behind an event of leaving a node. -/
theorem withoutParams_append_leave (l m : List Event) (c : Caption) :
    withoutParams (l ++ .leave c :: m) = withoutParams (l ++ [.leave c]) ++ withoutParams m := by
  have hm : StartsUnbound (.leave c :: m) := .of_cons rfl
  have hleave : StartsUnbound [.leave c] := .of_cons rfl
  rw [hm.withoutParams_append, hleave.withoutParams_append]
  simp

theorem isBind_of_mem_tourParams {ps : List ContParam} :
    ∀ e ∈ Term.tourParams ps, e.isBind = true := by
  induction ps with
  | nil => simp [Term.tourParams]
  | cons p rest ih =>
    obtain ⟨_ | x, ty⟩ := p
    · exact ih
    · exact List.forall_mem_cons.mpr ⟨rfl, ih⟩

/-- Of the events of a join point only the first is not left out. -/
theorem withoutParams_tourJoin (k : Label) (ps : List ContParam) :
    withoutParams (Term.tourJoin k ps) = [.join k ps.length] := by
  have hdrop : (Term.tourParams ps).dropWhile Event.isBind = [] :=
    List.dropWhile_eq_nil_iff.mpr isBind_of_mem_tourParams
  rw [Term.tourJoin, withoutParams_join, hdrop, withoutParams_nil]

theorem Recording.keeps_of_isBind (o : Recording) {e : Event} (h : e.isBind = true) :
    o.keeps e = true := by
  cases e with
  | enter c => cases h
  | _ => rfl

/-! ## Where locals are bound -/

/-- Parts among which every bound local stands directly after a subterm. -/
inductive Placed : List Part → Prop
  | nil : Placed []
  | bound {τ : Kind} (c : Term τ) (x : Local) (ty : Ty) {ps : List Part} :
      Placed ps → Placed (.child c :: .bind x ty :: ps)
  | child {τ : Kind} (c : Term τ) {ps : List Part} : Placed ps → Placed (.child c :: ps)
  | join (k : Label) (qs : List ContParam) {ps : List Part} : Placed ps → Placed (.join k qs :: ps)

theorem Placed.childParts_append {τ : Kind} (ts : List (Term τ)) {ps : List Part}
    (h : Placed ps) : Placed (Term.childParts ts ++ ps) := by
  induction ts with
  | nil => exact h
  | cons t rest ih => exact .child t ih

/-- A term binds a local to what it evaluates directly before. -/
theorem Term.placed_parts {σ : Kind} (t : Term σ) : Placed t.parts := by
  cases t with
  | letIn | tryCatch => exact .bound _ _ _ (.child _ .nil)
  | letCont | letContTail => exact .join _ _ (.child _ (.child _ .nil))
  | structNew _ vs | arrayNewFixed _ vs | call _ vs | applyCont _ vs | block vs =>
    rw [parts, ← List.append_nil (childParts vs)]
    exact Placed.nil.childParts_append vs
  | callRef _ vs c => exact (Placed.nil.child c).childParts_append vs
  | seq es l => exact (Placed.nil.child l).childParts_append es
  | _ => repeat' constructor

namespace Recording

/-- The events that are due at a part. -/
def dueAt (o : Recording) (p : Part) : List Event := (events (p.hooks o.joins)).filter o.keeps

/-- What is due at a node stands around what is due at its parts. -/
theorem due_eq_parts (o : Recording) {σ : Kind} (t : Term σ) :
    o.due t = (if o.entering then [.enter t.caption] else [])
      ++ (t.parts.flatMap o.dueAt ++ [.leave t.caption]) := by
  have hparts : (events (t.parts.flatMap (Part.hooks o.joins))).filter o.keeps
      = t.parts.flatMap o.dueAt := by
    rw [events_flatMap, List.filter_flatMap]
    rfl
  rw [due, Term.hooks_eq, List.cons_append, ← List.singleton_append, events_append, events_append,
    List.filter_append, List.filter_append, hparts]
  cases h : o.entering <;> simp [events, Hook.event?, keeps, h]

theorem dueAt_join (o : Recording) (k : Label) (ps : List ContParam) :
    o.dueAt (.join k ps) = .join k ps.length :: if o.joins then Term.tourParams ps else [] := by
  have hparams : (Term.tourParams ps).filter o.keeps = Term.tourParams ps :=
    List.filter_eq_self.mpr fun e he => o.keeps_of_isBind (isBind_of_mem_tourParams e he)
  rw [dueAt, Part.hooks, events_ofJoin, List.filter_cons_of_pos rfl]
  cases o.joins with
  | true => rw [if_pos rfl, hparams]
  | false => rfl

/-- What is due at placed parts does not start with a bound local, if that is so for the subterms
among them. -/
theorem startsUnbound_dueAt {o : Recording} {ps : List Part} (hps : Placed ps)
    (hchild : ∀ {τ : Kind} (c : Term τ), Part.child c ∈ ps → ∀ l, StartsUnbound (o.due c ++ l))
    {l : List Event} (hl : StartsUnbound l) : StartsUnbound (ps.flatMap o.dueAt ++ l) := by
  cases hps with
  | nil => exact hl
  | bound c | child c =>
    rw [List.flatMap_cons, List.append_assoc]
    exact hchild c List.mem_cons_self _
  | join k qs =>
    rw [List.flatMap_cons, dueAt_join]
    exact .of_cons rfl

theorem startsUnbound_due (o : Recording) {σ : Kind} (t : Term σ) (l : List Event) :
    StartsUnbound (o.due t ++ l) := by
  induction t using Term.parts_induction generalizing l with
  | step t ih =>
    rw [due_eq_parts]
    cases o.entering with
    | true => exact .of_cons rfl
    | false =>
      rw [if_neg Bool.false_ne_true, List.nil_append, List.append_assoc]
      exact startsUnbound_dueAt t.placed_parts ih (.of_cons rfl)

theorem withoutParams_due_append (o : Recording) {σ : Kind} (t : Term σ) (l : List Event) :
    withoutParams (o.due t ++ l) = withoutParams (o.due t) ++ withoutParams l := by
  rw [due_eq_parts, ← List.append_assoc, List.append_assoc]
  exact withoutParams_append_leave _ _ _

/-- To leave out parameters of join points from what is due at placed parts is to leave them out at
every part. -/
theorem withoutParams_dueAt {e : Bool} {ps : List Part} (hps : Placed ps)
    (hchild : ∀ {τ : Kind} (c : Term τ), Part.child c ∈ ps →
      withoutParams (due ⟨e, true, none⟩ c) = due ⟨e, false, none⟩ c) :
    withoutParams (ps.flatMap (dueAt ⟨e, true, none⟩)) = ps.flatMap (dueAt ⟨e, false, none⟩) := by
  induction hps with
  | nil => exact withoutParams_nil
  | bound c x ty _ ih =>
    have hroot := hchild c List.mem_cons_self
    have hrest := ih fun d hd => hchild d (List.mem_cons_of_mem _ (List.mem_cons_of_mem _ hd))
    simp only [List.flatMap_cons, ← hrest]
    refine (withoutParams_due_append _ c _).trans (congrArg₂ (· ++ ·) hroot ?_)
    exact withoutParams_bind x ty _
  | child c _ ih =>
    have hroot := hchild c List.mem_cons_self
    have hrest := ih fun d hd => hchild d (List.mem_cons_of_mem _ hd)
    rw [List.flatMap_cons, List.flatMap_cons, ← hrest]
    exact (withoutParams_due_append _ c _).trans (congrArg (· ++ _) hroot)
  | @join k qs ps hps ih =>
    have hrest := ih fun d hd => hchild d (List.mem_cons_of_mem _ hd)
    -- the part after a join point is not a bound local, so the run ends with the parameters
    have hstart : StartsUnbound (ps.flatMap (dueAt ⟨e, true, none⟩) ++ []) :=
      startsUnbound_dueAt hps (fun c _ => startsUnbound_due _ c) fun _ h => by cases h
    rw [List.append_nil] at hstart
    rw [List.flatMap_cons, List.flatMap_cons, dueAt_join, dueAt_join, hstart.withoutParams_append,
      hrest, if_pos rfl, if_neg Bool.false_ne_true]
    exact congrArg (· ++ _) (withoutParams_tourJoin k qs)

/-- Without the parameters of join points everything else is due as before. -/
theorem withoutParams_due (e : Bool) {σ : Kind} (t : Term σ) :
    withoutParams (due ⟨e, true, none⟩ t) = due ⟨e, false, none⟩ t := by
  induction t using Term.parts_induction with
  | step t ih =>
    have hentry (l : List Event) : withoutParams ((if e then [.enter t.caption] else []) ++ l)
        = (if e then [.enter t.caption] else []) ++ withoutParams l := by
      cases e <;> simp
    have hleave : StartsUnbound [.leave t.caption] := .of_cons rfl
    rw [due_eq_parts, due_eq_parts, hentry, hleave.withoutParams_append,
      withoutParams_dueAt t.placed_parts ih]
    simp

/-! ## Projections -/

/-- What the options of a recording leave of the events. -/
def project (o : Recording) (l : List Event) : List Event :=
  if o.joins then l.filter o.keeps else withoutParams (l.filter o.keeps)

theorem project_tour (o : Recording) {σ : Kind} (t : Term σ) : o.project t.tour = o.due t := by
  obtain ⟨e, joins, room⟩ := o
  rw [project, t.tour_eq_events]
  cases joins with
  | true => rfl
  | false => exact withoutParams_due e t

/-- It makes no difference which events are left out first. -/
theorem filter_withoutParams_tour (e : Bool) (room : Option Nat) {σ : Kind} (t : Term σ) :
    (withoutParams t.tour).filter (keeps ⟨e, false, room⟩) = due ⟨e, false, room⟩ t := by
  rw [← due_complete, complete, withoutParams_due, due, due, List.filter_filter]
  refine List.filter_congr fun d _ => ?_
  cases d <;> simp [keeps]

end Recording

/-! ## Bound locals -/

/-- The local that is bound, if the event is one of binding. -/
def Event.bound? : Event → Option Local
  | bind x _ => some x
  | enter _ | leave _ | join .. => none

namespace Hook

/-- The local that is bound at the hook, if there is one. -/
def bound? (h : Hook) : Option Local := h.event?.bind Event.bound?

/-- What the visitor that collects bound locals does at a hook. -/
def collect (h : Hook) : StateM (Array Local) Unit :=
  match h.bound? with
  | some x => modify fun locals => locals.push x
  | none => pure ()

theorem around_binderVisitor : Term.binderVisitor.Around true collect where
  node _ _ := rfl
  binder _ _ := rfl
  joinPoint _ _ _ := rfl

theorem writes_collect (h : Hook) : Writes h.collect h.bound?.toList := by
  rw [collect]
  cases h.bound? with
  | none => exact .nothing
  | some x => exact .push x

end Hook

/-- The bound locals of a term are those of its recording. -/
theorem Term.binders_eq_bound {σ : Kind} (t : Term σ) :
    t.binders = t.tour.filterMap Event.bound? := by
  have hwrites : Writes ((t.hooks true).forM Hook.collect)
      ((t.hooks true).flatMap fun h => h.bound?.toList) :=
    .forM fun h _ => h.writes_collect
  have hevents : (events (t.hooks true)).filterMap Event.bound?
      = (t.hooks true).flatMap fun h => h.bound?.toList := by
    rw [events, List.filterMap_filterMap, List.filterMap_eq_flatMap_toList]
    rfl
  rw [binders, Visitor.visit_eq_hooks Hook.around_binderVisitor, hwrites.toList_run,
    t.tour_eq_events, hevents]

/-- Every recording of a term is a projection of the complete one. The options leave out events of
it: the entries of nodes, and the run of bound locals directly after each join point, in whichever
order. With room for `n` events the recording holds the first `n` of those that are left, and it is
stopped exactly if there are more; without a limit it holds them all. The bound locals of the term
are those of the complete recording, in order.

Where a recording stops is a matter of failing hooks in general. The events of the complete
recording are those of the hooks of the walk; and of every visitor that runs hooks before and after
the walk of what lies below a node, the first hook that fails, at whatever depth, ends the walk with
its error, and no hook is run afterwards. -/
theorem recordings_are_projections {σ : Kind} (t : Term σ) :
    (∀ o : Recording,
      (∀ n, o.room = some n →
        o.run t = ((o.project (Recording.complete.run t).1).take n,
          decide (n < (o.project (Recording.complete.run t).1).length))) ∧
      (o.room = none → o.run t = (o.project (Recording.complete.run t).1, false)) ∧
      (o.joins = false → o.project (Recording.complete.run t).1
        = (withoutParams (Recording.complete.run t).1).filter o.keeps)) ∧
      t.binders = (Recording.complete.run t).1.filterMap Event.bound? ∧
      (Recording.complete.run t).1 = events (t.hooks true) ∧
      ∀ {ε S : Type} (V : Visitor (ExceptT ε (StateM S))) (joins : Bool)
        (hook : Hook → ExceptT ε (StateM S) Unit), V.Around joins hook →
        ∀ before h after s s₁ s₂ e, t.hooks joins = before ++ h :: after →
          (before.forM hook).run.run s = (.ok (), s₁) → (hook h).run.run s₁ = (.error e, s₂) →
            (V.visit t).run.run s = (.error e, s₂) := by
  have htour : (Recording.complete.run t).1 = t.tour := by rw [Recording.run_complete]
  rw [htour]
  refine ⟨fun o => ⟨fun n hroom => ?_, fun hroom => ?_, fun hjoins => ?_⟩, t.binders_eq_bound,
    t.tour_eq_events, ?_⟩
  · rw [o.project_tour, Recording.run_of_room hroom]
  · rw [o.project_tour, Recording.run_of_unlimited hroom]
  · obtain ⟨e, joins, room⟩ := o
    obtain rfl : joins = false := hjoins
    rw [Recording.project_tour, Recording.filter_withoutParams_tour]
  · intro ε S V joins hook hV before h after s s₁ s₂ e hsplit hbefore hfail
    exact Visitor.run_visit_of_error hV hsplit hbefore hfail

end JoinIR
