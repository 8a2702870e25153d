/-
# JoinIR.Proofs.Recording — what a recording holds

A recording runs a visitor that writes down what it is called for and may stop the walk. It does so
at the hooks of the walk, and so it is a matter of two lists: the events that are due
(`Recording.due`), which its options select from the hooks, and what there is room for. It holds
the events that are due from the first one on, as many as fit, and the walk is stopped exactly if
there are more (`Recording.run_of_room`, `Recording.run_of_unlimited`).

`Term.tour` is a list that is written by recursion on the term and knows nothing of visitors. The
complete recording is the same: it holds exactly the tour, and the walk is not stopped.
-/
import JoinIR.Proofs.Hooks

namespace JoinIR

/-- The event of a hook. That the parameters of a join point are over is none. -/
def Hook.event? : Hook → Option Event
  | enter t => some (.enter t.caption)
  | leave t => some (.leave t.caption)
  | bind x ty => some (.bind x ty)
  | join k ps => some (.join k ps.length)
  | joined .. => none

/-- What is recorded of some hooks if everything is. -/
def events (hooks : List Hook) : List Event := hooks.filterMap Hook.event?

@[simp] theorem events_append (l m : List Hook) : events (l ++ m) = events l ++ events m :=
  List.filterMap_append

theorem events_flatMap {α : Type} (f : α → List Hook) (l : List α) :
    events (l.flatMap f) = l.flatMap fun a => events (f a) :=
  List.filterMap_flatMap

/-! ## The tour as hooks -/

theorem events_ofParams (ps : List ContParam) : events (Hook.ofParams ps) = Term.tourParams ps := by
  induction ps with
  | nil => rfl
  | cons p rest ih =>
    obtain ⟨_ | x, ty⟩ := p
    · exact ih
    · exact congrArg (.bind x ty :: ·) ih

theorem events_ofJoin (joins : Bool) (k : Label) (ps : List ContParam) :
    events (Hook.ofJoin joins k ps)
      = .join k ps.length :: if joins then Term.tourParams ps else [] := by
  cases joins with
  | true =>
    rw [Hook.ofJoin, if_pos rfl, if_pos rfl, ← events_ofParams]
    simp [events, Hook.event?]
  | false => rfl

/-- The tour of a term is what all hooks of a walk record. -/
theorem Term.tour_eq_events {σ : Kind} (t : Term σ) : t.tour = events (t.hooks true) := by
  induction t using Term.parts_induction with
  | step t ih =>
    have hparts : t.parts.flatMap Part.tour
        = t.parts.flatMap fun p => events (p.hooks true) := by
      rw [List.flatMap_def, List.flatMap_def]
      refine congrArg List.flatten (List.map_congr_left fun p hp => ?_)
      cases p with
      | child c => exact ih c hp
      | bind x ty => rfl
      | join k ps => exact (events_ofJoin true k ps).symm
    rw [tour, around, inside_eq_parts, hparts, hooks_eq, events_append, ← events_flatMap]
    rfl

namespace Recording

/-! ## The recording visitor at hooks -/

/-- Whether the event is recorded if there is room for it. -/
def keeps (o : Recording) : Event → Bool
  | .enter _ => o.entering
  | .leave _ | .bind .. | .join .. => true

/-- What the recording visitor does at a hook. -/
def atHook (o : Recording) (h : Hook) : Recorder Unit :=
  match h.event? with
  | some e => if o.keeps e then o.write e else pure ()
  | none => pure ()

theorem around_visitor (o : Recording) : o.visitor.Around o.joins o.atHook where
  node t below := by
    cases h : o.entering <;> simp [visitor, atHook, Hook.event?, keeps, h]
  binder x ty := rfl
  joinPoint k params below := by
    cases h : o.joins <;> simp [visitor, atHook, Hook.event?, keeps, h]

/-- The events that a recording of the term writes down, room permitting. -/
def due (o : Recording) {σ : Kind} (t : Term σ) : List Event :=
  (events (t.hooks o.joins)).filter o.keeps

theorem forM_atHook (o : Recording) (hooks : List Hook) :
    hooks.forM o.atHook = ((events hooks).filter o.keeps).forM o.write := by
  induction hooks with
  | nil => rfl
  | cons h rest ih =>
    rw [List.forM_eq_forM, List.forM_eq_forM] at ih
    cases he : h.event? with
    | none => simp [events, he, atHook, ih]
    | some e => cases hk : o.keeps e <;> simp [events, he, atHook, ih, hk]

theorem visit_eq_due (o : Recording) {σ : Kind} (t : Term σ) :
    o.visitor.visit t = (o.due t).forM o.write := by
  rw [Visitor.visit_eq_hooks o.around_visitor, forM_atHook, due]

/-! ## Room -/

section Write

variable {o : Recording} {events : Array Event}

theorem run_write (o : Recording) (e : Event) (events : Array Event) :
    (o.write e).run.run events
      = if o.isFull events then (.error .full, events) else (.ok (), events.push e) := by
  show (if o.isFull events then throw .full else modify fun events => events.push e : Recorder Unit)
    events = _
  split <;> rfl

theorem run_write_of_isFull (h : o.isFull events = true) (e : Event) :
    (o.write e).run.run events = (.error .full, events) := by
  rw [run_write, if_pos h]

theorem run_write_of_not_isFull (h : o.isFull events = false) (e : Event) :
    (o.write e).run.run events = (.ok (), events.push e) := by
  rw [run_write, h]
  rfl

end Write

/-- With limited room events are written from the left as long as they fit, and one that does not
fit stops the walk. -/
theorem run_forM_write_of_room {o : Recording} {n : Nat} (h : o.room = some n) (l : List Event)
    {events : Array Event} (hsize : events.size ≤ n) :
    (((l.forM o.write).run.run events).1 = .ok () ↔ events.size + l.length ≤ n) ∧
      ((l.forM o.write).run.run events).2.toList = events.toList ++ l.take (n - events.size) := by
  induction l generalizing events with
  | nil => exact ⟨iff_of_true rfl hsize, by simp; rfl⟩
  | cons e rest ih =>
    rw [List.forM_eq_forM, List.forM_cons]
    by_cases hfull : n ≤ events.size
    · have hroom : o.isFull events = true := by simp [isFull, h, hfull]
      rw [Visitor.run_bind_of_error (run_write_of_isFull hroom e)]
      have hnone : n - events.size = 0 := by omega
      simp [hnone]
      omega
    · have hroom : o.isFull events = false := by simp [isFull, h, hfull]
      rw [Visitor.run_bind_of_ok (run_write_of_not_isFull hroom e)]
      have hpush : (events.push e).size ≤ n := by
        rw [Array.size_push]
        omega
      obtain ⟨hok, hevents⟩ := ih hpush
      rw [List.forM_eq_forM] at hok hevents
      rw [Array.size_push] at hok hevents
      have htake : (e :: rest).take (n - events.size) = e :: rest.take (n - (events.size + 1)) := by
        rw [show n - events.size = n - (events.size + 1) + 1 by omega, List.take_succ_cons]
      rw [hevents, htake, Array.toList_push, List.append_assoc, List.singleton_append, hok,
        List.length_cons]
      exact ⟨by omega, rfl⟩

/-- Without a limit all events are written. -/
theorem run_forM_write_of_unlimited {o : Recording} (h : o.room = none) (l : List Event)
    (events : Array Event) :
    ((l.forM o.write).run.run events).1 = .ok () ∧
      ((l.forM o.write).run.run events).2.toList = events.toList ++ l := by
  induction l generalizing events with
  | nil => exact ⟨rfl, (List.append_nil _).symm⟩
  | cons e rest ih =>
    have hroom : o.isFull events = false := by simp [isFull, h]
    rw [List.forM_eq_forM, List.forM_cons, Visitor.run_bind_of_ok (run_write_of_not_isFull hroom e)]
    obtain ⟨hok, hevents⟩ := ih (events.push e)
    refine ⟨hok, hevents.trans ?_⟩
    rw [Array.toList_push, List.append_assoc, List.singleton_append]

/-! ## Recordings -/

/-- With limited room a recording holds the events that are due up to the limit, and it is stopped
exactly if more are due. -/
theorem run_of_room {o : Recording} {n : Nat} (h : o.room = some n) {σ : Kind} (t : Term σ) :
    o.run t = ((o.due t).take n, decide (n < (o.due t).length)) := by
  have hempty : (#[] : Array Event).size ≤ n := Nat.zero_le n
  obtain ⟨hok, hevents⟩ := run_forM_write_of_room h (o.due t) hempty
  rw [run, visit_eq_due]
  generalize (((o.due t).forM o.write).run.run #[]) = r at hok hevents
  obtain ⟨outcome, events⟩ := r
  rw [Array.size_empty, Nat.zero_add] at hok
  rcases outcome with ⟨⟨⟩⟩ | ⟨⟨⟩⟩
  · refine Prod.ext hevents ?_
    show true = decide (n < (o.due t).length)
    simpa using hok
  · refine Prod.ext hevents ?_
    show false = decide (n < (o.due t).length)
    simpa using hok

/-- Without a limit a recording holds all events that are due, and it is never stopped. -/
theorem run_of_unlimited {o : Recording} (h : o.room = none) {σ : Kind} (t : Term σ) :
    o.run t = (o.due t, false) := by
  obtain ⟨hok, hevents⟩ := run_forM_write_of_unlimited h (o.due t) #[]
  rw [run, visit_eq_due]
  generalize (((o.due t).forM o.write).run.run #[]) = r at hok hevents
  obtain ⟨outcome, events⟩ := r
  subst hok
  exact Prod.ext hevents rfl

/-- In a complete recording everything is due. -/
theorem due_complete {σ : Kind} (t : Term σ) : complete.due t = t.tour := by
  rw [due, t.tour_eq_events]
  refine List.filter_eq_self.mpr fun e _ => ?_
  cases e <;> rfl

/-- The complete recording of a term is its tour, and it is never stopped. -/
theorem run_complete {σ : Kind} (t : Term σ) : complete.run t = (t.tour, false) := by
  rw [run_of_unlimited rfl, due_complete]

end Recording
end JoinIR
