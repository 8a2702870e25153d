/-
# JoinIR.Term.Recording — the event stream of a walk

A recording visitor writes down what it is called for: nodes entered and left, locals bound and
join points met. Three options shape a recording: whether entering a node counts as an event,
whether the parameters of a join point are walked, and how many events there is room for. When the
room is used up, the next event is not recorded and the walk ends there.

Two more definitions say what a recording is about without a visitor's plumbing: `Term.tour` is
the complete stream as a list, written by recursion on the term, and `Term.binders` collects the
bound locals with a visitor that does nothing else.
-/
import JoinIR.Term.Caption
import JoinIR.Term.Visitor

namespace JoinIR

/-- What a recording visitor can write down. -/
inductive Event
  | enter (c : Caption)
  | leave (c : Caption)
  | bind (x : Local) (ty : Ty)
  | join (k : Label) (arity : Nat)
  deriving Repr

namespace Event

/-- The text of an event, such as `+e:loop`, `-i32 0`, `bind $x/1 i32` or `join @k/1 2`. -/
def text : Event → String
  | enter c => "+" ++ c.text
  | leave c => "-" ++ c.text
  | bind x ty => "bind " ++ x.text ++ " " ++ ty.text
  | join k arity => "join " ++ k.text ++ " " ++ toString arity

end Event

/-! ## The recording visitor -/

/-- How a walk is recorded. -/
structure Recording where
  /-- Whether entering a node is an event. -/
  entering : Bool
  /-- Whether the parameters of join points are walked. -/
  joins : Bool
  /-- The number of events that there is room for, if it is limited. -/
  room : Option Nat

namespace Recording

/-- The walk met an event that there was no room for. -/
inductive Stop
  | full
  deriving DecidableEq, Repr

/-- A walk that writes events and may stop early; what is written stays. -/
abbrev Recorder := ExceptT Stop (StateM (Array Event))

/-- Everything is recorded. -/
def complete : Recording := ⟨true, true, none⟩

/-- Whether no more events fit. -/
def isFull (o : Recording) (events : Array Event) : Bool :=
  match o.room with
  | some n => decide (n ≤ events.size)
  | none => false

/-- Writes an event down if there is room for it, and stops the walk otherwise. -/
def write (o : Recording) (e : Event) : Recorder Unit := do
  if o.isFull (← get) then throw .full
  modify fun events => events.push e

/-- The visitor that records. -/
def visitor (o : Recording) : Visitor Recorder where
  node t below := do
    if o.entering then o.write (.enter t.caption)
    below
    o.write (.leave t.caption)
  binder x ty := o.write (.bind x ty)
  joinPoint k params below := do
    o.write (.join k params.length)
    if o.joins then below

/-- The events of a walk over a term, and whether it was stopped. -/
def run (o : Recording) {σ : Kind} (t : Term σ) : List Event × Bool :=
  let (outcome, events) := (o.visitor.visit t).run.run #[]
  (events.toList, match outcome with | .ok () => false | .error .full => true)

end Recording

/-! ## The bound locals -/

namespace Term

/-- The visitor that collects the locals that it meets. -/
def binderVisitor : Visitor (StateM (Array Local)) where
  binder x _ := modify fun locals => locals.push x

/-- The locals bound in a term, in the order of the walk. -/
def binders {σ : Kind} (t : Term σ) : List Local :=
  ((binderVisitor.visit t).run #[]).2.toList

/-! ## The complete stream -/

/-- The events of the parameters of a join point. -/
def tourParams : List ContParam → List Event
  | [] => []
  | p :: rest =>
    match p.local? with
    | some x => .bind x p.ty :: tourParams rest
    | none => tourParams rest

/-- The events of a join point. -/
def tourJoin (k : Label) (params : List ContParam) : List Event :=
  .join k params.length :: tourParams params

/-- The events of a node around those of what lies below it. -/
def around {σ : Kind} (t : Term σ) (below : List Event) : List Event :=
  .enter t.caption :: below ++ [.leave t.caption]

mutual

/-- The events of what lies below the root of a term. -/
def inside : {σ : Kind} → Term σ → List Event
  | _, i32 _ => []
  | _, i64 _ => []
  | _, f64 _ => []
  | _, refFunc _ => []
  | _, var _ => []
  | _, globalGet _ => []
  | _, letIn x ty d b => d.around (inside d) ++ .bind x ty :: b.around (inside b)
  | _, ite _ c a b => c.around (inside c) ++ a.around (inside a) ++ b.around (inside b)
  | _, binary _ a b => a.around (inside a) ++ b.around (inside b)
  | _, unary _ a => a.around (inside a)
  | _, structNew _ vs => insideValues vs
  | _, arrayNewFixed _ vs => insideValues vs
  | _, refCast _ a => a.around (inside a)
  | _, call _ vs => insideValues vs
  | _, callRef _ vs c => insideValues vs ++ c.around (inside c)
  | _, seq es l => insideEffects es ++ l.around (inside l)
  | _, letCont k ps h b => tourJoin k ps ++ h.around (inside h) ++ b.around (inside b)
  | _, applyCont _ vs => insideValues vs
  | _, brOnCast a _ _ e => a.around (inside a) ++ e.around (inside e)
  | _, brIf c _ e => c.around (inside c) ++ e.around (inside e)
  | _, tryCatch _ b x xty h => b.around (inside b) ++ .bind x xty :: h.around (inside h)
  | _, raise a => a.around (inside a)
  | _, effect e => e.around (inside e)
  | _, noReturn t => t.around (inside t)
  | _, block es => insideEffects es
  | _, drop a => a.around (inside a)
  | _, store _ t a => t.around (inside t) ++ a.around (inside a)
  | _, assign _ a => a.around (inside a)
  | _, loop _ b => b.around (inside b)
  | _, brWhen c _ => c.around (inside c)
  | _, iteEffect c a b => c.around (inside c) ++ a.around (inside a) ++ b.around (inside b)
  | _, nop => []
  | _, letContTail k ps h b => tourJoin k ps ++ h.around (inside h) ++ b.around (inside b)
  | _, iteTail c a b => c.around (inside c) ++ a.around (inside a) ++ b.around (inside b)
  | _, brTable i _ _ => i.around (inside i)
  | _, br _ a => a.around (inside a)
  | _, brBare _ => []
  | _, unreachable => []

/-- The streams of values, one after the other. -/
def insideValues : List Value → List Event
  | [] => []
  | v :: vs => v.around (inside v) ++ insideValues vs

/-- The streams of effects, one after the other. -/
def insideEffects : List Effect → List Event
  | [] => []
  | e :: es => e.around (inside e) ++ insideEffects es

end

/-- The complete stream of a term: its root's events around those of what lies below. -/
def tour {σ : Kind} (t : Term σ) : List Event := t.around t.inside

end Term

end JoinIR
