/-
# JoinIR.Term.Listing — terms, bodies and functions as outlines

Every construct has a head, made of its mnemonic and what it names, and its children below it.
The arms of a conditional and the two parts of a join point stand under a wrapper that says which
one they are (`then`, `else`, `handler`, `body`); other children stand directly below the head.

Exceptions have no listing: a term with a `tryCatch` or a `raise` anywhere is refused, and the one
named is the first that is met from the outside in and from the left.
-/
import JoinIR.Function
import JoinIR.Binary64.Text
import JoinIR.Listing.Outline

namespace JoinIR

open Listing (Datum Outline)

/-! ## What cannot be listed -/

/-- The constructs that have no listing. -/
inductive Unlisted
  | tryCatch
  | raise
  deriving DecidableEq, Repr

/-- A term cannot be listed, because of a construct in it. -/
structure PrintError where
  construct : Unlisted
  deriving DecidableEq, Repr

namespace Unlisted

/-- The name of the construct in messages. -/
def text : Unlisted → String
  | tryCatch => "Try"
  | raise => "Throw"

end Unlisted

namespace PrintError

/-- The message of the error. -/
def message (e : PrintError) : String := "printing " ++ e.construct.text ++ " is not supported"

end PrintError

/-! ## Heads -/

/-- The notation of a parameter: its name, or a low line for a placeholder, and its type. -/
def ContParam.datum (p : ContParam) : Datum :=
  .list [.word (match p.local? with | some x => x.text | none => "_"), p.ty.datum]

namespace Term

/-- The notation of a result type. -/
def resultDatum (ty : Ty) : Datum := .list [.word "result", ty.datum]

/-- The head of a join point. -/
def joinHead (k : Label) (params : List ContParam) : List Datum :=
  .word "let_cont" :: .word k.text :: params.map ContParam.datum

/-- A node whose head is made of words. -/
def under (words : List String) (children : List Outline) : Outline :=
  .node (words.map .word) children

/-! ## Terms -/

mutual

/-- The outline of a term. -/
def outline : {σ : Kind} → Term σ → Except PrintError Outline
  | _, i32 n => pure (.leaf ["i32.const", toString n.toInt])
  | _, i64 n => pure (.leaf ["i64.const", toString n.toInt])
  | _, f64 x => pure (.leaf ["f64.const", x.text])
  | _, refFunc f => pure (.leaf ["ref.func", f.text])
  | _, var v => pure (.leaf ["local.get", v.text])
  | _, letIn x ty d b => do
    let d ← outline d
    let b ← outline b
    pure (.node [.word "let", .word x.text, ty.datum] [d, b])
  | _, ite ty c a b => do
    let c ← outline c
    let a ← outline a
    let b ← outline b
    pure (.node [.word "if", resultDatum ty] [c, under ["then"] [a], under ["else"] [b]])
  | _, binary op a b => do
    let a ← outline a
    let b ← outline b
    pure (under [op.text] [a, b])
  | _, unary op a => do
    let a ← outline a
    pure (under op.words [a])
  | _, structNew h vs => do
    let vs ← outlineValues vs
    pure (under ["struct.new", h.text] vs)
  | _, arrayNewFixed h vs => do
    let outlines ← outlineValues vs
    pure (under ["array.new_fixed", h.text, toString vs.length] outlines)
  | _, refCast h a => do
    let a ← outline a
    pure (under ["ref.cast", h.text] [a])
  | _, call f vs => do
    let vs ← outlineValues vs
    pure (under ["call", f.text] vs)
  | _, callRef h vs c => do
    let vs ← outlineValues vs
    let c ← outline c
    pure (under ["call_ref", h.text] (vs ++ [c]))
  | _, globalGet g => pure (.leaf ["global.get", g.text])
  | _, seq es l => do
    let es ← outlineEffects es
    let l ← outline l
    pure (under ["seq"] (es ++ [l]))
  | _, letCont k ps h b => do
    let h ← outline h
    let b ← outline b
    pure (.node (joinHead k ps) [under ["handler"] [h], under ["body"] [b]])
  | _, applyCont k vs => do
    let vs ← outlineValues vs
    pure (under ["apply_cont", k.text] vs)
  | _, brOnCast a h k e => do
    let a ← outline a
    let e ← outline e
    pure (under ["br_on_cast", k.text, h.text] [a, under ["else"] [e]])
  | _, brIf c k e => do
    let c ← outline c
    let e ← outline e
    pure (under ["br_if", k.text] [c, under ["else"] [e]])
  | _, tryCatch .. => throw ⟨.tryCatch⟩
  | _, raise _ => throw ⟨.raise⟩
  | _, effect e => do
    let e ← outline e
    pure (under ["effect"] [e])
  | _, noReturn t => do
    let t ← outline t
    pure (under ["no_return"] [t])
  | _, block es => do
    let es ← outlineEffects es
    pure (under ["seq"] es)
  | _, drop a => do
    let a ← outline a
    pure (under ["drop"] [a])
  | _, store op t a => do
    let t ← outline t
    let a ← outline a
    pure (under op.words [t, a])
  | _, assign v a => do
    let a ← outline a
    pure (under ["local.set", v.text] [a])
  | _, loop k b => do
    let b ← outline b
    pure (under ["loop", k.text] [b])
  | _, brWhen c k => do
    let c ← outline c
    pure (under ["br_if", k.text] [c])
  | _, iteEffect c a b => do
    let c ← outline c
    let a ← outline a
    let b ← outline b
    pure (under ["if"] [c, under ["then"] [a], under ["else"] [b]])
  | _, nop => pure (.leaf ["nop"])
  | _, letContTail k ps h b => do
    let h ← outline h
    let b ← outline b
    pure (.node (joinHead k ps) [under ["handler"] [h], under ["body"] [b]])
  | _, iteTail c a b => do
    let c ← outline c
    let a ← outline a
    let b ← outline b
    pure (under ["if"] [c, under ["then"] [a], under ["else"] [b]])
  | _, brTable i ks k => do
    let i ← outline i
    pure (under ("br_table" :: ks.map Handle.text ++ [k.text]) [i])
  | _, br k a => do
    let a ← outline a
    pure (under ["br", k.text] [a])
  | _, brBare k => pure (.leaf ["br", k.text])
  | _, unreachable => pure (.leaf ["unreachable"])

/-- The outlines of values, from the left. -/
def outlineValues : List Value → Except PrintError (List Outline)
  | [] => pure []
  | v :: vs => do
    let o ← outline v
    let rest ← outlineValues vs
    pure (o :: rest)

/-- The outlines of effects, from the left. -/
def outlineEffects : List Effect → Except PrintError (List Outline)
  | [] => pure []
  | e :: es => do
    let o ← outline e
    let rest ← outlineEffects es
    pure (o :: rest)

end

/-- The listing of a term. -/
def listing {σ : Kind} (t : Term σ) : Except PrintError String := do
  let o ← t.outline
  return o.listing

end Term

/-! ## Bodies and functions -/

/-- The outline of a body: its term below a head that states the result, if there is one. -/
def Body.outline (b : Body) : Except PrintError Outline := do
  let o ← b.term.outline
  return .node (.word "body" :: (b.result?.map Term.resultDatum).toList) [o]

/-- The listing of a body. -/
def Body.listing (b : Body) : Except PrintError String := do
  let o ← b.outline
  return o.listing

namespace Function

/-- The notation of a parameter of the signature. -/
def paramDatum (p : Param × Ty) : Datum := .list [.word "param", .word p.1.text, p.2.datum]

/-- The head of a function: its name, its parameters and its result, if there is one. -/
def head (f : Function) : List Datum :=
  [.word "func", .word f.name.text] ++ f.params.map paramDatum
    ++ (f.body.result?.map Term.resultDatum).toList

/-- The outline of a function: the term of its body below the signature. -/
def outline (f : Function) : Except PrintError Outline := do
  let o ← f.body.term.outline
  return .node f.head [o]

/-- The listing of a function. -/
def listing (f : Function) : Except PrintError String := do
  let o ← f.outline
  return o.listing

end Function

end JoinIR
