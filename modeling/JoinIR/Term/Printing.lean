/-
# JoinIR.Term.Printing — a printer that writes while it walks

A listing can be written in one pass, without an outline in between. A printer works on a **page**:
the text that is there so far, and the depth of the next line. At a node it writes the line of the
head, goes one level deeper for what stands below it, comes back, and closes the parenthesis at the
end of whatever line was written last. An exception ends the work, and with it the page is lost.

The clauses say for every construct what is written and in which order. Nothing in them makes sure
that the depth is given back, or that what is written does not depend on the page: that is so, and
it is shown in `JoinIR.Proofs.Listing.Printing`.
-/
import JoinIR.Term.Listing

namespace JoinIR

open Listing (Datum Outline)

/-- What a printer has written, and how deep its next line is. -/
structure Page where
  text : String
  depth : Nat

/-- The page that nothing is written on. -/
def Page.blank : Page := ⟨"", 0⟩

/-- Work on a page, which is lost when it fails. -/
abbrev Printing := StateT Page (Except PrintError) Unit

namespace Printing

/-- Writes a line. -/
def line (content : String) : Printing :=
  modify fun page => { page with text := Outline.line page.depth page.text content }

/-- Writes a node with nothing below it. -/
def atom (words : List String) : Printing := line ("(" ++ Datum.textAll (words.map .word) ++ ")")

/-- Writes a node with what `below` writes below it. -/
def node (head : List Datum) (below : Printing) : Printing := do
  line ("(" ++ Datum.textAll head)
  modify fun page => { page with depth := page.depth + 1 }
  below
  modify fun page => { page with depth := page.depth - 1 }
  modify fun page => { page with text := page.text ++ ")" }

/-- Writes a node whose head is made of words. -/
def headed (words : List String) (below : Printing) : Printing := node (words.map .word) below

/-- Gives up at a construct that has no listing. -/
def refuse (construct : Unlisted) : Printing := throw ⟨construct⟩

/-- What the work writes on a blank page. -/
def written (work : Printing) : Except PrintError String :=
  (work.run Page.blank).map fun r => r.2.text

end Printing

/-! ## Terms -/

namespace Term

open Printing (atom node headed refuse)

mutual

/-- Writes a term. -/
def print : {σ : Kind} → Term σ → Printing
  | _, i32 n => atom ["i32.const", toString n.toInt]
  | _, i64 n => atom ["i64.const", toString n.toInt]
  | _, f64 x => atom ["f64.const", x.text]
  | _, refFunc f => atom ["ref.func", f.text]
  | _, var v => atom ["local.get", v.text]
  | _, letIn x ty d b => node [.word "let", .word x.text, ty.datum] do print d; print b
  | _, ite ty c a b => node [.word "if", resultDatum ty] do
    print c
    headed ["then"] (print a)
    headed ["else"] (print b)
  | _, binary op a b => headed [op.text] do print a; print b
  | _, unary op a => headed op.words (print a)
  | _, structNew h vs => headed ["struct.new", h.text] (printValues vs)
  | _, arrayNewFixed h vs =>
    headed ["array.new_fixed", h.text, toString vs.length] (printValues vs)
  | _, refCast h a => headed ["ref.cast", h.text] (print a)
  | _, call f vs => headed ["call", f.text] (printValues vs)
  | _, callRef h vs c => headed ["call_ref", h.text] do printValues vs; print c
  | _, globalGet g => atom ["global.get", g.text]
  | _, seq es l => headed ["seq"] do printEffects es; print l
  | _, letCont k ps h b => node (joinHead k ps) do
    headed ["handler"] (print h)
    headed ["body"] (print b)
  | _, applyCont k vs => headed ["apply_cont", k.text] (printValues vs)
  | _, brOnCast a h k e => headed ["br_on_cast", k.text, h.text] do
    print a
    headed ["else"] (print e)
  | _, brIf c k e => headed ["br_if", k.text] do
    print c
    headed ["else"] (print e)
  | _, tryCatch .. => refuse .tryCatch
  | _, raise _ => refuse .raise
  | _, effect e => headed ["effect"] (print e)
  | _, noReturn t => headed ["no_return"] (print t)
  | _, block es => headed ["seq"] (printEffects es)
  | _, drop a => headed ["drop"] (print a)
  | _, store op t a => headed op.words do print t; print a
  | _, assign v a => headed ["local.set", v.text] (print a)
  | _, loop k b => headed ["loop", k.text] (print b)
  | _, brWhen c k => headed ["br_if", k.text] (print c)
  | _, iteEffect c a b => headed ["if"] do
    print c
    headed ["then"] (print a)
    headed ["else"] (print b)
  | _, nop => atom ["nop"]
  | _, letContTail k ps h b => node (joinHead k ps) do
    headed ["handler"] (print h)
    headed ["body"] (print b)
  | _, iteTail c a b => headed ["if"] do
    print c
    headed ["then"] (print a)
    headed ["else"] (print b)
  | _, brTable i ks k => headed ("br_table" :: ks.map Handle.text ++ [k.text]) (print i)
  | _, br k a => headed ["br", k.text] (print a)
  | _, brBare k => atom ["br", k.text]
  | _, unreachable => atom ["unreachable"]

/-- Writes values from the left. -/
def printValues : List Value → Printing
  | [] => pure ()
  | v :: vs => do print v; printValues vs

/-- Writes effects from the left. -/
def printEffects : List Effect → Printing
  | [] => pure ()
  | e :: es => do print e; printEffects es

end

end Term

/-! ## Bodies and functions -/

/-- The head of a body: a word, and the result if there is one. -/
def Body.head (b : Body) : List Datum :=
  .word "body" :: (b.result?.map Term.resultDatum).toList

/-- Writes a body: its term below a head that states the result. -/
def Body.print (b : Body) : Printing := .node b.head b.term.print

/-- Writes a function: the term of its body below the signature. -/
def Function.print (f : Function) : Printing := .node f.head f.body.term.print

end JoinIR
