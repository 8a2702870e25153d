/-
# JoinIR.Listing.Outline — nested nodes as indented lines

An **outline** is a tree of nodes, each with a head on one line. In a listing every node opens a
line of its own, two blanks deeper than its parent; its closing parenthesis stands at the end of
its last child, or right after the head when it has none.

`Outline.emit` adds the lines of an outline to a text at some depth. A line break goes between
lines and never in front of the first one, so emission looks at whether the text is empty.
-/
import JoinIR.Listing.Datum

namespace JoinIR.Listing

/-- A node with its head and its children. -/
inductive Outline
  | node (head : List Datum) (children : List Outline)
  deriving Repr

namespace Outline

/-- A node with no children whose head is made of words. -/
def leaf (words : List String) : Outline := node (words.map .word) []

/-- The blanks in front of a line at a depth. -/
def indent : Nat → String
  | 0 => ""
  | depth + 1 => "  " ++ indent depth

/-- A text with one more line at the given depth. -/
def line (depth : Nat) (text : String) (content : String) : String :=
  (if text.isEmpty then text else text ++ "\n") ++ indent depth ++ content

mutual

/-- A text with the lines of an outline added at a depth. -/
def emit (depth : Nat) (text : String) : Outline → String
  | node head children =>
    emitAll (depth + 1) (line depth text ("(" ++ Datum.textAll head)) children ++ ")"

/-- A text with the lines of several outlines added at a depth. -/
def emitAll (depth : Nat) (text : String) : List Outline → String
  | [] => text
  | o :: rest => emitAll depth (emit depth text o) rest

end

/-- The listing of an outline by itself. -/
def listing (o : Outline) : String := o.emit 0 ""

@[simp] theorem emit_node (depth : Nat) (text : String) (head : List Datum)
    (children : List Outline) :
    emit depth text (node head children)
      = emitAll (depth + 1) (line depth text ("(" ++ Datum.textAll head)) children ++ ")" := by
  rw [emit]

@[simp] theorem emitAll_nil (depth : Nat) (text : String) : emitAll depth text [] = text := by
  rw [emitAll]

@[simp] theorem emitAll_cons (depth : Nat) (text : String) (o : Outline) (rest : List Outline) :
    emitAll depth text (o :: rest) = emitAll depth (emit depth text o) rest := by
  rw [emitAll]

theorem emitAll_append (depth : Nat) (text : String) (l m : List Outline) :
    emitAll depth text (l ++ m) = emitAll depth (emitAll depth text l) m := by
  induction l generalizing text with
  | nil => simp
  | cons o rest ih => simp [ih]

end Outline

end JoinIR.Listing
