/-
# JoinIR.Term.Caption — the name of a node

A caption says which construct stands at a node of a term: the kind of term, the construct's word
and, where the construct has an integer, a symbol, a variable or an operator, that one detail. It
tells nothing about what lies below the node. Effects and tails have marks of their own in the
text of a caption, because some words (`seq`, `if`, `br_if`, `let_cont`) are used in two kinds.
-/
import JoinIR.Term

namespace JoinIR

/-- The mark that opens the text of a caption. -/
def Kind.mark : Kind → String
  | value => ""
  | effect => "e:"
  | tail => "t:"

/-- The name of a node. -/
structure Caption where
  kind : Kind
  word : String
  detail : Option String
  deriving DecidableEq, Repr

namespace Caption

/-- The text of a caption, such as `call $f`, `e:loop` or `t:br`. -/
def text (c : Caption) : String :=
  match c.detail with
  | some detail => c.kind.mark ++ c.word ++ " " ++ detail
  | none => c.kind.mark ++ c.word

end Caption

namespace Term

/-- The word of the construct at the root. -/
def word : {σ : Kind} → Term σ → String
  | _, i32 _ => "i32"
  | _, i64 _ => "i64"
  | _, f64 _ => "f64"
  | _, refFunc _ => "ref_func"
  | _, var _ => "var"
  | _, letIn .. => "let"
  | _, ite .. => "if"
  | _, binary .. => "bin"
  | _, unary .. => "un"
  | _, structNew .. => "struct_new"
  | _, arrayNewFixed .. => "array_new_fixed"
  | _, refCast .. => "ref_cast"
  | _, call .. => "call"
  | _, callRef .. => "call_ref"
  | _, globalGet _ => "global_get"
  | _, seq .. => "seq"
  | _, letCont .. => "let_cont"
  | _, applyCont .. => "apply_cont"
  | _, brOnCast .. => "br_on_cast"
  | _, brIf .. => "br_if"
  | _, tryCatch .. => "try"
  | _, raise _ => "throw"
  | _, effect _ => "effect"
  | _, noReturn _ => "no_return"
  | _, block _ => "seq"
  | _, drop _ => "drop"
  | _, store .. => "store"
  | _, assign .. => "assign"
  | _, loop .. => "loop"
  | _, brWhen .. => "br_if"
  | _, iteEffect .. => "if"
  | _, nop => "nop"
  | _, letContTail .. => "let_cont"
  | _, iteTail .. => "if"
  | _, brTable .. => "br_table"
  | _, br .. => "br"
  | _, brBare _ => "br"
  | _, unreachable => "unreachable"

/-- The detail of the construct at the root: an integer, a symbol, a variable or an operator. -/
def detail : {σ : Kind} → Term σ → Option String
  | _, i32 n => some (toString n.toInt)
  | _, i64 n => some (toString n.toInt)
  | _, refFunc f => some f.text
  | _, var v => some v.text
  | _, binary op _ _ => some op.text
  | _, unary op _ => some op.text
  | _, call f _ => some f.text
  | _, globalGet g => some g.text
  | _, _ => none

/-- The caption of the root. -/
def caption {σ : Kind} (t : Term σ) : Caption := ⟨σ, t.word, t.detail⟩

end Term

end JoinIR
