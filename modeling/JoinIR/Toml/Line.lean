/-
# JoinIR.Toml.Line — a document as lines

A document is read as a sequence of lines: headers that open a table, headers that add an element
to an array of tables, and settings, each a key with a value. Blank and comment lines leave no
trace. Tables in braces are put together where they stand; the tables of the document are put
together from its lines in `JoinIR.Toml.Document`.

Values nest to a limited depth, and the rest of the reading is bounded by the number of
characters, so both bounds appear as arguments.
-/
import JoinIR.Toml.Entries
import JoinIR.Toml.Scalar

namespace JoinIR.Toml

open Reader

/-- One line of a document. -/
inductive Line
  /-- Opens a table. -/
  | header (key : Key)
  /-- Adds an element to an array of tables. -/
  | element (key : Key)
  /-- Gives a value to a key. -/
  | setting (key : Key) (value : Value)
  deriving Repr

/-! ## Values -/

/-- Characters of a word: a number, a date or a truth value. -/
def isWordChar (c : Char) : Bool :=
  c.isAlphanum || c == '_' || c == '+' || c == '-' || c == '.' || c == ':'

/-- A word. A blank between a date and a time belongs to the word. -/
def word : Reader (List Char) := fun cs =>
  let (first, rest) := cs.span isWordChar
  match Scalar.afterDate? first, rest with
  | some [], ' ' :: a :: b :: ':' :: more =>
    if a.isDigit ∧ b.isDigit then
      let (second, rest) := (a :: b :: ':' :: more).span isWordChar
      some (first ++ ' ' :: second, rest)
    else some (first, rest)
  | _, _ => some (first, rest)

/-- A value that holds no other. -/
def scalarValue : Reader Value := do
  match ← peek with
  | some '"' => return .string (← anyString)
  | some '\'' => return .string (← anyString)
  | _ =>
    match Scalar.ofWord? (← word) with
    | some v => return v
    | none => failure

mutual

/-- A value in which at most `depth` brackets or braces are open at once. -/
def value (fuel : Nat) (depth : Nat) : Reader Value :=
  match fuel with
  | 0 => failure
  | fuel + 1 => do
    match ← peek with
    | some '[' =>
      let _ ← next
      if depth = 0 then failure
      skipLayout
      return .array (← items fuel (depth - 1))
    | some '\x7b' =>
      let _ ← next
      if depth = 0 then failure
      skipBlanks
      if (← peek) = some '\x7d' then
        let _ ← next
        return .table .literal []
      else
        match Entries.ofSettings? (← pairs fuel (depth - 1)) with
        | some entries => return .table .literal entries
        | none => failure
    | _ => scalarValue

/-- The items of an array up to its closing bracket, with layout skipped in front. -/
def items (fuel : Nat) (depth : Nat) : Reader (List Value) :=
  match fuel with
  | 0 => failure
  | fuel + 1 => do
    if (← peek) = some ']' then
      let _ ← next
      return []
    let v ← value fuel depth
    skipLayout
    match ← next with
    | ',' =>
      skipLayout
      return v :: (← items fuel depth)
    | ']' => return [v]
    | _ => failure

/-- The settings of a table in braces up to the closing one; there is at least one. -/
def pairs (fuel : Nat) (depth : Nat) : Reader (List (Key × Value)) :=
  match fuel with
  | 0 => failure
  | fuel + 1 => do
    let k ← key
    expect '='
    skipBlanks
    let v ← value fuel depth
    skipBlanks
    match ← next with
    | ',' => return (k, v) :: (← pairs fuel depth)
    | '\x7d' => return [(k, v)]
    | _ => failure

end

/-- A value with as many steps as its characters can need. -/
def anyValue : Reader Value := fun cs => value (2 * cs.length + 2) (depthLimit - 1) cs

/-! ## Lines -/

/-- A header, behind its first bracket. -/
def headerLine : Reader Line := do
  if (← peek) = some '[' then
    let _ ← next
    let k ← key
    expect ']'
    expect ']'
    return .element k
  else
    let k ← key
    expect ']'
    return .header k

/-- A setting. -/
def settingLine : Reader Line := do
  let k ← key
  expect '='
  skipBlanks
  return .setting k (← anyValue)

/-- The lines of the input, at most `fuel` of them. -/
def lines : Nat → Reader (List Line)
  | 0 => failure
  | fuel + 1 => do
    skipBlanks
    match ← peek with
    | none => return []
    | some '#' =>
      endOfLine
      lines fuel
    | some '\n' =>
      lineBreak
      lines fuel
    | some '\r' =>
      lineBreak
      lines fuel
    | some '[' =>
      let _ ← next
      let line ← headerLine
      endOfLine
      return line :: (← lines fuel)
    | some _ =>
      let line ← settingLine
      endOfLine
      return line :: (← lines fuel)

/-- The lines of a document, which a byte order mark may precede. -/
def Line.ofText? (text : String) : Option (List Line) :=
  let cs := match text.toList with
    | '\ufeff' :: rest => rest
    | cs => cs
  (lines (cs.length + 1) cs).map Prod.fst

end JoinIR.Toml
