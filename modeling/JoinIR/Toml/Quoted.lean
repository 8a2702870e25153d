/-
# JoinIR.Toml.Quoted — strings

A string stands between double quotes, with escapes, or between apostrophes, without them; either
on one line, or between three of them on several. In double quotes a backslash at the end of a
line drops the line end and all blanks and line ends behind it. Every line end inside a string
counts as a line feed, and one right behind the opening of a string of several lines is dropped.
-/
import JoinIR.Toml.Reader

namespace JoinIR.Toml

/-! ## Characters -/

/-- Characters that stand for themselves between double quotes. -/
def isBasicChar (c : Char) : Bool := isCommentChar c && c != '"' && c != '\\'

/-- Characters that stand for themselves between apostrophes. -/
def isLiteralChar (c : Char) : Bool := isCommentChar c && c != '\''

/-- The value of a hexadecimal digit. -/
def hexValue? (c : Char) : Option Nat :=
  if '0' ≤ c ∧ c ≤ '9' then some (c.toNat - '0'.toNat)
  else if 'a' ≤ c ∧ c ≤ 'f' then some (c.toNat - 'a'.toNat + 10)
  else if 'A' ≤ c ∧ c ≤ 'F' then some (c.toNat - 'A'.toNat + 10)
  else none

/-- The character with a number in hexadecimal digits; surrogates and numbers past the last code
point are none. -/
def scalar? (digits : List Char) : Option Char := do
  let n := (← digits.mapM hexValue?).foldl (fun n d => 16 * n + d) 0
  if n.isValidChar then some (Char.ofNat n) else none

/-- The character that a one-letter escape stands for. -/
def simpleEscape? : Char → Option Char
  | 'b' => some '\x08'
  | 't' => some '\t'
  | 'n' => some '\n'
  | 'f' => some '\x0c'
  | 'r' => some '\r'
  | '"' => some '"'
  | '\\' => some '\\'
  | _ => none

/-- The rest of a string with a character in front. -/
def push (c : Char) (r : Option (List Char × List Char)) : Option (List Char × List Char) :=
  r.map fun (cs, rest) => (c :: cs, rest)

/-- The content of a one-line string in double quotes, behind the opening one. -/
def basicBody : Reader (List Char)
  | [] => none
  | '"' :: rest => some ([], rest)
  | '\\' :: 'u' :: a :: b :: c :: d :: rest => do push (← scalar? [a, b, c, d]) (basicBody rest)
  | '\\' :: 'U' :: a :: b :: c :: d :: e :: f :: g :: h :: rest => do
    push (← scalar? [a, b, c, d, e, f, g, h]) (basicBody rest)
  | '\\' :: c :: rest => do push (← simpleEscape? c) (basicBody rest)
  | c :: rest => if isBasicChar c then push c (basicBody rest) else none

/-- The content of a one-line string in apostrophes, behind the opening one. -/
def literalBody : Reader (List Char)
  | [] => none
  | '\'' :: rest => some ([], rest)
  | c :: rest => if isLiteralChar c then push c (literalBody rest) else none

/-- Where reading is inside a string of several lines. -/
inductive Fold
  /-- In the text. -/
  | text
  /-- Behind a backslash, with only blanks so far: the line has to end. -/
  | pending
  /-- Behind a backslash and the end of its line: blanks and line ends are dropped. -/
  | dropping

/-- The content of a string of several lines in double quotes, behind the opening ones. Up to two
quotes may stand in front of the three that close it. -/
def multilineBody (fold : Fold) : Reader (List Char)
  | [] => none
  | '\n' :: rest =>
    match fold with
    | .text => push '\n' (multilineBody .text rest)
    | .pending => multilineBody .dropping rest
    | .dropping => multilineBody .dropping rest
  | '\r' :: '\n' :: rest =>
    match fold with
    | .text => push '\n' (multilineBody .text rest)
    | .pending => multilineBody .dropping rest
    | .dropping => multilineBody .dropping rest
  | c :: rest =>
    match fold, isBlank c with
    | .pending, true => multilineBody .pending rest
    | .pending, false => none
    | .dropping, true => multilineBody .dropping rest
    | _, _ =>
      match c, rest with
      | '"', '"' :: '"' :: '"' :: '"' :: rest => some (['"', '"'], rest)
      | '"', '"' :: '"' :: '"' :: rest => some (['"'], rest)
      | '"', '"' :: '"' :: rest => some ([], rest)
      | '"', rest => push '"' (multilineBody .text rest)
      | '\\', 'u' :: a :: b :: c :: d :: rest => do
        push (← scalar? [a, b, c, d]) (multilineBody .text rest)
      | '\\', 'U' :: a :: b :: c :: d :: e :: f :: g :: h :: rest => do
        push (← scalar? [a, b, c, d, e, f, g, h]) (multilineBody .text rest)
      | '\\', e :: rest =>
        match simpleEscape? e with
        | some c => push c (multilineBody .text rest)
        | none => multilineBody .pending (e :: rest)
      | c, rest => if isBasicChar c then push c (multilineBody .text rest) else none

/-- The content of a string of several lines in apostrophes, behind the opening ones. Up to two
apostrophes may stand in front of the three that close it. -/
def multilineLiteralBody : Reader (List Char)
  | [] => none
  | '\'' :: '\'' :: '\'' :: '\'' :: '\'' :: rest => some (['\'', '\''], rest)
  | '\'' :: '\'' :: '\'' :: '\'' :: rest => some (['\''], rest)
  | '\'' :: '\'' :: '\'' :: rest => some ([], rest)
  | '\n' :: rest => push '\n' (multilineLiteralBody rest)
  | '\r' :: '\n' :: rest => push '\n' (multilineLiteralBody rest)
  | c :: rest => if isCommentChar c then push c (multilineLiteralBody rest) else none

/-- Skips the line end right behind the opening of a string of several lines. -/
def afterOpening (body : Reader (List Char)) : Reader (List Char)
  | '\n' :: rest => body rest
  | '\r' :: '\n' :: rest => body rest
  | cs => body cs

/-- A string of any of the four kinds. -/
def anyString : Reader String := fun cs => do
  let (s, rest) ← match cs with
    | '"' :: '"' :: '"' :: rest => afterOpening (multilineBody .text) rest
    | '"' :: rest => basicBody rest
    | '\'' :: '\'' :: '\'' :: rest => afterOpening multilineLiteralBody rest
    | '\'' :: rest => literalBody rest
    | _ => none
  return (.ofList s, rest)

end JoinIR.Toml
