/-
# JoinIR.Toml.Reader — reading from a list of characters

A reader takes what it needs from the front of a list of characters, or fails. Failure carries no
reason: a document is either valid or not, and nothing of an invalid one is used.

What stands between the values of a document is read here: blanks, comments and the ends of lines.
A line ends with a line feed, which a carriage return may precede; no control character but the
tab is allowed in a comment.
-/

namespace JoinIR.Toml

/-- Takes something from the front of the input, or fails. -/
abbrev Reader := StateT (List Char) Option

/-! ## Characters -/

namespace Reader

/-- The next character. -/
def next : Reader Char
  | [] => none
  | c :: rest => some (c, rest)

/-- The next character, if there is one, which stays. -/
def peek : Reader (Option Char) := fun cs => some (cs.head?, cs)

/-- The given character. -/
def expect (c : Char) : Reader Unit := do
  if (← next) = c then pure () else failure

/-- The longest run of characters with a property. -/
def run (p : Char → Bool) : Reader (List Char) := fun cs => some (cs.span p)

end Reader

open Reader

/-- Blanks and tabs. -/
def isBlank (c : Char) : Bool := c == ' ' || c == '\t'

/-- Characters that may stand in a comment: all but control characters other than the tab. -/
def isCommentChar (c : Char) : Bool := c == '\t' || (decide (' ' ≤ c) && c != '\x7f')

/-- Skips blanks and tabs. -/
def skipBlanks : Reader Unit := do
  let _ ← run isBlank

/-- Skips a comment, if one begins here, up to the end of its line. -/
def skipComment : Reader Unit := do
  if (← peek) = some '#' then
    let _ ← next
    let _ ← run isCommentChar

/-- The end of a line. -/
def lineBreak : Reader Unit
  | '\n' :: rest => some ((), rest)
  | '\r' :: '\n' :: rest => some ((), rest)
  | _ => none

/-- What may follow on a line after its content: a comment, then the end of the line or of the
document. -/
def endOfLine : Reader Unit := do
  skipBlanks
  skipComment
  if (← peek).isSome then lineBreak

/-- The input after blanks, line ends and comments, given whether it is inside a comment. It fails
on a character that a comment may not hold. -/
def layoutFrom (comment : Bool) : List Char → Option (List Char)
  | [] => some []
  | '\n' :: rest => layoutFrom false rest
  | '\r' :: '\n' :: rest => layoutFrom false rest
  | c :: rest =>
    if comment then
      if isCommentChar c then layoutFrom true rest else none
    else if c = '#' then layoutFrom true rest
    else if isBlank c then layoutFrom false rest
    else some (c :: rest)

/-- Skips blanks, line ends and comments, as they may stand between the items of an array. -/
def skipLayout : Reader Unit := fun cs => (layoutFrom false cs).map fun rest => ((), rest)

end JoinIR.Toml
