/-
# JoinIR.Text.Quoted — a text in double quotes

A quoted text shows every character in a visible form: quotes and backslashes after a backslash,
the four most common controls by their letter, and every other unprintable character by its code
point in hexadecimal between braces. Everything else, the apostrophe included, stands for itself.
-/
import JoinIR.Text.Unprintable

namespace JoinIR.Text

/-- The visible form of a character inside double quotes. -/
def escape (c : Char) : List Char :=
  match c with
  | '\x00' => ['\\', '0']
  | '\t' => ['\\', 't']
  | '\n' => ['\\', 'n']
  | '\r' => ['\\', 'r']
  | '"' => ['\\', '"']
  | '\\' => ['\\', '\\']
  | c =>
    if isUnprintable c then
      ['\\', 'u', '\x7b'] ++ Nat.toDigits 16 c.toNat ++ ['\x7d']
    else [c]

/-- The text in double quotes, with every character in a visible form. -/
def quoted (s : String) : String := .ofList ('"' :: s.toList.flatMap escape ++ ['"'])

end JoinIR.Text
