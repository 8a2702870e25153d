/-
# JoinIR.Toml.Key — keys

A key says where a value belongs: it has one or more parts with points between them, each bare or
a one-line string, and blanks around a part do not matter. All parts but the last name tables.
-/
import JoinIR.Toml.Quoted

namespace JoinIR.Toml

/-- The place of a value: the names of the tables around it, from the outside, and its own. -/
structure Key where
  parents : List String
  name : String
  deriving DecidableEq, Repr

namespace Key

/-- A key of several parts, the last of which is the name. -/
def ofParts? : List String → Option Key
  | [] => none
  | [name] => some ⟨[], name⟩
  | part :: rest => (ofParts? rest).map fun key => ⟨part :: key.parents, key.name⟩

/-- All parts of a key. -/
def parts (k : Key) : List String := k.parents ++ [k.name]

end Key

/-! ## Reading -/

open Reader

/-- Characters of a key without quotes. -/
def isBareKeyChar (c : Char) : Bool := c.isAlphanum || c == '-' || c == '_'

/-- The limit on the parts of a key and on nested values: fewer than this many are accepted. -/
def depthLimit : Nat := 80

/-- One part of a key: bare, or a one-line string. -/
def keyPart : Reader String := fun cs => do
  let (s, rest) ← match cs with
    | '"' :: rest => basicBody rest
    | '\'' :: rest => literalBody rest
    | cs =>
      match cs.span isBareKeyChar with
      | ([], _) => none
      | found => some found
  return (.ofList s, rest)

/-- The parts of a key with points between them, at most `fuel` of them. -/
def keyParts : Nat → Reader (List String)
  | 0 => failure
  | fuel + 1 => do
    skipBlanks
    let part ← keyPart
    skipBlanks
    if (← peek) = some '.' then
      let _ ← next
      return part :: (← keyParts fuel)
    else return [part]

/-- A key of fewer parts than the limit, with the blanks around it. -/
def key : Reader Key := do
  match Key.ofParts? (← keyParts (depthLimit - 1)) with
  | some key => return key
  | none => failure

end JoinIR.Toml
