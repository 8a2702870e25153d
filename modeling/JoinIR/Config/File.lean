/-
# JoinIR.Config.File — loading the settings from a file

A settings file is found by its path from a working directory. A path is taken apart at its
slashes: a dot stays where it is, two dots lead back to the directory above, and a name leads to
an entry of the directory that has been reached. What lies outside the working directory is taken
to be empty, so a path that leaves it finds directories there and nothing else. An error about the
file, be it that it cannot be read or that it is not text, names the path.
-/
import JoinIR.Config
import JoinIR.Report

namespace JoinIR

/-! ## Directories -/

/-- A file, or a directory with named entries. -/
inductive FileTree
  | file (bytes : ByteArray)
  | directory (entries : List (String × FileTree))

/-- Why a file cannot be read. -/
inductive Unreadable
  /-- There is nothing at the path. -/
  | notFound
  /-- The file is not text. -/
  | notText
  /-- The path cannot be followed, or does not lead to a file. -/
  | other
  deriving DecidableEq, Repr

namespace FileTree

/-- The longest name of an entry, in bytes. -/
def nameLimit : Nat := 255

/-- The length that a path may not reach, in bytes. -/
def pathLimit : Nat := 4096

/-- The directory in which everything outside the working directory is looked up. -/
def outside : FileTree := directory []

/-- What is found along the parts of a path from a node. `above` are the directories around the
node, innermost first, as far as they belong to the working directory. -/
def follow (above : List FileTree) (here : FileTree) : List String → Except Unreadable FileTree
  | [] => .ok here
  | part :: rest =>
    match here with
    | file _ => .error .other
    | directory entries =>
      if part = "" ∨ part = "." then follow above here rest
      else if part = ".." then
        match above with
        | [] => follow [] outside rest
        | parent :: above => follow above parent rest
      else if nameLimit < part.utf8ByteSize then .error .other
      else
        match entries.lookup part with
        | none => .error .notFound
        | some node => follow (here :: above) node rest

/-- The bytes of the file at a path from a directory. A path that opens with a slash starts
outside. -/
def read (root : FileTree) (path : String) : Except Unreadable ByteArray := do
  if path = "" then throw .notFound
  if path.contains '\x00' then throw .other
  if pathLimit ≤ path.utf8ByteSize then throw .other
  let start := if path.startsWith "/" then outside else root
  match ← follow [] start (path.splitOn "/") with
  | file bytes => return bytes
  | directory _ => throw .other

/-- The text of the file at a path from a directory. -/
def readText (root : FileTree) (path : String) : Except Unreadable String := do
  match String.fromUTF8? (← root.read path) with
  | some text => return text
  | none => throw .notText

end FileTree

/-! ## Loading -/

/-- Why settings cannot be loaded. -/
inductive ConfigError
  /-- The file at the path cannot be read. -/
  | unreadable (path : String) (why : Unreadable)
  /-- The text is no valid document, or a section of it is not as it should be. -/
  | invalid
  deriving DecidableEq, Repr

namespace ConfigError

/-- The message of an error about a file. -/
def message? : ConfigError → Option String
  | unreadable path _ => some ("failed to read config file " ++ Text.quoted path)
  | invalid => none

end ConfigError

namespace Config

/-- The settings in the text of a document, or the error that there are none. -/
def parse (text : String) : Except ConfigError Config :=
  match ofText? text with
  | some c => .ok c
  | none => .error .invalid

/-- Loads the settings from the file at a path. The file is reported as soon as it is read. -/
def load (root : FileTree) (path : String) : Report ConfigError Config := do
  let text ← (Report.ofExcept (root.readText path)).mapError (.unreadable path)
  .note (.configRead path)
  .ofExcept (parse text)

end Config

end JoinIR
