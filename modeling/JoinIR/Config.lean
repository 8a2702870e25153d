/-
# JoinIR.Config — the settings file

A settings file is a TOML document with two sections, `backend` and `debug`, of one field each.
Every section and every field may be missing and then has its default; names that are not known
are ignored wherever they stand, whatever they hold.

All that is said here is what the settings are: their sections, fields and alternatives, with their
names and defaults. How a document is parsed, and what a section that is no table gives, is up to
the TOML library, so `Config.read?` has it as an argument. `Config.toText` writes all fields.
-/
import JoinIR.Session
import JoinIR.Toml.Builtin

namespace JoinIR

open Toml (Declaration Field Library)

/-! ## The settings -/

/-- The `backend` section. -/
structure Backend where
  mode : Mode
  deriving DecidableEq, Repr

/-- The `debug` section. -/
structure Debug where
  /-- Whether a listing of each function is made. -/
  printIR : Bool
  deriving DecidableEq, Repr

/-- The settings. -/
structure Config where
  backend : Backend
  debug : Debug
  deriving DecidableEq, Repr

/-- By default each parameter has a local. -/
def Backend.standard : Backend := ⟨.perParameter⟩

/-- By default no listings are made. -/
def Debug.standard : Debug := ⟨false⟩

namespace Config

/-- The defaults of both sections. -/
def standard : Config := ⟨.standard, .standard⟩

instance : Inhabited Config := ⟨standard⟩

/-- The session that the settings ask for. -/
def session (c : Config) : Session := ⟨c.backend.mode, c.debug.printIR⟩

end Config

/-! ## Reading -/

namespace Mode

/-- The name of the mode in a settings file. -/
def name : Mode → String
  | perParameter => "per-parameter"
  | aggregate => "aggregate"

/-- The modes by their names. -/
def alternatives : List (String × Mode) := [perParameter, aggregate].map fun m => (m.name, m)

end Mode

section Reading

variable (L : Library)

/-- The `backend` section as it is declared. -/
def Backend.declaration : Declaration Backend where
  fields := [.of "mode" (L.choice? Mode.alternatives) fun mode b => { b with mode }]
  standard := .standard

/-- The `debug` section as it is declared. -/
def Debug.declaration : Declaration Debug where
  fields := [.of "print_ir" L.boolean? fun printIR d => { d with printIR }]
  standard := .standard

namespace Config

/-- The settings as they are declared. -/
def declaration : Declaration Config where
  fields := [
    .of "backend" (L.record? (Backend.declaration L)) fun backend c => { c with backend },
    .of "debug" (L.record? (Debug.declaration L)) fun debug c => { c with debug }]
  standard := .standard

/-- The settings in the text of a document. -/
def read? (text : String) : Option Config := L.read? (declaration L) text

end Config

end Reading

namespace Config

/-- The settings in the text of a document, as the program reads them. -/
def ofText? (text : String) : Option Config := read? Toml.builtin text

/-! ## Writing -/

/-- The settings as the text of a document. -/
def toText (c : Config) : String :=
  "[backend]\nmode = \"" ++ c.backend.mode.name ++ "\"\n\n[debug]\nprint_ir = "
    ++ (if c.debug.printIR then "true" else "false") ++ "\n"

end Config

end JoinIR
