/-
# JoinIR.Session — the settings that all functions of a unit share

How arguments reach a join point with several parameters is one decision for a whole compilation
unit, and so is whether a listing of each function is made. A session holds both and is not
changed once work begins.
-/

namespace JoinIR

/-- How arguments are passed to a join point with several parameters. -/
inductive Mode
  /-- One local for each parameter. -/
  | perParameter
  /-- One tuple for the join point, kept in a slot keyed by its label. -/
  | aggregate
  deriving DecidableEq, Repr

namespace Mode

instance : Inhabited Mode := ⟨perParameter⟩

/-- The name of the mode in notices. -/
def title : Mode → String
  | perParameter => "PerParameter"
  | aggregate => "Aggregate"

end Mode

/-- The settings of a compilation unit. -/
structure Session where
  mode : Mode
  /-- Whether a listing of each function is made. -/
  listings : Bool
  deriving DecidableEq, Repr

instance : Inhabited Session := ⟨⟨default, false⟩⟩

end JoinIR
