/-
# JoinIR.Notice — what is reported while work goes on

Work on a function is reported step by step. A **notice** is one thing reported, as data; its text
is a matter of `Notice.text` alone. Four of them frame the work (something begins, something is
done), and the others say what was found on the way.
-/
import JoinIR.Handle
import JoinIR.Session
import JoinIR.Text.Quoted
import JoinIR.Ty

namespace JoinIR

/-- One thing that is reported while work goes on. -/
inductive Notice
  /-- The analysis of a body begins. -/
  | analysisBegun (mode : Mode)
  /-- A slot is declared for the first time. -/
  | declared (slot : Slot) (ty : Ty)
  /-- A slot that was declared as `previous` is bound again, as `found`. -/
  | rebound (slot : Slot) (found previous : Ty)
  /-- The analysis of a body ends with this many slots. -/
  | analysisDone (count : Nat)
  /-- Work on a function begins. -/
  | functionBegun (f : FuncName)
  /-- The listing of a function. -/
  | listed (listing : String)
  /-- Work on a unit ends with this many functions. -/
  | unitDone (count : Nat)
  /-- The settings were read from a file. -/
  | configRead (path : String)
  deriving Repr

namespace Notice

/-- The text of a notice, which opens with how much it matters; work that begins is marked. -/
def text : Notice → String
  | analysisBegun mode => "DEBUG span required_locals mode=" ++ mode.title
  | declared slot ty => "TRACE declaring " ++ slot.text ++ " : " ++ ty.text
  | rebound slot found previous =>
    "ERROR " ++ slot.text ++ " rebound as " ++ found.text ++ " but declared as " ++ previous.text
  | analysisDone count => "DEBUG found " ++ toString count ++ " required locals"
  | functionBegun f => "DEBUG span prepare_function name=" ++ f.text
  | listed listing => "DEBUG listing:\n" ++ listing
  | unitDone count => "DEBUG prepared " ++ toString count ++ " functions"
  | configRead path => "DEBUG loaded config from " ++ Text.quoted path

end Notice

end JoinIR
