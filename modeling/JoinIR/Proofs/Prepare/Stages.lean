/-
# JoinIR.Proofs.Prepare.Stages — what a preparation consists of

`Function.prepare` is three stages in a row: the signature, the slots of the body, and the listing.
The first that fails ends it, so there are four ways in which it can end, and one equation for each
of them gives the whole report. Whoever needs to know what a preparation does cites these and never
opens `prepare`.
-/
import JoinIR.Prepare

namespace JoinIR

namespace Report

variable {ε ε' α : Type} {r : Report ε α}

theorem outcome_mapError_of_ok {a : α} (h : r.outcome = .ok a) (g : ε → ε') :
    (r.mapError g).outcome = .ok a := by
  rw [mapError, h]
  rfl

theorem outcome_mapError_of_error {e : ε} (h : r.outcome = .error e) (g : ε → ε') :
    (r.mapError g).outcome = .error (g e) := by
  rw [mapError, h]
  rfl

end Report

namespace Function

variable {session : Session} {f : Function}

/-! ## The listing -/

/-- The listing of a function for a session: none, unless the session asks for it. -/
def requestedListing (session : Session) (f : Function) : Except PrintError (Option String) :=
  if session.listings then f.listing.map some else .ok none

/-- What is left to do once the slots are known. -/
def conclude (session : Session) (f : Function) (table : SlotTable) :
    Report PrepareError Prepared := do
  if session.listings then
    let listing ← (Report.ofExcept f.listing).mapError (.print f.name)
    .note (.listed listing)
    return ⟨f, table.toList, some listing⟩
  else
    return ⟨f, table.toList, none⟩

theorem conclude_eq (table : SlotTable) :
    f.conclude session table = match f.requestedListing session with
      | .ok listing => ⟨listing.toList.map .listed, .ok ⟨f, table.toList, listing⟩⟩
      | .error e => ⟨[], .error (.print f.name e)⟩ := by
  rw [conclude, requestedListing]
  split
  · cases f.listing <;> rfl
  · rfl

/-! ## The four ends -/

theorem prepare_of_duplicate {p : Param} (h : f.duplicateParam? = some p) :
    f.prepare session = ⟨[.functionBegun f.name], .error (.duplicateParam f.name p)⟩ := by
  rw [prepare, h]
  rfl

section Distinct

/- No parameter has the number of an earlier one. -/
variable (hdup : f.duplicateParam? = none)
include hdup

theorem prepare_eq_conclude :
    f.prepare session = Report.note (.functionBegun f.name) >>= fun _ =>
      (f.body.declarations session.mode).mapError (.slots f.name) >>= f.conclude session := by
  rw [prepare, hdup]
  rfl

theorem prepare_of_mismatch {e : TypeMismatch}
    (h : (f.body.declarations session.mode).outcome = .error e) :
    f.prepare session
      = ⟨.functionBegun f.name :: (f.body.declarations session.mode).notices,
          .error (.slots f.name e)⟩ := by
  rw [prepare_eq_conclude hdup, Report.bind_of_ok rfl,
    Report.bind_of_error (Report.outcome_mapError_of_error h _)]
  rfl

variable {table : SlotTable} (h : (f.body.declarations session.mode).outcome = .ok table)
include h

theorem prepare_of_unlisted {e : PrintError} (hl : f.requestedListing session = .error e) :
    f.prepare session
      = ⟨.functionBegun f.name :: (f.body.declarations session.mode).notices,
          .error (.print f.name e)⟩ := by
  rw [prepare_eq_conclude hdup, Report.bind_of_ok rfl,
    Report.bind_of_ok (Report.outcome_mapError_of_ok h _), conclude_eq, hl, List.append_nil]
  rfl

theorem prepare_of_ok {listing : Option String} (hl : f.requestedListing session = .ok listing) :
    f.prepare session
      = ⟨.functionBegun f.name :: (f.body.declarations session.mode).notices
            ++ listing.toList.map .listed, .ok ⟨f, table.toList, listing⟩⟩ := by
  rw [prepare_eq_conclude hdup, Report.bind_of_ok rfl,
    Report.bind_of_ok (Report.outcome_mapError_of_ok h _), conclude_eq, hl]
  rfl

end Distinct

end Function

end JoinIR
