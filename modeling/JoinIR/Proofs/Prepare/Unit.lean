/-
# JoinIR.Proofs.Prepare.Unit — a unit is its functions

Functions are prepared from the left until one fails, and nothing passes from one to the next. So
the report of a unit is told by the reports that its functions have by themselves: all of them if
all can be prepared (`prepareEach_of_preparations`), and otherwise those up to the first failure
(`prepareEach_of_failure`). One of the two always is the case (`preparations_or_failure`).

That a unit is done is reported for units only: no preparation of a function says so
(`Function.unitDone_not_mem_prepare`), and so one such notice tells that nothing failed.
-/
import Mathlib.Data.List.Forall2
import JoinIR.Proofs.Declarations.Log
import JoinIR.Proofs.Prepare.Stages

namespace JoinIR

/-! ## What one function reports -/

/-- The analysis of a body says nothing about units. -/
theorem Body.unitDone_not_mem_declarations (mode : Mode) (b : Body) (n : Nat) :
    .unitDone n ∉ (b.declarations mode).notices := by
  by_cases hc : Coherent (b.declared mode)
  · obtain ⟨table, -, hreport⟩ := Body.declarations_of_coherent hc
    rw [hreport]
    simp [announcement]
  · obtain ⟨before, first, later, after, hsplit, hbefore, hfind, hne⟩ :=
      exists_clash Coherent.nil (b.declared mode) hc
    rw [Body.declarations_of_clash hsplit hbefore hfind hne]
    simp [announcement]

/-- Neither does the preparation of a function. -/
theorem Function.unitDone_not_mem_prepare (session : Session) (f : Function) (n : Nat) :
    .unitDone n ∉ (f.prepare session).notices := by
  have hanalysis := Body.unitDone_not_mem_declarations session.mode f.body n
  cases hdup : f.duplicateParam? with
  | some p =>
    rw [prepare_of_duplicate hdup]
    simp
  | none =>
    cases hslots : (f.body.declarations session.mode).outcome with
    | error e =>
      rw [prepare_of_mismatch hdup hslots]
      simpa using hanalysis
    | ok table =>
      cases hlisting : f.requestedListing session with
      | error e =>
        rw [prepare_of_unlisted hdup hslots hlisting]
        simpa using hanalysis
      | ok listing =>
        rw [prepare_of_ok hdup hslots hlisting]
        simpa using hanalysis

/-! ## Functions by themselves -/

/-- The function can be prepared. -/
def Function.Preparable (session : Session) (f : Function) : Prop :=
  ∃ p, (f.prepare session).outcome = .ok p

/-- The functions can all be prepared, with these results. -/
def Preparations (session : Session) (fs : List Function) (ps : List Prepared) : Prop :=
  List.Forall₂ (fun f p => (f.prepare session).outcome = .ok p) fs ps

/-- The first function that cannot be prepared is `f`, for the reason `e`, and those before it are
`before`. -/
structure FirstFailure (session : Session) (fs before : List Function) (f : Function)
    (e : PrepareError) : Prop where
  split : ∃ after, fs = before ++ f :: after
  preparable : ∀ g ∈ before, g.Preparable session
  fails : (f.prepare session).outcome = .error e

/-- What is reported if functions are prepared by themselves, one after the other. -/
def noticesEach (session : Session) (fs : List Function) : List Notice :=
  fs.flatMap fun f => (f.prepare session).notices

theorem Preparations.preparable {session : Session} {fs : List Function} {ps : List Prepared}
    (h : Preparations session fs ps) : ∀ f ∈ fs, f.Preparable session :=
  ((List.forall₂_and_left _ _).mp (h.imp fun _ p hp => ⟨⟨p, hp⟩, hp⟩)).1

/-- All functions can be prepared, or there is a first one that cannot. -/
theorem preparations_or_failure (session : Session) (fs : List Function) :
    (∃ ps, Preparations session fs ps) ∨ ∃ before f e, FirstFailure session fs before f e := by
  induction fs with
  | nil => exact .inl ⟨[], .nil⟩
  | cons f rest ih =>
    cases hf : (f.prepare session).outcome with
    | error e => exact .inr ⟨[], f, e, ⟨rest, rfl⟩, by simp, hf⟩
    | ok p =>
      rcases ih with ⟨ps, hps⟩ | ⟨before, g, e, ⟨after, rfl⟩, hbefore, hg⟩
      · exact .inl ⟨p :: ps, .cons hf hps⟩
      · exact .inr ⟨f :: before, g, e, ⟨after, rfl⟩,
          List.forall_mem_cons.mpr ⟨⟨p, hf⟩, hbefore⟩, hg⟩

theorem unitDone_not_mem_noticesEach (session : Session) (fs : List Function) (n : Nat) :
    .unitDone n ∉ noticesEach session fs := by
  intro hmem
  obtain ⟨f, -, hf⟩ := List.mem_flatMap.mp hmem
  exact f.unitDone_not_mem_prepare session n hf

/-! ## Functions from the left -/

section Each

variable {session : Session}

theorem prepareEach_cons_of_ok {f : Function} {p : Prepared}
    (h : (f.prepare session).outcome = .ok p) (rest : List Function) :
    prepareEach session (f :: rest)
      = ⟨(f.prepare session).notices ++ (prepareEach session rest).notices,
          (prepareEach session rest).outcome.map (p :: ·)⟩ := by
  rw [prepareEach, Report.bind_of_ok h]
  cases hrest : (prepareEach session rest).outcome with
  | ok ps => simp [Report.bind_of_ok hrest, Except.map]
  | error e => simp [Report.bind_of_error hrest, Except.map]

theorem prepareEach_of_preparations {fs : List Function} {ps : List Prepared}
    (h : Preparations session fs ps) :
    prepareEach session fs = ⟨noticesEach session fs, .ok ps⟩ := by
  induction h with
  | nil => rfl
  | cons hf _ ih =>
    rw [prepareEach_cons_of_ok hf, ih]
    rfl

/-- The first function that cannot be prepared ends the work. -/
theorem prepareEach_of_failure {fs before : List Function} {f : Function} {e : PrepareError}
    (h : FirstFailure session fs before f e) :
    prepareEach session fs = ⟨noticesEach session (before ++ [f]), .error e⟩ := by
  obtain ⟨⟨after, rfl⟩, hbefore, hf⟩ := h
  induction before with
  | nil =>
    rw [List.nil_append, prepareEach, Report.bind_of_error hf]
    simp [noticesEach]
  | cons g rest ih =>
    obtain ⟨⟨p, hp⟩, hrest⟩ := List.forall_mem_cons.mp hbefore
    rw [List.cons_append, prepareEach_cons_of_ok hp, ih hrest]
    rfl

theorem prepareUnit_of_preparations {fs : List Function} {ps : List Prepared}
    (h : Preparations session fs ps) :
    prepareUnit session fs = ⟨noticesEach session fs ++ [.unitDone fs.length], .ok ps⟩ := by
  have heach := prepareEach_of_preparations h
  rw [prepareUnit, Report.bind_of_ok (congrArg Report.outcome heach), heach, h.length_eq]
  rfl

theorem prepareUnit_of_failure {fs before : List Function} {f : Function} {e : PrepareError}
    (h : FirstFailure session fs before f e) :
    prepareUnit session fs = ⟨noticesEach session (before ++ [f]), .error e⟩ := by
  have heach := prepareEach_of_failure h
  rw [prepareUnit, Report.bind_of_error (congrArg Report.outcome heach), heach]

end Each

/-! ## A unit -/

/-- A unit is prepared as its functions are by themselves. If all of them can be prepared, the
results of the unit are theirs, in order, and the report consists of theirs and of one more notice
that says how many there are. If not, the error of the unit is that of the first function that
fails, and the report consists of those up to this function and of nothing else. That a unit is
done is never reported for a function, and so it is reported exactly if none fails. -/
theorem unit_prepared_one_by_one (session : Session) (fs : List Function) :
    (∀ ps, Preparations session fs ps →
      prepareUnit session fs = ⟨noticesEach session fs ++ [.unitDone fs.length], .ok ps⟩) ∧
    (∀ before f e, FirstFailure session fs before f e →
      prepareUnit session fs = ⟨noticesEach session (before ++ [f]), .error e⟩) ∧
    ((∃ ps, Preparations session fs ps) ∨ ∃ before f e, FirstFailure session fs before f e) ∧
    (∀ (f : Function) n, .unitDone n ∉ (f.prepare session).notices) ∧
    ∀ n, .unitDone n ∈ (prepareUnit session fs).notices ↔
      n = fs.length ∧ ∀ f ∈ fs, f.Preparable session := by
  refine ⟨fun ps => prepareUnit_of_preparations, fun before f e => prepareUnit_of_failure,
    preparations_or_failure session fs, Function.unitDone_not_mem_prepare session, fun n => ?_⟩
  rcases preparations_or_failure session fs with ⟨ps, hps⟩ | ⟨before, f, e, hfailure⟩
  · have hall := hps.preparable
    have hnone := unitDone_not_mem_noticesEach session fs n
    rw [prepareUnit_of_preparations hps]
    simpa [hnone] using fun _ => hall
  · have hnone := unitDone_not_mem_noticesEach session (before ++ [f]) n
    rw [prepareUnit_of_failure hfailure]
    obtain ⟨⟨after, rfl⟩, -, hf⟩ := hfailure
    refine iff_of_false hnone fun h => ?_
    obtain ⟨p, hp⟩ := h.2 f (by simp)
    rw [hf] at hp
    cases hp

end JoinIR
