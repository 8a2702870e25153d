/-
# JoinIR.Proofs.Prepare.Congruence — equal functions are prepared alike

What a preparation decides never depends on a debug name, nor on a constant. So it commutes with
every rewriting that keeps the numbers of handles (`Function.renamed_prepare`): all three stages of
the rewritten function end as those of the function do, with other names in what they answer. Two
functions with one rewritten form are then prepared alike, up to names.

There are two such rewritings to apply this to. Functions that compare equal have one normal form,
and functions that differ in debug names only have one nameless form
(`preparation_respects_equality`); the second case is not part of the first, because a function
with a NaN in it does not compare equal to itself.
-/
import JoinIR.Proofs.Declarations.Renaming
import JoinIR.Proofs.Equality
import JoinIR.Proofs.Listing.Faithful
import JoinIR.Proofs.Listing.Refusal
import JoinIR.Proofs.Prepare.Stages

namespace JoinIR

theorem Rewriting.keepsNumbers_nameless : Rewriting.nameless.KeepsNumbers := fun _ => rfl

theorem Rewriting.keepsNumbers_canonical : Rewriting.canonical.KeepsNumbers := fun _ => rfl

/-! ## The signature -/

/-- The first repetition in a list of images is the image of the first repetition. -/
theorem firstRepeat?_map {α : Type} [BEq α] {φ : α → α} (hφ : ∀ a b, (φ a == φ b) = (a == b))
    (seen l : List α) :
    firstRepeat? (seen.map φ) (l.map φ) = (firstRepeat? seen l).map φ := by
  induction l generalizing seen with
  | nil => rfl
  | cons a rest ih =>
    have hcontains : (seen.map φ).contains (φ a) = seen.contains a := by
      rw [List.contains_map, List.contains_eq_any_beq]
      simp only [hφ]
    rw [List.map_cons, firstRepeat?, firstRepeat?, hcontains, ← List.map_cons, ih]
    split <;> rfl

theorem Function.duplicateParam?_rewrite {R : Rewriting} (hR : R.KeepsNumbers) (f : Function) :
    (f.rewrite R).duplicateParam? = f.duplicateParam?.map R.handle := by
  have hhandles : (f.rewrite R).handles = f.handles.map R.handle := by
    simp [rewrite, handles]
  have hbeq (p q : Param) : (R.handle p == R.handle q) = (p == q) := by
    show ((R.handle p).id == (R.handle q).id) = (p.id == q.id)
    rw [hR, hR]
  rw [duplicateParam?, hhandles, duplicateParam?, ← firstRepeat?_map hbeq, List.map_nil]

/-! ## The listing -/

section Listing

variable (R : Rewriting)

namespace Term

theorem exception?_map_rewrite {ps : List Part}
    (h : ∀ {τ : Kind} (c : Term τ), Part.child c ∈ ps →
      (c.rewrite R).exception? = c.exception?) :
    (ps.map (Part.rewrite R)).findSome? Part.exception? = ps.findSome? Part.exception? := by
  induction ps with
  | nil => rfl
  | cons p rest ih =>
    have hrest := ih fun c hc => h c (List.mem_cons_of_mem p hc)
    have hroot : (p.rewrite R).exception? = p.exception? := by
      cases p with
      | child c => exact h c List.mem_cons_self
      | bind | join => rfl
    rw [List.map_cons, List.findSome?_cons, List.findSome?_cons, hroot, hrest]

/-- A rewriting leaves exceptions where they are. -/
theorem exception?_rewrite {σ : Kind} (t : Term σ) :
    (t.rewrite R).exception? = t.exception? := by
  induction t using Term.parts_induction with
  | step t ih =>
    rw [exception?_eq, exception?_eq t, unlisted?_rewrite, parts_rewrite,
      exception?_map_rewrite R ih]

end Term

namespace Function

theorem refusal_listing_rewrite (f : Function) :
    refusal (f.rewrite R).listing = refusal f.listing := by
  have hbody : (f.body.rewrite R).term.exception? = f.body.term.exception? := by
    cases f.body <;> exact Term.exception?_rewrite R _
  rw [refusal_listing, refusal_listing]
  exact hbody

/-- The listings that a session asks for are refused for one reason, or both of them are made, or
neither of them is asked for. -/
theorem requestedListing_rewrite (session : Session) (f : Function) :
    (∃ e, f.requestedListing session = .error e ∧
      (f.rewrite R).requestedListing session = .error e) ∨
    ∃ listing listing', f.requestedListing session = .ok listing ∧
      (f.rewrite R).requestedListing session = .ok listing' ∧
      listing'.isSome = listing.isSome := by
  have hrefusal := refusal_listing_rewrite R f
  unfold requestedListing
  split
  · cases hf : f.listing with
    | ok text =>
      obtain ⟨text', htext'⟩ : ∃ text', (f.rewrite R).listing = .ok text' := by
        rw [← refusal_eq_none_iff, hrefusal, refusal_eq_none_iff]
        exact ⟨text, hf⟩
      rw [htext']
      exact .inr ⟨some text, some text', rfl, rfl, rfl⟩
    | error e =>
      rw [refusal_eq_some_iff.mp (hrefusal.trans (refusal_eq_some_iff.mpr hf))]
      exact .inl ⟨e, rfl, rfl⟩
  · exact .inr ⟨none, none, rfl, rfl, rfl⟩

end Function

end Listing

/-! ## A preparation -/

/-- An error, rewritten. -/
def PrepareError.rewrite (R : Rewriting) : PrepareError → PrepareError
  | slots f cause => slots f (cause.rewrite R)
  | print f cause => print f cause
  | duplicateParam f p => duplicateParam f (R.handle p)

/-- The second outcome is the first one, rewritten, as far as the listing is not concerned: that is
there in both or in neither. -/
def Renamed (R : Rewriting) : Except PrepareError Prepared → Except PrepareError Prepared → Prop
  | .ok p, .ok q =>
    q.slots = p.slots.map (Prod.map (Slot.rewrite R) id) ∧ q.listing.isSome = p.listing.isSome
  | .error e, .error e' => e' = e.rewrite R
  | _, _ => False

/-- A rewritten function is prepared like the function, up to names. -/
theorem Function.renamed_prepare {R : Rewriting} (hR : R.KeepsNumbers) (session : Session)
    (f : Function) :
    Renamed R (f.prepare session).outcome ((f.rewrite R).prepare session).outcome := by
  -- every stage fails in both runs or in neither
  have hdup' := f.duplicateParam?_rewrite hR
  have hslots' := f.body.declarations_rewrite hR session.mode
  cases hdup : f.duplicateParam? with
  | some p =>
    rw [hdup] at hdup'
    rw [prepare_of_duplicate hdup, prepare_of_duplicate hdup']
    rfl
  | none =>
    rw [hdup] at hdup'
    cases hslots : (f.body.declarations session.mode).outcome with
    | error e =>
      rw [hslots] at hslots'
      rw [prepare_of_mismatch hdup hslots, prepare_of_mismatch hdup' hslots']
      rfl
    | ok table =>
      rw [hslots] at hslots'
      rcases requestedListing_rewrite R session f with
        ⟨e, hlisting, hlisting'⟩ | ⟨listing, listing', hlisting, hlisting', hsome⟩
      · rw [prepare_of_unlisted hdup hslots hlisting, prepare_of_unlisted hdup' hslots' hlisting']
        rfl
      · rw [prepare_of_ok hdup hslots hlisting, prepare_of_ok hdup' hslots' hlisting']
        exact ⟨table.toList_rewrite hR, hsome⟩

/-! ## Outcomes that agree -/

/-- Outcomes agree if both are errors that compare equal, or if both are results with equal slots
and with equal types at every position, and with a listing in both or in neither. -/
def SameOutcome : Except PrepareError Prepared → Except PrepareError Prepared → Prop
  | .ok p, .ok q =>
    List.Forall₂ (fun d e => (d.1 == e.1) = true ∧ d.2 = e.2) p.slots q.slots ∧
      p.listing.isSome = q.listing.isSome
  | .error e, .error e' => (e == e') = true
  | _, _ => False

section Agree

variable {R : Rewriting} (hR : R.KeepsNumbers)
include hR

theorem Handle.beq_of_rewrite_eq {κ : Space} {g h : Handle κ} (heq : R.handle g = R.handle h) :
    (g == h) = true := by
  rw [beq_iff, ← hR g, heq, hR]

theorem Slot.beq_of_rewrite_eq {s t : Slot} (h : s.rewrite R = t.rewrite R) :
    (s == t) = true := by
  rw [BEq.comm, ← Slot.compare_eq_iff_beq, ← Slot.compare_rewrite hR, h]
  exact Std.ReflCmp.compare_self

theorem TypeMismatch.beq_of_rewrite_eq {e e' : TypeMismatch} (h : e.rewrite R = e'.rewrite R) :
    (e == e') = true := by
  obtain ⟨hslot, hprevious, hfound⟩ := TypeMismatch.mk.inj h
  show (e.slot == e'.slot && e.previous == e'.previous && e.found == e'.found) = true
  rw [Slot.beq_of_rewrite_eq hR hslot, hprevious, hfound]
  simp

theorem PrepareError.beq_of_rewrite_eq {e e' : PrepareError} (h : e.rewrite R = e'.rewrite R) :
    (e == e') = true := by
  cases e with
  | slots f cause =>
    cases e' with
    | slots f' cause' =>
      obtain ⟨rfl, hcause⟩ := PrepareError.slots.inj h
      show (f == f && cause == cause') = true
      rw [beq_self_eq_true, TypeMismatch.beq_of_rewrite_eq hR hcause]
      rfl
    | print | duplicateParam => cases h
  | print f cause =>
    cases e' with
    | print f' cause' =>
      obtain ⟨rfl, rfl⟩ := PrepareError.print.inj h
      show (f == f && cause == cause) = true
      simp
    | slots | duplicateParam => cases h
  | duplicateParam f p =>
    cases e' with
    | duplicateParam f' p' =>
      obtain ⟨rfl, hp⟩ := PrepareError.duplicateParam.inj h
      show (f == f && p == p') = true
      rw [beq_self_eq_true, Handle.beq_of_rewrite_eq hR hp]
      rfl
    | slots | print => cases h

theorem forall₂_of_map_rewrite_eq {l m : List (Slot × Ty)}
    (h : l.map (Prod.map (Slot.rewrite R) id) = m.map (Prod.map (Slot.rewrite R) id)) :
    List.Forall₂ (fun d e => (d.1 == e.1) = true ∧ d.2 = e.2) l m := by
  rw [← List.forall₂_eq_eq_eq, List.forall₂_map_left_iff, List.forall₂_map_right_iff] at h
  refine h.imp fun d e hde => ?_
  obtain ⟨hslot, hty⟩ := Prod.mk.inj hde
  exact ⟨Slot.beq_of_rewrite_eq hR hslot, hty⟩

theorem sameOutcome_of_renamed {r s t : Except PrepareError Prepared} (hr : Renamed R r t)
    (hs : Renamed R s t) : SameOutcome r s := by
  cases t with
  | ok q =>
    cases r with
    | ok p =>
      cases s with
      | ok p' =>
        exact ⟨forall₂_of_map_rewrite_eq hR (hr.1.symm.trans hs.1), hr.2.symm.trans hs.2⟩
      | error e => exact hs.elim
    | error e => exact hr.elim
  | error e' =>
    cases r with
    | ok p => exact hr.elim
    | error e =>
      cases s with
      | ok p => exact hs.elim
      | error e'' => exact PrepareError.beq_of_rewrite_eq hR (hr.symm.trans hs)

end Agree

/-- Functions that compare equal are prepared alike in every session: both succeed, with the same
slots and types at every position and with a listing of both or of neither, or both fail with errors
that compare equal. So are functions that differ in debug names only, wherever these stand and
whatever constants there are. -/
theorem preparation_respects_equality (session : Session) (f g : Function) :
    ((f == g) = true → SameOutcome (f.prepare session).outcome (g.prepare session).outcome) ∧
      (f.rewrite .nameless = g.rewrite .nameless →
        SameOutcome (f.prepare session).outcome (g.prepare session).outcome) := by
  have hsame {R : Rewriting} (hR : R.KeepsNumbers) (h : f.rewrite R = g.rewrite R) :
      SameOutcome (f.prepare session).outcome (g.prepare session).outcome :=
    sameOutcome_of_renamed hR (f.renamed_prepare hR session) (h ▸ g.renamed_prepare hR session)
  exact ⟨fun h => hsame Rewriting.keepsNumbers_canonical (Function.canonical_eq_of_beq h),
    hsame Rewriting.keepsNumbers_nameless⟩

end JoinIR
