/-
# JoinIR.Proofs.Listing.Refusal — which exception a listing is refused for

A listing is refused at an exception, and a recording writes `+try` or `+throw` when it enters
one. Both go over a term from the outside in and from the left, so the construct that a refusal
names is the one that the recording enters first.

That is shown through one description of a refusal, `Term.exception?`: the root if it is an
exception, otherwise the first exception in the parts (`Term.exception?_eq`). The listing is
refused for it (`Term.refusal_outline`), it is the first exception among the events by definition,
and it is the one at the address that no exception of the term is earlier than
(`Term.exception?_eq_some_iff`).
-/
import JoinIR.Proofs.Outline
import JoinIR.Proofs.Shape

namespace JoinIR

/-! ## Exceptions among events -/

/-- The construct without a listing that the event enters, going by the text of the event. -/
def Event.exception? (e : Event) : Option Unlisted :=
  if e.text = "+try" then some .tryCatch
  else if e.text = "+throw" then some .raise
  else none

theorem Event.text_enter_eq_iff {c : Caption} (hc : c.Plain) {w : String}
    (hw : Listing.Avoids [' ', ':'] w) :
    (enter c).text = "+" ++ w ↔ c = ⟨.value, w, none⟩ := by
  have htext : (⟨.value, w, none⟩ : Caption).text = w := by simp [Caption.text, Kind.mark]
  rw [text, String.append_right_inj]
  constructor
  · intro h
    exact Caption.text_inj hc hw (h.trans htext.symm)
  · rintro rfl
    exact htext

/-- The text of an entry tells whether the node has a listing. -/
theorem Event.exception?_enter {σ : Kind} (t : Term σ) :
    (enter t.caption).exception? = t.unlisted? := by
  have htry := text_enter_eq_iff (w := "try") t.plain_caption (by decide)
  have hthrow := text_enter_eq_iff (w := "throw") t.plain_caption (by decide)
  rw [exception?, show "+try" = "+" ++ "try" by rfl, show "+throw" = "+" ++ "throw" by rfl]
  simp only [htry, hthrow]
  cases t <;> simp [Term.caption, Term.word, Term.detail, Term.unlisted?]

theorem Event.exception?_of_ne_plus {e : Event} (h : e.text.toList.head? ≠ some '+') :
    e.exception? = none := by
  have htry : e.text ≠ "+try" := by
    intro htext
    rw [htext] at h
    exact h (by decide)
  have hthrow : e.text ≠ "+throw" := by
    intro htext
    rw [htext] at h
    exact h (by decide)
  rw [exception?, if_neg htry, if_neg hthrow]

@[simp] theorem Event.exception?_leave (c : Caption) : (leave c).exception? = none :=
  exception?_of_ne_plus (by simp [text])

@[simp] theorem Event.exception?_bind (x : Local) (ty : Ty) : (bind x ty).exception? = none :=
  exception?_of_ne_plus (by simp [text])

@[simp] theorem Event.exception?_join (k : Label) (n : Nat) : (join k n).exception? = none :=
  exception?_of_ne_plus (by simp [text])

/-! ## The first exception of a term -/

/-- The first exception that a complete recording of the term enters. -/
def Term.exception? {σ : Kind} (t : Term σ) : Option Unlisted :=
  t.tour.findSome? Event.exception?

/-- The first exception in the part, if it is a subterm. -/
def Part.exception? : Part → Option Unlisted
  | child t => t.exception?
  | bind .. | join .. => none

namespace Term

theorem exception?_tourParams (ps : List ContParam) :
    (tourParams ps).findSome? Event.exception? = none := by
  induction ps with
  | nil => rfl
  | cons p rest ih =>
    obtain ⟨_ | x, ty⟩ := p
    · exact ih
    · rw [tourParams, List.findSome?_cons, Event.exception?_bind]
      exact ih

theorem exception?_flatMap_tour (ps : List Part) :
    (ps.flatMap Part.tour).findSome? Event.exception? = ps.findSome? Part.exception? := by
  induction ps with
  | nil => rfl
  | cons p rest ih =>
    have hpart : p.tour.findSome? Event.exception? = p.exception? := by
      cases p with
      | child t => rfl
      | bind x ty => rw [Part.tour, List.findSome?_cons, Event.exception?_bind]; rfl
      | join k ps =>
        rw [Part.tour, tourJoin, List.findSome?_cons, Event.exception?_join, exception?_tourParams]
        rfl
    rw [List.flatMap_cons, List.findSome?_append, ih, hpart, List.findSome?_cons]
    cases p.exception? <;> rfl

/-- The first exception of a term is its root, or else the first one in its parts. -/
theorem exception?_eq {σ : Kind} (t : Term σ) :
    t.exception? = t.unlisted?.or (t.parts.findSome? Part.exception?) := by
  rw [exception?, tour, around, List.cons_append, List.findSome?_cons, Event.exception?_enter,
    List.findSome?_append, inside_eq_parts, exception?_flatMap_tour]
  cases t.unlisted? with
  | some construct => rfl
  | none => simp

end Term

/-! ## Refusals -/

/-- The construct that a result names, if it is a refusal. -/
def refusal {α : Type} : Except PrintError α → Option Unlisted
  | .error e => some e.construct
  | .ok _ => none

theorem refusal_eq_some_iff {α : Type} {r : Except PrintError α} {e : PrintError} :
    refusal r = some e.construct ↔ r = .error e := by
  cases r with
  | ok a => simp [refusal]
  | error e' =>
    obtain ⟨c⟩ := e
    obtain ⟨d⟩ := e'
    simp [refusal]

theorem refusal_eq_none_iff {α : Type} {r : Except PrintError α} :
    refusal r = none ↔ ∃ a, r = .ok a := by
  cases r <;> simp [refusal]

/-- What is done with a result that is there does not refuse it. -/
theorem refusal_bind_pure {α β : Type} (r : Except PrintError α) (f : α → β) :
    refusal (r >>= fun a => pure (f a)) = refusal r := by
  cases r <;> rfl

namespace Term

/-- The outlines of parts are refused for the first exception in them, if those of the subterms
are. -/
theorem refusal_outlineParts {ps : List Part}
    (h : ∀ {τ : Kind} (c : Term τ), Part.child c ∈ ps → refusal c.outline = c.exception?) :
    refusal (outlineParts ps) = ps.findSome? Part.exception? := by
  induction ps with
  | nil => rfl
  | cons p rest ih =>
    have hrest := ih fun c hc => h c (List.mem_cons_of_mem p hc)
    have hpart : refusal p.outlines = p.exception? := by
      cases p with
      | child c => rw [Part.outlines, refusal_bind_pure, h c List.mem_cons_self, Part.exception?]
      | bind | join => rfl
    rw [outlineParts_cons, List.findSome?_cons, ← hpart, ← hrest]
    cases p.outlines <;> cases outlineParts rest <;> rfl

/-- The outline of a term is refused for its first exception. -/
theorem refusal_outline {σ : Kind} (t : Term σ) : refusal t.outline = t.exception? := by
  induction t using Term.parts_induction with
  | step t ih =>
    rw [exception?_eq, outline_eq_parts]
    cases t.unlisted? with
    | some construct => rfl
    | none => rw [refusal_bind_pure, refusal_outlineParts ih, Option.none_or]

theorem refusal_listing {σ : Kind} (t : Term σ) : refusal t.listing = t.exception? := by
  rw [listing, refusal_bind_pure, refusal_outline]

end Term

theorem Body.refusal_listing (b : Body) : refusal b.listing = b.term.exception? := by
  rw [listing, refusal_bind_pure, outline, refusal_bind_pure, Term.refusal_outline]

theorem Function.refusal_listing (f : Function) : refusal f.listing = f.body.term.exception? := by
  rw [listing, refusal_bind_pure, outline, refusal_bind_pure, Term.refusal_outline]

/-! ## Where the first exception stands -/

namespace Term

theorem exception?_eq_none_iff {σ : Kind} {t : Term σ} : t.exception? = none ↔ t.Listable := by
  rw [← refusal_outline, refusal_eq_none_iff, exists_outline_iff]

/-- No exception stands at an address below a part without one. -/
theorem unlisted?_eq_none_of_part {σ τ : Kind} {t : Term σ} {u : Term τ} {i : Nat} {q : Address}
    {p : Part} (hpart : t.parts[i]? = some p) (hnone : p.exception? = none)
    (hq : t.at? (i :: q) = some ⟨τ, u⟩) : u.unlisted? = none := by
  rw [at?, hpart] at hq
  cases p with
  | child c => exact exception?_eq_none_iff.mp hnone _ (subterm_of_at? hq)
  | bind | join => cases hq

/-- The term has an exception at the address, and none at an earlier one: all others are nested
inside it or stand to the right of it. -/
structure FirstException {σ : Kind} (t : Term σ) (p : Address) (construct : Unlisted) : Prop where
  here : ∃ (τ : Kind) (u : Term τ), t.at? p = some ⟨τ, u⟩ ∧ u.unlisted? = some construct
  first : ∀ q {τ : Kind} (u : Term τ), t.at? q = some ⟨τ, u⟩ → u.unlisted? ≠ none → p.NoLater q

/-- The first exception of a part is the first one of the term, if the root is none and the parts
before have none. -/
theorem FirstException.of_part {σ τ : Kind} {t : Term σ} {c : Term τ} {l r : List Part}
    {p : Address} {construct : Unlisted} (hroot : t.unlisted? = none)
    (hparts : t.parts = l ++ .child c :: r) (hbefore : ∀ x ∈ l, x.exception? = none)
    (h : c.FirstException p construct) : t.FirstException (l.length :: p) construct := by
  have hpart : t.parts[l.length]? = some (.child c) := by simp [hparts]
  constructor
  · obtain ⟨ρ, u, hp, hu⟩ := h.here
    refine ⟨ρ, u, ?_, hu⟩
    rw [at?, hpart]
    exact hp
  · rintro (_ | ⟨j, q⟩) ρ v hq hv
    · cases hq
      exact absurd hroot hv
    · rw [Address.noLater_cons_cons]
      rcases Nat.lt_trichotomy l.length j with hlt | rfl | hgt
      · exact .inl hlt
      · rw [at?, hpart] at hq
        exact .inr ⟨rfl, h.first q v hq hv⟩
      -- a part further to the left has no exception
      · have hj : t.parts[j]? = some l[j] := by
          rw [hparts, List.getElem?_append_left hgt, List.getElem?_eq_getElem hgt]
        have hnone := unlisted?_eq_none_of_part hj (hbefore _ (List.getElem_mem hgt)) hq
        exact absurd hnone hv

theorem exists_firstException {σ : Kind} {t : Term σ} {construct : Unlisted}
    (h : t.exception? = some construct) : ∃ p, t.FirstException p construct := by
  induction t using Term.parts_induction with
  | step t ih =>
    rw [exception?_eq, Option.or_eq_some_iff] at h
    rcases h with hroot | ⟨hroot, hparts⟩
    · exact ⟨[], ⟨_, t, rfl, hroot⟩, fun q _ _ _ _ => Address.nil_noLater q⟩
    · obtain ⟨l, p, r, hsplit, hp, hbefore⟩ := List.findSome?_eq_some_iff.mp hparts
      cases p with
      | child c =>
        obtain ⟨p, hfirst⟩ := ih c (by simp [hsplit]) hp
        exact ⟨_, .of_part hroot hsplit hbefore hfirst⟩
      | bind | join => cases hp

/-- The first exception has one place, and is of one construct. -/
theorem FirstException.unique {σ : Kind} {t : Term σ} {p q : Address} {c d : Unlisted}
    (hc : t.FirstException p c) (hd : t.FirstException q d) : c = d := by
  obtain ⟨τ, u, hp, hu⟩ := hc.here
  obtain ⟨ρ, v, hq, hv⟩ := hd.here
  have hpq : p.NoLater q := hc.first q v hq (by simp [hv])
  have hqp : q.NoLater p := hd.first p u hp (by simp [hu])
  obtain rfl : p = q := hpq.antisymm hqp
  rw [hp] at hq
  cases hq
  exact Option.some.inj (hu.symm.trans hv)

/-- A construct is the first exception of a term exactly if it stands at the earliest address of
an exception. -/
theorem exception?_eq_some_iff {σ : Kind} {t : Term σ} {construct : Unlisted} :
    t.exception? = some construct ↔ ∃ p, t.FirstException p construct := by
  constructor
  · exact exists_firstException
  · rintro ⟨p, hfirst⟩
    obtain ⟨τ, u, hp, hu⟩ := hfirst.here
    cases hexception : t.exception? with
    | none =>
      have hnone := exception?_eq_none_iff.mp hexception u (subterm_of_at? hp)
      rw [hnone] at hu
      cases hu
    | some d =>
      obtain ⟨q, hq⟩ := exists_firstException hexception
      rw [hq.unique hfirst]

end Term

/-! ## Listings and recordings -/

/-- The result of a listing as it depends on the exceptions in the term that is listed. -/
structure RefusedFor {σ : Kind} (t : Term σ) (r : Except PrintError String) : Prop where
  /-- The listing fails exactly if an exception occurs anywhere in the term. -/
  fails_iff : (∃ e, r = .error e) ↔
    ∃ (τ : Kind) (s : Term τ), s.Subterm t ∧ s.unlisted? ≠ none
  /-- The error names the first of the events `+try` and `+throw` in the complete recording. -/
  first_event : ∀ e, r = .error e ↔
    (Recording.complete.run t).1.findSome? Event.exception? = some e.construct
  /-- The error names the outermost and leftmost exception. -/
  first_node : ∀ e, r = .error e ↔ ∃ p, t.FirstException p e.construct

theorem RefusedFor.of_refusal {σ : Kind} {t : Term σ} {r : Except PrintError String}
    (h : refusal r = t.exception?) : RefusedFor t r where
  fails_iff := by
    have hok : (∃ s, r = .ok s) ↔ t.Listable := by
      rw [← refusal_eq_none_iff, h, Term.exception?_eq_none_iff]
    have hfails : (∃ e, r = .error e) ↔ ¬ ∃ s, r = .ok s := by
      cases r <;> simp
    rw [hfails, hok, Term.Listable, Term.Everywhere]
    push Not
    rfl
  first_event e := by
    rw [← refusal_eq_some_iff, h, Recording.run_complete]
    rfl
  first_node e := by
    rw [← refusal_eq_some_iff, h, Term.exception?_eq_some_iff]

/-- Listings and recordings agree on exceptions, for terms, for bodies and for functions: a listing
is refused exactly if there is an exception in the term, and the construct that it names is the one
that the complete recording of the term enters first, which is the outermost and leftmost. -/
theorem listing_refused_for_first_exception :
    (∀ {σ : Kind} (t : Term σ), RefusedFor t t.listing) ∧
      (∀ b : Body, RefusedFor b.term b.listing) ∧
      ∀ f : Function, RefusedFor f.body.term f.listing :=
  ⟨fun t => .of_refusal t.refusal_listing, fun b => .of_refusal b.refusal_listing,
    fun f => .of_refusal f.refusal_listing⟩

end JoinIR
