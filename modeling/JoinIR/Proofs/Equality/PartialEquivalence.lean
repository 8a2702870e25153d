/-
# JoinIR.Proofs.Equality.PartialEquivalence — equality as identity of normal forms

Two functions compare equal exactly if neither holds a NaN and both have one normal form, that is,
if taking the debug names off and giving up the sign of zeros makes them identical. So the
comparison is symmetric and transitive on all functions, and reflexive exactly on those without a
NaN (`equality_is_identity_of_normal_forms`).

`JoinIR.Proofs.Equality` has shown that equal trees have one normal form. Two steps are missing:

* an equal tree holds no NaN (`Term.nanFree_of_beq`), since a NaN anywhere is compared with what
  stands in its place and differs from everything;
* trees without a NaN and with one normal form are equal (`Term.beq_of_canonical_eq`), since a
  normal form keeps everything of a node that the comparison looks at (`Term.beq_of_equal_parts`).

Both are read off a node and its parts, so no constructor is named but the constant itself.
-/
import JoinIR.Proofs.Equality

namespace JoinIR

/-! ## Constants -/

theorem Binary64.isNaN_canonical (x : Binary64) : x.canonical.isNaN = x.isNaN := by
  rw [canonical]
  split
  next h =>
    rw [not_isNaN_of_isZero h]
    decide
  next => rfl

namespace Term

/-- No floating-point constant in the term is a NaN. -/
def NaNFree {σ : Kind} (t : Term σ) : Prop :=
  ∀ x : Binary64, Subterm (f64 x) t → x.isNaN = false

theorem NaNFree.of_child {σ τ : Kind} {t : Term σ} {c : Term τ} (h : t.NaNFree)
    (hc : Part.child c ∈ t.parts) : c.NaNFree :=
  fun x hx => h x (.deeper hc hx)

theorem f64_beq_iff {x : Binary64} {u : Value} :
    (f64 x).beq u = true ↔ ∃ y, u = f64 y ∧ (x == y) = true := by
  cases u <;> simp [beq]

theorem rewrite_eq_f64_iff {R : Rewriting} {t : Value} {y : Binary64} :
    t.rewrite R = f64 y ↔ ∃ x, t = f64 x ∧ R.literal x = y := by
  cases t <;> simp [rewrite]

/-! ## Subterms of a rewritten term -/

theorem Subterm.rewrite (R : Rewriting) {σ τ : Kind} {s : Term σ} {t : Term τ}
    (h : Subterm s t) : Subterm (s.rewrite R) (t.rewrite R) := by
  induction h with
  | refl t => exact .refl _
  | deeper hc _ ih =>
    refine .deeper ?_ ih
    rw [parts_rewrite]
    exact List.mem_map_of_mem hc

/-- The constants of a rewritten term are those of the term, rewritten. -/
theorem exists_f64_of_subterm_rewrite {R : Rewriting} {σ : Kind} {t : Term σ} {y : Binary64}
    (h : Subterm (f64 y) (t.rewrite R)) : ∃ x, Subterm (f64 x) t ∧ R.literal x = y := by
  induction t using Term.parts_induction with
  | step t ih =>
    generalize hu : t.rewrite R = u at h
    cases h with
    | refl =>
      obtain ⟨x, rfl, hx⟩ := rewrite_eq_f64_iff.mp hu
      exact ⟨x, .refl _, hx⟩
    | deeper hc hy =>
      rw [← hu, parts_rewrite] at hc
      obtain ⟨p, hp, hpart⟩ := List.mem_map.mp hc
      cases p with
      | child c =>
        cases hpart
        obtain ⟨x, hx, hlit⟩ := ih c hp hy
        exact ⟨x, .deeper hp hx, hlit⟩
      | bind x ty => cases hpart
      | join k ps => cases hpart

/-- Of two terms with one normal form, neither holds a NaN or both do. -/
theorem NaNFree.of_canonical_eq {σ : Kind} {t u : Term σ} (ht : t.NaNFree)
    (h : t.rewrite .canonical = u.rewrite .canonical) : u.NaNFree := by
  intro y hy
  have hrewritten := hy.rewrite .canonical
  rw [← h] at hrewritten
  obtain ⟨x, hx, hxy⟩ := exists_f64_of_subterm_rewrite hrewritten
  have hcanonical : x.canonical = y.canonical := hxy
  rw [← Binary64.isNaN_canonical, ← hcanonical, Binary64.isNaN_canonical]
  exact ht x hx

/-! ## Equal terms hold no NaN -/

theorem exists_equal_child {ps qs : List Part} (h : List.Forall₂ Part.Equal ps qs) {τ : Kind}
    {c : Term τ} (hc : Part.child c ∈ ps) : ∃ d : Term τ, c.beq d = true := by
  induction h with
  | nil => cases hc
  | cons hpq _ ih =>
    rcases List.mem_cons.mp hc with rfl | hc
    · cases hpq with
      | @child _ _ d hcd => exact ⟨d, hcd⟩
    · exact ih hc

theorem nanFree_of_beq {σ : Kind} {t u : Term σ} (h : t.beq u = true) : t.NaNFree := by
  induction t using Term.parts_induction with
  | step t ih =>
    intro x hx
    cases hx with
    | refl =>
      obtain ⟨y, -, hxy⟩ := f64_beq_iff.mp h
      exact (Binary64.beq_iff.mp hxy).1
    | deeper hc hx =>
      obtain ⟨d, hcd⟩ := exists_equal_child (equalNode_of_beq h).parts hc
      exact ih _ hc hcd x hx

/-! ## Terms with one normal form are equal -/

@[simp] theorem equal_child_iff {τ : Kind} {c d : Term τ} :
    Part.Equal (.child c) (.child d) ↔ c.beq d = true := by
  constructor
  · rintro ⟨h⟩
    assumption
  · exact .child

theorem forall₂_equal_childParts {τ : Kind} {ts us : List (Term τ)} :
    List.Forall₂ Part.Equal (childParts ts) (childParts us) ↔ ts.isEqv us beq = true := by
  refine ⟨fun h => ?_, equal_childParts⟩
  induction ts generalizing us with
  | nil => cases us <;> simp_all [childParts, List.isEqv]
  | cons t ts ih => cases us <;> simp_all [childParts, List.isEqv]

theorem forall₂_equal_childParts_append {τ ρ : Kind} {ts us : List (Term τ)} {c d : Term ρ} :
    List.Forall₂ Part.Equal (childParts ts ++ [.child c]) (childParts us ++ [.child d])
      ↔ ts.isEqv us beq = true ∧ c.beq d = true := by
  rw [← List.forall₂_reverse_iff, List.reverse_append, List.reverse_append]
  simp [and_comm, List.forall₂_reverse_iff, forall₂_equal_childParts]

/-- A node equals another one of the same normal form if their parts are equal and it is not a
constant that is a NaN. -/
theorem beq_of_equal_parts {σ : Kind} {t u : Term σ} (hnan : t.NaNFree)
    (hparts : List.Forall₂ Part.Equal t.parts u.parts)
    (h : t.rewrite .canonical = u.rewrite .canonical) : t.beq u = true := by
  cases t <;> cases u
  -- nodes of different constructs have different normal forms
  all_goals first | (cases h; done) | unfold beq
  case f64 x y => simpa [Binary64.beq_iff_canonical, hnan x (.refl _), rewrite] using h
  -- the rest is what the normal form keeps of the fields
  all_goals simp_all [parts, rewrite, forall₂_equal_childParts, forall₂_equal_childParts_append]

/-- Parts with one normal form are equal, if their subterms are. -/
theorem equal_of_map_rewrite_eq {ps qs : List Part}
    (h : ps.map (Part.rewrite .canonical) = qs.map (Part.rewrite .canonical))
    (hchild : ∀ {τ : Kind} (c d : Term τ), Part.child c ∈ ps →
      c.rewrite .canonical = d.rewrite .canonical → c.beq d = true) :
    List.Forall₂ Part.Equal ps qs := by
  induction ps generalizing qs with
  | nil =>
    obtain rfl : qs = [] := by simpa using h.symm
    exact .nil
  | cons p ps ih =>
    cases qs with
    | nil => cases h
    | cons q qs =>
      rw [List.map_cons, List.map_cons, List.cons.injEq] at h
      obtain ⟨hpart, hrest⟩ := h
      refine .cons ?_ (ih hrest fun c d hc => hchild c d (List.mem_cons_of_mem p hc))
      cases p with
      | child c =>
        cases q with
        | child d =>
          simp only [Part.rewrite, Part.child.injEq] at hpart
          obtain ⟨rfl, hcd⟩ := hpart
          exact .child (hchild c d List.mem_cons_self (eq_of_heq hcd))
        | bind | join => cases hpart
      | bind x ty =>
        cases q with
        | bind y ty' =>
          simp only [Part.rewrite, Part.bind.injEq] at hpart
          obtain ⟨hxy, rfl⟩ := hpart
          exact .bind (Handle.nameless_inj.mp hxy) ty
        | child | join => cases hpart
      | join k params =>
        cases q with
        | join l params' =>
          simp only [Part.rewrite, Part.join.injEq] at hpart
          exact .join (Handle.nameless_inj.mp hpart.1) (map_rewrite_canonical_inj.mp hpart.2)
        | child | bind => cases hpart

theorem beq_of_canonical_eq {σ : Kind} {t u : Term σ} (hnan : t.NaNFree)
    (h : t.rewrite .canonical = u.rewrite .canonical) : t.beq u = true := by
  induction t using Term.parts_induction with
  | step t ih =>
    have hparts : t.parts.map (Part.rewrite .canonical) = u.parts.map (Part.rewrite .canonical) := by
      rw [← parts_rewrite, ← parts_rewrite, h]
    exact beq_of_equal_parts hnan
      (equal_of_map_rewrite_eq hparts fun c d hc hcd => ih c hc (hnan.of_child hc) hcd) h

/-- Terms are equal exactly if they have one normal form, unless one of them holds a NaN. -/
theorem beq_iff_canonical {σ : Kind} {t u : Term σ} :
    t.beq u = true ↔ t.NaNFree ∧ t.rewrite .canonical = u.rewrite .canonical :=
  ⟨fun h => ⟨nanFree_of_beq h, canonical_eq_of_beq h⟩, fun h => beq_of_canonical_eq h.1 h.2⟩

end Term

/-! ## Bodies and functions -/

theorem Body.beq_iff_canonical {b c : Body} :
    (b == c) = true ↔ b.term.NaNFree ∧ b.rewrite .canonical = c.rewrite .canonical := by
  change b.beq c = true ↔ _
  cases b with
  | value t r =>
    cases c with
    | value u s =>
      simp only [beq, rewrite, term, Bool.and_eq_true, value.injEq, beq_iff_eq, ← and_assoc]
      exact and_congr_left fun _ => Term.beq_iff_canonical
    | effect u => simp [beq, rewrite]
  | effect t =>
    cases c with
    | value u s => simp [beq, rewrite]
    | effect u =>
      simp only [beq, rewrite, term, effect.injEq]
      exact Term.beq_iff_canonical

theorem Body.nanFree_of_canonical_eq {b c : Body} (hb : b.term.NaNFree)
    (h : b.rewrite .canonical = c.rewrite .canonical) : c.term.NaNFree := by
  cases b with
  | value t r =>
    cases c with
    | value u s => exact Term.NaNFree.of_canonical_eq hb (value.inj h).1
    | effect u => cases h
  | effect t =>
    cases c with
    | value u s => cases h
    | effect u => exact Term.NaNFree.of_canonical_eq hb (effect.inj h)

namespace Function

/-- No floating-point constant in the body is a NaN. -/
def NaNFree (f : Function) : Prop := f.body.term.NaNFree

/-- Functions are equal exactly if they have one normal form, unless one of them holds a NaN. -/
theorem beq_iff_canonical {f g : Function} :
    (f == g) = true ↔ f.NaNFree ∧ f.rewrite .canonical = g.rewrite .canonical := by
  change f.beq g = true ↔ _
  rw [beq, Bool.and_eq_true, Bool.and_eq_true, Body.beq_iff_canonical, beq_iff_eq,
    ← map_eq_iff_beq canonical_param_inj]
  simp only [rewrite, mk.injEq, NaNFree]
  tauto

theorem NaNFree.of_canonical_eq {f g : Function} (hf : f.NaNFree)
    (h : f.rewrite .canonical = g.rewrite .canonical) : g.NaNFree :=
  Body.nanFree_of_canonical_eq hf (congrArg Function.body h)

end Function

/-- Two functions are equal exactly if neither holds a NaN and they are identical once the debug name
of every local, parameter and label is taken off and every zero has lost its sign. Equality is
therefore symmetric and transitive, and a function equals itself exactly if no constant of its body
is a NaN. -/
theorem equality_is_identity_of_normal_forms :
    (∀ f g : Function, (f == g) = true ↔
        f.NaNFree ∧ g.NaNFree ∧ f.rewrite .canonical = g.rewrite .canonical) ∧
      (∀ f g : Function, (f == g) = true → (g == f) = true) ∧
      (∀ f g h : Function, (f == g) = true → (g == h) = true → (f == h) = true) ∧
      ∀ f : Function, (f == f) = true ↔ f.NaNFree := by
  have hiff (f g : Function) : (f == g) = true ↔
      f.NaNFree ∧ g.NaNFree ∧ f.rewrite .canonical = g.rewrite .canonical := by
    rw [Function.beq_iff_canonical]
    exact ⟨fun ⟨hf, h⟩ => ⟨hf, hf.of_canonical_eq h, h⟩, fun ⟨hf, _, h⟩ => ⟨hf, h⟩⟩
  refine ⟨hiff, fun f g h => ?_, fun f g h hfg hgh => ?_, fun f => ?_⟩
  · obtain ⟨hf, hg, hcanonical⟩ := (hiff f g).mp h
    exact (hiff g f).mpr ⟨hg, hf, hcanonical.symm⟩
  · obtain ⟨hf, -, hleft⟩ := (hiff f g).mp hfg
    obtain ⟨-, hh, hright⟩ := (hiff g h).mp hgh
    exact (hiff f h).mpr ⟨hf, hh, hleft.trans hright⟩
  · rw [hiff]
    exact ⟨fun h => h.1, fun h => ⟨h, h, rfl⟩⟩

/-- A parameter is read under two debug names, and the zeros differ in sign. -/
example :
    (Function.mk ⟨"f"⟩ [(⟨1, some "x"⟩, .f64)]
        (.value (.binary (.float .add) (.var (.ofParam ⟨1, some "x"⟩)) (.f64 ⟨0⟩)) .f64)
      == Function.mk ⟨"f"⟩ [(⟨1, none⟩, .f64)]
        (.value (.binary (.float .add) (.var (.ofParam ⟨1, some "y"⟩)) (.f64 ⟨0x8000000000000000⟩))
          .f64)) = true := by
  decide +kernel

end JoinIR
