/-
# JoinIR.Proofs.Equality — what the comparison of trees passes over

Trees are compared up to debug names and up to the sign of zeros, and there is a normal form for
both: `Rewriting.canonical` takes the names off and makes the two zeros one. Trees that compare
equal have one normal form (`Term.canonical_eq_of_beq`), so a fact that does not change under a
rewriting holds of equal trees alike.

The converse fails, and so this is not the definition of the comparison: a NaN has a normal form as
every constant has, but it is not equal to itself.
-/
import Mathlib.Data.List.Forall2
import JoinIR.Proofs.Rewriting
import JoinIR.Term.Equality

namespace JoinIR

/-! ## Normal forms of what a tree carries -/

/-- The handle without its debug name. -/
def Handle.nameless {κ : Space} (h : Handle κ) : Handle κ := ⟨h.id, none⟩

@[simp] theorem Handle.nameless_inj {κ : Space} {g h : Handle κ} :
    g.nameless = h.nameless ↔ (g == h) = true := by
  simp [nameless, beq_iff]

/-- The variable without the debug name of its handle. -/
def Var.nameless : Var → Var
  | ofLocal x => ofLocal x.nameless
  | ofParam p => ofParam p.nameless

@[simp] theorem Var.nameless_inj {v w : Var} : v.nameless = w.nameless ↔ (v == w) = true := by
  cases v <;> cases w <;> simp [nameless, Var.beq_iff, Handle.beq_iff, rank, id]

namespace Binary64

/-- The constant, if it is not a zero, and the zero without a sign for both of them. -/
def canonical (x : Binary64) : Binary64 := if x.isZero then ⟨0⟩ else x

theorem isZero_canonical (x : Binary64) : x.canonical.isZero = x.isZero := by
  rw [canonical]
  split
  next h =>
    rw [h]
    decide
  next => rfl

theorem not_isNaN_of_isZero {x : Binary64} (h : x.isZero = true) : x.isNaN = false := by
  obtain ⟨hexponent, -⟩ : x.exponentField = 0 ∧ x.fraction = 0 := by simpa [isZero] using h
  simp [isNaN, hexponent]

/-- Constants are equal as numbers if they have one normal form, unless they are NaNs. -/
theorem beq_iff_canonical {x y : Binary64} :
    (x == y) = true ↔ x.isNaN = false ∧ x.canonical = y.canonical := by
  constructor
  · intro h
    obtain ⟨hnan, -, hbits | ⟨hx, hy⟩⟩ := beq_iff.mp h
    · obtain rfl : x = y := by
        cases x
        cases hbits
        rfl
      exact ⟨hnan, rfl⟩
    · rw [canonical, canonical, if_pos hx, if_pos hy]
      exact ⟨hnan, rfl⟩
  · rintro ⟨hnan, h⟩
    have hzero : x.isZero = y.isZero := by rw [← isZero_canonical, h, isZero_canonical]
    cases hx : x.isZero with
    | true =>
      rw [hx] at hzero
      exact beq_iff.mpr ⟨hnan, not_isNaN_of_isZero hzero.symm, .inr ⟨hx, hzero.symm⟩⟩
    | false =>
      obtain rfl : x = y := by simpa [canonical, hx, ← hzero] using h
      rw [beq_self, hnan]
      rfl

end Binary64

namespace Rewriting

/-- Takes the debug names off, and nothing else. -/
def nameless : Rewriting where
  handle := Handle.nameless
  var := Var.nameless
  literal := id

/-- Takes the debug names off and makes the two zeros one. -/
def canonical : Rewriting where
  handle := Handle.nameless
  var := Var.nameless
  literal := Binary64.canonical

@[simp] theorem handle_canonical {κ : Space} (h : Handle κ) :
    canonical.handle h = h.nameless := rfl

@[simp] theorem var_canonical (v : Var) : canonical.var v = v.nameless := rfl

@[simp] theorem literal_canonical (x : Binary64) : canonical.literal x = x.canonical := rfl

end Rewriting

/-- Lists compare equal if they have one image, provided that this is so for their items. -/
theorem map_eq_iff_beq {α β : Type} [BEq α] {f : α → β}
    (hf : ∀ {a b : α}, f a = f b ↔ (a == b) = true) {l m : List α} :
    l.map f = m.map f ↔ (l == m) = true := by
  induction l generalizing m with
  | nil => cases m <;> simp
  | cons a l ih =>
    cases m with
    | nil => simp
    | cons b m => simp [ih, hf]

@[simp] theorem map_handle_canonical_inj {κ : Space} {l m : List (Handle κ)} :
    l.map Rewriting.canonical.handle = m.map Rewriting.canonical.handle ↔ (l == m) = true :=
  map_eq_iff_beq Handle.nameless_inj

theorem ContParam.canonical_inj {p q : ContParam} :
    p.rewrite .canonical = q.rewrite .canonical ↔ (p == q) = true := by
  show _ ↔ (p.local? == q.local? && p.ty == q.ty) = true
  obtain ⟨x, a⟩ := p
  obtain ⟨y, b⟩ := q
  cases x <;> cases y <;> simp [rewrite]

@[simp] theorem map_rewrite_canonical_inj {ps qs : List ContParam} :
    ps.map (ContParam.rewrite .canonical) = qs.map (ContParam.rewrite .canonical)
      ↔ (ps == qs) = true :=
  map_eq_iff_beq ContParam.canonical_inj

/-! ## Nodes -/

/-- Parts of one sort that compare equal. -/
inductive Part.Equal : Part → Part → Prop
  | child {τ : Kind} {c d : Term τ} (h : c.beq d = true) : Equal (.child c) (.child d)
  | bind {x y : Local} (h : (x == y) = true) (ty : Ty) : Equal (.bind x ty) (.bind y ty)
  | join {k l : Label} {ps qs : List ContParam} (hk : (k == l) = true) (hps : (ps == qs) = true) :
    Equal (.join k ps) (.join l qs)

attribute [simp] Part.Equal.child Part.Equal.bind Part.Equal.join

namespace Term

@[simp] theorem beqValues_eq_isEqv (vs ws : List Value) : beqValues vs ws = vs.isEqv ws beq := by
  induction vs generalizing ws with
  | nil => cases ws <;> simp [beqValues]
  | cons v vs ih => cases ws <;> simp [beqValues, List.isEqv, ih]

@[simp] theorem beqEffects_eq_isEqv (es fs : List Effect) :
    beqEffects es fs = es.isEqv fs beq := by
  induction es generalizing fs with
  | nil => cases fs <;> simp [beqEffects]
  | cons e es ih => cases fs <;> simp [beqEffects, List.isEqv, ih]

theorem equal_childParts {τ : Kind} {ts us : List (Term τ)} (h : ts.isEqv us beq = true) :
    List.Forall₂ Part.Equal (childParts ts) (childParts us) := by
  induction ts generalizing us with
  | nil =>
    cases us with
    | nil => exact .nil
    | cons u us => cases h
  | cons t ts ih =>
    cases us with
    | nil => cases h
    | cons u us =>
      obtain ⟨hroot, hrest⟩ := (Bool.and_eq_true _ _).mp h
      exact .cons (.child hroot) (ih hrest)

theorem equal_childParts_append {τ ρ : Kind} {ts us : List (Term τ)} {c d : Term ρ}
    (h : ts.isEqv us beq = true) (hcd : c.beq d = true) :
    List.Forall₂ Part.Equal (childParts ts ++ [.child c]) (childParts us ++ [.child d]) :=
  List.rel_append (equal_childParts h) (.cons (.child hcd) .nil)

/-- Nodes that are equal as far as their subterms are. -/
structure EqualNode {σ : Kind} (t u : Term σ) : Prop where
  parts : List.Forall₂ Part.Equal t.parts u.parts
  rewrite_eq : t.parts.map (Part.rewrite .canonical) = u.parts.map (Part.rewrite .canonical) →
    t.rewrite .canonical = u.rewrite .canonical

theorem equalNode_of_beq {σ : Kind} {t u : Term σ} (h : t.beq u = true) : EqualNode t u := by
  cases t <;> cases u
  -- nodes of different constructs do not compare equal
  all_goals first | (cases h; done) | unfold beq at h
  all_goals constructor
  -- the rest is what the comparison says about the fields
  all_goals simp_all [parts, rewrite, Part.rewrite, map_rewrite_childParts, equal_childParts,
    equal_childParts_append, Binary64.beq_iff_canonical]

/-! ## Trees -/

/-- Parts that compare equal have one normal form, if their subterms have. -/
theorem map_rewrite_eq_of_equal {ps qs : List Part} (h : List.Forall₂ Part.Equal ps qs)
    (hchild : ∀ {τ : Kind} (c d : Term τ), Part.child c ∈ ps → c.beq d = true →
      c.rewrite .canonical = d.rewrite .canonical) :
    ps.map (Part.rewrite .canonical) = qs.map (Part.rewrite .canonical) := by
  induction h with
  | nil => rfl
  | @cons p q ps qs hpq _ ih =>
    have hrest := ih fun c d hc => hchild c d (List.mem_cons_of_mem p hc)
    rw [List.map_cons, List.map_cons, hrest]
    cases hpq with
    | @child _ c d hcd => rw [Part.rewrite, Part.rewrite, hchild c d List.mem_cons_self hcd]
    | bind hxy ty => simp [Part.rewrite, hxy]
    | join hk hps => simp [Part.rewrite, hk, hps]

/-- Terms that compare equal have one normal form. -/
theorem canonical_eq_of_beq {σ : Kind} {t u : Term σ} (h : t.beq u = true) :
    t.rewrite .canonical = u.rewrite .canonical := by
  induction t using Term.parts_induction with
  | step t ih =>
    have hnode := equalNode_of_beq h
    exact hnode.rewrite_eq (map_rewrite_eq_of_equal hnode.parts fun c d hc hcd => ih c hc hcd)

end Term

theorem Body.canonical_eq_of_beq {b c : Body} (h : (b == c) = true) :
    b.rewrite .canonical = c.rewrite .canonical := by
  change b.beq c = true at h
  cases b with
  | value t r =>
    cases c with
    | value u s =>
      obtain ⟨hterm, hresult⟩ := (Bool.and_eq_true _ _).mp h
      rw [rewrite, rewrite, Term.canonical_eq_of_beq hterm, eq_of_beq hresult]
    | effect u => cases h
  | effect t =>
    cases c with
    | value u s => cases h
    | effect u => rw [rewrite, rewrite, Term.canonical_eq_of_beq h]

namespace Function

theorem canonical_param_inj {p q : Param × Ty} :
    (Rewriting.canonical.handle p.1, p.2) = (Rewriting.canonical.handle q.1, q.2)
      ↔ (p == q) = true := by
  show _ ↔ (p.1 == q.1 && p.2 == q.2) = true
  simp

/-- Functions that compare equal have one normal form. -/
theorem canonical_eq_of_beq {f g : Function} (h : (f == g) = true) :
    f.rewrite .canonical = g.rewrite .canonical := by
  change f.beq g = true at h
  rw [beq, Bool.and_eq_true, Bool.and_eq_true] at h
  obtain ⟨⟨hname, hparams⟩, hbody⟩ := h
  rw [rewrite, rewrite, Body.canonical_eq_of_beq hbody, eq_of_beq hname,
    (map_eq_iff_beq canonical_param_inj).mpr hparams]

end Function

end JoinIR
