/-
# JoinIR.Proofs.Listing.Faithful — what a listing tells of a function

Listings are compared where trees are meant, so one listing must not stand for two trees. Up to
two things it does not. A variable is listed by its handle alone, so a named parameter looks like
the local of its name and number; and all NaNs look alike. `Rewriting.shown` makes these two
choices once and for all, and two functions have one listing exactly if it takes them to one
function (`Function.listing_eq_iff_shown`).

The proof goes from the text inwards. A text that is readable determines its outline
(`Outline.listing_inj`). In an outline the head of a node tells the construct and what the node
carries, the number of children settles what the head leaves open, and the children in turn tell
the subterms (`Term.shown_eq_of_outline_eq`).
-/
import JoinIR.Proofs.Heads
import JoinIR.Proofs.Rewriting

namespace JoinIR

open Listing (Datum Outline Avoids IsWord delimiters)

/-! ## What is shown -/

/-- Takes a tree to what its listing shows of it. -/
def Rewriting.shown : Rewriting where
  handle := id
  var := Var.shown
  literal := Binary64.shown

@[simp] theorem Rewriting.handle_shown {κ : Space} (h : Handle κ) :
    Rewriting.shown.handle h = h := rfl

@[simp] theorem Rewriting.var_shown (v : Var) : Rewriting.shown.var v = v.shown := rfl

@[simp] theorem Rewriting.literal_shown (x : Binary64) :
    Rewriting.shown.literal x = x.shown := rfl

@[simp] theorem ContParam.rewrite_shown (p : ContParam) : p.rewrite .shown = p := by
  obtain ⟨_ | x, ty⟩ := p <;> rfl

theorem map_rewrite_shown (ps : List ContParam) : ps.map (ContParam.rewrite .shown) = ps := by
  induction ps with
  | nil => rfl
  | cons p rest ih => rw [List.map_cons, ih, ContParam.rewrite_shown]

/-! ## Parts that differ in subterms only -/

/-- Two parts of one sort that agree in everything but a subterm. -/
inductive Part.Alike : Part → Part → Prop
  | child {τ : Kind} (c d : Term τ) : Alike (.child c) (.child d)
  | bind (x : Local) (ty : Ty) : Alike (.bind x ty) (.bind x ty)
  | join (k : Label) (ps : List ContParam) : Alike (.join k ps) (.join k ps)

attribute [simp] Part.Alike.child Part.Alike.bind Part.Alike.join

namespace Term

theorem alike_childParts {τ : Kind} {ts us : List (Term τ)} (h : ts.length = us.length) :
    List.Forall₂ Part.Alike (childParts ts) (childParts us) := by
  rw [childParts, childParts, List.forall₂_map_left_iff, List.forall₂_map_right_iff,
    List.forall₂_iff_zip]
  exact ⟨h, fun _ => .child _ _⟩

theorem alike_childParts_append {τ ρ : Kind} {ts us : List (Term τ)} {c d : Term ρ}
    (h : ts.length = us.length) :
    List.Forall₂ Part.Alike (childParts ts ++ [.child c]) (childParts us ++ [.child d]) :=
  List.rel_append (alike_childParts h) (.cons (.child c d) .nil)

/-- If parts that are alike have the same outlines, and these tell the subterms, then the same
is shown of them. -/
theorem map_rewrite_eq_of_alike {ps qs : List Part} {os : List Outline}
    (halike : List.Forall₂ Part.Alike ps qs) (hps : outlineParts ps = .ok os)
    (hqs : outlineParts qs = .ok os)
    (htell : ∀ {τ : Kind} (c d : Term τ) (o : Outline), Part.child c ∈ ps → c.outline = .ok o →
      d.outline = .ok o → c.rewrite .shown = d.rewrite .shown) :
    ps.map (Part.rewrite .shown) = qs.map (Part.rewrite .shown) := by
  induction halike generalizing os with
  | nil => rfl
  | @cons p q ps qs hpq _ ih =>
    obtain ⟨l, m, hp, hrest, rfl⟩ := outlineParts_cons_eq_ok_iff.mp hps
    obtain ⟨l', m', hq, hrest', hos⟩ := outlineParts_cons_eq_ok_iff.mp hqs
    have htell' {τ : Kind} (c d : Term τ) (o : Outline) (hc : Part.child c ∈ ps) :=
      htell c d o (List.mem_cons_of_mem p hc)
    cases hpq with
    -- of parts that are alike only subterms differ, and they have one outline each
    | child c d =>
      obtain ⟨o, hc, rfl⟩ := outlines_child_eq_ok_iff.mp hp
      obtain ⟨o', hd, rfl⟩ := outlines_child_eq_ok_iff.mp hq
      obtain ⟨rfl, rfl⟩ : o = o' ∧ m = m' := List.cons.inj hos
      have hroot := htell c d o List.mem_cons_self hc hd
      simp [Part.rewrite, hroot, ih hrest hrest' htell']
    | bind | join =>
      cases hp
      cases hq
      obtain rfl : m = m' := hos
      simp [ih hrest hrest' htell']

/-! ## Heads -/

@[simp] theorem resultDatum_inj {a b : Ty} : resultDatum a = resultDatum b ↔ a = b := by
  simp [resultDatum]

/-- A placeholder is not written like a local. -/
theorem placeholder_ne (x : Local) : x.text ≠ "_" := by
  rw [ne_eq, ← String.toList_inj, Handle.toList_text]
  simp [Space.sigil]

theorem datum_injective : Function.Injective ContParam.datum := by
  rintro ⟨_ | x, a⟩ ⟨_ | y, b⟩ h
  · simpa [ContParam.datum] using h
  · simp [ContParam.datum, (placeholder_ne y).symm] at h
  · simp [ContParam.datum, placeholder_ne x] at h
  · simpa [ContParam.datum] using h

@[simp] theorem joinHead_inj {k l : Label} {ps qs : List ContParam} :
    joinHead k ps = joinHead l qs ↔ k = l ∧ ps = qs := by
  simp [joinHead, List.map_inj_right datum_injective]

@[simp] theorem map_word_inj {v w : List String} :
    v.map Datum.word = w.map Datum.word ↔ v = w :=
  List.map_inj_right fun _ _ => Datum.word.inj

@[simp] theorem map_word_text_inj {ks ls : List Label} :
    ks.map (Datum.word ∘ Handle.text) = ls.map (Datum.word ∘ Handle.text) ↔ ks = ls := by
  apply List.map_inj_right
  intro k l h
  exact Handle.text_inj.mp (Datum.word.inj h)

/-- Nodes that differ at most in their subterms, as far as a listing shows. -/
structure SameNode {σ : Kind} (t u : Term σ) : Prop where
  alike : List.Forall₂ Part.Alike t.parts u.parts
  arms : t.arms = u.arms
  rewrite_eq : t.parts.map (Part.rewrite .shown) = u.parts.map (Part.rewrite .shown) →
    t.rewrite .shown = u.rewrite .shown

/-- The head and the number of children tell a node. -/
theorem sameNode_of_head_eq {σ : Kind} {t u : Term σ} (ht : t.unlisted? = none)
    (hu : u.unlisted? = none) (hhead : t.head = u.head)
    (hcount : childCount t.parts = childCount u.parts) : SameNode t u := by
  have hword := word_eq_of_head_eq ht hu hhead
  -- nodes of different constructs have different words
  cases t <;> cases u <;> first | (simp only [word, String.reduceEq] at hword; done) | clear hword
  -- of those left, the two kinds of branch have different numbers of children
  all_goals
    simp [head, parts, unlisted?, Int32.toInt_inj, Int64.toInt_inj, Var.text_eq_iff,
      Binary64.text_eq_iff] at ht hu hhead hcount
  all_goals constructor
  -- the rest is what the heads say about the fields
  all_goals simp_all [arms, parts, rewrite, Part.rewrite, map_rewrite_childParts,
    alike_childParts, alike_childParts_append, map_rewrite_shown]

/-! ## Terms -/

theorem wrap_injective (a : Option String) : Function.Injective (wrap a) := by
  intro o p h
  cases a with
  | none => exact h
  | some word => simpa [wrap, under] using h

/-- The words over the arms do not hide what is below them. -/
theorem dress_injective {σ : Kind} (t : Term σ) : Function.Injective t.dress := by
  intro os ps h
  apply List.ext_getElem?
  intro i
  have hi := congrArg (fun l => l[i]?) h
  simp only [dress, List.getElem?_mapIdx] at hi
  exact Option.map_injective (wrap_injective (t.arm i)) hi

/-- An outline tells what is shown of its term. -/
theorem shown_eq_of_outline_eq {σ : Kind} {t u : Term σ} {o : Outline} (ht : t.outline = .ok o)
    (hu : u.outline = .ok o) : t.rewrite .shown = u.rewrite .shown := by
  induction t using Term.parts_induction generalizing o with
  | step t ih =>
    obtain ⟨hroot, os, hos, rfl⟩ := outline_eq_ok_iff.mp ht
    obtain ⟨hroot', os', hos', hnode⟩ := outline_eq_ok_iff.mp hu
    obtain ⟨hhead, hdress⟩ := Outline.node.inj hnode
    have hcount : childCount t.parts = childCount u.parts := by
      rw [← length_of_outlineParts hos, ← length_of_outlineParts hos', ← length_dress t os,
        ← length_dress u os', hdress]
    have hsame := sameNode_of_head_eq hroot hroot' hhead.symm hcount
    -- with the same arms the words over them are the same, and can be taken off
    have hdressed : u.dress = t.dress := by
      funext l
      simp only [dress, arm, hsame.arms]
    obtain rfl : os' = os := t.dress_injective (hdressed ▸ hdress)
    refine hsame.rewrite_eq (map_rewrite_eq_of_alike hsame.alike hos hos' ?_)
    intro τ c d o hc hco hdo
    exact ih c hc hco hdo

/-! ## What is shown has the same listing -/

theorem unlisted?_rewrite (R : Rewriting) {σ : Kind} (t : Term σ) :
    (t.rewrite R).unlisted? = t.unlisted? := by
  cases t <;> simp [rewrite, unlisted?]

theorem arms_rewrite (R : Rewriting) {σ : Kind} (t : Term σ) : (t.rewrite R).arms = t.arms := by
  cases t <;> simp [rewrite, arms]

theorem head_rewrite_shown {σ : Kind} (t : Term σ) : (t.rewrite .shown).head = t.head := by
  cases t <;> simp [rewrite, head, map_rewrite_shown, Var.text_shown, Binary64.text_shown]

theorem outlineParts_rewrite_shown {ps : List Part}
    (h : ∀ {τ : Kind} (c : Term τ), Part.child c ∈ ps → (c.rewrite .shown).outline = c.outline) :
    outlineParts (ps.map (Part.rewrite .shown)) = outlineParts ps := by
  induction ps with
  | nil => rfl
  | cons p rest ih =>
    have hroot : (p.rewrite .shown).outlines = p.outlines := by
      cases p with
      | child c => rw [Part.rewrite, Part.outlines, Part.outlines, h c List.mem_cons_self]
      | bind | join => rfl
    rw [List.map_cons, outlineParts_cons, outlineParts_cons, hroot,
      ih fun c hc => h c (List.mem_cons_of_mem p hc)]

/-- What is shown of a term is listed like the term. -/
theorem outline_rewrite_shown {σ : Kind} (t : Term σ) :
    (t.rewrite .shown).outline = t.outline := by
  induction t using Term.parts_induction with
  | step t ih =>
    have hdress : (t.rewrite .shown).dress = t.dress := by
      funext l
      simp only [dress, arm, arms_rewrite]
    rw [outline_eq_parts, outline_eq_parts t, unlisted?_rewrite, head_rewrite_shown,
      parts_rewrite, outlineParts_rewrite_shown ih, hdress]

end Term

/-! ## Bodies -/

namespace Body

/-- The result tells of which kind a body is, and the outline of the term the rest. -/
theorem shown_eq_of_outline_eq {b c : Body} {o : Outline} (hresult : b.result? = c.result?)
    (hb : b.term.outline = .ok o) (hc : c.term.outline = .ok o) :
    b.rewrite .shown = c.rewrite .shown := by
  cases b with
  | value t r =>
    cases c with
    | value u s =>
      have hterm : t.rewrite .shown = u.rewrite .shown := Term.shown_eq_of_outline_eq hb hc
      rw [rewrite, rewrite, hterm, Option.some.inj hresult]
    | effect u => cases hresult
  | effect t =>
    cases c with
    | value u s => cases hresult
    | effect u =>
      have hterm : t.rewrite .shown = u.rewrite .shown := Term.shown_eq_of_outline_eq hb hc
      rw [rewrite, rewrite, hterm]

theorem outline_term_rewrite_shown (b : Body) :
    (b.rewrite .shown).term.outline = b.term.outline := by
  cases b <;> exact Term.outline_rewrite_shown _

theorem result?_rewrite (R : Rewriting) (b : Body) : (b.rewrite R).result? = b.result? := by
  cases b <;> rfl

end Body

/-! ## Functions -/

namespace Function

theorem paramDatum_inj {p q : Param × Ty} : paramDatum p = paramDatum q ↔ p = q := by
  simp [paramDatum, Prod.ext_iff]

theorem paramDatum_ne_resultDatum (p : Param × Ty) (ty : Ty) :
    paramDatum p ≠ Term.resultDatum ty := by
  simp [paramDatum, Term.resultDatum]

/-- In a signature the parameters and the result are told apart by the words they open with. -/
theorem signature_inj {ps qs : List (Param × Ty)} {r s : Option Ty}
    (h : ps.map paramDatum ++ (r.map Term.resultDatum).toList
      = qs.map paramDatum ++ (s.map Term.resultDatum).toList) : ps = qs ∧ r = s := by
  induction ps generalizing qs with
  | nil =>
    cases qs with
    | nil =>
      cases r <;> cases s <;> simp_all
    | cons q qs =>
      cases r with
      | none => simp at h
      | some ty => simp [(paramDatum_ne_resultDatum q ty).symm] at h
  | cons p ps ih =>
    cases qs with
    | nil =>
      cases s with
      | none => simp at h
      | some ty => simp [paramDatum_ne_resultDatum p ty] at h
    | cons q qs =>
      simp only [List.map_cons, List.cons_append, List.cons.injEq, paramDatum_inj] at h
      obtain ⟨rfl, hrest⟩ := h
      obtain ⟨rfl, rfl⟩ := ih hrest
      exact ⟨rfl, rfl⟩

/-- The head of a function tells its signature. -/
theorem head_inj {f g : Function} (h : f.head = g.head) :
    f.name = g.name ∧ f.params = g.params ∧ f.body.result? = g.body.result? := by
  simp only [head, List.cons_append, List.nil_append, List.cons.injEq,
    Datum.word.injEq, Symbol.text_inj, true_and] at h
  -- after `func` and the name comes the signature
  obtain ⟨hname, hsignature⟩ := h
  obtain ⟨hparams, hresult⟩ := signature_inj hsignature
  exact ⟨hname, hparams, hresult⟩

theorem rewrite_shown (f : Function) :
    f.rewrite .shown = ⟨f.name, f.params, f.body.rewrite .shown⟩ := by
  simp [Function.rewrite]

/-- Functions with one outline show the same. -/
theorem shown_eq_of_outline_eq {f g : Function} {o : Outline} (hf : f.outline = .ok o)
    (hg : g.outline = .ok o) : f.rewrite .shown = g.rewrite .shown := by
  obtain ⟨b, hb, rfl⟩ := outline_eq_ok_iff.mp hf
  obtain ⟨c, hc, hnode⟩ := outline_eq_ok_iff.mp hg
  obtain ⟨hhead, hbody⟩ := Outline.node.inj hnode
  obtain rfl : c = b := (List.cons.inj hbody).1
  obtain ⟨hname, hparams, hresult⟩ := head_inj hhead
  rw [rewrite_shown, rewrite_shown, hname, hparams,
    Body.shown_eq_of_outline_eq hresult.symm hb hc]

/-- What is shown of a function is listed like the function. -/
theorem listing_rewrite_shown (f : Function) : (f.rewrite .shown).listing = f.listing := by
  have hhead : (f.rewrite .shown).head = f.head := by
    rw [rewrite_shown, head, head, Body.result?_rewrite]
  have hterm : (f.rewrite .shown).body.term.outline = f.body.term.outline :=
    f.body.outline_term_rewrite_shown
  rw [listing, listing, outline, outline, hhead, hterm]

/-- Functions without exceptions, and without blanks, line breaks and parentheses in their names,
have listings, and they have the same one exactly if the same is shown of them: if they are
identical except for named parameters in the place of locals of that name and number, where a
variable is read or assigned, and for the bits of NaNs. -/
theorem listing_eq_iff_shown {f g : Function} (hf : f.body.term.Listable)
    (hg : g.body.term.Listable) (hfnames : f.NamesAvoid delimiters)
    (hgnames : g.NamesAvoid delimiters) :
    ∃ s t, f.listing = .ok s ∧ g.listing = .ok t ∧
      (s = t ↔ f.rewrite .shown = g.rewrite .shown) := by
  obtain ⟨s, hs⟩ := f.exists_listing_iff.mpr hf
  obtain ⟨t, ht⟩ := g.exists_listing_iff.mpr hg
  refine ⟨s, t, hs, ht, ?_⟩
  constructor
  · rintro rfl
    -- from the text to the outline, and from there to the trees
    obtain ⟨o, ho, hos⟩ := listing_eq_ok_iff.mp hs
    obtain ⟨p, hp, hps⟩ := listing_eq_ok_iff.mp ht
    have hlegible : o.Legible := isWord_of_mem_outline (List.Subset.refl _) hfnames ho
    have hlegible' : p.Legible := isWord_of_mem_outline (List.Subset.refl _) hgnames hp
    obtain rfl : o = p := (Outline.listing_inj hlegible hlegible').mp (hos.trans hps.symm)
    exact shown_eq_of_outline_eq ho hp
  · intro hshown
    have hlisting : f.listing = g.listing := by
      rw [← listing_rewrite_shown, hshown, listing_rewrite_shown]
    rw [hs, ht] at hlisting
    exact Except.ok.inj hlisting

/-- A function that reads a variable and then a constant, and drops both. -/
def dropping (v : Var) (x : Binary64) : Function where
  name := ⟨"f"⟩
  params := []
  body := .effect (.block [.drop (.var v), .drop (.f64 x)])

theorem listable_dropping (v : Var) (x : Binary64) : (dropping v x).body.term.Listable :=
  (Term.exists_outline_iff _).mp ⟨_, rfl⟩

theorem namesAvoid_dropping {cs : List Char} {v : Var} {x : Binary64} (hf : Avoids cs "f")
    (hv : ∀ n ∈ v.names, Avoids cs n) : (dropping v x).NamesAvoid cs := by
  have hnone {σ : Kind} {t : Term σ} (h : t.names = []) : ∀ n ∈ t.names, Avoids cs n := by
    simp [h]
  have hdrop {t : Value} (ht : ∀ n ∈ t.names, Avoids cs n) (hparts : t.parts = []) :
      (Term.drop t).NamesAvoid cs := by
    refine Term.everywhere_iff.mpr ⟨hnone rfl, fun c hc => ?_⟩
    cases List.mem_singleton.mp hc
    refine Term.everywhere_iff.mpr ⟨ht, fun d hd => ?_⟩
    rw [hparts] at hd
    cases hd
  constructor
  · simpa [dropping, names, Body.result?] using hf
  · refine Term.everywhere_iff.mpr ⟨hnone rfl, fun c hc => ?_⟩
    rcases List.mem_cons.mp hc with hc | hc
    · cases hc
      exact hdrop hv rfl
    · cases List.mem_singleton.mp hc
      exact hdrop (hnone rfl) rfl

/-- A local and a parameter of one name and number, and two NaNs, are listed alike. -/
theorem listing_dropping :
    let f := dropping (.ofLocal ⟨1, some "x"⟩) ⟨0x7ff8000000000001⟩
    let g := dropping (.ofParam ⟨1, some "x"⟩) ⟨0xfff8000000000000⟩
    (f.body.term.Listable ∧ g.body.term.Listable ∧ f.NamesAvoid delimiters ∧
      g.NamesAvoid delimiters) ∧
      ∃ s t, f.listing = .ok s ∧ g.listing = .ok t ∧
        (s = t ↔ f.rewrite .shown = g.rewrite .shown) := by
  have hf := listable_dropping (.ofLocal ⟨1, some "x"⟩) ⟨0x7ff8000000000001⟩
  have hg := listable_dropping (.ofParam ⟨1, some "x"⟩) ⟨0xfff8000000000000⟩
  have hfnames : (dropping (.ofLocal ⟨1, some "x"⟩) ⟨0x7ff8000000000001⟩).NamesAvoid delimiters :=
    namesAvoid_dropping (by decide) (by decide)
  have hgnames : (dropping (.ofParam ⟨1, some "x"⟩) ⟨0xfff8000000000000⟩).NamesAvoid delimiters :=
    namesAvoid_dropping (by decide) (by decide)
  exact ⟨⟨hf, hg, hfnames, hgnames⟩, listing_eq_iff_shown hf hg hfnames hgnames⟩

end Function
end JoinIR
