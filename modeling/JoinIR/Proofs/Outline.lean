/-
# JoinIR.Proofs.Outline — the listing of a node

Listing a term does the same at every node: refuse it if it has no listing, list the subterms
below it from the left, put some of them under a word of their own, and write the head of the
node above them. `Term.outline_eq_parts` says so once for all constructors, in terms of the parts
of the node; what differs between constructors is in `Term.head`, `Term.unlisted?` and `Term.arm`.
-/
import JoinIR.Proofs.Parts
import JoinIR.Term.Listing

namespace JoinIR

open Listing (Datum Outline)

namespace Term

/-! ## What differs between constructors -/

/-- Why the root has no listing, if it has none. -/
def unlisted? : {σ : Kind} → Term σ → Option Unlisted
  | _, tryCatch .. => some .tryCatch
  | _, raise _ => some .raise
  | _, _ => none

/-- The head of the root. What has no listing has no head either. -/
def head : {σ : Kind} → Term σ → List Datum
  | _, i32 n => [.word "i32.const", .word (toString n.toInt)]
  | _, i64 n => [.word "i64.const", .word (toString n.toInt)]
  | _, f64 x => [.word "f64.const", .word x.text]
  | _, refFunc f => [.word "ref.func", .word f.text]
  | _, var v => [.word "local.get", .word v.text]
  | _, letIn x ty _ _ => [.word "let", .word x.text, ty.datum]
  | _, ite ty _ _ _ => [.word "if", resultDatum ty]
  | _, binary op _ _ => [.word op.text]
  | _, unary op _ => op.words.map .word
  | _, structNew h _ => [.word "struct.new", .word h.text]
  | _, arrayNewFixed h vs =>
    [.word "array.new_fixed", .word h.text, .word (toString vs.length)]
  | _, refCast h _ => [.word "ref.cast", .word h.text]
  | _, call f _ => [.word "call", .word f.text]
  | _, callRef h _ _ => [.word "call_ref", .word h.text]
  | _, globalGet g => [.word "global.get", .word g.text]
  | _, seq _ _ => [.word "seq"]
  | _, letCont k ps _ _ => joinHead k ps
  | _, applyCont k _ => [.word "apply_cont", .word k.text]
  | _, brOnCast _ h k _ => [.word "br_on_cast", .word k.text, .word h.text]
  | _, brIf _ k _ => [.word "br_if", .word k.text]
  | _, tryCatch .. => []
  | _, raise _ => []
  | _, effect _ => [.word "effect"]
  | _, noReturn _ => [.word "no_return"]
  | _, block _ => [.word "seq"]
  | _, drop _ => [.word "drop"]
  | _, store op _ _ => op.words.map .word
  | _, assign v _ => [.word "local.set", .word v.text]
  | _, loop k _ => [.word "loop", .word k.text]
  | _, brWhen _ k => [.word "br_if", .word k.text]
  | _, iteEffect .. => [.word "if"]
  | _, nop => [.word "nop"]
  | _, letContTail k ps _ _ => joinHead k ps
  | _, iteTail .. => [.word "if"]
  | _, brTable _ ks k => .word "br_table" :: (ks.map Handle.text ++ [k.text]).map .word
  | _, br k _ => [.word "br", .word k.text]
  | _, brBare k => [.word "br", .word k.text]
  | _, unreachable => [.word "unreachable"]

/-- The words that the children of the root stand under, from the left. Children that are left
out stand under none. -/
def arms : {σ : Kind} → Term σ → List (Option String)
  | _, ite .. => [none, some "then", some "else"]
  | _, letCont .. => [some "handler", some "body"]
  | _, brOnCast .. => [none, some "else"]
  | _, brIf .. => [none, some "else"]
  | _, iteEffect .. => [none, some "then", some "else"]
  | _, letContTail .. => [some "handler", some "body"]
  | _, iteTail .. => [none, some "then", some "else"]
  | _, _ => []

/-- The word that a child of the root stands under, by the position of the child. -/
def arm {σ : Kind} (t : Term σ) (i : Nat) : Option String := t.arms[i]?.join

/-- The words that children stand under. -/
def armWords : List String := ["then", "else", "handler", "body"]

theorem arm_mem_armWords {σ : Kind} {t : Term σ} {i : Nat} {w : String}
    (h : t.arm i = some w) : w ∈ armWords := by
  have hmem : some w ∈ t.arms := List.mem_of_getElem? (Option.join_eq_some_iff.mp h)
  cases t <;> simp [arms] at hmem <;> rcases hmem with rfl | rfl <;> decide

/-- An outline under a word, if there is one. -/
def wrap : Option String → Outline → Outline
  | some word, o => under [word] [o]
  | none, o => o

/-- The outlines of the children as they stand below the head. -/
def dress {σ : Kind} (t : Term σ) (os : List Outline) : List Outline :=
  os.mapIdx fun i o => wrap (t.arm i) o

theorem length_dress {σ : Kind} (t : Term σ) (os : List Outline) :
    (t.dress os).length = os.length :=
  List.length_mapIdx

end Term

/-! ## The outline of a node, part by part -/

/-- The outline of the subterm in a part, if it is one. -/
def Part.outlines : Part → Except PrintError (List Outline)
  | child t => do
    let o ← t.outline
    pure [o]
  | _ => pure []

namespace Term

/-- The outlines of the subterms among the parts, from the left. -/
def outlineParts : List Part → Except PrintError (List Outline)
  | [] => pure []
  | p :: rest => do
    let os ← p.outlines
    let more ← outlineParts rest
    pure (os ++ more)

@[simp] theorem outlineParts_nil : outlineParts [] = pure [] := rfl

@[simp] theorem outlineParts_cons (p : Part) (rest : List Part) :
    outlineParts (p :: rest) = (do
      let os ← p.outlines
      let more ← outlineParts rest
      pure (os ++ more)) := rfl

theorem outlineParts_append (ps qs : List Part) :
    outlineParts (ps ++ qs) = (do
      let os ← outlineParts ps
      let more ← outlineParts qs
      pure (os ++ more)) := by
  induction ps with
  | nil => simp
  | cons p rest ih =>
    simp only [List.cons_append, outlineParts_cons, ih, bind_assoc, pure_bind, List.append_assoc]

theorem outlineValues_eq (vs : List Value) : outlineValues vs = outlineParts (childParts vs) := by
  induction vs with
  | nil => rw [outlineValues]; rfl
  | cons v rest ih =>
    rw [outlineValues, ih]
    simp [childParts, Part.outlines]

theorem outlineEffects_eq (es : List Effect) :
    outlineEffects es = outlineParts (childParts es) := by
  induction es with
  | nil => rw [outlineEffects]; rfl
  | cons e rest ih =>
    rw [outlineEffects, ih]
    simp [childParts, Part.outlines]

theorem mapIdx_snd (os : List Outline) : os.mapIdx (fun _ o => o) = os := by
  apply List.ext_getElem?
  intro i
  rw [List.getElem?_mapIdx, Option.map_id']

/-- A node is refused, or listed as its head above the outlines of its children. -/
theorem outline_eq_parts {σ : Kind} (t : Term σ) :
    t.outline = match t.unlisted? with
      | some construct => throw ⟨construct⟩
      | none => (do
        let os ← outlineParts t.parts
        pure (.node t.head (t.dress os))) := by
  cases t <;>
    simp [outline, unlisted?, head, parts, dress, arm, arms, Part.outlines, outlineParts_append,
      outlineValues_eq, outlineEffects_eq, mapIdx_snd, under, Outline.leaf, wrap]

/-- A node is listed as an outline if it is not refused and the outlines below it are those of
its subterms. -/
theorem outline_eq_ok_iff {σ : Kind} {t : Term σ} {o : Outline} :
    t.outline = .ok o ↔
      t.unlisted? = none ∧ ∃ os, outlineParts t.parts = .ok os ∧ .node t.head (t.dress os) = o := by
  rw [outline_eq_parts]
  cases t.unlisted? with
  | some construct => simp [throw, throwThe, MonadExceptOf.throw]
  | none => cases outlineParts t.parts <;> simp [bind, Except.bind, pure, Except.pure]

/-! ## Terms with a listing -/

theorem outlineParts_cons_eq_ok_iff {p : Part} {ps : List Part} {os : List Outline} :
    outlineParts (p :: ps) = .ok os ↔
      ∃ l m, p.outlines = .ok l ∧ outlineParts ps = .ok m ∧ os = l ++ m := by
  rw [outlineParts_cons]
  cases p.outlines <;> cases outlineParts ps <;>
    simp [bind, Except.bind, pure, Except.pure, eq_comm]

theorem outlines_child_eq_ok_iff {τ : Kind} {c : Term τ} {os : List Outline} :
    (Part.child c).outlines = .ok os ↔ ∃ o, c.outline = .ok o ∧ os = [o] := by
  rw [Part.outlines]
  cases c.outline <;> simp [bind, Except.bind, pure, Except.pure, eq_comm]

/-- There is one outline for every subterm. -/
theorem length_of_outlineParts {ps : List Part} {os : List Outline}
    (h : outlineParts ps = .ok os) : os.length = childCount ps := by
  induction ps generalizing os with
  | nil =>
    cases h
    rfl
  | cons p rest ih =>
    obtain ⟨l, m, hp, hrest, rfl⟩ := outlineParts_cons_eq_ok_iff.mp h
    cases p with
    | child c =>
      obtain ⟨o, -, rfl⟩ := outlines_child_eq_ok_iff.mp hp
      simp [ih hrest, Nat.add_comm]
    | bind | join =>
      cases hp
      simp [ih hrest]

/-- The outlines of parts are those of the subterms among them. -/
theorem exists_child_of_mem {ps : List Part} {os : List Outline} (h : outlineParts ps = .ok os) :
    ∀ o ∈ os, ∃ (τ : Kind) (c : Term τ), Part.child c ∈ ps ∧ c.outline = .ok o := by
  induction ps generalizing os with
  | nil =>
    cases h
    simp
  | cons p rest ih =>
    obtain ⟨l, m, hp, hrest, rfl⟩ := outlineParts_cons_eq_ok_iff.mp h
    intro o ho
    rcases List.mem_append.mp ho with ho | ho
    -- a part has one outline if it is a subterm, and none otherwise
    · cases p with
      | child c =>
        obtain ⟨o', hc, rfl⟩ := outlines_child_eq_ok_iff.mp hp
        obtain rfl := List.mem_singleton.mp ho
        exact ⟨_, c, List.mem_cons_self, hc⟩
      | bind | join =>
        cases hp
        cases ho
    · obtain ⟨τ, c, hc, hout⟩ := ih hrest o ho
      exact ⟨τ, c, List.mem_cons_of_mem _ hc, hout⟩

/-- Parts have outlines if the subterms among them do. -/
theorem exists_outlineParts_iff {ps : List Part} :
    (∃ os, outlineParts ps = .ok os) ↔
      ∀ {τ : Kind} (c : Term τ), Part.child c ∈ ps → ∃ o, c.outline = .ok o := by
  induction ps with
  | nil =>
    constructor
    · intro _ τ c hc
      cases hc
    · intro _
      exact ⟨[], rfl⟩
  | cons p rest ih =>
    constructor
    · rintro ⟨os, h⟩ τ c hc
      obtain ⟨l, m, hp, hrest, rfl⟩ := outlineParts_cons_eq_ok_iff.mp h
      rcases List.mem_cons.mp hc with rfl | hc
      · obtain ⟨o, ho, -⟩ := outlines_child_eq_ok_iff.mp hp
        exact ⟨o, ho⟩
      · exact ih.mp ⟨m, hrest⟩ c hc
    · intro h
      obtain ⟨m, hrest⟩ := ih.mpr fun c hc => h c (List.mem_cons_of_mem _ hc)
      have hp : ∃ l, p.outlines = .ok l := by
        cases p with
        | child c =>
          obtain ⟨o, ho⟩ := h c List.mem_cons_self
          exact ⟨[o], outlines_child_eq_ok_iff.mpr ⟨o, ho, rfl⟩⟩
        | bind | join => exact ⟨[], rfl⟩
      obtain ⟨l, hl⟩ := hp
      exact ⟨l ++ m, outlineParts_cons_eq_ok_iff.mpr ⟨l, m, hl, hrest, rfl⟩⟩

/-- Nothing in the term is refused by the listing. -/
def Listable {σ : Kind} (t : Term σ) : Prop := Everywhere (fun s => s.unlisted? = none) t

/-- A term has an outline exactly if nothing in it is refused. -/
theorem exists_outline_iff {σ : Kind} (t : Term σ) : (∃ o, t.outline = .ok o) ↔ t.Listable := by
  induction t using Term.parts_induction with
  | step t ih =>
    rw [Listable, everywhere_iff]
    constructor
    · rintro ⟨o, ho⟩
      obtain ⟨hroot, os, hos, -⟩ := outline_eq_ok_iff.mp ho
      exact ⟨hroot, fun c hc => (ih c hc).mp (exists_outlineParts_iff.mp ⟨os, hos⟩ c hc)⟩
    · rintro ⟨hroot, hchildren⟩
      obtain ⟨os, hos⟩ := exists_outlineParts_iff.mpr fun c hc => (ih c hc).mpr (hchildren c hc)
      exact ⟨_, outline_eq_ok_iff.mpr ⟨hroot, os, hos, rfl⟩⟩

end Term

/-! ## Functions -/

namespace Function

/-- A function is listed as its head above the outline of the term of its body. -/
theorem outline_eq_ok_iff {f : Function} {o : Outline} :
    f.outline = .ok o ↔ ∃ b, f.body.term.outline = .ok b ∧ .node f.head [b] = o := by
  unfold outline
  cases f.body.term.outline <;> simp [bind, Except.bind, pure, Except.pure]

theorem listing_eq_ok_iff {f : Function} {s : String} :
    f.listing = .ok s ↔ ∃ o, f.outline = .ok o ∧ o.listing = s := by
  unfold listing
  cases f.outline <;> simp [bind, Except.bind, pure, Except.pure]

/-- A function has a listing exactly if nothing in its body is refused. -/
theorem exists_listing_iff (f : Function) : (∃ s, f.listing = .ok s) ↔ f.body.term.Listable := by
  rw [← Term.exists_outline_iff]
  constructor
  · rintro ⟨s, hs⟩
    obtain ⟨o, ho, -⟩ := listing_eq_ok_iff.mp hs
    obtain ⟨b, hb, -⟩ := outline_eq_ok_iff.mp ho
    exact ⟨b, hb⟩
  · rintro ⟨b, hb⟩
    exact ⟨_, listing_eq_ok_iff.mpr ⟨_, outline_eq_ok_iff.mpr ⟨b, hb, rfl⟩, rfl⟩⟩

end Function
end JoinIR
