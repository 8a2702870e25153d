/-
# JoinIR.Proofs.Scope — binders come before what they bind

Scoping is lexical: the local of a `letIn` is visible in its body only, the local of a `tryCatch`
and the parameters of a join point in the handler only, and the label of a join point in its body
only. A walk is linear. `bound_before_used` relates the two by addresses on a trail: wherever a
local is read or assigned in the scope of a binder, that binder's event has happened before, and
it has happened after everything in the operand that is outside its scope; a label is used only
after its join point was met.

So a body in which every local is used in scope finds all of them in its table of slots, with the
type that the innermost binder gives.
-/
import Mathlib.Data.Nat.Find
import JoinIR.Proofs.Declarations.Occurring
import JoinIR.Proofs.Trail

namespace JoinIR

namespace Term

/-! ## Binding and using -/

/-- A node binds a local with a type: the binding is its part number `i`, and the local is visible
in part number `j` only. -/
inductive Binds : {σ : Kind} → Term σ → Local → Ty → (i j : Nat) → Prop
  | letIn {x ty} {d b : Value} : Binds (.letIn x ty d b) x ty 1 2
  | thrown {ty x xty} {b h : Value} : Binds (.tryCatch ty b x xty h) x xty 1 2
  | param {k ps x ty} {h b : Value} : ⟨some x, ty⟩ ∈ ps → Binds (.letCont k ps h b) x ty 0 1
  | paramTail {k ps x ty} {h b : Tail} :
      ⟨some x, ty⟩ ∈ ps → Binds (.letContTail k ps h b) x ty 0 1

/-- A node binds a label to a join point with `n` parameters: the join point is its part number
`i`, and the label is visible in part number `j` only. -/
inductive BindsLabel : {σ : Kind} → Term σ → Label → (n i j : Nat) → Prop
  | letCont {k ps} {h b : Value} : BindsLabel (.letCont k ps h b) k ps.length 0 2
  | letContTail {k ps} {h b : Tail} : BindsLabel (.letContTail k ps h b) k ps.length 0 2

/-- A node reads or assigns a local. -/
inductive Uses : {σ : Kind} → Term σ → Local → Prop
  | var {x} : Uses (.var (.ofLocal x)) x
  | assign {x} {a : Value} : Uses (.assign (.ofLocal x) a) x

/-- A node can jump to a label. -/
inductive Jumps : {σ : Kind} → Term σ → Label → Prop
  | applyCont {k vs} : Jumps (.applyCont k vs) k
  | brOnCast {a h k e} : Jumps (.brOnCast a h k e) k
  | brIf {c k e} : Jumps (.brIf c k e) k
  | brWhen {c k} : Jumps (.brWhen c k) k
  | case {i ks d k} : k ∈ ks → Jumps (.brTable i ks d) k
  | default {i ks k} : Jumps (.brTable i ks k) k
  | br {k a} : Jumps (.br k a) k
  | brBare {k} : Jumps (.brBare k) k

/-! ## Scopes as addresses -/

section Scopes

variable {σ : Kind} (t : Term σ)

/-- The address `q` lies in the scope of the local `y`, which the node at `p` binds in its part
`i`. -/
def Encloses (p : Address) (i : Nat) (y : Local) (ty : Ty) (q : Address) : Prop :=
  ∃ (τ : Kind) (u : Term τ) (j : Nat) (r : Address),
    t.at? p = some ⟨τ, u⟩ ∧ u.Binds y ty i j ∧ q = p ++ j :: r

/-- The address `q` lies in the scope of the label of the join point that is part `i` of the node
at `p`. -/
def EnclosesLabel (p : Address) (i : Nat) (k : Label) (n : Nat) (q : Address) : Prop :=
  ∃ (τ : Kind) (u : Term τ) (j : Nat) (r : Address),
    t.at? p = some ⟨τ, u⟩ ∧ u.BindsLabel k n i j ∧ q = p ++ j :: r

/-- No other binder of the local that has `q` in its scope lies deeper than the one at `p`. -/
def Innermost (x : Local) (p : Address) (i : Nat) (y : Local) (ty : Ty) (q : Address) : Prop :=
  (t.Encloses p i y ty q ∧ y == x) ∧
    ∀ p' i' y' ty', t.Encloses p' i' y' ty' q → y' == x → p'.length ≤ p.length

/-- Every use of a local in the term lies in the scope of a binder of it. -/
def Scoped : Prop :=
  ∀ q x {τ : Kind} (u : Term τ), t.at? q = some ⟨τ, u⟩ → u.Uses x →
    ∃ p i y ty, t.Encloses p i y ty q ∧ y == x

end Scopes

/-! ## Binding events -/

theorem bind_mem_tourParams {x : Local} {ty : Ty} {ps : List ContParam}
    (h : ⟨some x, ty⟩ ∈ ps) : Event.bind x ty ∈ tourParams ps := by
  induction ps with
  | nil => simp at h
  | cons p rest ih =>
    obtain ⟨y, yty⟩ := p
    rcases List.mem_cons.mp h with heq | hrest
    · cases heq
      exact List.mem_cons_self
    · cases y with
      | none => exact ih hrest
      | some y => exact List.mem_cons_of_mem _ (ih hrest)

variable {σ : Kind} {u : Term σ} {i j n : Nat}

theorem Binds.lt {x : Local} {ty : Ty} (h : u.Binds x ty i j) : i < j := by
  cases h <;> decide

/-- The binding of a local is an event of the binding part. -/
theorem Binds.mem_trail {x : Local} {ty : Ty} (h : u.Binds x ty i j) :
    ([i], .bind x ty) ∈ u.trail := by
  cases h with
  | letIn | thrown => exact mem_trail_of_part 1 (.bind x ty) rfl List.mem_cons_self
  | @param k ps _ _ _ _ hp =>
    apply mem_trail_of_part 0 (.join k ps) rfl
    exact List.mem_map.mpr ⟨_, List.mem_cons_of_mem _ (bind_mem_tourParams hp), rfl⟩
  | @paramTail k ps _ _ _ _ hp =>
    apply mem_trail_of_part 0 (.join k ps) rfl
    exact List.mem_map.mpr ⟨_, List.mem_cons_of_mem _ (bind_mem_tourParams hp), rfl⟩

theorem BindsLabel.lt {k : Label} (h : u.BindsLabel k n i j) : i < j := by
  cases h <;> decide

/-- The join point of a label is an event of the binding part. -/
theorem BindsLabel.mem_trail {k : Label} (h : u.BindsLabel k n i j) :
    ([i], .join k n) ∈ u.trail := by
  cases h with
  | @letCont k ps =>
    apply mem_trail_of_part 0 (.join k ps) rfl
    exact List.mem_map.mpr ⟨_, List.mem_cons_self, rfl⟩
  | @letContTail k ps =>
    apply mem_trail_of_part 0 (.join k ps) rfl
    exact List.mem_map.mpr ⟨_, List.mem_cons_self, rfl⟩

end Term

/-! ## Order -/

/-- On the list every event with the first property stands before every one with the second. -/
def Precede (l : List (Address × Event)) (A B : Address × Event → Prop) : Prop :=
  ∀ (a b : Nat) (d e : Address × Event), l[a]? = some d → l[b]? = some e → A d → B e → a < b

/-- On a trail what happens at an earlier part of a node precedes what happens at a later one. -/
theorem Term.precede_trail {σ : Kind} (t : Term σ) (p : Address) {i j : Nat} (h : i < j)
    (r s : Address) :
    Precede t.trail (fun d => (p ++ i :: r) <+: d.1) fun e => (p ++ j :: s) <+: e.1 := by
  intro a b d e ha hb hda heb
  obtain ⟨r', hd⟩ := hda
  obtain ⟨s', he⟩ := heb
  apply lt_of_before ha hb
  rw [← hd, ← he, List.append_assoc, List.append_assoc]
  exact Address.before_append p h _ _

theorem Precede.mono {l : List (Address × Event)} {A A' B B' : Address × Event → Prop}
    (h : Precede l A B) (hA : ∀ d, A' d → A d) (hB : ∀ e, B' e → B e) : Precede l A' B' :=
  fun a b d e ha hb hd he => h a b d e ha hb (hA d hd) (hB e he)

/-! ## The table of a scoped body -/

/-- What a binder binds, the body declares. -/
theorem Body.declares_of_encloses {mode : Mode} {b : Body} {p q : Address} {i : Nat} {y : Local}
    {ty : Ty} (h : b.term.Encloses p i y ty q) : b.Declares mode (.ofLocal y) ty := by
  obtain ⟨τ, u, j, r, hp, hbinds, -⟩ := h
  refine ⟨τ, u, Term.subterm_of_at? hp, ?_⟩
  cases hbinds with
  | letIn => exact .letIn
  | thrown => exact .thrown
  | param h => exact .param h
  | paramTail h => exact .paramTail h

theorem Slot.ofLocal_beq {x y : Local} (h : y == x) : Slot.ofLocal y == Slot.ofLocal x :=
  Slot.beq_iff.mpr ⟨rfl, Handle.beq_iff.mp h⟩

/-- In the table of an accepted body the local of a binder has the type that the binder gives. -/
theorem Body.entry_of_encloses {mode : Mode} {b : Body} {table : SlotTable}
    (hok : (b.declarations mode).outcome = .ok table) {p q : Address} {i : Nat} {x y : Local}
    {ty : Ty} (h : b.term.Encloses p i y ty q) (hy : y == x) :
    (∃ e ∈ table.toList, e.1 == .ofLocal x) ∧
      ∀ e ∈ table.toList, e.1 == .ofLocal x → ty = e.2 := by
  have hreflects : Reflects table (b.declared mode) := (Body.reflects_of_ok hok).1
  have hcoherent := (Body.reflects_of_ok hok).2
  have hmem : (.ofLocal y, ty) ∈ b.declared mode :=
    Body.mem_declared_iff.mpr (Body.declares_of_encloses h)
  have hslot : Slot.ofLocal y == .ofLocal x := Slot.ofLocal_beq hy
  constructor
  · obtain ⟨e, he, hey⟩ := hreflects.exists_entry hmem
    exact ⟨e, he, BEq.trans hey hslot⟩
  · intro e he hex
    exact hcoherent _ hmem e (hreflects.mem_of_mem_toList he) (BEq.trans hslot (BEq.symm hex))

/-- If a local has a binder with `q` in its scope, it has an innermost one. -/
theorem Term.exists_innermost {σ : Kind} {t : Term σ} {x : Local} {q : Address}
    (h : ∃ p i y ty, t.Encloses p i y ty q ∧ y == x) : ∃ p i y ty, t.Innermost x p i y ty q := by
  -- a binder lies above `q`, so its depth is bounded and the deepest one exists
  let depth (n : Nat) : Prop := ∃ p i y ty, (t.Encloses p i y ty q ∧ y == x) ∧ p.length = n
  have hbound : ∀ n, depth n → n ≤ q.length := by
    rintro n ⟨p, i, y, ty, ⟨⟨_, _, j, r, -, -, rfl⟩, -⟩, rfl⟩
    simp
  obtain ⟨p, i, y, ty, hy⟩ := h
  have hdepth : depth p.length := ⟨p, i, y, ty, hy, rfl⟩
  obtain ⟨n, ⟨p, i, y, ty, hy, rfl⟩, hmax⟩ :
      ∃ n, depth n ∧ ∀ m, depth m → m ≤ n := by
    classical
    refine ⟨Nat.findGreatest depth q.length, Nat.findGreatest_spec (hbound _ hdepth) hdepth, ?_⟩
    intro m hm
    exact Nat.le_findGreatest (hbound m hm) hm
  exact ⟨p, i, y, ty, hy, fun p' i' y' ty' h' hy' => hmax _ ⟨p', i', y', ty', ⟨h', hy'⟩, rfl⟩⟩

/-- Lexical scoping and the order of a walk agree. In every term, wherever a local is used in the
scope of a binder, the event of that binder precedes every event of the use and follows every
event of the binder's parts before it; and wherever a label is used in the scope of a join point,
the event of that join point precedes every event of the use. Consequently a scoped body that the
analysis accepts has an entry for every local that it uses, with the type that every binder around
the use gives, the innermost one among them. -/
theorem bound_before_used :
    (∀ {σ : Kind} (t : Term σ), t.trail.map Prod.snd = (Recording.complete.run t).1 ∧
      (∀ q x {τ : Kind} (u : Term τ), t.at? q = some ⟨τ, u⟩ → u.Uses x →
        (q, .enter u.caption) ∈ t.trail ∧
        ∀ p i y ty, t.Encloses p i y ty q → y == x →
          (p ++ [i], .bind y ty) ∈ t.trail ∧
          Precede t.trail (· = (p ++ [i], .bind y ty)) (fun e => q <+: e.1) ∧
          ∀ l < i, Precede t.trail (fun e => (p ++ [l]) <+: e.1) (· = (p ++ [i], .bind y ty))) ∧
      (∀ q k {τ : Kind} (u : Term τ), t.at? q = some ⟨τ, u⟩ → u.Jumps k →
        (q, .enter u.caption) ∈ t.trail ∧
        ∀ p i k' n, t.EnclosesLabel p i k' n q → k' == k →
          (p ++ [i], .join k' n) ∈ t.trail ∧
          Precede t.trail (· = (p ++ [i], .join k' n)) (fun e => q <+: e.1))) ∧
    ∀ (mode : Mode) (b : Body) (table : SlotTable),
      b.term.Scoped → (b.declarations mode).outcome = .ok table →
        ∀ q x {τ : Kind} (u : Term τ), b.term.at? q = some ⟨τ, u⟩ → u.Uses x →
          ∃ e ∈ table.toList, e.1 == .ofLocal x ∧
            (∃ p i y, b.term.Innermost x p i y e.2 q) ∧
            ∀ p i y ty, b.term.Encloses p i y ty q → y == x → ty = e.2 := by
  refine ⟨fun t => ⟨t.map_snd_trail, ?_, ?_⟩, ?_⟩
  -- uses of locals: the scope is a later part of the node that binds
  · intro q x τ u hq _
    refine ⟨Term.enter_mem_trail hq, ?_⟩
    rintro p i y ty ⟨ρ, v, j, r, hp, hbinds, rfl⟩ _
    refine ⟨Term.mem_trail_of_at? hp hbinds.mem_trail, ?_, fun l hl => ?_⟩
    · refine (t.precede_trail p hbinds.lt [] r).mono ?_ fun e he => he
      rintro d rfl
      exact List.prefix_rfl
    · refine (t.precede_trail p hl [] []).mono (fun d hd => hd) ?_
      rintro e rfl
      exact List.prefix_rfl
  -- jumps to labels
  · intro q k τ u hq _
    refine ⟨Term.enter_mem_trail hq, ?_⟩
    rintro p i k' n ⟨ρ, v, j, r, hp, hbinds, rfl⟩ _
    refine ⟨Term.mem_trail_of_at? hp hbinds.mem_trail, ?_⟩
    refine (t.precede_trail p hbinds.lt [] r).mono ?_ fun e he => he
    rintro d rfl
    exact List.prefix_rfl
  -- the table: all binders of a local gave it one type, so the innermost does not stand out
  · intro mode b table hscoped hok q x τ u hq huses
    obtain ⟨p, i, y, ty, hinner⟩ := Term.exists_innermost (hscoped q x u hq huses)
    obtain ⟨⟨e, he, hex⟩, htype⟩ := Body.entry_of_encloses hok hinner.1.1 hinner.1.2
    obtain rfl := htype e he hex
    refine ⟨e, he, hex, ⟨p, i, y, hinner⟩, fun p' i' y' ty' h' hy' => ?_⟩
    exact (Body.entry_of_encloses hok h' hy').2 e he hex

end JoinIR
