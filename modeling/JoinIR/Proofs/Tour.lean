/-
# JoinIR.Proofs.Tour — a recording is an Euler tour

With the binding events left out, a complete recording walks around the tree of a term: it passes
every node twice, once on the way down and once on the way up. `Term.bracketTrail` is the recording
with the address of the node to which each bracket belongs, and `BracketPair` says where on it a
node has its two brackets and that between them stands what is below the node, nothing more and
nothing less.

That every node has such a pair follows from two decompositions. The trail of a term is its own
brackets around those of its children, numbered from the left (`Term.bracketTrail_eq`); and the
trail of a subterm stands as it is inside the trail of the term (`Term.exists_bracketTrail_at?`).
-/
import JoinIR.Proofs.Shape

namespace JoinIR

/-! ## Brackets with their addresses -/

/-- The brackets of a term, each with the address of its node. -/
def Term.bracketTrail {σ : Kind} (t : Term σ) : List (Address × Event) :=
  t.trail.filter fun e => e.2.isBracket

/-- The brackets of a part, with addresses that start at the part. -/
def Part.bracketTrail : Part → List (Address × Event)
  | child t => t.bracketTrail
  | bind .. | join .. => []

theorem filter_stamp (p : Event → Bool) (n : Nat) (ls : List (List (Address × Event))) :
    (stamp n ls).filter (fun e => p e.2) = stamp n (ls.map fun l => l.filter fun e => p e.2) := by
  induction ls generalizing n with
  | nil => rfl
  | cons l rest ih =>
    rw [stamp, List.filter_append, List.filter_map, ih]
    rfl

theorem Part.filter_trail (p : Part) :
    p.trail.filter (fun e => e.2.isBracket) = p.bracketTrail := by
  cases p with
  | child t => rfl
  | bind x ty => rfl
  | join k ps =>
    have hnone : brackets (Term.tourJoin k ps) = [] := Term.brackets_tourParams ps
    rw [trail, List.filter_map]
    exact List.map_eq_nil_iff.mpr hnone

namespace Term

/-- The brackets of a term are those of its root around those of its children, from the left. -/
theorem bracketTrail_eq {σ : Kind} (t : Term σ) :
    t.bracketTrail = ([], .enter t.caption) ::
      (stamp 0 (t.parts.map Part.bracketTrail) ++ [([], .leave t.caption)]) := by
  have hparts : (t.parts.map Part.trail).map (fun l => l.filter fun e => e.2.isBracket)
      = t.parts.map Part.bracketTrail := by
    rw [List.map_map]
    exact List.map_congr_left fun p _ => p.filter_trail
  rw [bracketTrail, trail_eq, List.cons_append, List.filter_cons_of_pos rfl, List.filter_append,
    filter_stamp, hparts]
  rfl

/-- Without the addresses the brackets are those of the complete recording. -/
theorem map_snd_bracketTrail {σ : Kind} (t : Term σ) :
    t.bracketTrail.map Prod.snd = brackets (Recording.complete.run t).1 := by
  rw [← map_snd_trail, brackets, List.filter_map]
  rfl

theorem ordered_bracketTrail {σ : Kind} (t : Term σ) : Ordered t.bracketTrail :=
  List.Pairwise.filter _ t.ordered_trail

/-- Every bracket is that of entering or of leaving a node of the term. -/
theorem node_of_mem_bracketTrail {σ : Kind} (t : Term σ) {q : Address} {e : Event}
    (he : (q, e) ∈ t.bracketTrail) :
    ∃ (τ : Kind) (u : Term τ), t.at? q = some ⟨τ, u⟩ ∧
      (e = .enter u.caption ∨ e = .leave u.caption) := by
  induction t using Term.parts_induction generalizing q with
  | step t ih =>
    rw [bracketTrail_eq, List.mem_cons, List.mem_append, List.mem_singleton] at he
    rcases he with heq | hmem | heq
    · cases heq
      exact ⟨_, t, rfl, .inl rfl⟩
    · obtain ⟨i, l, ⟨q', e'⟩, hl, hd, heq⟩ := of_mem_stamp hmem
      cases heq
      rw [List.getElem?_map, Option.map_eq_some_iff] at hl
      obtain ⟨p, hp, rfl⟩ := hl
      cases p with
      | child c =>
        obtain ⟨τ, u, hu, hcaption⟩ := ih c (List.mem_of_getElem? hp) hd
        refine ⟨τ, u, ?_, hcaption⟩
        rw [Nat.zero_add, at?, hp]
        exact hu
      | bind | join => cases hd
    · cases heq
      exact ⟨_, t, rfl, .inr rfl⟩

end Term

/-! ## What stands inside -/

/-- One of the lists stands as it is inside the stamped ones, between those before it and those
after it. -/
theorem exists_stamp_eq {n i : Nat} {ls : List (List (Address × Event))}
    {l : List (Address × Event)} (hl : ls[i]? = some l) :
    ∃ before after,
      stamp n ls = before ++ (l.map fun e => ((n + i) :: e.1, e.2)) ++ after ∧
        (∀ e ∈ before, ∃ j q, j < n + i ∧ e.1 = j :: q) ∧
        ∀ e ∈ after, ∃ j q, n + i < j ∧ e.1 = j :: q := by
  induction ls generalizing n i with
  | nil => simp at hl
  | cons l' rest ih =>
    cases i with
    | zero =>
      obtain rfl : l' = l := by simpa using hl
      refine ⟨[], stamp (n + 1) rest, by simp [stamp], by simp, fun e he => ?_⟩
      obtain ⟨j, q, hj, hq⟩ := head_of_mem_stamp he
      exact ⟨j, q, by omega, hq⟩
    | succ i =>
      obtain ⟨before, after, hstamp, hbefore, hafter⟩ :=
        ih (n := n + 1) (i := i) (by simpa using hl)
      rw [show n + 1 + i = n + (i + 1) by omega] at hstamp hbefore hafter
      refine ⟨l'.map (fun e => (n :: e.1, e.2)) ++ before, after, ?_, ?_, hafter⟩
      · rw [stamp, hstamp]
        simp only [List.append_assoc]
      · rw [List.forall_mem_append]
        refine ⟨fun e he => ?_, hbefore⟩
        obtain ⟨d, -, rfl⟩ := List.mem_map.mp he
        exact ⟨n, d.1, by omega, rfl⟩

/-- The brackets of a subterm stand as they are inside those of the term, and all other brackets
belong to nodes outside it. -/
theorem Term.exists_bracketTrail_at? {σ τ : Kind} {t : Term σ} {u : Term τ} {p : Address}
    (hp : t.at? p = some ⟨τ, u⟩) :
    ∃ l r, t.bracketTrail = l ++ (u.bracketTrail.map fun e => (p ++ e.1, e.2)) ++ r ∧
      (∀ e ∈ l, ¬ p <+: e.1) ∧ ∀ e ∈ r, ¬ p <+: e.1 := by
  induction p generalizing σ with
  | nil =>
    rw [at?] at hp
    cases hp
    exact ⟨[], [], by simp, by simp, by simp⟩
  | cons i p ih =>
    rw [at?] at hp
    split at hp
    next c hpart =>
      obtain ⟨l, r, hc, hl, hr⟩ := ih hp
      have hparts : (t.parts.map Part.bracketTrail)[i]? = some c.bracketTrail := by
        rw [List.getElem?_map, hpart]
        rfl
      obtain ⟨before, after, hstamp, hbefore, hafter⟩ := exists_stamp_eq (n := 0) hparts
      rw [Nat.zero_add] at hstamp hbefore hafter
      -- the brackets of the root and of the other children, and those around `u` in its own child
      refine ⟨([], .enter t.caption) :: (before ++ l.map fun e => (i :: e.1, e.2)),
        r.map (fun e => (i :: e.1, e.2)) ++ (after ++ [([], .leave t.caption)]), ?_, ?_, ?_⟩
      · rw [bracketTrail_eq, hstamp, hc]
        simp [Function.comp_def]
      · rw [List.forall_mem_cons, List.forall_mem_append]
        refine ⟨by simp, fun e he habove => ?_, fun e he habove => ?_⟩
        · obtain ⟨j, q, hj, hq⟩ := hbefore e he
          rw [hq, List.cons_prefix_cons] at habove
          omega
        · obtain ⟨d, hd, rfl⟩ := List.mem_map.mp he
          exact hl d hd (List.cons_prefix_cons.mp habove).2
      · rw [List.forall_mem_append, List.forall_mem_append, List.forall_mem_singleton]
        refine ⟨fun e he habove => ?_, fun e he habove => ?_, by simp⟩
        · obtain ⟨d, hd, rfl⟩ := List.mem_map.mp he
          exact hr d hd (List.cons_prefix_cons.mp habove).2
        · obtain ⟨j, q, hj, hq⟩ := hafter e he
          rw [hq, List.cons_prefix_cons] at habove
          omega
    next => cases hp

/-! ## The two brackets of a node -/

/-- On the list the node at `p` is entered at place `a` and left at place `b`. Nothing else on the
list belongs to it, and between the two places stands exactly what belongs to the nodes below. -/
structure BracketPair (l : List (Address × Event)) (p : Address) (c : Caption) (a b : Nat) :
    Prop where
  lt : a < b
  enter : l[a]? = some (p, .enter c)
  leave : l[b]? = some (p, .leave c)
  sole : ∀ k e, l[k]? = some (p, e) → k = a ∨ k = b
  between : ∀ k q e, l[k]? = some (q, e) → (a < k ∧ k < b ↔ p <+: q ∧ q ≠ p)

/-- Where on a list with two marked places something stands. -/
theorem place_cases {α : Type} {l m r : List α} {x y z : α} {k : Nat}
    (h : (l ++ x :: (m ++ y :: r))[k]? = some z) :
    (k < l.length ∧ z ∈ l) ∨ (k = l.length ∧ z = x) ∨
      (l.length < k ∧ k < l.length + m.length + 1 ∧ z ∈ m) ∨
      (k = l.length + m.length + 1 ∧ z = y) ∨ (l.length + m.length + 1 < k ∧ z ∈ r) := by
  rw [List.getElem?_append] at h
  split at h
  next hk => exact .inl ⟨hk, List.mem_of_getElem? h⟩
  next hk =>
    cases hj : k - l.length with
    | zero =>
      rw [hj] at h
      exact .inr (.inl ⟨by omega, (Option.some.inj h).symm⟩)
    | succ j =>
      rw [hj, List.getElem?_cons_succ, List.getElem?_append] at h
      split at h
      next hm => exact .inr (.inr (.inl ⟨by omega, by omega, List.mem_of_getElem? h⟩))
      next hm =>
        cases hi : j - m.length with
        | zero =>
          rw [hi] at h
          exact .inr (.inr (.inr (.inl ⟨by omega, (Option.some.inj h).symm⟩)))
        | succ i =>
          rw [hi, List.getElem?_cons_succ] at h
          exact .inr (.inr (.inr (.inr ⟨by omega, List.mem_of_getElem? h⟩)))

namespace BracketPair

theorem of_split {l m r : List (Address × Event)} {p : Address} (c : Caption)
    (hl : ∀ e ∈ l, ¬ p <+: e.1) (hm : ∀ e ∈ m, p <+: e.1 ∧ e.1 ≠ p) (hr : ∀ e ∈ r, ¬ p <+: e.1) :
    BracketPair (l ++ (p, .enter c) :: (m ++ (p, .leave c) :: r)) p c l.length
      (l.length + m.length + 1) where
  lt := by omega
  enter := by simp
  leave := by
    rw [List.getElem?_append_right (by omega),
      show l.length + m.length + 1 - l.length = m.length + 1 by omega, List.getElem?_cons_succ,
      List.getElem?_append_right (by omega), Nat.sub_self]
    rfl
  sole k e h := by
    rcases place_cases h with ⟨-, he⟩ | ⟨hk, -⟩ | ⟨-, -, he⟩ | ⟨hk, -⟩ | ⟨-, he⟩
    · exact absurd List.prefix_rfl (hl _ he)
    · exact .inl hk
    · exact absurd rfl (hm _ he).2
    · exact .inr hk
    · exact absurd List.prefix_rfl (hr _ he)
  between k q e h := by
    rcases place_cases h with ⟨hk, he⟩ | ⟨hk, he⟩ | ⟨hk, hk', he⟩ | ⟨hk, he⟩ | ⟨hk, he⟩
    · exact ⟨fun _ => by omega, fun hq => absurd hq.1 (hl _ he)⟩
    · cases he
      exact ⟨fun _ => by omega, fun hq => absurd rfl hq.2⟩
    · exact ⟨fun _ => hm _ he, fun _ => ⟨hk, hk'⟩⟩
    · cases he
      exact ⟨fun _ => by omega, fun hq => absurd rfl hq.2⟩
    · exact ⟨fun _ => by omega, fun hq => absurd hq.1 (hr _ he)⟩

variable {l : List (Address × Event)} {p q : Address} {c d : Caption} {a b a' b' : Nat}

/-- A node has its brackets at two places only. -/
theorem unique (h : BracketPair l p c a b) (h' : BracketPair l p d a' b') : a = a' ∧ b = b' := by
  have hlt := h.lt
  have hlt' := h'.lt
  rcases h.sole _ _ h'.enter with rfl | rfl <;> rcases h.sole _ _ h'.leave with rfl | rfl <;> omega

/-- The brackets of a node stand between those of another exactly if it lies below that one. -/
theorem inside_iff (h : BracketPair l p c a b) (h' : BracketPair l q d a' b') :
    a < a' ∧ b' < b ↔ p <+: q ∧ q ≠ p := by
  have hlt := h'.lt
  have henter := h.between _ _ _ h'.enter
  have hleave := h.between _ _ _ h'.leave
  constructor
  · rintro ⟨ha, hb⟩
    exact henter.mp ⟨ha, by omega⟩
  · intro hq
    exact ⟨(henter.mpr hq).1, (hleave.mpr hq).2⟩

/-- The brackets of a child stand between those of its parent, and whatever stands around the
brackets of the child is the parent or stands around the parent too. -/
theorem child_inside {i : Nat} (h : BracketPair l p c a b)
    (h' : BracketPair l (p ++ [i]) d a' b') :
    (a < a' ∧ b' < b) ∧
      ∀ q e a₀ b₀, BracketPair l q e a₀ b₀ → a₀ < a' → b' < b₀ → a₀ ≤ a ∧ b ≤ b₀ := by
  refine ⟨(h.inside_iff h').mpr ⟨List.prefix_append p [i], by simp⟩, ?_⟩
  intro q e a₀ b₀ h₀ ha hb
  obtain ⟨habove, hne⟩ := (h₀.inside_iff h').mp ⟨ha, hb⟩
  -- a proper prefix of the address of the child is one of that of the parent
  have hq : q <+: p := by
    rcases List.prefix_concat_iff.mp habove with heq | hq
    · exact absurd heq.symm hne
    · exact hq
  by_cases heq : q = p
  · subst heq
    obtain ⟨rfl, rfl⟩ := h₀.unique h
    exact ⟨Nat.le_refl _, Nat.le_refl _⟩
  · have houter := (h₀.inside_iff h).mpr ⟨hq, Ne.symm heq⟩
    omega

/-- On an ordered list siblings have their brackets one after the other. -/
theorem siblings_ordered (hl : Ordered l) {i j : Nat} (hij : i < j)
    (h : BracketPair l (p ++ [i]) c a b) (h' : BracketPair l (p ++ [j]) d a' b') : b < a' :=
  hl.lt_of_before h.leave h'.enter (Address.before_append p hij [] [])

end BracketPair

namespace Term

/-- The brackets of a term, opened up at its root. -/
theorem bracketPair_root {σ : Kind} (t : Term σ) :
    BracketPair t.bracketTrail [] t.caption 0 (t.bracketTrail.length - 1) := by
  have hinside : ∀ e ∈ stamp 0 (t.parts.map Part.bracketTrail), [] <+: e.1 ∧ e.1 ≠ [] := by
    intro e he
    obtain ⟨i, q, -, hq⟩ := head_of_mem_stamp he
    exact ⟨List.nil_prefix, by simp [hq]⟩
  have hpair := BracketPair.of_split (l := []) (r := []) t.caption (by simp) hinside (by simp)
  have hlength : t.bracketTrail.length - 1
      = ([] : List (Address × Event)).length
        + (stamp 0 (t.parts.map Part.bracketTrail)).length + 1 := by
    rw [bracketTrail_eq]
    simp
  rw [hlength, bracketTrail_eq]
  exact hpair

/-- Every node of a term has its two brackets. -/
theorem exists_bracketPair {σ τ : Kind} {t : Term σ} {u : Term τ} {p : Address}
    (hp : t.at? p = some ⟨τ, u⟩) : ∃ a b, BracketPair t.bracketTrail p u.caption a b := by
  obtain ⟨l, r, hsplit, hl, hr⟩ := exists_bracketTrail_at? hp
  let inner := (stamp 0 (u.parts.map Part.bracketTrail)).map fun e => (p ++ e.1, e.2)
  have hinner : ∀ e ∈ inner, p <+: e.1 ∧ e.1 ≠ p := by
    intro e he
    obtain ⟨d, hd, rfl⟩ := List.mem_map.mp he
    obtain ⟨i, q, -, hq⟩ := head_of_mem_stamp hd
    exact ⟨List.prefix_append p d.1, by simp [hq]⟩
  have htrail : t.bracketTrail
      = l ++ (p, .enter u.caption) :: (inner ++ (p, .leave u.caption) :: r) := by
    rw [hsplit, bracketTrail_eq u]
    simp [inner]
  rw [htrail]
  exact ⟨_, _, BracketPair.of_split u.caption hl hinner hr⟩

end Term

/-! ## Recordings -/

/-- A complete recording, without its binding events, is an Euler tour of the tree of the term.
It is well-bracketed, its first and its last event are those of the root, and every event in it
is that of entering or of leaving some node. Every node is entered once and left once, and between
the two stands exactly what is below it, so that the brackets of a node stand directly inside those
of its parent; and siblings follow each other in evaluation order. Two recordings with the same
texts have brackets with the same texts, and these tell at which addresses a term has nodes and
which constructs stand there. -/
theorem recording_is_euler_tour {σ : Kind} (t : Term σ) :
    t.bracketTrail.map Prod.snd = brackets (Recording.complete.run t).1 ∧
      WellBracketed (brackets (Recording.complete.run t).1) ∧
      BracketPair t.bracketTrail [] t.caption 0 (t.bracketTrail.length - 1) ∧
      (∀ q e, (q, e) ∈ t.bracketTrail → ∃ (τ : Kind) (u : Term τ), t.at? q = some ⟨τ, u⟩ ∧
        (e = .enter u.caption ∨ e = .leave u.caption)) ∧
      (∀ p {τ : Kind} (u : Term τ), t.at? p = some ⟨τ, u⟩ →
        ∃ a b, BracketPair t.bracketTrail p u.caption a b) ∧
      (∀ p i c d a b a' b', BracketPair t.bracketTrail p c a b →
        BracketPair t.bracketTrail (p ++ [i]) d a' b' → (a < a' ∧ b' < b) ∧
          ∀ q e a₀ b₀, BracketPair t.bracketTrail q e a₀ b₀ → a₀ < a' → b' < b₀ →
            a₀ ≤ a ∧ b ≤ b₀) ∧
      (∀ p i j c d a b a' b', i < j → BracketPair t.bracketTrail (p ++ [i]) c a b →
        BracketPair t.bracketTrail (p ++ [j]) d a' b' → b < a') ∧
      ∀ {τ : Kind} (u : Term τ),
        ((Recording.complete.run t).1.map Event.text = (Recording.complete.run u).1.map Event.text →
          (brackets (Recording.complete.run t).1).map Event.text
            = (brackets (Recording.complete.run u).1).map Event.text) ∧
        ((brackets (Recording.complete.run t).1).map Event.text
            = (brackets (Recording.complete.run u).1).map Event.text →
          ∀ p, (t.at? p).map Term.construct = (u.at? p).map Term.construct) := by
  have hevents {ρ : Kind} (v : Term ρ) : (Recording.complete.run v).1 = v.tour := by
    rw [Recording.run_complete]
  refine ⟨t.map_snd_bracketTrail, ?_, t.bracketPair_root, fun q e => t.node_of_mem_bracketTrail,
    fun p τ u => Term.exists_bracketPair, fun p i c d a b a' b' h => h.child_inside,
    fun p i j c d a b a' b' hij => BracketPair.siblings_ordered t.ordered_bracketTrail hij,
    fun u => ⟨fun htexts => ?_, fun htexts p => ?_⟩⟩
  · rw [hevents, t.brackets_tour]
    exact t.shape.wellBracketed_word
  · rw [hevents, hevents] at htexts ⊢
    rw [brackets_eq_of_texts_eq t.plain_of_mem_tour u.plain_of_mem_tour htexts]
  -- the texts give the brackets, these the shape, and the shape the constructs
  · rw [hevents, hevents] at htexts
    have hbrackets : brackets (brackets t.tour) = brackets (brackets u.tour) :=
      brackets_eq_of_texts_eq (fun e he => t.plain_of_mem_tour e (List.mem_of_mem_filter he))
        (fun e he => u.plain_of_mem_tour e (List.mem_of_mem_filter he)) htexts
    have hword : t.shape.word = u.shape.word := by
      simpa [brackets, ← Term.brackets_tour] using hbrackets
    exact Term.construct_at?_eq (Shape.word_inj hword) p

end JoinIR
