/-
# JoinIR.Proofs.Trail — events with the places they belong to

Two events of a recording can be equal and belong to different nodes, so statements about the
order of events need to say **where** an event happens. An address is a path of positions among
the parts of nodes, from the root down, and the trail of a term is its tour with the address of
each event: a node's own address for entering and leaving it, and the address of the binding part
for a local that is bound or a join point that is met.

Without the addresses a trail is the recorded stream (`Term.map_snd_trail`). With them the order
of a walk is a matter of addresses alone: what lies at an earlier part of a node happens before
what lies at a later part of it (`Term.lt_of_before`).
-/
import JoinIR.Proofs.Recording

namespace JoinIR

/-! ## Addresses -/

/-- A path of positions among the parts of nodes, from the root down. -/
abbrev Address := List Nat

namespace Address

/-- One address branches off to the left of the other, so that neither lies below the other. -/
def Before : Address → Address → Prop
  | i :: p, j :: q => i < j ∨ i = j ∧ Before p q
  | _, _ => False

@[simp] theorem before_cons_cons {i j : Nat} {p q : Address} :
    Before (i :: p) (j :: q) ↔ i < j ∨ i = j ∧ Before p q := by rw [Before]

@[simp] theorem not_before_nil (p : Address) : ¬ Before p [] := by cases p <;> simp [Before]

@[simp] theorem not_nil_before (p : Address) : ¬ Before [] p := by simp [Before]

theorem before_irrefl (p : Address) : ¬ Before p p := by
  induction p with
  | nil => simp
  | cons i p ih => simpa using ih

/-- Below two positions of one node, everything at the first is before everything at the second. -/
theorem before_append (p : Address) {i j : Nat} (h : i < j) (r s : Address) :
    Before (p ++ i :: r) (p ++ j :: s) := by
  induction p with
  | nil => exact before_cons_cons.mpr (.inl h)
  | cons k p ih => exact before_cons_cons.mpr (.inr ⟨rfl, ih⟩)

/-- No later in pre-order: one address is the other, lies above it, or branches off to the left
of it. -/
def NoLater (p q : Address) : Prop := p <+: q ∨ Before p q

@[simp] theorem nil_noLater (q : Address) : NoLater [] q := .inl List.nil_prefix

@[simp] theorem not_cons_noLater_nil (i : Nat) (p : Address) : ¬ NoLater (i :: p) [] := by
  simp [NoLater]

@[simp] theorem noLater_cons_cons {i j : Nat} {p q : Address} :
    NoLater (i :: p) (j :: q) ↔ i < j ∨ i = j ∧ NoLater p q := by
  rw [NoLater, NoLater, List.cons_prefix_cons, before_cons_cons, and_or_left, or_left_comm]

theorem NoLater.antisymm {p q : Address} (h : NoLater p q) (h' : NoLater q p) : p = q := by
  induction p generalizing q with
  | nil =>
    cases q with
    | nil => rfl
    | cons j q => exact absurd h' (not_cons_noLater_nil j q)
  | cons i p ih =>
    cases q with
    | nil => exact absurd h (not_cons_noLater_nil i p)
    | cons j q =>
      rw [noLater_cons_cons] at h h'
      obtain ⟨rfl, hpq⟩ : i = j ∧ NoLater p q := h.resolve_left (by omega)
      rw [ih hpq (h'.resolve_left (by omega)).2]

end Address

/-- The term at an address, if there is one. -/
def Term.at? : {σ : Kind} → Term σ → Address → Option (Sigma Term)
  | σ, t, [] => some ⟨σ, t⟩
  | _, t, i :: p =>
    match t.parts[i]? with
    | some (.child c) => c.at? p
    | _ => none

/-- A term at an address is a subterm. -/
theorem Term.subterm_of_at? {σ τ : Kind} {t : Term σ} {u : Term τ} {p : Address}
    (h : t.at? p = some ⟨τ, u⟩) : u.Subterm t := by
  induction p generalizing σ with
  | nil =>
    rw [at?] at h
    cases h
    exact .refl _
  | cons i p ih =>
    rw [at?] at h
    split at h
    next c hpart => exact .deeper (List.mem_of_getElem? hpart) (ih h)
    next => cases h

/-! ## Trails -/

/-- The lists one after the other, with its number in front of each address in a list. -/
def stamp (n : Nat) : List (List (Address × Event)) → List (Address × Event)
  | [] => []
  | l :: rest => l.map (fun e => (n :: e.1, e.2)) ++ stamp (n + 1) rest

/-- The tour of a term, each event with the address that it belongs to. -/
def Term.trail {σ : Kind} (t : Term σ) : List (Address × Event) :=
  ([], .enter t.caption) ::
    stamp 0 (t.parts.attach.map fun
      | ⟨.child c, _⟩ => c.trail
      | ⟨.bind x ty, _⟩ => [([], .bind x ty)]
      | ⟨.join k ps, _⟩ => (tourJoin k ps).map fun e => ([], e))
    ++ [([], .leave t.caption)]
termination_by sizeOf t
decreasing_by exact parts_below t _ ‹_›

/-- The events of a part, with addresses that start at the part. -/
def Part.trail : Part → List (Address × Event)
  | child t => t.trail
  | bind x ty => [([], .bind x ty)]
  | join k ps => (Term.tourJoin k ps).map fun e => ([], e)

theorem Term.trail_eq {σ : Kind} (t : Term σ) :
    t.trail = ([], .enter t.caption) :: stamp 0 (t.parts.map Part.trail)
      ++ [([], .leave t.caption)] := by
  have hparts : t.parts.map Part.trail = t.parts.attach.map fun p => p.1.trail :=
    List.attach_map_val.symm
  rw [trail, hparts]
  congr 4
  funext ⟨p, hp⟩
  cases p <;> rfl

/-! ## Without addresses -/

theorem map_snd_stamp (n : Nat) (ls : List (List (Address × Event))) :
    (stamp n ls).map Prod.snd = (ls.map fun l => l.map Prod.snd).flatten := by
  induction ls generalizing n with
  | nil => rfl
  | cons l rest ih => simp [stamp, ih, Function.comp_def]

theorem Term.map_snd_trail_eq_tour {σ : Kind} (t : Term σ) : t.trail.map Prod.snd = t.tour := by
  induction t using Term.parts_induction with
  | step t ih =>
    have hpart : ∀ p ∈ t.parts, p.trail.map Prod.snd = p.tour := by
      intro p hp
      cases p with
      | child c => exact ih c hp
      | bind x ty => rfl
      | join k ps => simp [Part.trail, Part.tour, Function.comp_def]
    have hinside : (stamp 0 (t.parts.map Part.trail)).map Prod.snd = t.inside := by
      rw [map_snd_stamp, inside_eq_parts, List.map_map, List.flatMap_def]
      exact congrArg List.flatten (List.map_congr_left hpart)
    rw [trail_eq, tour, around]
    simp [hinside]

/-- Without the addresses a trail is the complete recording. -/
theorem Term.map_snd_trail {σ : Kind} (t : Term σ) :
    t.trail.map Prod.snd = (Recording.complete.run t).1 := by
  rw [Recording.run_complete, map_snd_trail_eq_tour]

/-! ## What is on a trail -/

theorem mem_stamp {n i : Nat} {ls : List (List (Address × Event))} {l : List (Address × Event)}
    {e : Address × Event} (hl : ls[i]? = some l) (he : e ∈ l) :
    ((n + i) :: e.1, e.2) ∈ stamp n ls := by
  induction ls generalizing n i with
  | nil => simp at hl
  | cons l' rest ih =>
    rw [stamp, List.mem_append]
    cases i with
    | zero =>
      obtain rfl : l' = l := by simpa using hl
      exact .inl (List.mem_map.mpr ⟨e, he, rfl⟩)
    | succ i =>
      have hrest := ih (n := n + 1) (i := i) (by simpa using hl)
      rw [show n + (i + 1) = n + 1 + i by omega]
      exact .inr hrest

/-- The events of a part happen at its position. -/
theorem Term.mem_trail_of_part {σ : Kind} {t : Term σ} (i : Nat) (part : Part) {q : Address}
    {e : Event} (hpart : t.parts[i]? = some part) (he : (q, e) ∈ part.trail) :
    (i :: q, e) ∈ t.trail := by
  have hmem : ((0 + i) :: q, e) ∈ stamp 0 (t.parts.map Part.trail) :=
    mem_stamp (e := (q, e)) (by rw [List.getElem?_map, hpart]; rfl) he
  rw [Nat.zero_add] at hmem
  rw [trail_eq]
  simp [hmem]

/-- The events of a subterm happen below its address. -/
theorem Term.mem_trail_of_at? {σ τ : Kind} {t : Term σ} {u : Term τ} {p q : Address} {e : Event}
    (hp : t.at? p = some ⟨τ, u⟩) (he : (q, e) ∈ u.trail) : (p ++ q, e) ∈ t.trail := by
  induction p generalizing σ with
  | nil =>
    rw [at?] at hp
    cases hp
    exact he
  | cons i p ih =>
    rw [at?] at hp
    split at hp
    next c hpart => exact mem_trail_of_part _ _ hpart (ih hp)
    next => cases hp

theorem Term.enter_mem_trail {σ τ : Kind} {t : Term σ} {u : Term τ} {p : Address}
    (hp : t.at? p = some ⟨τ, u⟩) : (p, .enter u.caption) ∈ t.trail := by
  have hroot : (([] : Address), Event.enter u.caption) ∈ u.trail := by
    rw [trail_eq]
    simp
  simpa using mem_trail_of_at? hp hroot

/-! ## The order of a trail -/

/-- Every event of a stamped list comes from one of the lists, and its address starts with the
number of that list. -/
theorem of_mem_stamp {n : Nat} {ls : List (List (Address × Event))} {e : Address × Event}
    (he : e ∈ stamp n ls) :
    ∃ i l d, ls[i]? = some l ∧ d ∈ l ∧ e = ((n + i) :: d.1, d.2) := by
  induction ls generalizing n with
  | nil => simp [stamp] at he
  | cons l rest ih =>
    rw [stamp, List.mem_append] at he
    rcases he with he | he
    · obtain ⟨d, hd, rfl⟩ := List.mem_map.mp he
      exact ⟨0, l, d, rfl, hd, rfl⟩
    · obtain ⟨i, l', d, hl', hd, rfl⟩ := ih he
      refine ⟨i + 1, l', d, hl', hd, ?_⟩
      rw [show n + 1 + i = n + (i + 1) by omega]

theorem head_of_mem_stamp {n : Nat} {ls : List (List (Address × Event))} {e : Address × Event}
    (he : e ∈ stamp n ls) : ∃ i q, n ≤ i ∧ e.1 = i :: q := by
  obtain ⟨i, l, d, -, -, rfl⟩ := of_mem_stamp he
  exact ⟨n + i, d.1, by omega, rfl⟩

/-- On the list no event comes after one that is at a later address. -/
def Ordered (l : List (Address × Event)) : Prop :=
  l.Pairwise fun d e => ¬ Address.Before e.1 d.1

/-- What holds of the addresses in each of the lists holds of those in the stamped ones, if it
holds below one number and from a smaller number to a larger one. -/
theorem pairwise_stamp {R : Address → Address → Prop}
    (hcons : ∀ i p q, R p q → R (i :: p) (i :: q))
    (hlt : ∀ i j p q, i < j → R (i :: p) (j :: q)) {n : Nat} {ls : List (List (Address × Event))}
    (h : ∀ l ∈ ls, l.Pairwise fun d e => R d.1 e.1) :
    (stamp n ls).Pairwise fun d e => R d.1 e.1 := by
  induction ls generalizing n with
  | nil => exact .nil
  | cons l rest ih =>
    refine List.pairwise_append.mpr ⟨?_, ih fun m hm => h m (List.mem_cons_of_mem _ hm), ?_⟩
    · exact List.pairwise_map.mpr ((h l List.mem_cons_self).imp fun hde => hcons n _ _ hde)
    · intro d hd e he
      obtain ⟨d, -, rfl⟩ := List.mem_map.mp hd
      obtain ⟨i, q, hi, heq⟩ := head_of_mem_stamp he
      rw [heq]
      exact hlt n i _ _ (by omega)

theorem ordered_stamp {n : Nat} {ls : List (List (Address × Event))}
    (h : ∀ l ∈ ls, Ordered l) : Ordered (stamp n ls) := by
  refine pairwise_stamp (R := fun p q => ¬ Address.Before q p) (fun i p q hpq => ?_)
    (fun i j p q hij hbefore => ?_) h
  · simpa using hpq
  · rw [Address.before_cons_cons] at hbefore
    omega

theorem Term.ordered_trail {σ : Kind} (t : Term σ) : Ordered t.trail := by
  induction t using Term.parts_induction with
  | step t ih =>
    have hparts : ∀ l ∈ t.parts.map Part.trail, Ordered l := by
      intro l hl
      obtain ⟨p, hp, rfl⟩ := List.mem_map.mp hl
      cases p with
      | child c => exact ih c hp
      | bind x ty => exact List.pairwise_singleton _ _
      | join k ps =>
        refine List.pairwise_map.mpr (List.pairwise_of_forall fun d e => ?_)
        simp
    have hinside := ordered_stamp (n := 0) hparts
    rw [trail_eq, Ordered, List.cons_append, List.pairwise_cons, List.pairwise_append]
    refine ⟨fun e _ => by simp, hinside, List.pairwise_singleton _ _, fun d _ e he => ?_⟩
    rw [List.mem_singleton.mp he]
    simp

/-- On an ordered list an event at an earlier address has an earlier place. -/
theorem Ordered.lt_of_before {l : List (Address × Event)} (hl : Ordered l) {a b : Nat}
    {d e : Address × Event} (ha : l[a]? = some d) (hb : l[b]? = some e)
    (h : Address.Before d.1 e.1) : a < b := by
  obtain ⟨ha', rfl⟩ := List.getElem?_eq_some_iff.mp ha
  obtain ⟨hb', rfl⟩ := List.getElem?_eq_some_iff.mp hb
  rcases Nat.lt_trichotomy a b with hab | rfl | hba
  · exact hab
  · exact absurd h (Address.before_irrefl _)
  · exact absurd h (List.pairwise_iff_getElem.mp hl b a hb' ha' hba)

/-- An event at an earlier address has an earlier place on the trail. -/
theorem Term.lt_of_before {σ : Kind} {t : Term σ} {a b : Nat} {d e : Address × Event}
    (ha : t.trail[a]? = some d) (hb : t.trail[b]? = some e) (h : Address.Before d.1 e.1) :
    a < b := t.ordered_trail.lt_of_before ha hb h

end JoinIR
