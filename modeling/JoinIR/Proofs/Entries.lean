/-
# JoinIR.Proofs.Entries — the nodes of a term in the order of a walk

A walk enters every node of a term once, and it enters a node before what is below it and what is
to the right of it. `Term.entries` is the part of a complete recording in which nodes are entered,
with the address of each node: it has one entry for every node (`Term.mem_entries_iff`), and the
addresses on it ascend in pre-order (`Term.pairwise_entries`).
-/
import JoinIR.Proofs.Tour

namespace JoinIR

/-- The event is that of entering a node. -/
def Event.isEntry : Event → Bool
  | enter _ => true
  | leave _ | bind .. | join .. => false

/-- The nodes of a term as a walk enters them, with the events of entering them. -/
def Term.entries {σ : Kind} (t : Term σ) : List (Address × Event) :=
  t.bracketTrail.filter fun e => e.2.isEntry

/-- The entries of a part, with addresses that start at the part. -/
def Part.entries : Part → List (Address × Event)
  | child t => t.entries
  | bind .. | join .. => []

/-- One address is earlier in pre-order than another. -/
def Address.Earlier (p q : Address) : Prop := p.NoLater q ∧ p ≠ q

namespace Term

/-- The root is entered first, and then the nodes of its children from the left. -/
theorem entries_eq {σ : Kind} (t : Term σ) :
    t.entries = ([], .enter t.caption) :: stamp 0 (t.parts.map Part.entries) := by
  have hparts : (t.parts.map Part.bracketTrail).map (fun l => l.filter fun e => e.2.isEntry)
      = t.parts.map Part.entries := by
    rw [List.map_map]
    refine List.map_congr_left fun p _ => ?_
    cases p <;> rfl
  rw [entries, bracketTrail_eq, List.filter_cons_of_pos rfl, List.filter_append, filter_stamp,
    hparts, List.filter_cons_of_neg (by simp [Event.isEntry]), List.filter_nil, List.append_nil]

/-- Without the addresses the entries are those of the complete recording. -/
theorem map_snd_entries {σ : Kind} (t : Term σ) :
    t.entries.map Prod.snd = (Recording.complete.run t).1.filter Event.isEntry := by
  -- every entry is a bracket
  have hbrackets (l : List Event) : l.filter Event.isEntry = (brackets l).filter Event.isEntry := by
    rw [brackets, List.filter_filter]
    refine List.filter_congr fun e _ => ?_
    cases e <;> rfl
  rw [hbrackets, ← map_snd_bracketTrail, entries, List.filter_map]
  rfl

/-- There is one entry for every node. -/
theorem mem_entries_iff {σ : Kind} {t : Term σ} {p : Address} {e : Event} :
    (p, e) ∈ t.entries ↔
      ∃ (τ : Kind) (u : Term τ), t.at? p = some ⟨τ, u⟩ ∧ e = .enter u.caption := by
  rw [entries, bracketTrail, List.filter_filter, List.mem_filter]
  constructor
  · rintro ⟨hmem, hentry⟩
    rw [Bool.and_eq_true] at hentry
    obtain ⟨τ, u, hp, rfl | rfl⟩ :=
      t.node_of_mem_bracketTrail (List.mem_filter.mpr ⟨hmem, hentry.2⟩)
    · exact ⟨τ, u, hp, rfl⟩
    · cases hentry.1
  · rintro ⟨τ, u, hp, rfl⟩
    exact ⟨enter_mem_trail hp, rfl⟩

/-- The addresses of the entries ascend in pre-order. -/
theorem pairwise_entries {σ : Kind} (t : Term σ) :
    t.entries.Pairwise fun d e => d.1.Earlier e.1 := by
  induction t using Term.parts_induction with
  | step t ih =>
    have hparts : ∀ l ∈ t.parts.map Part.entries, l.Pairwise fun d e => d.1.Earlier e.1 := by
      rw [List.forall_mem_map]
      intro p hp
      cases p with
      | child c => exact ih c hp
      | bind | join => exact .nil
    rw [entries_eq, List.pairwise_cons]
    constructor
    · intro e he
      obtain ⟨i, q, -, hq⟩ := head_of_mem_stamp he
      rw [hq]
      exact ⟨Address.nil_noLater _, by simp⟩
    · refine pairwise_stamp (fun i p q hpq => ?_) (fun i j p q hij => ?_) hparts
      · exact ⟨Address.noLater_cons_cons.mpr (.inr ⟨rfl, hpq.1⟩), by simpa using hpq.2⟩
      · refine ⟨Address.noLater_cons_cons.mpr (.inl hij), fun heq => ?_⟩
        have := (List.cons.inj heq).1
        omega

end Term
end JoinIR
