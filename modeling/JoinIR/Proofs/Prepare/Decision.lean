/-
# JoinIR.Proofs.Prepare.Decision — the first stage that fails decides

Three things can be wrong with a function, and all of them at once: two of its parameters have one
number, its body declares a slot with two types, there is an exception in it and a listing is asked
for. The preparation reports one of them, in this order, whatever else is wrong
(`preparation_decided_by_first_failure`).

Which parameter is reported is said by positions: the least one at which a number stands that stands
at an earlier position too (`FirstRepeat`). The search keeps the parameters that it has passed, and
its invariant is that their numbers are all different (`firstRepeat?_cases`).
-/
import JoinIR.Proofs.Declarations.Scan
import JoinIR.Proofs.Listing.Refusal
import JoinIR.Proofs.Prepare.Stages

namespace JoinIR

/-! ## Repeated numbers -/

/-- The number of the parameter at a position stands at an earlier position too. -/
def RepeatsAt (ps : List Param) (j : Nat) : Prop :=
  ∃ i < j, ∃ p q, ps[i]? = some q ∧ ps[j]? = some p ∧ q.id = p.id

/-- The parameter stands at the least position at which a number is repeated. -/
structure FirstRepeat (ps : List Param) (j : Nat) (p : Param) : Prop where
  here : ps[j]? = some p
  repeats : RepeatsAt ps j
  least : ∀ k < j, ¬ RepeatsAt ps k

/-- The numbers of the parameters are all different. -/
def DistinctNumbers (ps : List Param) : Prop := (ps.map Handle.id).Nodup

theorem DistinctNumbers.not_repeatsAt {ps : List Param} (h : DistinctNumbers ps) (k : Nat) :
    ¬ RepeatsAt ps k := by
  rintro ⟨i, hik, p, q, hq, hp, hid⟩
  obtain ⟨hk, rfl⟩ := List.getElem?_eq_some_iff.mp hp
  obtain ⟨hi, rfl⟩ := List.getElem?_eq_some_iff.mp hq
  have hne := List.pairwise_iff_getElem.mp (List.pairwise_map.mp h) i k hi hk hik
  exact hne hid

theorem contains_iff_exists_id {ps : List Param} {p : Param} :
    ps.contains p = true ↔ ∃ q ∈ ps, q.id = p.id := by
  rw [List.contains_iff_exists_mem_beq]
  simp only [Handle.beq_iff, eq_comm (a := p.id)]

/-- A parameter with a new number keeps the numbers different. -/
theorem DistinctNumbers.concat {ps : List Param} {p : Param} (h : DistinctNumbers ps)
    (hp : ∀ q ∈ ps, q.id ≠ p.id) : DistinctNumbers (ps ++ [p]) := by
  rw [DistinctNumbers, List.map_append, List.nodup_append]
  refine ⟨h, by simp, ?_⟩
  intro n hn m hm
  obtain ⟨q, hq, rfl⟩ := List.mem_map.mp hn
  rw [List.map_singleton, List.mem_singleton] at hm
  exact hm ▸ hp q hq

/-- A search from the left finds no repetition, or the first one: the numbers up to it are all
different, and its own is among them. -/
theorem firstRepeat?_cases {seen : List Param} (hseen : DistinctNumbers seen.reverse)
    (ps : List Param) :
    (firstRepeat? seen ps = none ∧ DistinctNumbers (seen.reverse ++ ps)) ∨
      ∃ before p after, ps = before ++ p :: after ∧ firstRepeat? seen ps = some p ∧
        DistinctNumbers (seen.reverse ++ before) ∧ ∃ q ∈ seen.reverse ++ before, q.id = p.id := by
  induction ps generalizing seen with
  | nil => exact .inl ⟨rfl, by rwa [List.append_nil]⟩
  | cons p rest ih =>
    rw [firstRepeat?]
    by_cases hp : seen.contains p = true
    · obtain ⟨q, hq, hid⟩ := contains_iff_exists_id.mp hp
      rw [if_pos hp]
      refine .inr ⟨[], p, rest, rfl, rfl, ?_, q, ?_, hid⟩
      · rwa [List.append_nil]
      · simpa using hq
    · have hnext : DistinctNumbers (p :: seen).reverse := by
        rw [contains_iff_exists_id] at hp
        push Not at hp
        rw [List.reverse_cons]
        exact hseen.concat fun q hq => hp q (List.mem_reverse.mp hq)
      rw [if_neg hp]
      have happ (l : List Param) : (p :: seen).reverse ++ l = seen.reverse ++ p :: l := by simp
      rcases ih hnext with ⟨hnone, hdistinct⟩ | ⟨before, r, after, rfl, hsome, hdistinct, hq⟩
      · exact .inl ⟨hnone, happ rest ▸ hdistinct⟩
      · exact .inr ⟨p :: before, r, after, rfl, hsome, happ before ▸ hdistinct, happ before ▸ hq⟩

/-- A parameter whose number is that of one before it, where the numbers are all different. -/
theorem FirstRepeat.of_split {ps before after : List Param} {p q : Param}
    (hsplit : ps = before ++ p :: after) (hdistinct : DistinctNumbers before) (hq : q ∈ before)
    (hid : q.id = p.id) : FirstRepeat ps before.length p := by
  subst hsplit
  have hread : ∀ n < before.length, (before ++ p :: after)[n]? = before[n]? :=
    fun n hn => List.getElem?_append_left hn
  have hhere : (before ++ p :: after)[before.length]? = some p := by simp
  refine ⟨hhere, ?_, ?_⟩
  · obtain ⟨i, hi⟩ := List.mem_iff_getElem?.mp hq
    have hlt : i < before.length := (List.getElem?_eq_some_iff.mp hi).1
    exact ⟨i, hlt, p, q, (hread i hlt).trans hi, hhere, hid⟩
  · -- a repetition before this place would be one among different numbers
    rintro k hk ⟨i, hik, r, s, hs, hr, hrs⟩
    rw [hread i (by omega)] at hs
    rw [hread k hk] at hr
    exact hdistinct.not_repeatsAt k ⟨i, hik, r, s, hs, hr, hrs⟩

namespace Function

theorem duplicateParam?_cases (f : Function) :
    (f.duplicateParam? = none ∧ ∀ j, ¬ RepeatsAt f.handles j) ∨
      ∃ j p, FirstRepeat f.handles j p ∧ f.duplicateParam? = some p := by
  have hcases := @firstRepeat?_cases [] List.nodup_nil f.handles
  simp only [List.reverse_nil, List.nil_append] at hcases
  rcases hcases with ⟨hnone, hdistinct⟩ | ⟨before, p, after, hsplit, hsome, hdistinct, q, hq, hid⟩
  · exact .inl ⟨hnone, hdistinct.not_repeatsAt⟩
  · exact .inr ⟨before.length, p, .of_split hsplit hdistinct hq hid, hsome⟩

end Function

/-! ## The order of slots -/

/-- All locals come before all labels, and among locals and among labels the numbers ascend. -/
def Slot.Before : Slot → Slot → Prop
  | ofLocal x, ofLocal y => x.id < y.id
  | ofLocal _, ofLabel _ => True
  | ofLabel _, ofLocal _ => False
  | ofLabel k, ofLabel l => k.id < l.id

theorem Slot.compare_eq_lt_iff {s t : Slot} : compare s t = .lt ↔ s.Before t := by
  change (compareOn rank s t).then (compareOn id s t) = .lt ↔ _
  cases s <;> cases t
  -- of one kind: the ranks are the same
  case ofLocal.ofLocal x y => exact Std.compare_eq_lt (a := x.id) (b := y.id)
  case ofLabel.ofLabel k l => exact Std.compare_eq_lt (a := k.id) (b := l.id)
  -- of two kinds: the ranks decide
  case ofLocal.ofLabel x k => exact iff_of_true rfl trivial
  case ofLabel.ofLocal k x => exact iff_of_false Ordering.noConfusion not_false

/-! ## The decision -/

/-- An exception stands somewhere in the term. -/
def Term.HasException {σ : Kind} (t : Term σ) : Prop :=
  ∃ (τ : Kind) (s : Term τ), s.Subterm t ∧ s.unlisted? ≠ none

/-- What a preparation hands on once no stage has failed, where the analysis of the body has found
the table. -/
structure Delivers (session : Session) (f : Function) (table : SlotTable) (p : Prepared) :
    Prop where
  function : p.function = f
  /-- The slots are in order, and none comes twice. -/
  ascending : p.slots.Pairwise fun d e => d.1.Before e.1
  /-- They are those of the table, with the types that it has for them. -/
  entries : ∀ d, d ∈ p.slots ↔ table.find? d.1 = some d
  /-- There is a listing exactly if the session asks for one. -/
  listed : p.listing.isSome = session.listings
  listing : ∀ text, p.listing = some text → f.listing = .ok text

namespace Function

variable {session : Session} {f : Function}

theorem requestedListing_of_exception (hs : session.listings = true)
    (h : f.body.term.HasException) :
    ∃ e, f.listing = .error e ∧ f.requestedListing session = .error e := by
  obtain ⟨e, he⟩ := (RefusedFor.of_refusal f.refusal_listing).fails_iff.mpr h
  refine ⟨e, he, ?_⟩
  rw [requestedListing, if_pos hs, he]
  rfl

theorem requestedListing_of_no_exception
    (h : session.listings = true → ¬ f.body.term.HasException) :
    ∃ listing, f.requestedListing session = .ok listing ∧
      listing.isSome = session.listings ∧ ∀ text, listing = some text → f.listing = .ok text := by
  rw [requestedListing]
  cases hs : session.listings with
  | false => exact ⟨none, by simp⟩
  | true =>
    cases hl : f.listing with
    | error e =>
      exact absurd ((RefusedFor.of_refusal f.refusal_listing).fails_iff.mp ⟨e, hl⟩) (h hs)
    | ok text => exact ⟨some text, rfl, rfl, fun _ heq => by cases heq; rfl⟩

/-- The errors of all stages name the function. -/
theorem function_of_error {e : PrepareError} (h : (f.prepare session).outcome = .error e) :
    e.function = f.name := by
  cases hdup : f.duplicateParam? with
  | some p =>
    rw [prepare_of_duplicate hdup] at h
    cases h
    rfl
  | none =>
    cases htable : (f.body.declarations session.mode).outcome with
    | error cause =>
      rw [prepare_of_mismatch hdup htable] at h
      cases h
      rfl
    | ok table =>
      cases hrequested : f.requestedListing session with
      | error cause =>
        rw [prepare_of_unlisted hdup htable hrequested] at h
        cases h
        rfl
      | ok listing =>
        rw [prepare_of_ok hdup htable hrequested] at h
        cases h

end Function

/-- Which error a preparation ends with, and whether with one, is decided by the first stage that
fails. A repeated number in the signature comes first, and the parameter at the least position of a
repetition is reported, as it is written there. Then a slot with two types, with the error of the
analysis; then an exception anywhere in the body, if a listing is asked for, with the error of the
listing. Where none of them is, the preparation succeeds. Every error names the function. -/
theorem preparation_decided_by_first_failure (session : Session) (f : Function) :
    ((∃ j, RepeatsAt f.handles j) →
        ∃ j p, FirstRepeat f.handles j p ∧
          (f.prepare session).outcome = .error (.duplicateParam f.name p)) ∧
      ((∀ j, ¬ RepeatsAt f.handles j) →
        (∀ e, (f.body.declarations session.mode).outcome = .error e →
          (f.prepare session).outcome = .error (.slots f.name e)) ∧
        ∀ table, (f.body.declarations session.mode).outcome = .ok table →
          (session.listings = true → f.body.term.HasException →
            ∃ e, f.listing = .error e ∧
              (f.prepare session).outcome = .error (.print f.name e)) ∧
          ((session.listings = true → ¬ f.body.term.HasException) →
            ∃ p, (f.prepare session).outcome = .ok p ∧ Delivers session f table p)) ∧
      ∀ e, (f.prepare session).outcome = .error e → e.function = f.name := by
  have hparams := f.duplicateParam?_cases
  refine ⟨fun ⟨k, hk⟩ => ?_, fun hdistinct => ?_, ?_⟩
  -- a repeated number: the other two stages are not reached
  · obtain ⟨-, hnone⟩ | ⟨j, p, hfirst, hsome⟩ := hparams
    · exact absurd hk (hnone k)
    · exact ⟨j, p, hfirst, by rw [Function.prepare_of_duplicate hsome]⟩
  -- different numbers: the analysis decides, and then the listing
  · obtain ⟨hdup, -⟩ | ⟨j, p, hfirst, -⟩ := hparams
    · refine ⟨?_, fun table htable => ⟨?_, ?_⟩⟩
      · intro e he
        rw [Function.prepare_of_mismatch hdup he]
      · intro hs hexception
        obtain ⟨e, he, hrequested⟩ := Function.requestedListing_of_exception hs hexception
        exact ⟨e, he, by rw [Function.prepare_of_unlisted hdup htable hrequested]⟩
      · intro hexception
        obtain ⟨listing, hrequested, hsome, htext⟩ :=
          Function.requestedListing_of_no_exception hexception
        refine ⟨⟨f, table.toList, listing⟩,
          by rw [Function.prepare_of_ok hdup htable hrequested], ?_⟩
        exact ⟨rfl, table.ascending.imp Slot.compare_eq_lt_iff.mp, fun _ => Table.mem_toList_iff,
          hsome, htext⟩
    · exact absurd hfirst.repeats (hdistinct j)
  · exact fun e he => Function.function_of_error he

/-- A number that stands twice, under two names and with two types, and an exception below. -/
example :
    (Function.prepare ⟨.perParameter, true⟩
        ⟨⟨"f"⟩, [(⟨1, some "a"⟩, .i32), (⟨2, none⟩, .i32), (⟨1, some "b"⟩, .i64)],
          .effect (.drop (.raise (.i32 0)))⟩).outcome
      = .error (.duplicateParam ⟨"f"⟩ ⟨1, some "b"⟩) := rfl

end JoinIR
