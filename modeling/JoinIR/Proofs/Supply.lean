/-
# JoinIR.Proofs.Supply — the numbers that a pool of supplies hands out

A supply counts on from where it started: at zero, or where its source stood when it was copied. An
**account** keeps these two numbers for each supply of a pool, the one it started behind and how
many handles it has made since, and `tally` says what a step does to the accounts. Accounts know
nothing of machine words, so whether a counter would pass the last word can be read off them.

A run of steps is then predicted from the accounts alone: what each step answers (`reply`) and how
every counter stands at the end (`run_books`). The numbers drawn from a supply are the consecutive
ones of its account (`drawnFrom_log`), whatever was asked of the other supplies in between.
-/
import Mathlib.Data.List.Induction
import Mathlib.Data.List.Nodup
import JoinIR.Supply

namespace JoinIR.Pool

/-! ## Accounts -/

/-- What a supply has done. -/
structure Account where
  /-- The number behind which it started. -/
  base : Nat
  /-- How many handles it has made. -/
  drawn : Nat
  deriving DecidableEq, Repr

namespace Account

/-- The account of a new supply. -/
def new : Account := ⟨0, 0⟩

/-- The number handed out last, or the one behind which the supply started. -/
def last (a : Account) : Nat := a.base + a.drawn

/-- The account with one more handle. -/
def draw (a : Account) : Account := ⟨a.base, a.drawn + 1⟩

/-- The account of a copy. -/
def copy (a : Account) : Account := ⟨a.last, 0⟩

/-- The supply that an account is about. -/
def supply (a : Account) : Supply := ⟨.ofNat a.last⟩

/-- The numbers handed out, in order. -/
def numbers (a : Account) : List UInt32 := (List.range' (a.base + 1) a.drawn).map .ofNat

@[simp] theorem last_draw (a : Account) : a.draw.last = a.last + 1 := rfl

@[simp] theorem numbers_new : new.numbers = [] := rfl

@[simp] theorem numbers_copy (a : Account) : a.copy.numbers = [] := rfl

theorem numbers_draw (a : Account) : a.draw.numbers = a.numbers ++ [.ofNat (a.last + 1)] := by
  rw [numbers, draw, List.range'_concat, List.map_append, numbers, last]
  simp only [List.map_cons, List.map_nil, Nat.one_mul, Nat.add_right_comm]

theorem ofNat_last_succ (a : Account) : UInt32.ofNat (a.last + 1) = a.supply.last + 1 :=
  UInt32.ofNat_add a.last 1

theorem supply_draw (a : Account) : a.draw.supply = ⟨a.supply.last + 1⟩ := by
  rw [supply, last_draw, ofNat_last_succ]

/-- The numbers as they are counted, if they fit a word. -/
theorem map_toNat_numbers {a : Account} (h : a.last < UInt32.size) :
    a.numbers.map UInt32.toNat = List.range' (a.base + 1) a.drawn := by
  rw [numbers, List.map_map]
  refine (List.map_congr_left fun n hn => ?_).trans (List.map_id _)
  have hlt := (List.mem_range'_1.mp hn).2
  rw [last] at h
  exact UInt32.toNat_ofNat_of_lt' (by omega)

theorem supply_beq {a b : Account} (ha : a.last < UInt32.size) (hb : b.last < UInt32.size) :
    (a.supply == b.supply) = decide (a.last = b.last) := by
  have hinj : UInt32.ofNat a.last = UInt32.ofNat b.last ↔ a.last = b.last := by
    rw [← UInt32.toNat_inj, UInt32.toNat_ofNat_of_lt' ha, UInt32.toNat_ofNat_of_lt' hb]
  show decide (a.supply = b.supply) = decide (a.last = b.last)
  rw [decide_eq_decide, supply, supply, Supply.mk.injEq, hinj]

/-- The number handed out last is where the counter stands; before the first it is the base. -/
theorem getLast?_numbers {a : Account} (h : a.last < UInt32.size) :
    (a.numbers.map UInt32.toNat).getLast?.getD a.base = a.last := by
  rw [map_toNat_numbers h, List.getLast?_range', last]
  split
  next hnone => rw [Option.getD_none, hnone, Nat.add_zero]
  next => rw [Option.getD_some, Nat.add_right_comm, Nat.add_sub_cancel]

theorem nodup_numbers {a : Account} (h : a.last < UInt32.size) : a.numbers.Nodup := by
  refine List.Nodup.of_map UInt32.toNat ?_
  rw [map_toNat_numbers h]
  exact List.nodup_range'

theorem mem_numbers {a : Account} (h : a.last < UInt32.size) {i : UInt32} (hi : i ∈ a.numbers) :
    a.base < i.toNat ∧ i.toNat ≤ a.last := by
  have hmem : i.toNat ∈ a.numbers.map UInt32.toNat := List.mem_map_of_mem hi
  rw [map_toNat_numbers h, List.mem_range'_1] at hmem
  rw [last]
  omega

end Account

/-! ## Steps -/

/-- The supplies that a step names. -/
def Step.named : Step → List Nat
  | .draw g _ _ => [g]
  | .copy g => [g]
  | .new g => [g]
  | .same g h => [g, h]

/-- How many supplies a step adds to the pool. -/
def Step.added : Step → Nat
  | .draw .. => 0
  | .copy _ => 1
  | .new _ => 1
  | .same .. => 0

/-- Every step names supplies that are there by then, if `n` are there at the start. -/
def NamesPresent (n : Nat) : List Step → Prop
  | [] => True
  | s :: steps => (∀ g ∈ s.named, g < n) ∧ NamesPresent (n + s.added) steps

instance decidableNamesPresent : ∀ n steps, Decidable (NamesPresent n steps)
  | _, [] => isTrue trivial
  | n, s :: steps =>
    have := decidableNamesPresent (n + s.added) steps
    inferInstanceAs (Decidable ((∀ g ∈ s.named, g < n) ∧ NamesPresent (n + s.added) steps))

/-- The accounts after a step. -/
def tally (as : List Account) : Step → List Account
  | .draw g _ _ => as.modify g .draw
  | .copy g => as ++ [(as.getD g .new).copy]
  | .new _ => as ++ [.new]
  | .same _ _ => as

/-- The accounts after steps that a new pool is asked for. -/
def accounts (steps : List Step) : List Account := steps.foldl tally [.new]

/-- What a step answers, by the accounts before it. -/
def reply (as : List Account) : Step → Answer
  | .draw g κ name => .handle κ ⟨.ofNat ((as.getD g .new).last + 1), name⟩
  | .copy _ => .number as.length
  | .new _ => .number as.length
  | .same g h => .verdict ((as.getD g .new).supply == (as.getD h .new).supply)

/-- What steps answer, one after the other. -/
def replies (as : List Account) : List Step → List Answer
  | [] => []
  | s :: steps => reply as s :: replies (tally as s) steps

/-- The pool that the accounts are about. -/
def books (as : List Account) : Pool := ⟨as.map Account.supply⟩

theorem start_eq_books : start = books [.new] := rfl

@[simp] theorem length_tally (as : List Account) (s : Step) :
    (tally as s).length = as.length + s.added := by
  cases s <;> simp [tally, Step.added]

theorem getD_of_lt {as : List Account} {g : Nat} (h : g < as.length) :
    as[g]? = some (as.getD g .new) := by
  rw [List.getD_eq_getElem?_getD, List.getElem?_eq_getElem h]
  rfl

theorem get?_books {as : List Account} {g : Nat} (h : g < as.length) :
    (books as).get? g = some (as.getD g .new).supply := by
  rw [get?, books, List.getElem?_map, getD_of_lt h]
  rfl

@[simp] theorem length_books (as : List Account) : (books as).supplies.length = as.length :=
  List.length_map _

theorem push_books (as : List Account) (a : Account) :
    (books as).push a.supply = books (as ++ [a]) := by
  rw [push, books, books, List.map_append, List.map_cons, List.map_nil]

/-- Drawing from a supply is drawing from its account. -/
theorem set_books {as : List Account} {g : Nat} (h : g < as.length) :
    (books as).supplies.set g ⟨(as.getD g .new).supply.last + 1⟩
      = (books (as.modify g .draw)).supplies := by
  apply List.ext_getElem?
  intro i
  rw [books, books, List.getElem?_map, List.getElem?_modify, List.getElem?_set, List.getElem?_map]
  split
  next hi =>
    subst hi
    rw [List.length_map, if_pos h, getD_of_lt h, Option.map_eq_map, Option.map_some,
      Option.map_some, Account.supply_draw]
  next => rw [Option.map_eq_map, Option.map_id']

/-- A step does what the accounts say. -/
theorem step_books {as : List Account} {s : Step} (h : ∀ g ∈ s.named, g < as.length) :
    (books as).step s = some (reply as s, books (tally as s)) := by
  cases s with
  | draw g κ name =>
    have hg : g < as.length := h g List.mem_cons_self
    rw [step, draw, get?_books hg]
    show some (Answer.handle κ ⟨(as.getD g .new).supply.last + 1, name⟩,
      (⟨(books as).supplies.set g ⟨(as.getD g .new).supply.last + 1⟩⟩ : Pool)) = _
    rw [set_books hg, ← Account.ofNat_last_succ]
    rfl
  | copy g =>
    have hg : g < as.length := h g List.mem_cons_self
    rw [step, get?_books hg, length_books]
    exact congrArg (fun p => some (Answer.number as.length, p)) (push_books as (as.getD g .new).copy)
  | new g =>
    have hg : g < as.length := h g List.mem_cons_self
    rw [step, get?_books hg, length_books]
    exact congrArg (fun p => some (Answer.number as.length, p)) (push_books as .new)
  | same g g' =>
    have hg : g < as.length := h g List.mem_cons_self
    have hg' : g' < as.length := h g' (List.mem_cons_of_mem g List.mem_cons_self)
    rw [step, get?_books hg, get?_books hg']
    rfl

/-! ## Runs -/

/-- A run does what the accounts say. -/
theorem run_books {as : List Account} {steps : List Step} (h : NamesPresent as.length steps) :
    (books as).run steps = some (replies as steps, books (steps.foldl tally as)) := by
  induction steps generalizing as with
  | nil => rfl
  | cons s steps ih =>
    rw [NamesPresent, ← length_tally] at h
    rw [run, step_books h.1]
    show (((books (tally as s)).run steps).bind fun r => some (reply as s :: r.1, r.2)) = _
    rw [ih h.2]
    rfl

theorem run_start {steps : List Step} (h : NamesPresent 1 steps) :
    start.run steps = some (replies [.new] steps, books (accounts steps)) := by
  rw [start_eq_books]
  exact run_books h

@[simp] theorem length_replies (as : List Account) (steps : List Step) :
    (replies as steps).length = steps.length := by
  induction steps generalizing as with
  | nil => rfl
  | cons s steps ih => rw [replies, List.length_cons, List.length_cons, ih]

theorem replies_append (as : List Account) (before after : List Step) :
    replies as (before ++ after)
      = replies as before ++ replies (before.foldl tally as) after := by
  induction before generalizing as with
  | nil => rfl
  | cons s before ih => rw [List.cons_append, replies, ih, replies, List.foldl_cons]; rfl

theorem namesPresent_append {as : List Account} {before after : List Step} :
    NamesPresent as.length (before ++ after) ↔
      NamesPresent as.length before ∧ NamesPresent (before.foldl tally as).length after := by
  induction before generalizing as with
  | nil => simp [NamesPresent]
  | cons s before ih =>
    rw [List.cons_append, NamesPresent, ← length_tally, ih, NamesPresent, ← length_tally, and_assoc]
    rfl

/-! ## The numbers drawn from one supply -/

/-- The numbers that a log of steps and answers shows for one supply, of handles of any space. -/
def drawnFrom (g : Nat) (log : List (Step × Answer)) : List UInt32 :=
  log.filterMap fun
    | (.draw g' _ _, .handle _ h) => if g' = g then some h.id else none
    | _ => none

/-- The steps with their answers. -/
def log (steps : List Step) : List (Step × Answer) := steps.zip (replies [.new] steps)

theorem accounts_concat (steps : List Step) (s : Step) :
    accounts (steps ++ [s]) = tally (accounts steps) s :=
  List.foldl_concat ..

theorem accounts_append (before after : List Step) :
    accounts (before ++ after) = after.foldl tally (accounts before) :=
  List.foldl_append

theorem log_concat (steps : List Step) (s : Step) :
    log (steps ++ [s]) = log steps ++ [(s, reply (accounts steps) s)] := by
  rw [log, replies_append, List.zip_append (length_replies _ _).symm]
  rfl

/-- What an account shows of a supply, which is nothing where no supply is. -/
def shown (as : List Account) (g : Nat) : List UInt32 := (as[g]?.map Account.numbers).getD []

theorem shown_concat {as : List Account} {a : Account} (h : a.numbers = []) (g : Nat) :
    shown (as ++ [a]) g = shown as g := by
  rw [shown, shown, List.getElem?_append]
  split
  next => rfl
  next hg =>
    rw [(List.getElem?_eq_none (Nat.le_of_not_lt hg) : as[g]? = none)]
    cases g - as.length with
    | zero => exact h
    | succ => rfl

/-- A step shows a number of the supply that it draws from, and of no other. -/
theorem shown_tally {as : List Account} {s : Step} (h : ∀ g ∈ s.named, g < as.length) (g : Nat) :
    shown (tally as s) g = shown as g ++ drawnFrom g [(s, reply as s)] := by
  cases s with
  | draw g' κ name =>
    have hg' : g' < as.length := h g' List.mem_cons_self
    rw [tally, shown, List.getElem?_modify]
    by_cases hg : g' = g
    · subst hg
      rw [shown, getD_of_lt hg', drawnFrom, reply]
      simp [Account.numbers_draw]
    · simp [shown, drawnFrom, reply, hg]
  | copy g' => exact (shown_concat (Account.numbers_copy _) g).trans (List.append_nil _).symm
  | new g' => exact (shown_concat Account.numbers_new g).trans (List.append_nil _).symm
  | same g' g'' => exact (List.append_nil _).symm

/-- The numbers drawn from a supply are those of its account. -/
theorem drawnFrom_log {steps : List Step} (h : NamesPresent 1 steps) (g : Nat) :
    drawnFrom g (log steps) = shown (accounts steps) g := by
  induction steps using List.reverseRecOn with
  | nil => cases g <;> rfl
  | append_singleton steps s ih =>
    obtain ⟨hsteps, hs, -⟩ := (@namesPresent_append [.new] steps [s]).mp h
    change ∀ g ∈ s.named, g < (accounts steps).length at hs
    rw [log_concat, accounts_concat, shown_tally hs, ← ih hsteps]
    exact List.filterMap_append

/-! ## Accounts over time -/

/-- A step changes no account but by a further handle. -/
theorem getElem?_tally {as : List Account} {g : Nat} {a : Account} (h : as[g]? = some a) (s : Step) :
    ∃ b, (tally as s)[g]? = some b ∧ b.base = a.base ∧ a.drawn ≤ b.drawn := by
  have hg := (List.getElem?_eq_some_iff.mp h).1
  cases s with
  | draw g' κ name =>
    rw [tally, List.getElem?_modify, h]
    by_cases hg' : g' = g
    · exact ⟨a.draw, by simp [hg'], rfl, Nat.le_succ _⟩
    · exact ⟨a, by simp [hg'], rfl, Nat.le_refl _⟩
  | copy | new => exact ⟨a, by rw [tally, List.getElem?_append_left hg, h], rfl, Nat.le_refl _⟩
  | same => exact ⟨a, h, rfl, Nat.le_refl _⟩

theorem getElem?_foldl_tally {as : List Account} {g : Nat} {a : Account} (h : as[g]? = some a)
    (steps : List Step) :
    ∃ b, (steps.foldl tally as)[g]? = some b ∧ b.base = a.base ∧ a.drawn ≤ b.drawn := by
  induction steps generalizing as a with
  | nil => exact ⟨a, h, rfl, Nat.le_refl _⟩
  | cons s steps ih =>
    obtain ⟨b, hb, hbase, hdrawn⟩ := getElem?_tally h s
    obtain ⟨c, hc, hbase', hdrawn'⟩ := ih hb
    exact ⟨c, hc, hbase'.trans hbase, Nat.le_trans hdrawn hdrawn'⟩

/-- No counter passes the last word: every number that a supply has handed out fits 32 bits. -/
def Fits (as : List Account) : Prop := ∀ a ∈ as, a.last < UInt32.size

instance (as : List Account) : Decidable (Fits as) :=
  inferInstanceAs (Decidable (∀ a ∈ as, a.last < UInt32.size))

theorem Fits.of_foldl {as : List Account} {steps : List Step} (h : Fits (steps.foldl tally as)) :
    Fits as := by
  intro a ha
  obtain ⟨g, hg⟩ := List.mem_iff_getElem?.mp ha
  obtain ⟨b, hb, hbase, hdrawn⟩ := getElem?_foldl_tally hg steps
  have hlast := h b (List.mem_of_getElem? hb)
  rw [Account.last] at hlast ⊢
  omega

/-! ## Independence -/

/-- A step on one supply leaves the others as they are. -/
theorem get?_step_of_ne {p q : Pool} {s : Step} {answer : Answer}
    (h : p.step s = some (answer, q)) {g : Nat} (hg : g < p.supplies.length)
    (hne : ∀ κ name, s ≠ .draw g κ name) : q.get? g = p.get? g := by
  cases s with
  | draw g' κ name =>
    obtain ⟨r, hr, hq⟩ := Option.bind_eq_some_iff.mp h
    cases hq
    exact get?_draw_ne hr fun hgg => hne κ name (hgg ▸ rfl)
  | copy g' =>
    obtain ⟨t, ht, hq⟩ := Option.bind_eq_some_iff.mp h
    cases hq
    exact List.getElem?_append_left hg
  | new g' =>
    obtain ⟨t, ht, hq⟩ := Option.bind_eq_some_iff.mp h
    cases hq
    exact List.getElem?_append_left hg
  | same g' g'' =>
    obtain ⟨t, ht, h⟩ := Option.bind_eq_some_iff.mp h
    obtain ⟨u, hu, hq⟩ := Option.bind_eq_some_iff.mp h
    cases hq
    rfl

/-- What is drawn from a supply before it is copied is not drawn from the copy. -/
theorem ne_of_drawn_across_copy {before after : List Step} {g : Nat}
    (hnamed : NamesPresent 1 (before ++ .copy g :: after))
    (hfits : Fits (accounts (before ++ .copy g :: after))) {i j : UInt32}
    (hi : i ∈ drawnFrom g (log before))
    (hj : j ∈ drawnFrom (accounts before).length (log (before ++ .copy g :: after))) : i ≠ j := by
  obtain ⟨hbefore, hcopy, -⟩ := (@namesPresent_append [.new] before (.copy g :: after)).mp hnamed
  have hsource : (accounts before)[g]? = some ((accounts before).getD g .new) :=
    getD_of_lt (hcopy g List.mem_cons_self)
  -- the account of the copy starts where the source stands, and keeps its base
  have hstart : (tally (accounts before) (.copy g))[(accounts before).length]?
      = some ((accounts before).getD g .new).copy := by
    rw [tally, List.getElem?_append_right (Nat.le_refl _), Nat.sub_self]
    rfl
  obtain ⟨b, hb, hbase, -⟩ := getElem?_foldl_tally hstart after
  rw [accounts_append] at hfits
  rw [drawnFrom_log hbefore, shown, hsource] at hi
  rw [drawnFrom_log hnamed, shown, accounts_append, List.foldl_cons, hb] at hj
  have hile := (Account.mem_numbers (hfits.of_foldl _ (List.mem_of_getElem? hsource)) hi).2
  have hlt := (Account.mem_numbers (hfits b (List.mem_of_getElem? hb)) hj).1
  rw [hbase] at hlt
  rintro rfl
  exact absurd hile (Nat.not_le_of_lt hlt)

theorem getElem?_replies (before : List Step) (s : Step) (after : List Step) :
    (replies [.new] (before ++ s :: after))[before.length]? = some (reply (accounts before) s) := by
  rw [replies_append, List.getElem?_append_right (Nat.le_of_eq (length_replies _ _)),
    length_replies, Nat.sub_self]
  rfl

/-- As long as every step names supplies that are there and no counter passes the last word, steps
on a new pool run through, and the numbers drawn from a supply are, in order, the consecutive ones
behind its base, which is zero for a new supply and for a copy the number that its source handed out
last. A step changes no supply but the one it draws from. Two supplies are equal
exactly when the numbers that they handed out last are. No number is drawn twice from a supply, nor
from a supply before it is copied and then from the copy. -/
theorem supplies_count_on {steps : List Step} (hnamed : NamesPresent 1 steps)
    (hfits : Fits (accounts steps)) :
    ∃ answers q, start.run steps = some (answers, q) ∧
      q.supplies.length = (accounts steps).length ∧
      (∀ g a, (accounts steps)[g]? = some a →
        (drawnFrom g (steps.zip answers)).map UInt32.toNat = List.range' (a.base + 1) a.drawn ∧
          ((drawnFrom g (steps.zip answers)).map UInt32.toNat).getLast?.getD a.base = a.last) ∧
      (∀ (p p' : Pool) s answer, p.step s = some (answer, p') → ∀ g, g < p.supplies.length →
        (∀ κ name, s ≠ .draw g κ name) → p'.get? g = p.get? g) ∧
      (∀ before g h after, steps = before ++ .same g h :: after →
        ∀ a b, (accounts before)[g]? = some a → (accounts before)[h]? = some b →
          answers[before.length]? = some (.verdict (decide (a.last = b.last)))) ∧
      (∀ g, (drawnFrom g (steps.zip answers)).Nodup) ∧
      ∀ before g after, steps = before ++ .copy g :: after →
        ∃ n earlier r, answers[before.length]? = some (.number n) ∧
          start.run before = some (earlier, r) ∧
          ∀ i ∈ drawnFrom g (before.zip earlier), ∀ j ∈ drawnFrom n (steps.zip answers), i ≠ j := by
  refine ⟨_, _, run_start hnamed, length_books _, ?_, ?_, ?_, ?_, ?_⟩
  · intro g a ha
    have hlast := hfits a (List.mem_of_getElem? ha)
    have hdrawn : drawnFrom g (log steps) = a.numbers := by rw [drawnFrom_log hnamed, shown, ha]; rfl
    exact ⟨hdrawn ▸ Account.map_toNat_numbers hlast, hdrawn ▸ Account.getLast?_numbers hlast⟩
  · exact fun p p' s answer hstep g hg hne => get?_step_of_ne hstep hg hne
  · rintro before g h after rfl a b ha hb
    rw [accounts_append] at hfits
    have hbefore := hfits.of_foldl
    rw [getElem?_replies, reply, List.getD_eq_getElem?_getD, ha, List.getD_eq_getElem?_getD, hb]
    exact congrArg (some ∘ Answer.verdict)
      (Account.supply_beq (hbefore a (List.mem_of_getElem? ha)) (hbefore b (List.mem_of_getElem? hb)))
  · intro g
    show (drawnFrom g (log steps)).Nodup
    rw [drawnFrom_log hnamed, shown]
    cases ha : (accounts steps)[g]? with
    | none => exact List.nodup_nil
    | some a => exact Account.nodup_numbers (hfits a (List.mem_of_getElem? ha))
  · rintro before g after rfl
    obtain ⟨hbefore, -⟩ := (@namesPresent_append [.new] before (.copy g :: after)).mp hnamed
    exact ⟨_, _, _, getElem?_replies before (.copy g) after, run_start hbefore,
      fun i hi j hj => ne_of_drawn_across_copy hnamed hfits hi hj⟩

/-- Handles of three spaces, drawn from a supply and from its copy, and a further supply. -/
def copying : List Step :=
  [.draw 0 .locals (some "x"), .copy 0, .draw 0 .labels (some "k"), .draw 1 .params (some "p"),
    .same 0 1, .new 1, .draw 1 .locals none, .same 0 1, .draw 2 .locals (some "y")]

theorem supplies_count_on_copying :
    NamesPresent 1 copying ∧ Fits (accounts copying) ∧
      ∃ answers q, start.run copying = some (answers, q) ∧
        (drawnFrom 0 (copying.zip answers)).map UInt32.toNat = [1, 2] ∧
        (drawnFrom 1 (copying.zip answers)).map UInt32.toNat = [2, 3] ∧
        (drawnFrom 2 (copying.zip answers)).map UInt32.toNat = [1] := by
  have hnamed : NamesPresent 1 copying := by decide
  have hfits : Fits (accounts copying) := by decide
  obtain ⟨answers, q, hrun, -, hnumbers, -⟩ := supplies_count_on hnamed hfits
  exact ⟨hnamed, hfits, answers, q, hrun, (hnumbers 0 ⟨0, 2⟩ rfl).1, (hnumbers 1 ⟨1, 2⟩ rfl).1,
    (hnumbers 2 ⟨0, 1⟩ rfl).1⟩

end JoinIR.Pool
