/-
# JoinIR.Proofs.Words — the words of a listing tell what they stand for

Numbers, handles, symbols and types each have a notation. Two of them with one notation are the
same thing, whatever characters their names hold (`Handle.text_inj`, `Slot.text_inj`,
`Symbol.text_inj`, `Ty.datum_inj`). The one exception is a variable: a named parameter and a local
of the same name and number are written alike, so the text of a variable decides it up to
`Var.shown`. Handles of two spaces are told apart by `Handle.text_eq_iff`, which slots and variables
are both read off: by the sigil if the spaces differ in it, else by the letter of a nameless one.

A notation is a single word of a listing as far as the names in it allow: no fixed text holds a
character that ends a word, so only a name can bring one in (`Handle.isWord_text` and its
siblings, for any selection of the delimiting characters).
-/
import JoinIR.Term
import Mathlib.Data.List.Basic

namespace JoinIR

/-! ## Characters that a text avoids -/

namespace Listing

/-- The characters that end a word of a listing. -/
def delimiters : List Char := [' ', '\n', '(', ')']

/-- None of the characters occurs in the text. -/
def Avoids (cs : List Char) (s : String) : Prop := ∀ c ∈ s.toList, c ∉ cs

instance (cs : List Char) (s : String) : Decidable (Avoids cs s) :=
  decidable_of_iff (s.toList.all (fun c => !cs.contains c) = true) (by simp [Avoids])

variable {cs : List Char} {s t : String}

@[simp] theorem avoids_append : Avoids cs (s ++ t) ↔ Avoids cs s ∧ Avoids cs t := by
  simp only [Avoids, String.toList_append, List.forall_mem_append]

theorem Avoids.of_subset {ds : List Char} (hsub : cs ⊆ ds) (h : Avoids ds s) : Avoids cs s :=
  fun c hc hmem => h c hc (hsub hmem)

/-- A text that is not empty and that none of the characters cuts in two. -/
structure IsWord (cs : List Char) (s : String) : Prop where
  ne_empty : s ≠ ""
  avoids : Avoids cs s

instance (cs : List Char) (s : String) : Decidable (IsWord cs s) :=
  decidable_of_iff (s ≠ "" ∧ Avoids cs s) ⟨fun ⟨hne, h⟩ => ⟨hne, h⟩, fun ⟨hne, h⟩ => ⟨hne, h⟩⟩

theorem IsWord.of_subset {ds : List Char} (hsub : cs ⊆ ds) (h : IsWord ds s) : IsWord cs s :=
  ⟨h.ne_empty, h.avoids.of_subset hsub⟩

/-- A run of characters ends where the rest of the text starts with one of another sort. -/
theorem run_append_inj {p : Char → Prop} {l m r s : List Char} (hl : ∀ c ∈ l, ¬ p c)
    (hm : ∀ c ∈ m, ¬ p c) (hr : ∀ c ∈ r.head?, p c) (hs : ∀ c ∈ s.head?, p c)
    (h : l ++ r = m ++ s) : l = m ∧ r = s := by
  rcases List.append_eq_append_iff.mp h with ⟨k, rfl, rfl⟩ | ⟨k, rfl, rfl⟩
  · cases k with
    | nil => exact ⟨(List.append_nil l).symm, rfl⟩
    | cons c k => exact absurd (hr c rfl) (hm c (by simp))
  · cases k with
    | nil => exact ⟨List.append_nil m, rfl⟩
    | cons c k => exact absurd (hs c rfl) (hl c (by simp))

namespace Datum

mutual

/-- The words in a datum, from the left. -/
def words : Datum → List String
  | word w => [w]
  | list items => wordsAll items

/-- The words in a list of data, from the left. -/
def wordsAll : List Datum → List String
  | [] => []
  | d :: rest => d.words ++ wordsAll rest

end

@[simp] theorem words_word (w : String) : (word w).words = [w] := by rw [words]

@[simp] theorem words_list (items : List Datum) : (list items).words = wordsAll items := by
  rw [words]

@[simp] theorem wordsAll_eq_flatMap (items : List Datum) :
    wordsAll items = items.flatMap words := by
  induction items with
  | nil => rw [wordsAll, List.flatMap_nil]
  | cons d rest ih => rw [wordsAll, ih, List.flatMap_cons]

end Datum

end Listing

open Listing (Datum Avoids IsWord delimiters)

/-! ## Numbers -/

section Numbers

theorem isDigit_of_mem_digits {n : Nat} {c : Char} (hc : c ∈ Nat.toDigits 10 n) :
    c.isDigit = true :=
  Nat.isDigit_of_mem_toDigits (by omega) (by omega) hc

theorem not_mem_digits {c : Char} (hc : c.isDigit = false) (n : Nat) : c ∉ Nat.toDigits 10 n := by
  intro hmem
  rw [isDigit_of_mem_digits hmem] at hc
  cases hc

theorem digits_inj {m n : Nat} : Nat.toDigits 10 m = Nat.toDigits 10 n ↔ m = n := by
  constructor
  · intro h
    rw [← Nat.ofDigitChars_ten_toDigits (n := m), h, Nat.ofDigitChars_ten_toDigits]
  · rintro rfl
    rfl

/-- The characters of an integer: a minus sign in front of the digits of a negative one. -/
theorem toList_repr_int (z : Int) :
    z.repr.toList
      = if z < 0 then '-' :: Nat.toDigits 10 z.natAbs else Nat.toDigits 10 z.natAbs := by
  cases z with
  | ofNat n => simp [Int.repr]
  | negSucc n => simp [Int.repr, Int.negSucc_lt_zero]

@[simp] theorem repr_int_inj {a b : Int} : a.repr = b.repr ↔ a = b := by
  constructor
  · intro h
    have hlist := congrArg String.toList h
    rw [toList_repr_int, toList_repr_int] at hlist
    have hminus (n : Nat) : '-' ∉ Nat.toDigits 10 n := not_mem_digits (by decide) n
    split at hlist <;> split at hlist
    · have := digits_inj.mp (List.tail_eq_of_cons_eq hlist)
      omega
    · exact absurd (hlist ▸ List.mem_cons_self) (hminus _)
    · exact absurd (hlist ▸ List.mem_cons_self) (hminus _)
    · have := digits_inj.mp hlist
      omega
  · rintro rfl
    rfl

variable {cs : List Char}

theorem isDigit_of_mem_delimiters {c : Char} (hc : c ∈ delimiters) : c.isDigit = false := by
  simp only [delimiters, List.mem_cons, List.not_mem_nil, or_false] at hc
  rcases hc with rfl | rfl | rfl | rfl <;> decide

theorem avoids_repr (hcs : cs ⊆ delimiters) (n : Nat) : Avoids cs n.repr := by
  intro c hc hmem
  rw [Nat.toList_repr] at hc
  exact not_mem_digits (isDigit_of_mem_delimiters (hcs hmem)) n hc

theorem isWord_repr (hcs : cs ⊆ delimiters) (n : Nat) : IsWord cs n.repr :=
  ⟨Nat.repr_ne_empty, avoids_repr hcs n⟩

theorem isWord_repr_int (hcs : cs ⊆ delimiters) (z : Int) : IsWord cs z.repr := by
  cases z with
  | ofNat n => exact isWord_repr hcs n
  | negSucc n =>
    have hminus : Avoids cs "-" := Avoids.of_subset hcs (by decide)
    show IsWord cs ("-" ++ (n + 1).repr)
    exact ⟨by simp, Listing.avoids_append.mpr ⟨hminus, avoids_repr hcs (n + 1)⟩⟩

end Numbers

/-! ## Handles -/

/-- The last slash splits a text in one way only. -/
theorem last_slash {l m r s : List Char} (hr : '/' ∉ r) (hs : '/' ∉ s)
    (h : l ++ '/' :: r = m ++ '/' :: s) : l = m ∧ r = s := by
  rcases List.append_eq_append_iff.mp h with ⟨k, rfl, hk⟩ | ⟨k, rfl, hk⟩
  · rcases List.cons_eq_append_iff.mp hk with ⟨rfl, hrest⟩ | ⟨k', rfl, rfl⟩
    · simpa [eq_comm] using hrest
    · exact absurd (List.mem_append_right k' List.mem_cons_self) hr
  · rcases List.cons_eq_append_iff.mp hk with ⟨rfl, hrest⟩ | ⟨k', rfl, rfl⟩
    · simpa using hrest
    · exact absurd (List.mem_append_right k' List.mem_cons_self) hs

/-- A sigil is a single character, so that what comes after it starts at the same place. -/
theorem Space.sigil_append_inj {κ τ : Space} {r s : List Char} :
    κ.sigil.toList ++ r = τ.sigil.toList ++ s ↔ κ.sigil = τ.sigil ∧ r = s := by
  have hlength : κ.sigil.toList.length = τ.sigil.toList.length := by
    cases κ <;> cases τ <;> rfl
  constructor
  · intro h
    obtain ⟨hsigil, hrest⟩ := List.append_inj h hlength
    exact ⟨String.toList_inj.mp hsigil, hrest⟩
  · rintro ⟨hsigil, rfl⟩
    rw [hsigil]

namespace Handle

variable {κ τ : Space}

/-- The names that a handle is written with. -/
def names (h : Handle κ) : List String := h.name.toList

/-- The characters of a handle after the sigil. -/
def stem : Handle κ → List Char
  | ⟨id, some name⟩ => name.toList ++ '/' :: Nat.toDigits 10 id.toNat
  | ⟨id, none⟩ => κ.letter.toList ++ Nat.toDigits 10 id.toNat

theorem toList_text (h : Handle κ) : h.text.toList = κ.sigil.toList ++ h.stem := by
  obtain ⟨id, name⟩ := h
  cases name <;> simp [text, stem]

/-- Without a name there is no slash, so that the stem is not one of a named handle. -/
theorem slash_not_mem_stem (id : UInt32) : '/' ∉ stem (κ := κ) ⟨id, none⟩ := by
  have hletter : '/' ∉ κ.letter.toList := by cases κ <;> decide
  have hdigits : '/' ∉ Nat.toDigits 10 id.toNat := not_mem_digits (by decide) _
  simp [stem, hletter, hdigits]

theorem letter_append_inj {r s : List Char} (h : κ.letter.toList ++ r = τ.letter.toList ++ s) :
    κ = τ ∧ r = s := by
  cases κ <;> cases τ <;> simp_all [Space.letter]

/-- The stem tells the number and the name; without a name it tells the space too. -/
theorem stem_eq_iff {a : Handle κ} {b : Handle τ} :
    a.stem = b.stem ↔ a.id = b.id ∧ a.name = b.name ∧ (a.name = none → κ = τ) := by
  obtain ⟨i, m⟩ := a
  obtain ⟨j, n⟩ := b
  constructor
  · intro h
    cases m with
    | some m =>
      cases n with
      | some n =>
        -- a name may hold slashes itself, but the digits behind the last one do not
        have hdigits (k : UInt32) : '/' ∉ Nat.toDigits 10 k.toNat := not_mem_digits (by decide) _
        obtain ⟨hname, hid⟩ := last_slash (hdigits i) (hdigits j) h
        have hi : i = j := UInt32.toNat_inj.mp (digits_inj.mp hid)
        have hm : m = n := String.toList_inj.mp hname
        simp [hi, hm]
      | none => exact absurd (h ▸ by simp [stem]) (slash_not_mem_stem (κ := τ) j)
    | none =>
      cases n with
      | some n => exact absurd (h ▸ by simp [stem]) (slash_not_mem_stem (κ := κ) i)
      | none =>
        obtain ⟨hspace, hid⟩ := letter_append_inj h
        have hi : i = j := UInt32.toNat_inj.mp (digits_inj.mp hid)
        simp [hi, hspace]
  · rintro ⟨hid, hname, hspace⟩
    obtain rfl : i = j := hid
    obtain rfl : m = n := hname
    cases m with
    | some m => rfl
    | none =>
      obtain rfl := hspace rfl
      rfl

/-- The text of a handle tells its number and its name, or that it has none. Of its space it tells
the sigil, and the space itself if there is no name. -/
theorem text_eq_iff {a : Handle κ} {b : Handle τ} :
    a.text = b.text ↔
      κ.sigil = τ.sigil ∧ a.id = b.id ∧ a.name = b.name ∧ (a.name = none → κ = τ) := by
  rw [← String.toList_inj, toList_text, toList_text, Space.sigil_append_inj, stem_eq_iff]

theorem eq_iff {a b : Handle κ} : a = b ↔ a.id = b.id ∧ a.name = b.name := by
  obtain ⟨i, m⟩ := a
  obtain ⟨j, n⟩ := b
  rw [mk.injEq]

/-- Within a space the text of a handle tells all of it. -/
@[simp] theorem text_inj {a b : Handle κ} : a.text = b.text ↔ a = b := by
  rw [text_eq_iff, eq_iff]
  simp

theorem isWord_text {cs : List Char} (hcs : cs ⊆ delimiters) {h : Handle κ}
    (hnames : ∀ n ∈ h.names, Avoids cs n) : IsWord cs h.text := by
  have hsigil : IsWord cs κ.sigil := by cases κ <;> exact IsWord.of_subset hcs (by decide)
  have hletter : Avoids cs κ.letter := by cases κ <;> exact Avoids.of_subset hcs (by decide)
  have hslash : Avoids cs "/" := Avoids.of_subset hcs (by decide)
  have hdigits := avoids_repr hcs h.id.toNat
  obtain ⟨id, name⟩ := h
  cases name with
  | none =>
    refine ⟨by simp [text, hsigil.ne_empty], ?_⟩
    simp [text, hsigil.avoids, hletter, hdigits]
  | some name =>
    have hname : Avoids cs name := hnames name (by simp [names])
    refine ⟨by simp [text, hsigil.ne_empty], ?_⟩
    simp [text, hsigil.avoids, hslash, hname, hdigits]

end Handle

/-! ## Variables -/

namespace Var

/-- A variable as its text shows it: a named parameter looks like a local. -/
def shown : Var → Var
  | ofParam ⟨id, some name⟩ => ofLocal ⟨id, some name⟩
  | v => v

/-- The names that a variable is written with. -/
def names : Var → List String
  | ofLocal x => x.names
  | ofParam p => p.names

/-- Only a named parameter looks like something else, the local of its name and number. -/
theorem shown_eq_iff {v w : Var} :
    v.shown = w.shown ↔
      v = w ∨ ∃ id name,
        (v = ofLocal ⟨id, some name⟩ ∧ w = ofParam ⟨id, some name⟩) ∨
          (v = ofParam ⟨id, some name⟩ ∧ w = ofLocal ⟨id, some name⟩) := by
  rcases v with ⟨i, _ | m⟩ | ⟨i, _ | m⟩ <;> rcases w with ⟨j, _ | n⟩ | ⟨j, _ | n⟩ <;>
    simp [shown, eq_comm]

/-- A local and a parameter are written alike only if both have the same name. -/
theorem text_cross {x : Local} {p : Param} :
    x.text = p.text ↔ ∃ id name, x = ⟨id, some name⟩ ∧ p = ⟨id, some name⟩ := by
  rw [Handle.text_eq_iff]
  constructor
  · rintro ⟨-, hid, hname, hspace⟩
    cases hx : x.name with
    | none => exact absurd (hspace hx) (by decide)
    | some name =>
      have hp : p.name = some name := hname.symm.trans hx
      exact ⟨x.id, name, Handle.eq_iff.mpr ⟨rfl, hx⟩, Handle.eq_iff.mpr ⟨hid.symm, hp⟩⟩
  · rintro ⟨id, name, rfl, rfl⟩
    exact ⟨rfl, rfl, rfl, nofun⟩

/-- The text of a variable tells it up to what is shown of it. -/
theorem text_eq_iff {v w : Var} : v.text = w.text ↔ v.shown = w.shown := by
  rw [shown_eq_iff]
  cases v with
  | ofLocal x =>
    cases w with
    | ofLocal y => simp [text]
    | ofParam p => simp [text, text_cross]
  | ofParam p =>
    cases w with
    | ofLocal x => simp [text, eq_comm (a := p.text), text_cross, and_comm]
    | ofParam q => simp [text]

@[simp] theorem text_shown (v : Var) : v.shown.text = v.text := by
  rw [text_eq_iff]
  rcases v with x | ⟨id, _ | name⟩ <;> rfl

theorem isWord_text {cs : List Char} (hcs : cs ⊆ delimiters) {v : Var}
    (hnames : ∀ n ∈ v.names, Avoids cs n) : IsWord cs v.text := by
  cases v with
  | ofLocal x => exact Handle.isWord_text hcs hnames
  | ofParam p => exact Handle.isWord_text hcs hnames

end Var

/-! ## Slots -/

namespace Slot

theorem eq_iff {s t : Slot} : s = t ↔ s.rank = t.rank ∧ s.id = t.id ∧ s.name = t.name := by
  cases s <;> cases t <;> simp [rank, id, name, Handle.eq_iff]

/-- The text of a slot tells all of it: a label has a sigil of its own. -/
@[simp] theorem text_inj {s t : Slot} : s.text = t.text ↔ s = t := by
  have hsigil : Space.locals.sigil ≠ Space.labels.sigil := by decide
  cases s with
  | ofLocal x =>
    cases t with
    | ofLocal y => simp [text]
    | ofLabel k => simp [text, Handle.text_eq_iff, hsigil]
  | ofLabel k =>
    cases t with
    | ofLocal x => simp [text, Handle.text_eq_iff, hsigil.symm]
    | ofLabel j => simp [text]

end Slot

/-! ## Handles of every kind -/

/-- Handles are identified by their texts, whatever characters the debug names hold. The text of a
slot tells its kind, its number and its name or that it has none, and so does the text of a handle
within its space. The texts of two variables are the same for one variable, and for a local and a
parameter of the same number and the same name; without a name these differ too. -/
theorem handles_identified_by_text :
    (∀ s t : Slot, s.text = t.text ↔ s.rank = t.rank ∧ s.id = t.id ∧ s.name = t.name) ∧
      (∀ (κ : Space) (a b : Handle κ), a.text = b.text ↔ a.id = b.id ∧ a.name = b.name) ∧
      ∀ v w : Var, v.text = w.text ↔
        v = w ∨ ∃ id name,
          (v = .ofLocal ⟨id, some name⟩ ∧ w = .ofParam ⟨id, some name⟩) ∨
            (v = .ofParam ⟨id, some name⟩ ∧ w = .ofLocal ⟨id, some name⟩) := by
  refine ⟨?slots, ?handles, ?vars⟩
  case slots =>
    intro s t
    rw [Slot.text_inj, Slot.eq_iff]
  case handles =>
    intro κ a b
    rw [Handle.text_inj, Handle.eq_iff]
  case vars =>
    intro v w
    rw [Var.text_eq_iff, Var.shown_eq_iff]

example : (Var.ofLocal ⟨4, some "env"⟩).text = (Var.ofParam ⟨4, some "env"⟩).text := rfl

/-! ## Symbols -/

namespace Symbol

variable {ε : Entity}

@[simp] theorem text_inj {a b : Symbol ε} : a.text = b.text ↔ a = b := by
  rw [Symbol.ext_iff, ← String.toList_inj, ← String.toList_inj]
  simp [text]

theorem isWord_text {cs : List Char} (hcs : cs ⊆ delimiters) {s : Symbol ε}
    (hname : Avoids cs s.name) : IsWord cs s.text := by
  have hsigil : Avoids cs "$" := Avoids.of_subset hcs (by decide)
  exact ⟨by simp [text], Listing.avoids_append.mpr ⟨hsigil, hname⟩⟩

end Symbol

/-! ## Types -/

namespace Ty

mutual

/-- A type is determined by its notation. -/
theorem datum_inj : ∀ {a b : Ty}, a.datum = b.datum ↔ a = b
  | i32, b => by cases b <;> simp [datum]
  | i64, b => by cases b <;> simp [datum]
  | f64, b => by cases b <;> simp [datum]
  | ref _, b => by cases b <;> simp [datum]
  | tuple as, b => by
    cases b with
    | tuple bs => simp [datum, @data_inj as]
    | _ => simp [datum]

theorem data_inj : ∀ {as bs : List Ty}, data as = data bs ↔ as = bs
  | [], bs => by cases bs <;> simp [data]
  | a :: as, bs => by
    cases bs with
    | nil => simp [data]
    | cons b bs => simp [data, @datum_inj a, @data_inj as]

end

attribute [simp] datum_inj

mutual

/-- The names that a type is written with: those of its heap types. -/
def names : Ty → List String
  | ref heap => [heap.name]
  | tuple parts => namesAll parts
  | _ => []

/-- The names that the types of a list are written with. -/
def namesAll : List Ty → List String
  | [] => []
  | t :: rest => t.names ++ namesAll rest

end

variable {cs : List Char}

mutual

theorem isWord_of_mem_datum (hcs : cs ⊆ delimiters) :
    ∀ {t : Ty}, (∀ n ∈ t.names, Avoids cs n) → ∀ w ∈ t.datum.words, IsWord cs w
  | i32, _, w, hw | i64, _, w, hw | f64, _, w, hw => by
    simp only [datum, Datum.words_word, List.mem_singleton] at hw
    subst hw
    exact IsWord.of_subset hcs (by decide)
  | ref heap, hnames, w, hw => by
    have hheap : Avoids cs heap.name := hnames _ (by simp [names])
    have hword : IsWord cs "ref" := IsWord.of_subset hcs (by decide)
    simp only [datum, Datum.words_list, Datum.wordsAll_eq_flatMap, List.flatMap_cons,
      Datum.words_word, List.flatMap_nil, List.append_nil, List.singleton_append, List.mem_cons,
      List.not_mem_nil, or_false] at hw
    rcases hw with rfl | rfl
    · exact hword
    · exact Symbol.isWord_text hcs hheap
  | tuple parts, hnames, w, hw => by
    have hword : IsWord cs "tuple" := IsWord.of_subset hcs (by decide)
    rw [datum, Datum.words_list, Datum.wordsAll, Datum.words_word, List.singleton_append,
      List.mem_cons] at hw
    rcases hw with rfl | hw
    · exact hword
    · exact isWord_of_mem_data hcs (fun n hn => hnames n (by rwa [names])) w hw

theorem isWord_of_mem_data (hcs : cs ⊆ delimiters) :
    ∀ {ts : List Ty}, (∀ n ∈ namesAll ts, Avoids cs n) →
      ∀ w ∈ Datum.wordsAll (data ts), IsWord cs w
  | [], _, w, hw => by
    rw [data, Datum.wordsAll] at hw
    cases hw
  | t :: rest, hnames, w, hw => by
    rw [namesAll, List.forall_mem_append] at hnames
    rw [data, Datum.wordsAll, List.mem_append] at hw
    rcases hw with hw | hw
    · exact isWord_of_mem_datum hcs hnames.1 w hw
    · exact isWord_of_mem_data hcs hnames.2 w hw

end

end Ty
end JoinIR
