/-
# JoinIR.Proofs.Listing.Reading — a listing can be read back

The text of a listing determines its outline, provided every word in it is a word to a reader:
not empty, and without a blank, a line break or a parenthesis (`Outline.listing_inj`).

Two observations carry this. The text of a datum or of an outline **delimits itself**: what comes
after it does not matter to where it ends, as long as that does not continue a word
(`Datum.append_inj`, `Outline.append_inj`). And the lines of an outline do not depend on the text
in front of them, but for the line break between the two (`Outline.emit_eq`).
-/
import JoinIR.Proofs.Words
import JoinIR.Listing.Outline

namespace JoinIR.Listing

/-! ## Words -/

/-- A rest of a text that does not continue a word. -/
def Stops (r : List Char) : Prop := ∀ c ∈ r.head?, c ∈ delimiters

theorem stops_cons {c : Char} {r : List Char} : Stops (c :: r) ↔ c ∈ delimiters := by
  simp [Stops]

/-- A word ends where the rest of the text does not continue it. -/
theorem Avoids.append_inj {v w : String} {r s : List Char} (hv : Avoids delimiters v)
    (hw : Avoids delimiters w) (hr : Stops r) (hs : Stops s)
    (h : v.toList ++ r = w.toList ++ s) : v = w ∧ r = s := by
  rw [← String.toList_inj]
  exact run_append_inj hv hw hr hs h

/-! ## Data -/

namespace Datum

/-- Every word of the datum is a word to a reader. -/
def Legible (d : Datum) : Prop := ∀ w ∈ d.words, IsWord delimiters w

/-- The texts of data with a blank in front of each. -/
def spaced (items : List Datum) : List Char := items.flatMap fun d => ' ' :: d.text.toList

@[simp] theorem spaced_nil : spaced [] = [] := rfl

@[simp] theorem spaced_cons (d : Datum) (rest : List Datum) :
    spaced (d :: rest) = ' ' :: (d.text.toList ++ spaced rest) := rfl

theorem toList_text_list (items : List Datum) :
    (list items).text.toList = '(' :: ((textAll items).toList ++ [')']) := by
  simp

theorem toList_textAll_cons (d : Datum) (rest : List Datum) :
    (textAll (d :: rest)).toList = d.text.toList ++ spaced rest := by
  induction rest generalizing d with
  | nil => simp
  | cons e rest ih => simp [ih]

/-- The characters of a legible datum start with a parenthesis or inside a word. -/
theorem Legible.head {d : Datum} (hd : d.Legible) :
    ∃ c cs, d.text.toList = c :: cs ∧ (c ∈ delimiters → c = '(') := by
  cases d with
  | list items => exact ⟨'(', _, toList_text_list items, fun _ => rfl⟩
  | word w =>
    have hword : IsWord delimiters w := hd w (by simp)
    rw [text_word]
    cases hw : w.toList with
    | nil => exact absurd (String.toList_eq_nil_iff.mp hw) hword.ne_empty
    | cons c cs =>
      have hc : c ∉ delimiters := hword.avoids c (by simp [hw])
      exact ⟨c, cs, rfl, fun h => absurd h hc⟩

/-- A rest of a text that ends a list of data. -/
def Closes (r : List Char) : Prop := ∃ c cs, r = c :: cs ∧ (c = ')' ∨ c = '\n')

theorem Closes.stops_spaced {r : List Char} (hr : Closes r) (items : List Datum) :
    Stops (spaced items ++ r) := by
  cases items with
  | nil =>
    obtain ⟨c, cs, rfl, rfl | rfl⟩ := hr <;> exact stops_cons.mpr (by decide)
  | cons d rest => exact stops_cons.mpr (by decide)

theorem Closes.ne_blank {r s : List Char} (hr : Closes r) : r ≠ ' ' :: s := by
  obtain ⟨c, cs, rfl, rfl | rfl⟩ := hr <;> simp

theorem Closes.ne_datum {r s : List Char} (hr : Closes r) {d : Datum} (hd : d.Legible) :
    r ≠ d.text.toList ++ s := by
  obtain ⟨c, cs, hd, hparen⟩ := hd.head
  obtain ⟨c', cs', rfl, hc'⟩ := hr
  rw [hd]
  rintro heq
  obtain rfl : c' = c := (List.cons.inj heq).1
  rcases hc' with rfl | rfl
  · exact absurd (hparen (by decide)) (by decide)
  · exact absurd (hparen (by decide)) (by decide)

/-- A word does not open a parenthesis. -/
theorem Legible.word_ne_list {w : String} (hw : (word w).Legible) (items : List Datum)
    (r s : List Char) : (word w).text.toList ++ r ≠ (list items).text.toList ++ s := by
  have hword : IsWord delimiters w := hw w (by simp)
  rw [text_word, toList_text_list, List.cons_append]
  intro heq
  rcases List.append_eq_cons_iff.mp heq with ⟨hnil, -⟩ | ⟨k, hk, -⟩
  · exact hword.ne_empty (String.toList_eq_nil_iff.mp hnil)
  · exact hword.avoids '(' (by simp [hk]) (by decide)

theorem closes_paren (r : List Char) : Closes (')' :: r) := ⟨')', r, rfl, .inl rfl⟩

theorem closes_line (r : List Char) : Closes ('\n' :: r) := ⟨'\n', r, rfl, .inr rfl⟩

theorem legible_list {items : List Datum} :
    (list items).Legible ↔ ∀ d ∈ items, d.Legible := by
  simp only [Legible, words_list, wordsAll_eq_flatMap, List.mem_flatMap]
  grind

mutual

/-- The text of a legible datum delimits itself. -/
theorem append_inj : ∀ {d e : Datum} {r s : List Char}, d.Legible → e.Legible → Stops r →
    Stops s → d.text.toList ++ r = e.text.toList ++ s → d = e ∧ r = s
  | word v, word w, r, s, hd, he, hr, hs, h => by
    have hv : IsWord delimiters v := hd v (by simp)
    have hw : IsWord delimiters w := he w (by simp)
    rw [text_word, text_word] at h
    obtain ⟨rfl, hrest⟩ := hv.avoids.append_inj hw.avoids hr hs h
    exact ⟨rfl, hrest⟩
  | word v, list m, r, s, hd, _, _, _, h => absurd h (hd.word_ne_list m r s)
  | list l, word w, r, s, _, he, _, _, h => absurd h.symm (he.word_ne_list l s r)
  | list l, list m, r, s, hd, he, _, _, h => by
    simp only [toList_text_list, List.cons_append, List.append_assoc, List.cons.injEq, true_and,
      List.nil_append] at h
    obtain ⟨rfl, hparen⟩ := textAll_append_inj (legible_list.mp hd) (legible_list.mp he)
      (closes_paren r) (closes_paren s) h
    exact ⟨rfl, (List.cons.inj hparen).2⟩

/-- The text of legible data up to the end of a list delimits itself. -/
theorem textAll_append_inj : ∀ {l m : List Datum} {r s : List Char}, (∀ d ∈ l, d.Legible) →
    (∀ d ∈ m, d.Legible) → Closes r → Closes s →
    (textAll l).toList ++ r = (textAll m).toList ++ s → l = m ∧ r = s
  | [], [], r, s, _, _, _, _, h => by simpa using h
  | [], e :: m, r, s, _, hm, hr, _, h => by
    rw [textAll_nil, String.toList_empty, List.nil_append, toList_textAll_cons,
      List.append_assoc] at h
    exact absurd h (hr.ne_datum (hm e List.mem_cons_self))
  | d :: l, [], r, s, hl, _, _, hs, h => by
    rw [textAll_nil, String.toList_empty, List.nil_append, toList_textAll_cons,
      List.append_assoc] at h
    exact absurd h.symm (hs.ne_datum (hl d List.mem_cons_self))
  | d :: l, e :: m, r, s, hl, hm, hr, hs, h => by
    rw [List.forall_mem_cons] at hl hm
    rw [toList_textAll_cons, toList_textAll_cons, List.append_assoc, List.append_assoc] at h
    obtain ⟨rfl, hrest⟩ := append_inj hl.1 hm.1 (hr.stops_spaced l) (hs.stops_spaced m) h
    obtain ⟨rfl, hrs⟩ := spaced_append_inj hl.2 hm.2 hr hs hrest
    exact ⟨rfl, hrs⟩

/-- The same with a blank in front of each datum. -/
theorem spaced_append_inj : ∀ {l m : List Datum} {r s : List Char}, (∀ d ∈ l, d.Legible) →
    (∀ d ∈ m, d.Legible) → Closes r → Closes s → spaced l ++ r = spaced m ++ s → l = m ∧ r = s
  | [], [], r, s, _, _, _, _, h => ⟨rfl, h⟩
  | [], e :: m, r, s, _, _, hr, _, h => absurd h hr.ne_blank
  | d :: l, [], r, s, _, _, _, hs, h => absurd h.symm hs.ne_blank
  | d :: l, e :: m, r, s, hl, hm, hr, hs, h => by
    rw [List.forall_mem_cons] at hl hm
    simp only [spaced_cons, List.cons_append, List.append_assoc, List.cons.injEq, true_and] at h
    obtain ⟨rfl, hrest⟩ := append_inj hl.1 hm.1 (hr.stops_spaced l) (hs.stops_spaced m) h
    obtain ⟨rfl, hrs⟩ := spaced_append_inj hl.2 hm.2 hr hs hrest
    exact ⟨rfl, hrs⟩

end

end Datum

/-! ## Lines -/

namespace Outline

mutual

/-- The lines of an outline at a depth. -/
def block (depth : Nat) : Outline → String
  | node head children =>
    indent depth ++ ("(" ++ Datum.textAll head) ++ blocks (depth + 1) children ++ ")"

/-- The lines of several outlines at a depth, each after a line break. -/
def blocks (depth : Nat) : List Outline → String
  | [] => ""
  | o :: rest => "\n" ++ o.block depth ++ blocks depth rest

end

theorem block_node (depth : Nat) (head : List Datum) (children : List Outline) :
    block depth (node head children)
      = indent depth ++ ("(" ++ Datum.textAll head) ++ blocks (depth + 1) children ++ ")" := by
  rw [block]

@[simp] theorem blocks_nil (depth : Nat) : blocks depth [] = "" := by rw [blocks]

@[simp] theorem blocks_cons (depth : Nat) (o : Outline) (rest : List Outline) :
    blocks depth (o :: rest) = "\n" ++ o.block depth ++ blocks depth rest := by rw [blocks]

/-- The text in front of the next line: what is there so far and a line break, if there is any. -/
def opened (text : String) : String := if text.isEmpty then text else text ++ "\n"

theorem opened_of_ne_empty {text : String} (h : text ≠ "") : opened text = text ++ "\n" := by
  simp [opened, h]

mutual

/-- Emission appends the lines of the outline, which do not depend on the text so far. -/
theorem emit_eq (depth : Nat) (text : String) :
    ∀ o : Outline, emit depth text o = opened text ++ o.block depth
  | node head children => by
    have hline : line depth text ("(" ++ Datum.textAll head) ≠ "" := by simp [line]
    rw [emit_node, emitAll_eq (depth + 1) hline children, block_node, line, ← opened]
    simp only [String.append_assoc]

theorem emitAll_eq (depth : Nat) {text : String} (htext : text ≠ "") :
    ∀ os : List Outline, emitAll depth text os = text ++ blocks depth os
  | [] => by simp
  | o :: rest => by
    have hmore : opened text ++ o.block depth ≠ "" := by
      rw [opened_of_ne_empty htext]
      simp [htext]
    rw [emitAll_cons, emit_eq depth text o, emitAll_eq depth hmore rest, blocks_cons,
      opened_of_ne_empty htext]
    simp only [String.append_assoc]

end

theorem listing_eq_block (o : Outline) : o.listing = o.block 0 := by
  rw [listing, emit_eq]
  simp [opened]

/-! ## Outlines -/

mutual

/-- The words in the heads of an outline, from the top. -/
def words : Outline → List String
  | node head children => head.flatMap Datum.words ++ wordsAll children

/-- The words in the heads of several outlines, from the top. -/
def wordsAll : List Outline → List String
  | [] => []
  | o :: rest => o.words ++ wordsAll rest

end

@[simp] theorem words_node (head : List Datum) (children : List Outline) :
    (node head children).words = head.flatMap Datum.words ++ wordsAll children := by rw [words]

@[simp] theorem wordsAll_eq_flatMap (os : List Outline) : wordsAll os = os.flatMap words := by
  induction os with
  | nil => rw [wordsAll, List.flatMap_nil]
  | cons o rest ih => rw [wordsAll, ih, List.flatMap_cons]

/-- Every word in the outline is a word to a reader. -/
def Legible (o : Outline) : Prop := ∀ w ∈ o.words, IsWord delimiters w

theorem legible_node {head : List Datum} {children : List Outline} :
    (node head children).Legible ↔ (∀ d ∈ head, d.Legible) ∧ ∀ o ∈ children, o.Legible := by
  simp only [Legible, Datum.Legible, words_node, wordsAll_eq_flatMap, List.forall_mem_append,
    List.mem_flatMap]
  grind

theorem closes_blocks (depth : Nat) (os : List Outline) (r : List Char) :
    Datum.Closes ((blocks depth os).toList ++ ')' :: r) := by
  cases os with
  | nil => simpa using Datum.closes_paren r
  | cons o rest =>
    simp only [blocks_cons, String.toList_append, List.append_assoc]
    exact Datum.closes_line _

mutual

/-- The lines of a legible outline delimit themselves, whatever comes after them. -/
theorem append_inj {depth : Nat} : ∀ {o p : Outline} {r s : List Char}, o.Legible → p.Legible →
    (o.block depth).toList ++ r = (p.block depth).toList ++ s → o = p ∧ r = s
  | node g cs, node h ds, r, s, ho, hp, heq => by
    rw [legible_node] at ho hp
    simp only [block_node, String.toList_append, List.append_assoc,
      List.append_cancel_left_eq] at heq
    obtain ⟨rfl, hrest⟩ := Datum.textAll_append_inj ho.1 hp.1 (closes_blocks (depth + 1) cs r)
      (closes_blocks (depth + 1) ds s) heq
    obtain ⟨rfl, hrs⟩ := blocks_append_inj ho.2 hp.2 hrest
    exact ⟨rfl, hrs⟩

/-- The same for the children of a node, up to its closing parenthesis. -/
theorem blocks_append_inj {depth : Nat} : ∀ {os ps : List Outline} {r s : List Char},
    (∀ o ∈ os, o.Legible) → (∀ p ∈ ps, p.Legible) →
    (blocks depth os).toList ++ ')' :: r = (blocks depth ps).toList ++ ')' :: s → os = ps ∧ r = s
  | [], [], r, s, _, _, h => by simpa using h
  | [], p :: ps, r, s, _, _, h => by simp at h
  | o :: os, [], r, s, _, _, h => by simp at h
  | o :: os, p :: ps, r, s, hos, hps, h => by
    rw [List.forall_mem_cons] at hos hps
    simp only [blocks_cons, String.toList_append, List.append_assoc,
      List.append_cancel_left_eq] at h
    obtain ⟨rfl, hrest⟩ := append_inj hos.1 hps.1 h
    obtain ⟨rfl, hrs⟩ := blocks_append_inj hos.2 hps.2 hrest
    exact ⟨rfl, hrs⟩

end

/-- A listing determines its outline. -/
theorem listing_inj {o p : Outline} (ho : o.Legible) (hp : p.Legible) :
    o.listing = p.listing ↔ o = p := by
  constructor
  · intro h
    have hlist := congrArg String.toList h
    rw [listing_eq_block, listing_eq_block] at hlist
    exact (append_inj (r := []) (s := []) ho hp (by simpa using hlist)).1
  · rintro rfl
    rfl

end Outline
end JoinIR.Listing
