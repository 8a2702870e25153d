/-
# JoinIR.Proofs.Listing.Nesting — the indentation of a listing is its nesting

A listing shows the tree twice: by its parentheses and by its indentation. The two agree
(`indentation_is_nesting`): in front of every line there are two blanks for each parenthesis that is
open there, and the expression is open from its first character until the last one.

The parentheses are those of a **balanced** text between two more, as words hold none. That carries
over from data to outlines, one constructor at a time (`Outline.balanced_block`). The indentation is
compared row by row: a row is as deep as parentheses are open before it (`Row.Nested`), which holds
of the rows of an outline at every depth because an outline closes what it opens.
-/
import JoinIR.Proofs.Listing.Printing

namespace JoinIR

open Listing (Datum Outline Row Avoids delimiters parens lines)

namespace Listing

/-! ## Open parentheses -/

/-- The opening parentheses in a text less the closing ones. -/
def balance (cs : List Char) : Int := cs.count '(' - cs.count ')'

@[simp] theorem balance_nil : balance [] = 0 := rfl

@[simp] theorem balance_append (l m : List Char) : balance (l ++ m) = balance l + balance m := by
  simp only [balance, List.count_append]
  omega

@[simp] theorem balance_open (l : List Char) : balance ('(' :: l) = balance l + 1 := by
  simp only [balance, List.count_cons_self, List.count_cons_of_ne (show '(' ≠ ')' by decide)]
  omega

@[simp] theorem balance_close (l : List Char) : balance (')' :: l) = balance l - 1 := by
  simp only [balance, List.count_cons_self, List.count_cons_of_ne (show ')' ≠ '(' by decide)]
  omega

/-- A text without parentheses leaves the number of open ones as it is. -/
theorem balance_of_not_mem {l : List Char} (ho : '(' ∉ l) (hc : ')' ∉ l) : balance l = 0 := by
  rw [balance, List.count_eq_zero.mpr ho, List.count_eq_zero.mpr hc]
  rfl

theorem balance_replicate_close (n : Nat) : balance (List.replicate n ')') = -n := by
  induction n with
  | zero => rfl
  | succ n ih =>
    rw [List.replicate_succ, balance_close, ih]
    omega

/-- The text closes the parentheses that it opens, and no others. -/
structure Balanced (l : List Char) : Prop where
  total : balance l = 0
  nonneg : ∀ p, p <+: l → 0 ≤ balance p

namespace Balanced

variable {l m : List Char}

theorem of_not_mem (ho : '(' ∉ l) (hc : ')' ∉ l) : Balanced l where
  total := balance_of_not_mem ho hc
  nonneg p hp := by
    rw [balance_of_not_mem (fun h => ho (hp.subset h)) fun h => hc (hp.subset h)]

theorem of_avoids {s : String} (h : Avoids ['(', ')'] s) : Balanced s.toList :=
  of_not_mem (fun hmem => h _ hmem (by decide)) fun hmem => h _ hmem (by decide)

theorem append (hl : Balanced l) (hm : Balanced m) : Balanced (l ++ m) where
  total := by rw [balance_append, hl.total, hm.total, Int.add_zero]
  nonneg p hp := by
    obtain ⟨s, hs⟩ := hp
    rcases List.append_eq_append_iff.mp hs with ⟨k, rfl, -⟩ | ⟨k, rfl, rfl⟩
    · exact hl.nonneg p (List.prefix_append p k)
    · rw [balance_append, hl.total, Int.zero_add]
      exact hm.nonneg k (List.prefix_append k s)

end Balanced

/-- The text is one parenthesised expression: it is open from its first character until the last
one, which closes it. -/
structure Enclosed (l : List Char) : Prop where
  inside : ∀ p, p <+: l → p ≠ [] → p ≠ l → 0 < balance p
  total : balance l = 0
  last : l.getLast? = some ')'

theorem Balanced.enclosed {l : List Char} (h : Balanced l) : Enclosed ('(' :: (l ++ [')'])) where
  inside p hp hne hproper := by
    obtain rfl | ⟨q, rfl, hq⟩ := List.prefix_cons_iff.mp hp
    · exact absurd rfl hne
    rcases List.prefix_concat_iff.mp hq with rfl | hq
    · exact absurd rfl hproper
    · have hnonneg := h.nonneg q hq
      rw [balance_open]
      omega
  total := by
    rw [balance_open, balance_append, h.total, balance_close, balance_nil]
    rfl
  last := by rw [← List.cons_append, List.getLast?_concat]

theorem Enclosed.balanced {l : List Char} (h : Enclosed l) : Balanced l where
  total := h.total
  nonneg p hp := by
    by_cases hnil : p = []
    · rw [hnil, balance_nil]
    · by_cases hall : p = l
      · rw [hall, h.total]
      · exact (h.inside p hp hnil hall).le

/-! ## Data and outlines are balanced -/

namespace Datum

mutual

/-- The text of a datum is balanced if there are no parentheses in its words. -/
theorem balanced_text : ∀ {d : Datum}, (∀ w ∈ d.words, Avoids ['(', ')'] w) →
    Balanced d.text.toList
  | word w, h => by
    rw [text_word]
    exact .of_avoids (h w (by simp))
  | list items, h => by
    rw [words_list] at h
    rw [toList_text_list]
    exact (balanced_textAll h).enclosed.balanced

theorem balanced_textAll : ∀ {ds : List Datum}, (∀ w ∈ wordsAll ds, Avoids ['(', ')'] w) →
    Balanced (textAll ds).toList
  | [], _ => by
    rw [textAll_nil]
    exact .of_avoids (by decide)
  | [d], h => by
    rw [textAll_singleton]
    exact balanced_text (by simpa using h)
  | d :: e :: rest, h => by
    rw [wordsAll, List.forall_mem_append] at h
    rw [textAll_cons_cons, String.toList_append, String.toList_append]
    exact ((balanced_text h.1).append (.of_avoids (by decide))).append (balanced_textAll h.2)

end

theorem balanced_head {head : List Datum} (h : ∀ w ∈ head.flatMap words, Avoids ['(', ')'] w) :
    Balanced (textAll head).toList := by
  apply balanced_textAll
  rwa [wordsAll_eq_flatMap]

end Datum

namespace Outline

/-- The lines of a node are the blanks in front and one parenthesised expression. -/
theorem toList_block_node (depth : Nat) (head : List Datum) (children : List Outline) :
    (block depth (node head children)).toList
      = (indent depth).toList ++ '(' ::
          (((Datum.textAll head).toList ++ (blocks (depth + 1) children).toList) ++ [')']) := by
  rw [block_node]
  simp

theorem balanced_indent (depth : Nat) : Balanced (indent depth).toList := by
  rw [toList_indent]
  refine .of_not_mem (fun h => ?_) fun h => ?_
  · exact absurd (List.eq_of_mem_replicate h) (by decide)
  · exact absurd (List.eq_of_mem_replicate h) (by decide)

mutual

/-- The lines of an outline are balanced if there are no parentheses in its words. -/
theorem balanced_block {depth : Nat} : ∀ {o : Outline}, (∀ w ∈ o.words, Avoids ['(', ')'] w) →
    Balanced (o.block depth).toList
  | node head children, h => by
    rw [words_node, List.forall_mem_append] at h
    rw [toList_block_node]
    exact (balanced_indent depth).append
      ((Datum.balanced_head h.1).append (balanced_blocks h.2)).enclosed.balanced

theorem balanced_blocks {depth : Nat} : ∀ {os : List Outline},
    (∀ w ∈ wordsAll os, Avoids ['(', ')'] w) → Balanced (blocks depth os).toList
  | [], _ => by
    rw [blocks_nil]
    exact .of_avoids (by decide)
  | o :: rest, h => by
    rw [wordsAll, List.forall_mem_append] at h
    rw [blocks_cons, String.toList_append, String.toList_append]
    exact (((Balanced.of_avoids (by decide)).append (balanced_block h.1))).append
      (balanced_blocks h.2)

end

/-- A listing is one parenthesised expression. -/
theorem enclosed_listing {o : Outline} (h : ∀ w ∈ o.words, Avoids ['(', ')'] w) :
    Enclosed o.listing.toList := by
  obtain ⟨head, children⟩ := o
  rw [words_node, List.forall_mem_append] at h
  rw [listing_eq_block, toList_block_node, toList_indent, Nat.mul_zero, List.replicate_zero,
    List.nil_append]
  exact ((Datum.balanced_head h.1).append (balanced_blocks h.2)).enclosed

end Outline

/-! ## The depth of a row -/

namespace Row

/-- Every row is as deep as parentheses are open before it, if `n` are open before the first. -/
def Nested : Int → List Row → Prop
  | _, [] => True
  | n, r :: rest => r.depth = n ∧ Nested (n + balance r.text.toList) rest

/-- The characters of rows. -/
def chars (rs : List Row) : List Char := rs.flatMap fun r => r.text.toList

@[simp] theorem chars_cons (r : Row) (rs : List Row) :
    chars (r :: rs) = r.text.toList ++ chars rs := rfl

theorem nested_append {n : Int} {rs ss : List Row} :
    Nested n (rs ++ ss) ↔ Nested n rs ∧ Nested (n + balance (chars rs)) ss := by
  induction rs generalizing n with
  | nil => simp [Nested, chars]
  | cons r rest ih =>
    rw [List.cons_append, Nested, Nested, ih, chars_cons, balance_append, Int.add_assoc, and_assoc]

/-- The head of a row closes what it opens, so a row opens one parenthesis and closes those at its
end. -/
theorem balance_text {r : Row} (h : ∀ w ∈ r.head.flatMap Datum.words, Avoids ['(', ')'] w) :
    balance r.text.toList = 1 - r.closing := by
  have htext : r.text.toList = (Outline.indent r.depth).toList ++
      '(' :: ((Datum.textAll r.head).toList ++ List.replicate r.closing ')') := by
    simp [text, content]
  rw [htext, balance_append, balance_open, balance_append, (Outline.balanced_indent r.depth).total,
    (Datum.balanced_head h).total, balance_replicate_close]
  omega

end Row

namespace Outline

theorem balance_lined (rs : List Row) : balance (lined rs).toList = balance (Row.chars rs) := by
  induction rs with
  | nil => rfl
  | cons r rest ih =>
    have hbreak : balance "\n".toList = 0 := by decide
    rw [lined_cons, String.toList_append, String.toList_append, balance_append, balance_append, ih,
      hbreak, Int.zero_add, Row.chars_cons, balance_append]

/-- The rows of an outline close what they open, and the parentheses that are closed after it. -/
theorem balance_rows {o : Outline} (h : ∀ w ∈ o.words, Avoids ['(', ')'] w)
    (depth closing : Nat) : balance (Row.chars (o.rows depth closing)) = -closing := by
  have hbreak : balance "\n".toList = 0 := by decide
  rw [← balance_lined, lined_rows, String.toList_append, String.toList_append, balance_append,
    balance_append, (balanced_block h).total, toList_parens, balance_replicate_close, hbreak]
  omega

mutual

theorem nested_rows (depth closing : Nat) : ∀ {o : Outline},
    (∀ w ∈ o.words, Avoids ['(', ')'] w) → Row.Nested depth (o.rows depth closing)
  | node head [], _ => by
    rw [rows_node, rowsAll_nil]
    exact ⟨rfl, trivial⟩
  | node head (o :: rest), h => by
    rw [words_node, List.forall_mem_append] at h
    rw [rows_node]
    refine ⟨rfl, ?_⟩
    -- the parenthesis of the node stays open
    have hopen :
        (depth : Int) + balance (Row.text ⟨depth, head, 0⟩).toList = (depth + 1 : Nat) := by
      rw [Row.balance_text h.1]
      simp
    rw [List.isEmpty_cons, if_neg Bool.false_ne_true, hopen]
    exact nested_rowsAll (depth + 1) (closing + 1) h.2

theorem nested_rowsAll (depth closing : Nat) : ∀ {os : List Outline},
    (∀ w ∈ wordsAll os, Avoids ['(', ')'] w) → Row.Nested depth (rowsAll depth closing os)
  | [], _ => by
    rw [rowsAll_nil]
    trivial
  | [o], h => by
    rw [wordsAll, wordsAll, List.append_nil] at h
    rw [rowsAll_cons, rowsAll_nil, List.append_nil]
    exact nested_rows depth _ h
  | o :: p :: rest, h => by
    rw [wordsAll, List.forall_mem_append] at h
    rw [rowsAll_cons, Row.nested_append]
    refine ⟨nested_rows depth _ h.1, ?_⟩
    -- nothing is closed between siblings
    rw [List.isEmpty_cons, if_neg Bool.false_ne_true, balance_rows h.1, Int.natCast_zero,
      Int.neg_zero, Int.add_zero]
    exact nested_rowsAll depth closing h.2

end

end Outline

/-! ## Lines and parentheses -/

/-- The indentation of the text is its nesting. -/
structure IndentedByNesting (text : String) : Prop where
  /-- Two blanks for each parenthesis that is open before a line stand in front of it, and then
  comes a parenthesis. -/
  line : ∀ before line after, lines text = before ++ line :: after →
    ∃ n rest, line.toList = List.replicate (2 * n) ' ' ++ '(' :: rest ∧
      (n : Int) = balance (before.flatMap String.toList)
  /-- Parentheses are open from the first character until the last one, which closes them. -/
  enclosed : Enclosed text.toList

theorem Row.toList_text (r : Row) : ∃ rest,
    r.text.toList = List.replicate (2 * r.depth) ' ' ++ '(' :: rest := by
  refine ⟨(Datum.textAll r.head).toList ++ List.replicate r.closing ')', ?_⟩
  simp [text, content, toList_indent]

theorem Outline.indentedByNesting_listing {o : Outline}
    (h : ∀ w ∈ o.words, Avoids ['\n', '(', ')'] w) : IndentedByNesting o.listing where
  line before line after hsplit := by
    rw [lines_listing fun w hw => (h w hw).of_subset (by decide)] at hsplit
    obtain ⟨rs, ss, hrows, rfl, hline⟩ := List.map_eq_append_iff.mp hsplit
    obtain ⟨r, ss, rfl, rfl, rfl⟩ := List.map_eq_cons_iff.mp hline
    have hnested : Row.Nested 0 (o.rows 0 0) :=
      nested_rows 0 0 fun w hw => (h w hw).of_subset (by decide)
    rw [hrows, Row.nested_append, Int.zero_add] at hnested
    obtain ⟨rest, hrest⟩ := r.toList_text
    refine ⟨r.depth, rest, hrest, ?_⟩
    rw [hnested.2.1, List.flatMap_map]
    rfl
  enclosed := enclosed_listing fun w hw => (h w hw).of_subset (by decide)

end Listing

open Listing (IndentedByNesting)

/-- A node over the outline of a term is indented by nesting if no name in it holds a parenthesis
or a line break. -/
theorem Term.indentedByNesting_node {σ : Kind} {t : Term σ} {o : Outline} {head : List Datum}
    (hhead : ∀ d ∈ head, ∀ w ∈ d.words, Listing.IsWord ['\n', '(', ')'] w)
    (hnames : t.NamesAvoid ['\n', '(', ')']) (ho : t.outline = .ok o) :
    IndentedByNesting (Outline.node head [o]).listing := by
  apply Outline.indentedByNesting_listing
  intro w hw
  simp only [Outline.words_node, Outline.wordsAll_eq_flatMap, List.flatMap_cons,
    List.flatMap_nil, List.append_nil, List.mem_append, List.mem_flatMap] at hw
  rcases hw with ⟨d, hd, hw⟩ | hw
  · exact (hhead d hd w hw).avoids
  · exact (t.isWord_of_mem_outline (by decide) hnames ho w hw).avoids

/-- The indentation of a listing is its nesting. Every term without exceptions and without
parentheses and line breaks in its names has a listing in which each line starts with two blanks
for each parenthesis that is open before it, and goes on with a parenthesis; and in which
parentheses are open from the first character until the last one, which is a parenthesis that
closes the first. So have the bodies and the functions of which this holds. -/
theorem indentation_is_nesting :
    (∀ {σ : Kind} (t : Term σ), t.Listable → t.NamesAvoid ['\n', '(', ')'] →
        ∃ text, t.listing = .ok text ∧ IndentedByNesting text) ∧
      (∀ b : Body, b.term.Listable → b.NamesAvoid ['\n', '(', ')'] →
        ∃ text, b.listing = .ok text ∧ IndentedByNesting text) ∧
      ∀ f : Function, f.body.term.Listable → f.NamesAvoid ['\n', '(', ')'] →
        ∃ text, f.listing = .ok text ∧ IndentedByNesting text := by
  refine ⟨fun t hlist hnames => ?_, fun b hlist hnames => ?_, fun f hlist hnames => ?_⟩
  · obtain ⟨o, ho⟩ := t.exists_outline_iff.mpr hlist
    refine ⟨o.listing, by rw [Term.listing, ho]; rfl, ?_⟩
    apply Outline.indentedByNesting_listing
    exact fun w hw => (t.isWord_of_mem_outline (by decide) hnames ho w hw).avoids
  · obtain ⟨o, ho⟩ := b.term.exists_outline_iff.mpr hlist
    refine ⟨(Outline.node b.head [o]).listing, by rw [Body.listing, Body.outline, ho]; rfl, ?_⟩
    exact Term.indentedByNesting_node (b.isWord_of_mem_head (by decide) hnames.result)
      hnames.term ho
  · obtain ⟨o, ho⟩ := f.body.term.exists_outline_iff.mpr hlist
    refine ⟨(Outline.node f.head [o]).listing,
      by rw [Function.listing, Function.outline, ho]; rfl, ?_⟩
    exact Term.indentedByNesting_node (f.isWord_of_mem_head (by decide) hnames.signature)
      hnames.body ho

/-- In the listing of a choice, three parentheses are open before the constants, and so they stand
behind six blanks. -/
theorem nesting_choosing :
    let f := choosing
    (f.body.term.Listable ∧ f.NamesAvoid ['\n', '(', ')']) ∧
      (∃ text, f.listing = .ok text ∧ IndentedByNesting text) ∧
      f.listing.toOption.map (fun text => (lines text)[4]?) = some (some "      (i32.const 5))") ∧
      f.listing.toOption.map (fun text =>
        Listing.balance (((lines text).take 4).flatMap String.toList)) = some 3 := by
  have hlist : choosing.body.term.Listable := (Term.exists_outline_iff _).mp ⟨_, rfl⟩
  have hnames : choosing.NamesAvoid ['\n', '(', ')'] := namesAvoid_choosing (by decide) (by decide)
  exact ⟨⟨hlist, hnames⟩, indentation_is_nesting.2.2 choosing hlist hnames, by decide +kernel,
    by decide +kernel⟩

end JoinIR
