/-
# JoinIR.Proofs.Listing.Rows — a listing line by line

Every node of an outline opens one line of its listing. A **row** says what stands on such a line:
how deep it is indented, the head of the node, and how many parentheses are closed at its end. The
rows of an outline are read off the tree (`Outline.rows`), and the listing is their texts, one below
the other (`Outline.listing_eq_intercalate`).

As long as no word holds a line break, the rows can be recovered from the text: they are the lines
of the listing (`Outline.lines_listing`).
-/
import JoinIR.Proofs.Listing.Reading

namespace JoinIR.Listing

/-! ## Rows -/

/-- A number of closing parentheses. -/
def parens (n : Nat) : String := String.ofList (List.replicate n ')')

@[simp] theorem toList_parens (n : Nat) : (parens n).toList = List.replicate n ')' := by
  simp [parens]

@[simp] theorem parens_zero : parens 0 = "" := rfl

theorem parens_succ (n : Nat) : parens (n + 1) = ")" ++ parens n := by
  simp [← String.toList_inj, List.replicate_succ]

/-- What stands on the line of a node. -/
structure Row where
  depth : Nat
  head : List Datum
  /-- The number of parentheses that are closed at the end of the line. -/
  closing : Nat
  deriving Repr

namespace Row

/-- The line without its indentation. -/
def content (r : Row) : String := "(" ++ Datum.textAll r.head ++ parens r.closing

/-- The line. -/
def text (r : Row) : String := Outline.indent r.depth ++ r.content

end Row

namespace Outline

mutual

/-- The rows of an outline at a depth, if `closing` parentheses are closed after it. A node closes
its own parenthesis on its line if nothing stands below it. -/
def rows (depth closing : Nat) : Outline → List Row
  | node head children =>
    ⟨depth, head, if children.isEmpty then closing + 1 else 0⟩ ::
      rowsAll (depth + 1) (closing + 1) children

/-- The rows of several outlines, if `closing` parentheses are closed after the last one. -/
def rowsAll (depth closing : Nat) : List Outline → List Row
  | [] => []
  | o :: rest => rows depth (if rest.isEmpty then closing else 0) o ++ rowsAll depth closing rest

end

theorem rows_node (depth closing : Nat) (head : List Datum) (children : List Outline) :
    rows depth closing (node head children)
      = ⟨depth, head, if children.isEmpty then closing + 1 else 0⟩ ::
        rowsAll (depth + 1) (closing + 1) children := by rw [rows]

@[simp] theorem rowsAll_nil (depth closing : Nat) : rowsAll depth closing [] = [] := by rw [rowsAll]

@[simp] theorem rowsAll_cons (depth closing : Nat) (o : Outline) (rest : List Outline) :
    rowsAll depth closing (o :: rest)
      = rows depth (if rest.isEmpty then closing else 0) o ++ rowsAll depth closing rest := by
  rw [rowsAll]

theorem rows_eq_cons (depth closing : Nat) (o : Outline) :
    ∃ r rest, rows depth closing o = r :: rest := by
  obtain ⟨head, children⟩ := o
  exact ⟨_, _, rows_node depth closing head children⟩

/-! ## The text of rows -/

/-- The texts of rows, each after a line break. -/
def lined (rs : List Row) : String := String.join (rs.map fun r => "\n" ++ r.text)

@[simp] theorem lined_nil : lined [] = "" := rfl

@[simp] theorem lined_cons (r : Row) (rs : List Row) :
    lined (r :: rs) = "\n" ++ r.text ++ lined rs := by
  simp [lined, String.join_cons]

theorem lined_append (rs ss : List Row) : lined (rs ++ ss) = lined rs ++ lined ss := by
  simp [lined]

theorem lined_eq_intercalate {rs : List Row} (h : rs ≠ []) :
    lined rs = "\n" ++ "\n".intercalate (rs.map Row.text) := by
  induction rs with
  | nil => exact absurd rfl h
  | cons r rest ih =>
    cases rest with
    | nil => simp
    | cons s rest =>
      rw [lined_cons, ih (by simp)]
      simp [String.append_assoc]

mutual

/-- The rows of an outline spell out its lines and the parentheses closed after it. -/
theorem lined_rows (depth closing : Nat) : ∀ o : Outline,
    lined (o.rows depth closing) = "\n" ++ o.block depth ++ parens closing
  | node head children => by
    rw [rows_node, lined_cons, lined_rowsAll (depth + 1) (closing + 1) children, block_node,
      Row.text, Row.content]
    cases children with
    | nil => simp [parens_succ, String.append_assoc]
    | cons o rest => simp [parens_succ, String.append_assoc]

theorem lined_rowsAll (depth closing : Nat) : ∀ os : List Outline,
    lined (rowsAll depth closing os)
      = blocks depth os ++ if os.isEmpty then "" else parens closing
  | [] => by simp
  | o :: rest => by
    rw [rowsAll_cons, lined_append, lined_rows, lined_rowsAll depth closing rest, blocks_cons]
    cases rest <;> simp [String.append_assoc]

end

/-- The lines of an outline are the texts of its rows with line breaks between them. -/
theorem block_eq_intercalate (depth : Nat) (o : Outline) :
    o.block depth = "\n".intercalate ((o.rows depth 0).map Row.text) := by
  have hne : o.rows depth 0 ≠ [] := by
    obtain ⟨r, rest, hrows⟩ := rows_eq_cons depth 0 o
    simp [hrows]
  have hlined := lined_rows depth 0 o
  rwa [lined_eq_intercalate hne, parens_zero, String.append_empty, String.append_right_inj,
    eq_comm] at hlined

/-- A listing is the texts of its rows with line breaks between them. -/
theorem listing_eq_intercalate (o : Outline) :
    o.listing = "\n".intercalate ((o.rows 0 0).map Row.text) := by
  rw [listing_eq_block, block_eq_intercalate]

/-! ## The words in rows -/

mutual

/-- The words in the rows of an outline are words of the outline. -/
theorem words_of_mem_rows {depth closing : Nat} : ∀ {o : Outline} {r : Row},
    r ∈ o.rows depth closing → ∀ w ∈ r.head.flatMap Datum.words, w ∈ o.words
  | node head children, r, hr, w, hw => by
    rw [rows_node, List.mem_cons] at hr
    rw [words_node, List.mem_append]
    rcases hr with rfl | hr
    · exact .inl hw
    · exact .inr (words_of_mem_rowsAll hr w hw)

theorem words_of_mem_rowsAll {depth closing : Nat} : ∀ {os : List Outline} {r : Row},
    r ∈ rowsAll depth closing os → ∀ w ∈ r.head.flatMap Datum.words, w ∈ wordsAll os
  | [], r, hr, _, _ => by
    rw [rowsAll_nil] at hr
    cases hr
  | o :: rest, r, hr, w, hw => by
    rw [rowsAll_cons, List.mem_append] at hr
    rw [wordsAll, List.mem_append]
    rcases hr with hr | hr
    · exact .inl (words_of_mem_rows hr w hw)
    · exact .inr (words_of_mem_rowsAll hr w hw)

end

end Outline

/-! ## Lines of a text -/

/-- The lines of a text. -/
def lines (text : String) : List String := (text.toList.splitOn '\n').map String.ofList

/-- A line without the blanks that it starts with. -/
def dedent (line : String) : String := String.ofList (line.toList.dropWhile (· == ' '))

theorem lines_intercalate {ls : List String} (hne : ls ≠ [])
    (h : ∀ l ∈ ls, Avoids ['\n'] l) : lines ("\n".intercalate ls) = ls := by
  have hbreak : ∀ l ∈ ls.map String.toList, '\n' ∉ l := by
    rw [List.forall_mem_map]
    intro l hl hmem
    exact h l hl '\n' hmem List.mem_cons_self
  rw [lines, String.toList_intercalate, show "\n".toList = ['\n'] by rfl,
    List.splitOn_intercalate '\n' hbreak (by simpa using hne), List.map_map]
  exact List.map_id'' (fun l => String.ofList_toList) ls

theorem toList_indent (depth : Nat) :
    (Outline.indent depth).toList = List.replicate (2 * depth) ' ' := by
  induction depth with
  | zero => rfl
  | succ depth ih =>
    rw [Outline.indent, String.toList_append, ih, Nat.mul_succ, Nat.add_comm, List.replicate_add]
    rfl

theorem Row.dedent_text (r : Row) : dedent r.text = r.content := by
  have hblank : ∀ c ∈ List.replicate (2 * r.depth) ' ', (c == ' ') = true := by
    intro c hc
    rw [List.eq_of_mem_replicate hc]
    rfl
  rw [dedent, text, String.toList_append, toList_indent, List.dropWhile_append_of_pos hblank,
    content]
  simp [← String.toList_inj]

mutual

/-- The text of a datum is on one line if its words are. -/
theorem Datum.avoids_text : ∀ {d : Datum}, (∀ w ∈ d.words, Avoids ['\n'] w) →
    Avoids ['\n'] d.text
  | word w, h => by
    rw [text_word]
    exact h w (by simp)
  | list items, h => by
    rw [words_list] at h
    rw [text_list, avoids_append, avoids_append]
    exact ⟨⟨by decide, Datum.avoids_textAll h⟩, by decide⟩

theorem Datum.avoids_textAll : ∀ {ds : List Datum}, (∀ w ∈ wordsAll ds, Avoids ['\n'] w) →
    Avoids ['\n'] (textAll ds)
  | [], _ => by
    rw [textAll_nil]
    decide
  | [d], h => by
    rw [textAll_singleton]
    exact Datum.avoids_text (by simpa using h)
  | d :: e :: rest, h => by
    rw [wordsAll, List.forall_mem_append] at h
    rw [textAll_cons_cons, avoids_append, avoids_append]
    exact ⟨⟨Datum.avoids_text h.1, by decide⟩, Datum.avoids_textAll h.2⟩

end

theorem Row.avoids_text {r : Row} (h : ∀ w ∈ r.head.flatMap Datum.words, Avoids ['\n'] w) :
    Avoids ['\n'] r.text := by
  have hindent : Avoids ['\n'] (Outline.indent r.depth) := by
    intro c hc
    rw [toList_indent] at hc
    rw [List.eq_of_mem_replicate hc]
    decide
  have hparens : Avoids ['\n'] (parens r.closing) := by
    intro c hc
    rw [toList_parens] at hc
    rw [List.eq_of_mem_replicate hc]
    decide
  have hhead : Avoids ['\n'] (Datum.textAll r.head) :=
    Datum.avoids_textAll (by rwa [Datum.wordsAll_eq_flatMap])
  rw [text, content, avoids_append, avoids_append, avoids_append]
  exact ⟨hindent, ⟨by decide, hhead⟩, hparens⟩

/-- The lines of a listing are its rows, if no word is broken. -/
theorem Outline.lines_listing {o : Outline} (h : ∀ w ∈ o.words, Avoids ['\n'] w) :
    lines o.listing = (o.rows 0 0).map Row.text := by
  obtain ⟨r, rest, hrows⟩ := rows_eq_cons 0 0 o
  rw [listing_eq_intercalate]
  apply lines_intercalate
  · simp [hrows]
  · rw [List.forall_mem_map]
    intro r hr
    exact Row.avoids_text fun w hw => h w (words_of_mem_rows hr w hw)

end JoinIR.Listing
