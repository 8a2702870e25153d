/-
# JoinIR.Proofs.Listing.Nodes — the nodes on the lines of a listing

A listing has a line for every node, and besides these a line for every arm, on which nothing but
the word of the arm stands. Without the lines of the arms the lines of a listing are the nodes of
the term in the order in which a walk enters them (`listing_lines_are_entries`).

The rows of an outline and the entries of a recording come from two recursions over the parts of a
term. They are compared row by row (`Interleaved`), for every depth and for any number of
parentheses that are closed after the outline (`Term.interleaved_outline`). That the lines of nodes
and those of arms cannot be confused is a matter of their first words: no mnemonic is the word of
an arm (`Term.content_not_mem_armLines`).
-/
import JoinIR.Proofs.Entries
import JoinIR.Proofs.Heads
import JoinIR.Proofs.Listing.Rows

namespace JoinIR

open Listing (Datum Outline Row Avoids parens lines dedent)

/-! ## Captions and the openings of lines -/

namespace Caption

/-- The mnemonic of the construct in a listing. -/
def mnemonic (c : Caption) : String :=
  match c.word with
  | "i32" => "i32.const"
  | "i64" => "i64.const"
  | "f64" => "f64.const"
  | "ref_func" => "ref.func"
  | "var" => "local.get"
  | "struct_new" => "struct.new"
  | "array_new_fixed" => "array.new_fixed"
  | "ref_cast" => "ref.cast"
  | "global_get" => "global.get"
  | "store" => "struct.set"
  | "assign" => "local.set"
  | word => word

/-- What the caption of a node tells of the line of the node: the mnemonic and the detail. The
detail of an operator is its mnemonic. -/
def opening (c : Caption) : String :=
  match c.detail with
  | some detail =>
    if c.word = "bin" ∨ c.word = "un" then detail else c.mnemonic ++ " " ++ detail
  | none => c.mnemonic

end Caption

/-- The text is the given one, or goes on after it with a blank. -/
def Opens (opening text : String) : Prop := text = opening ∨ ∃ rest, text = opening ++ " " ++ rest

theorem opens_word (w : String) (rest : List Datum) :
    Opens w (Datum.textAll (.word w :: rest)) := by
  cases rest with
  | nil => exact .inl (by simp)
  | cons d rest => exact .inr ⟨_, by rw [Datum.textAll_cons_cons, Datum.text_word]⟩

theorem opens_words (w v : String) (rest : List Datum) :
    Opens (w ++ " " ++ v) (Datum.textAll (.word w :: .word v :: rest)) := by
  rw [Datum.textAll_cons_cons, Datum.text_word]
  rcases opens_word v rest with h | ⟨s, h⟩
  · exact .inl (by rw [h])
  · exact .inr ⟨s, by simp only [h, String.append_assoc]⟩

/-- The head of a listed node opens with what its caption tells. -/
theorem Term.opens_head {σ : Kind} {t : Term σ} (h : t.unlisted? = none) :
    Opens t.caption.opening (Datum.textAll t.head) := by
  cases t with
  | i32 | i64 | refFunc | var | call | globalGet => exact opens_words _ _ _
  | binary op => exact opens_word op.text []
  | unary op =>
    left
    simp [head, caption, word, detail, Caption.opening, UnOp.text, Datum.textAll_eq_intercalate,
      Function.comp_def]
  | store op => cases op; exact opens_word _ _
  | tryCatch | raise => cases h
  | _ => exact opens_word _ _

/-! ## Arms -/

/-- The lines of arms, without their indentation. -/
def armLines : List String := Term.armWords.map ("(" ++ ·)

/-- The lines of a text that are not those of arms, without their indentation. -/
def nodeLines (text : String) : List String :=
  ((lines text).map dedent).filter fun line => line ∉ armLines

/-- No mnemonic is the word of an arm. -/
theorem Term.mnemonic_not_mem_armWords {σ : Kind} {t : Term σ} (h : t.unlisted? = none)
    {m : String} {rest : List Datum} (hhead : t.head = .word m :: rest) : m ∉ armWords := by
  intro hm
  obtain ⟨m', rest', hhead', hword⟩ := exists_mnemonic h
  obtain rfl : m = m' := by
    rw [hhead] at hhead'
    exact Datum.word.inj (List.cons.inj hhead').1
  -- the words of arms are in no table of mnemonics, and the mnemonic of an operator has a dot
  have hunknown : ∀ w ∈ armWords, wordOf w = "bin" := by decide +kernel
  have hdotless : ∀ w ∈ armWords, '.' ∉ w.toList := by decide
  have hbin : t.word = "bin" := by rw [← hword, hunknown m hm]
  cases t with
  | binary op =>
    obtain rfl : op.text = m := Datum.word.inj (List.cons.inj hhead).1
    exact hdotless _ hm op.dot_mem_text
  | _ => simp [word] at hbin

/-- The line of a node is not the line of an arm. -/
theorem Term.content_not_mem_armLines {σ : Kind} {t : Term σ} (h : t.unlisted? = none) {r : Row}
    (hhead : r.head = t.head) : r.content ∉ armLines := by
  intro hmem
  obtain ⟨m, rest, hm, -⟩ := exists_mnemonic h
  obtain ⟨w, hw, hline⟩ := List.mem_map.mp hmem
  rw [eq_comm, Row.content, String.append_assoc, String.append_right_inj, hhead, hm,
    ← String.toList_inj, String.toList_append, Datum.toList_textAll_cons, Datum.text_word,
    Listing.toList_parens] at hline
  have hwords : ∀ v ∈ armWords, Avoids [' ', ')'] v := by decide
  have havoids := hwords w hw
  -- neither a blank nor a parenthesis follows the mnemonic
  have hrest : rest = [] := by
    cases rest with
    | nil => rfl
    | cons d rest => exact absurd (by decide) (havoids ' ' (by simp [← hline]))
  have hclosing : r.closing = 0 := by
    cases hn : r.closing with
    | zero => rfl
    | succ n => exact absurd (by decide) (havoids ')' (by simp [← hline, hn]))
  rw [hrest, hclosing] at hline
  obtain rfl : m = w := String.toList_inj.mp (by simpa using hline)
  exact mnemonic_not_mem_armWords h hm hw

/-- The row is that of an arm. -/
structure Listing.Row.IsArm (r : Row) : Prop where
  head : ∃ w ∈ Term.armWords, r.head = [.word w]
  closing : r.closing = 0

theorem Listing.Row.IsArm.content_mem {r : Row} (h : r.IsArm) : r.content ∈ armLines := by
  obtain ⟨⟨w, hw, hhead⟩, hclosing⟩ := h
  refine List.mem_map.mpr ⟨w, hw, ?_⟩
  rw [content, hhead, hclosing]
  simp

/-! ## Rows and what they stand for -/

/-- The rows stand for the elements of a list from the left, but for those of arms, of which none
is the last. -/
inductive Interleaved {β : Type} (R : Row → β → Prop) : List Row → List β → Prop
  | nil : Interleaved R [] []
  | node {r : Row} {b : β} {rs : List Row} {bs : List β} :
      R r b → Interleaved R rs bs → Interleaved R (r :: rs) (b :: bs)
  | arm {r s : Row} {rs : List Row} {bs : List β} :
      r.IsArm → Interleaved R (s :: rs) bs → Interleaved R (r :: s :: rs) bs

namespace Interleaved

variable {β γ : Type} {R : Row → β → Prop} {S : Row → γ → Prop}

theorem append {rs ss : List Row} {bs cs : List β} (h : Interleaved R rs bs)
    (h' : Interleaved R ss cs) : Interleaved R (rs ++ ss) (bs ++ cs) := by
  induction h with
  | nil => exact h'
  | node hr _ ih => exact .node hr ih
  | arm hr _ ih => exact .arm hr ih

theorem map {f : β → γ} {rs : List Row} {bs : List β} (h : Interleaved R rs bs)
    (hf : ∀ r b, R r b → S r (f b)) : Interleaved S rs (bs.map f) := by
  induction h with
  | nil => exact .nil
  | node hr _ ih => exact .node (hf _ _ hr) ih
  | arm hr _ ih => exact .arm hr ih

/-- Without the rows of arms there is one row for every element. -/
theorem forall₂_filter {T : String → β → Prop} {rs : List Row} {bs : List β}
    (h : Interleaved R rs bs)
    (hR : ∀ r b, R r b → r.content ∉ armLines ∧ T r.content b) :
    List.Forall₂ T ((rs.map Row.content).filter fun line => line ∉ armLines) bs := by
  induction h with
  | nil => exact .nil
  | node hr _ ih =>
    obtain ⟨hline, hT⟩ := hR _ _ hr
    rw [List.map_cons, List.filter_cons_of_pos (by simpa using hline)]
    exact .cons hT ih
  | arm hr _ ih =>
    rw [List.map_cons, List.filter_cons_of_neg (by simpa using hr.content_mem)]
    exact ih

end Interleaved

/-! ## Rows and entries -/

namespace Term

/-- The row is that of the node that is entered: its head is that of the node, and a parenthesis is
closed on it if nothing stands below the node. -/
def RowOf {σ : Kind} (t : Term σ) (r : Row) (e : Address × Event) : Prop :=
  ∃ (τ : Kind) (u : Term τ), t.at? e.1 = some ⟨τ, u⟩ ∧ e.2 = .enter u.caption ∧
    u.unlisted? = none ∧ r.head = u.head ∧ (childCount u.parts = 0 → 0 < r.closing)

theorem RowOf.of_part {σ τ : Kind} {t : Term σ} {c : Term τ} {i : Nat} {r : Row}
    {e : Address × Event} (hpart : t.parts[i]? = some (.child c)) (h : c.RowOf r e) :
    t.RowOf r (i :: e.1, e.2) := by
  obtain ⟨ρ, u, hp, hrow⟩ := h
  refine ⟨ρ, u, ?_, hrow⟩
  rw [at?, hpart]
  exact hp

/-- The word over an arm has a row of its own. -/
theorem interleaved_wrap {β : Type} {R : Row → β → Prop} {a : Option String} {o : Outline}
    {bs : List β} (ha : ∀ w, a = some w → w ∈ armWords)
    (h : ∀ depth closing, Interleaved R (o.rows depth closing) bs) (depth closing : Nat) :
    Interleaved R ((wrap a o).rows depth closing) bs := by
  cases a with
  | none => exact h depth closing
  | some w =>
    have hbelow := h (depth + 1) (closing + 1)
    obtain ⟨r, rest, hrows⟩ := Outline.rows_eq_cons (depth + 1) (closing + 1) o
    rw [hrows] at hbelow
    rw [wrap, under, Outline.rows_node, Outline.rowsAll_cons, Outline.rowsAll_nil, List.append_nil,
      List.isEmpty_nil, if_pos rfl, hrows]
    exact .arm ⟨⟨w, ha w rfl, rfl⟩, rfl⟩ hbelow

/-- The rows of the outlines of parts stand for the entries of the subterms among them. -/
theorem interleaved_parts {R : Row → Address × Event → Prop} {f : Nat → Option String}
    (hf : ∀ i w, f i = some w → w ∈ armWords) {ps : List Part} {os : List Outline} {n : Nat}
    (hos : outlineParts ps = .ok os)
    (hchild : ∀ i {τ : Kind} (c : Term τ) (o : Outline), ps[i]? = some (.child c) →
      c.outline = .ok o → ∀ depth closing,
        Interleaved R (o.rows depth closing) (c.entries.map fun e => ((n + i) :: e.1, e.2)))
    (depth closing : Nat) :
    Interleaved R (Outline.rowsAll depth closing (os.mapIdx fun i o => wrap (f i) o))
      (stamp n (ps.map Part.entries)) := by
  induction ps generalizing f os n with
  | nil =>
    cases hos
    exact .nil
  | cons p rest ih =>
    obtain ⟨l, m, hp, hrest, rfl⟩ := outlineParts_cons_eq_ok_iff.mp hos
    have hchild' : ∀ i {τ : Kind} (c : Term τ) (o : Outline), rest[i]? = some (.child c) →
        c.outline = .ok o → ∀ depth closing, Interleaved R (o.rows depth closing)
          (c.entries.map fun e => ((n + 1 + i) :: e.1, e.2)) := by
      intro i τ c o hi ho
      rw [show n + 1 + i = n + (i + 1) by omega]
      exact hchild (i + 1) c o hi ho
    rw [List.map_cons, stamp]
    cases p with
    | child c =>
      obtain ⟨o, ho, rfl⟩ := outlines_child_eq_ok_iff.mp hp
      rw [List.singleton_append, List.mapIdx_cons, Outline.rowsAll_cons]
      have hroot := interleaved_wrap (hf 0) (hchild 0 c o rfl ho)
      exact (hroot _ _).append (ih (fun i => hf (i + 1)) hrest hchild')
    | bind | join =>
      cases hp
      exact ih hf hrest hchild'

/-- The rows of the outline of a term stand for its entries. -/
theorem interleaved_outline {σ : Kind} (t : Term σ) {o : Outline} (ho : t.outline = .ok o)
    (depth closing : Nat) : Interleaved t.RowOf (o.rows depth closing) t.entries := by
  induction t using Term.parts_induction generalizing o depth closing with
  | step t ih =>
    obtain ⟨hroot, os, hos, rfl⟩ := outline_eq_ok_iff.mp ho
    rw [Outline.rows_node, entries_eq]
    refine .node ⟨_, t, rfl, rfl, hroot, rfl, fun hcount => ?_⟩
      (interleaved_parts (fun i w => arm_mem_armWords) hos (fun i τ c o hi hc d k => ?_) _ _)
    · have hempty : t.dress os = [] := by
        rw [← List.length_eq_zero_iff, length_dress, length_of_outlineParts hos, hcount]
      simp [hempty]
    · rw [Nat.zero_add]
      exact (ih c (List.mem_of_getElem? hi) hc d k).map fun r e => RowOf.of_part hi

/-! ## Lines and entries -/

/-- The line opens with the head of the node. -/
structure OpensLine {σ : Kind} (t : Term σ) (line : String) : Prop where
  /-- Only closing parentheses follow the head, and one does if nothing stands below the node. -/
  head : ∃ n, line = "(" ++ Datum.textAll t.head ++ parens n ∧ (childCount t.parts = 0 → 0 < n)
  /-- The head starts with what the caption tells, which is followed by nothing else than a blank
  or a parenthesis. -/
  caption : ∃ rest, line = "(" ++ t.caption.opening ++ rest ∧
    ∀ c ∈ rest.toList.head?, c = ' ' ∨ c = ')'

theorem OpensLine.of_head {σ : Kind} {t : Term σ} (h : t.unlisted? = none) {n : Nat}
    (hn : childCount t.parts = 0 → 0 < n) :
    t.OpensLine ("(" ++ Datum.textAll t.head ++ parens n) where
  head := ⟨n, rfl, hn⟩
  caption := by
    rcases opens_head h with heq | ⟨rest, heq⟩
    · refine ⟨parens n, by rw [heq], ?_⟩
      cases n <;> simp [List.replicate_succ]
    · exact ⟨" " ++ rest ++ parens n, by simp only [heq, String.append_assoc], by simp⟩

end Term

/-- The text lists the nodes of the term as a complete recording enters them. -/
structure Term.ShownBy {σ : Kind} (t : Term σ) (text : String) : Prop where
  /-- Without the lines of arms the lines correspond one to one to the entries, and each opens with
  the head of the node that is entered. -/
  lines : List.Forall₂ (fun line e => ∃ (τ : Kind) (u : Term τ), t.at? e.1 = some ⟨τ, u⟩ ∧
    e.2 = .enter u.caption ∧ u.OpensLine line) (nodeLines text) t.entries
  /-- The entries are the events of entering nodes in the recording. -/
  recorded : t.entries.map Prod.snd = (Recording.complete.run t).1.filter Event.isEntry
  /-- Nodes are entered in pre-order, none of them twice. -/
  ascending : t.entries.Pairwise fun d e => d.1.Earlier e.1
  /-- Every node is entered. -/
  exhaustive : ∀ p {τ : Kind} (u : Term τ),
    t.at? p = some ⟨τ, u⟩ → (p, .enter u.caption) ∈ t.entries

/-- Listings and recordings agree on the nodes of a term. Every term without exceptions and without
line breaks in its names has a listing; and without the lines of arms, its lines are the nodes of
the term in the order in which a complete recording enters them. -/
theorem listing_lines_are_entries {σ : Kind} {t : Term σ} (hlist : t.Listable)
    (hnames : t.NamesAvoid ['\n']) : ∃ text, t.listing = .ok text ∧ t.ShownBy text := by
  obtain ⟨o, ho⟩ := t.exists_outline_iff.mpr hlist
  have hlisting : t.listing = .ok o.listing := by
    rw [Term.listing, ho]
    rfl
  have hwords : ∀ w ∈ o.words, Avoids ['\n'] w := fun w hw =>
    (t.isWord_of_mem_outline (by decide) hnames ho w hw).avoids
  have hlines : (lines o.listing).map dedent = (o.rows 0 0).map Row.content := by
    rw [Outline.lines_listing hwords, List.map_map]
    exact List.map_congr_left fun r _ => r.dedent_text
  refine ⟨o.listing, hlisting, ?_, t.map_snd_entries, t.pairwise_entries,
    fun p τ u hp => Term.mem_entries_iff.mpr ⟨τ, u, hp, rfl⟩⟩
  rw [nodeLines, hlines]
  refine (t.interleaved_outline ho 0 0).forall₂_filter fun r e => ?_
  rintro ⟨τ, u, hp, hcaption, hroot, hhead, hclosing⟩
  refine ⟨Term.content_not_mem_armLines hroot hhead, τ, u, hp, hcaption, ?_⟩
  rw [Row.content, hhead]
  exact .of_head hroot hclosing

/-- A conditional with a branch in each arm, of which one has an argument. -/
def branching : Tail :=
  .iteTail (.call ⟨"f"⟩ []) (.br ⟨1, some "k"⟩ (.var (.ofLocal ⟨2, some "x"⟩)))
    (.brBare ⟨1, some "k"⟩)

/-- The conditional is listed on seven lines, and the two of its arms are none of nodes. -/
theorem listing_lines_branching :
    (branching.Listable ∧ branching.NamesAvoid ['\n']) ∧
      branching.listing.toOption.map nodeLines
        = some ["(if", "(call $f)", "(br @k/1", "(local.get $x/2)))", "(br @k/1)))"] ∧
      ∃ text, branching.listing = .ok text ∧ branching.ShownBy text := by
  have hlist : branching.Listable := (Term.exists_outline_iff _).mp ⟨_, rfl⟩
  have hcall : (Term.call ⟨"f"⟩ []).NamesAvoid ['\n'] :=
    Term.namesAvoid_iff.mpr ⟨by decide, List.forall_mem_nil _⟩
  have hvar : (Term.var (.ofLocal ⟨2, some "x"⟩)).NamesAvoid ['\n'] :=
    Term.namesAvoid_iff.mpr ⟨by decide, List.forall_mem_nil _⟩
  have hbr : (Term.br ⟨1, some "k"⟩ (.var (.ofLocal ⟨2, some "x"⟩))).NamesAvoid ['\n'] :=
    Term.namesAvoid_iff.mpr ⟨by decide, List.forall_mem_singleton.mpr hvar⟩
  have hbare : (Term.brBare ⟨1, some "k"⟩).NamesAvoid ['\n'] :=
    Term.namesAvoid_iff.mpr ⟨by decide, List.forall_mem_nil _⟩
  have hnames : branching.NamesAvoid ['\n'] := by
    refine Term.namesAvoid_iff.mpr ⟨by decide, ?_⟩
    exact List.forall_mem_cons.mpr
      ⟨hcall, List.forall_mem_cons.mpr ⟨hbr, List.forall_mem_singleton.mpr hbare⟩⟩
  exact ⟨⟨hlist, hnames⟩, by decide +kernel, listing_lines_are_entries hlist hnames⟩

end JoinIR
