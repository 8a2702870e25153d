/-
# JoinIR.Proofs.Listing.Printing — what is printed does not depend on the page

A printer goes over a term with a page in hand: it reads the depth of its next line from it, and
whether a line break is needed. Nevertheless it adds the same lines to every page, moved to the
right by the depth that it finds, and gives that depth back (`printing_is_compositional`).

The work of a printer is described by the outlines that it writes, or by the refusal that it ends
with (`Prints`). Each way to put work together keeps such a description, so that a term prints its
outline by one induction over its parts (`Term.prints`). What remains is a fact about outlines: at a
depth, an outline has the lines of its listing with the blanks of that depth in front
(`Listing.Outline.block_eq_indented`).
-/
import JoinIR.Proofs.Heads
import JoinIR.Proofs.Listing.Rows
import JoinIR.Term.Printing

namespace JoinIR

open Listing (Datum Outline Row Avoids IsWord delimiters lines)

/-! ## Work on a page -/

theorem Printing.run_node (head : List Datum) (below : Printing) (page : Page) :
    (node head below).run page
      = (below.run ⟨Outline.line page.depth page.text ("(" ++ Datum.textAll head),
          page.depth + 1⟩).map fun r => ((), ⟨r.2.text ++ ")", r.2.depth - 1⟩) := by
  simp only [node, line, StateT.run_bind, StateT.run_modify, pure_bind]
  cases below.run _ <;> rfl

/-- A node with nothing below it is written on one line. -/
theorem Printing.atom_eq_node (words : List String) :
    atom words = node (words.map .word) (pure ()) := by
  funext page
  change (atom words).run page = (node (words.map .word) (pure ())).run page
  rw [run_node, atom, line, StateT.run_modify, StateT.run_pure]
  simp only [pure, Except.pure, Except.map, Outline.line, Nat.add_sub_cancel, String.append_assoc]

/-- The work writes these outlines at the depth of any page and leaves the depth as it is, or it is
refused, whatever the page. -/
def Prints (work : Printing) (r : Except PrintError (List Outline)) : Prop :=
  ∀ page, work.run page
    = r.map fun os => ((), ⟨Outline.emitAll page.depth page.text os, page.depth⟩)

namespace Prints

variable {x y : Printing} {r s : Except PrintError (List Outline)}

theorem nothing : Prints (pure ()) (pure []) := by
  intro page
  rw [StateT.run_pure]
  simp only [pure, Except.pure, Except.map, Outline.emitAll_nil]

theorem refuse (construct : Unlisted) : Prints (Printing.refuse construct) (throw ⟨construct⟩) :=
  fun _ => rfl

theorem andThen (hx : Prints x r) (hy : Prints y s) :
    Prints (x >>= fun _ => y) (do let os ← r; let more ← s; pure (os ++ more)) := by
  intro page
  rw [StateT.run_bind, hx page]
  cases r with
  | error e => rfl
  | ok os =>
    change y.run _ = _
    rw [hy]
    cases s with
    | error e => rfl
    | ok more =>
      simp only [bind, Except.bind, pure, Except.pure, Except.map, Outline.emitAll_append]

/-- A node gives the depth back that it takes for what stands below it. -/
theorem node (hx : Prints x r) (head : List Datum) :
    Prints (Printing.node head x) (do let os ← r; pure [.node head os]) := by
  intro page
  rw [Printing.run_node, hx]
  cases r with
  | error e => rfl
  | ok os =>
    simp only [bind, Except.bind, pure, Except.pure, Except.map, Outline.emitAll_cons,
      Outline.emitAll_nil, Outline.emit_node, Nat.add_sub_cancel]

end Prints

/-! ## A term prints its outline -/

namespace Term

/-- Writes what stands under a word, if there is one. -/
def printArm : Option String → Printing → Printing
  | some word, work => .headed [word] work
  | none, work => work

/-- Writes the subterms among the parts from the left, each under its word. -/
def printParts : List (Option String) → List Part → Printing
  | _, [] => pure ()
  | arms, .child c :: rest => do printArm arms.head?.join c.print; printParts arms.tail rest
  | arms, .bind .. :: rest => printParts arms rest
  | arms, .join .. :: rest => printParts arms rest

@[simp] theorem printParts_nil (arms : List (Option String)) : printParts arms [] = pure () := by
  rw [printParts]

@[simp] theorem printParts_child {τ : Kind} (arms : List (Option String)) (c : Term τ)
    (rest : List Part) : printParts arms (.child c :: rest)
      = (do printArm arms.head?.join c.print; printParts arms.tail rest) := by
  rw [printParts]

@[simp] theorem printParts_bind (arms : List (Option String)) (x : Local) (ty : Ty)
    (rest : List Part) : printParts arms (.bind x ty :: rest) = printParts arms rest := by
  rw [printParts]

@[simp] theorem printParts_join (arms : List (Option String)) (k : Label) (ps : List ContParam)
    (rest : List Part) : printParts arms (.join k ps :: rest) = printParts arms rest := by
  rw [printParts]

theorem printParts_childParts_append {τ : Kind} (ts : List (Term τ)) (rest : List Part) :
    printParts [] (childParts ts ++ rest)
      = (do printParts [] (childParts ts); printParts [] rest) := by
  induction ts with
  | nil => simp [childParts]
  | cons t more ih =>
    rw [childParts, List.map_cons, ← childParts, List.cons_append, printParts_child,
      printParts_child, List.tail_nil, ih, bind_assoc]

theorem printValues_eq (vs : List Value) : printValues vs = printParts [] (childParts vs) := by
  induction vs with
  | nil => rw [printValues]; rfl
  | cons v rest ih => rw [printValues, ih]; simp [childParts, printArm]

theorem printEffects_eq (es : List Effect) : printEffects es = printParts [] (childParts es) := by
  induction es with
  | nil => rw [printEffects]; rfl
  | cons e rest ih => rw [printEffects, ih]; simp [childParts, printArm]

/-- A node is refused, or printed as its head above what its children print. -/
theorem print_eq_parts {σ : Kind} (t : Term σ) :
    t.print = match t.unlisted? with
      | some construct => .refuse construct
      | none => .node t.head (printParts t.arms t.parts) := by
  cases t <;>
    simp [print, unlisted?, head, parts, arms, printArm, printParts_childParts_append,
      printValues_eq, printEffects_eq, Printing.atom_eq_node, Printing.headed]

theorem prints_arm {work : Printing} {r : Except PrintError Outline} (a : Option String)
    (h : Prints work (do let o ← r; pure [o])) :
    Prints (printArm a work) (do let o ← r; pure [wrap a o]) := by
  cases a with
  | none => exact h
  | some word =>
    have hnode := h.node [.word word]
    cases r <;> exact hnode

/-- Parts print the outlines of the subterms among them, if these print theirs. -/
theorem prints_parts {ps : List Part}
    (h : ∀ {τ : Kind} (c : Term τ), Part.child c ∈ ps →
      Prints c.print (do let o ← c.outline; pure [o])) (arms : List (Option String)) :
    Prints (printParts arms ps)
      (do let os ← outlineParts ps; pure (os.mapIdx fun i o => wrap arms[i]?.join o)) := by
  induction ps generalizing arms with
  | nil => exact .nothing
  | cons p rest ih =>
    have hrest := ih fun c hc => h c (List.mem_cons_of_mem p hc)
    cases p with
    | child c =>
      have hchild := prints_arm arms.head?.join (h c List.mem_cons_self)
      have hboth := hchild.andThen (hrest arms.tail)
      simpa [Part.outlines, List.mapIdx_cons, List.head?_eq_getElem?] using hboth
    | bind | join => simpa [Part.outlines] using hrest arms

/-- A term prints its outline. -/
theorem prints {σ : Kind} (t : Term σ) : Prints t.print (do let o ← t.outline; pure [o]) := by
  induction t using Term.parts_induction with
  | step t ih =>
    rw [print_eq_parts, outline_eq_parts]
    cases t.unlisted? with
    | some construct => exact .refuse construct
    | none =>
      have hparts := (prints_parts ih t.arms).node t.head
      simpa [dress, arm] using hparts

/-- Printing adds the lines of the outline to the page. -/
theorem run_print {σ : Kind} (t : Term σ) (page : Page) :
    t.print.run page = t.outline.map fun o =>
      ((), ⟨Outline.opened page.text ++ o.block page.depth, page.depth⟩) := by
  rw [t.prints page]
  cases t.outline with
  | error e => rfl
  | ok o =>
    simp only [bind, Except.bind, pure, Except.pure, Except.map, Outline.emitAll_cons,
      Outline.emitAll_nil, Outline.emit_eq]

/-- What is printed on a blank page is the listing. -/
theorem written_print {σ : Kind} (t : Term σ) : t.print.written = t.listing := by
  rw [Printing.written, run_print, listing]
  cases t.outline with
  | error e => rfl
  | ok o =>
    simp [bind, Except.bind, pure, Except.pure, Except.map, Page.blank, Outline.opened,
      Outline.listing_eq_block]

end Term

/-! ## Lines at a depth -/

namespace Listing

/-- The text with the blanks of a depth in front of every line. -/
def indented (depth : Nat) (text : String) : String :=
  "\n".intercalate ((lines text).map fun line => Outline.indent depth ++ line)

/-- The row, further down by some levels. -/
def Row.deeper (n : Nat) (r : Row) : Row := { r with depth := n + r.depth }

theorem Outline.indent_add (m n : Nat) : indent (m + n) = indent m ++ indent n := by
  rw [← String.toList_inj, String.toList_append, toList_indent, toList_indent, toList_indent,
    Nat.mul_add, List.replicate_add]

theorem Row.text_deeper (n : Nat) (r : Row) :
    (r.deeper n).text = Outline.indent n ++ r.text := by
  rw [text, text, deeper, Outline.indent_add, String.append_assoc]
  rfl

namespace Outline

mutual

/-- An outline has the same rows at every depth, but for the depth. -/
theorem rows_add (n depth closing : Nat) : ∀ o : Outline,
    o.rows (n + depth) closing = (o.rows depth closing).map (Row.deeper n)
  | node head children => by
    rw [rows_node, rows_node, List.map_cons, Nat.add_assoc,
      rowsAll_add n (depth + 1) (closing + 1) children]
    rfl

theorem rowsAll_add (n depth closing : Nat) : ∀ os : List Outline,
    rowsAll (n + depth) closing os = (rowsAll depth closing os).map (Row.deeper n)
  | [] => by simp
  | o :: rest => by
    rw [rowsAll_cons, rowsAll_cons, List.map_append, rows_add n depth _ o,
      rowsAll_add n depth closing rest]

end

/-- At a depth an outline has the lines of its listing, with the blanks of that depth in front. -/
theorem block_eq_indented {o : Outline} (h : ∀ w ∈ o.words, Avoids ['\n'] w) (depth : Nat) :
    o.block depth = indented depth o.listing := by
  rw [indented, lines_listing h, block_eq_intercalate, List.map_map]
  have hrows := rows_add depth 0 0 o
  rw [Nat.add_zero] at hrows
  rw [hrows, List.map_map]
  congr 2
  funext r
  exact r.text_deeper depth

end Outline

end Listing

/-! ## Any page -/

open Listing (indented)

/-- The page with a text added: after a line break unless the page is blank, and with every line
moved to the right by the depth. -/
def Page.add (page : Page) (text : String) : Page :=
  { page with text := Outline.opened page.text ++ indented page.depth text }

/-- The text below a line of its own, moved to the right, with the parenthesis of that line closed
at the end. -/
def Listing.beneath (head : List Datum) (text : String) : String :=
  "(" ++ Datum.textAll head ++ "\n" ++ indented 1 text ++ ")"

open Listing (beneath)

namespace Term

variable {σ : Kind} {t : Term σ} (hnames : t.NamesAvoid ['\n'])
include hnames

theorem block_of_outline {o : Outline} (ho : t.outline = .ok o) (depth : Nat) :
    o.block depth = indented depth o.listing := by
  apply Outline.block_eq_indented
  exact fun w hw => (t.isWord_of_mem_outline (by decide) hnames ho w hw).avoids

/-- Printing adds the listing to any page. -/
theorem run_print_eq_listing (page : Page) :
    t.print.run page = t.listing.map fun text => ((), page.add text) := by
  rw [run_print, listing]
  cases ho : t.outline with
  | error e => rfl
  | ok o =>
    simp only [bind, Except.bind, pure, Except.pure, Except.map, Page.add,
      block_of_outline hnames ho]

/-- A node above the outline of the term is listed as its line above the listing of the term. -/
theorem listing_node (head : List Datum) :
    (do let o ← t.outline; return (Outline.node head [o]).listing : Except PrintError String)
      = t.listing.map (beneath head) := by
  rw [listing]
  cases ho : t.outline with
  | error e => rfl
  | ok o =>
    change Except.ok (Outline.node head [o]).listing = Except.ok (beneath head o.listing)
    rw [Outline.listing_eq_block (.node head [o]), Outline.block_node, Outline.blocks_cons,
      Outline.blocks_nil, block_of_outline hnames ho, beneath, Outline.indent,
      String.empty_append, String.append_empty, ← String.append_assoc]

end Term

/-- A body or a function prints its listing on a blank page. -/
theorem Printing.written_node {σ : Kind} (t : Term σ) (head : List Datum) :
    (node head t.print).written
      = (do let o ← t.outline; return (Outline.node head [o]).listing) := by
  have hnode := (t.prints.node head) Page.blank
  rw [written, hnode]
  cases t.outline <;> rfl

theorem Body.written_print (b : Body) : b.print.written = b.listing := by
  rw [print, Printing.written_node, listing, outline, bind_assoc]
  rfl

theorem Function.written_print (f : Function) : f.print.written = f.listing := by
  rw [print, Printing.written_node, listing, outline, bind_assoc]
  rfl

/-! ## Bodies and functions -/

/-- The names that the head of a body is written with. -/
def Body.names (b : Body) : List String := (b.result?.map Ty.names).getD []

/-- No name in the body, in its result or in its term, holds one of the characters. -/
structure Body.NamesAvoid (cs : List Char) (b : Body) : Prop where
  result : ∀ n ∈ b.names, Avoids cs n
  term : b.term.NamesAvoid cs

theorem Body.isWord_of_mem_head {cs : List Char} (hcs : cs ⊆ delimiters) {b : Body}
    (hnames : ∀ n ∈ b.names, Avoids cs n) : ∀ d ∈ b.head, ∀ w ∈ d.words, IsWord cs w := by
  have hbody : IsWord cs "body" := IsWord.of_subset hcs (by decide)
  rw [head, List.forall_mem_cons]
  refine ⟨by simpa using hbody, fun d hd => ?_⟩
  obtain ⟨ty, hty, rfl⟩ := Option.map_eq_some_iff.mp (Option.mem_toList.mp hd)
  apply Term.isWord_of_mem_resultDatum hcs ty
  intro n hn
  apply hnames n
  rw [names, hty]
  exact hn

/-- A head is on one line if its words are. -/
theorem Listing.avoids_head {head : List Datum}
    (h : ∀ d ∈ head, ∀ w ∈ d.words, IsWord ['\n'] w) : Avoids ['\n'] (Datum.textAll head) := by
  apply Datum.avoids_textAll
  rw [Datum.wordsAll_eq_flatMap]
  intro w hw
  obtain ⟨d, hd, hw⟩ := List.mem_flatMap.mp hw
  exact (h d hd w hw).avoids

/-- The listing is one line, the listing of the term one level further down, and a parenthesis. -/
structure Encloses {σ : Kind} (listing : Except PrintError String) (head : List Datum)
    (t : Term σ) : Prop where
  one_line : Avoids ['\n'] (Datum.textAll head)
  eq : listing = t.listing.map (beneath head)

theorem Body.encloses_listing {b : Body} (hnames : b.NamesAvoid ['\n']) :
    Encloses b.listing b.head b.term where
  one_line := Listing.avoids_head (b.isWord_of_mem_head (by decide) hnames.result)
  eq := by
    rw [← Term.listing_node hnames.term, listing, outline, bind_assoc]
    rfl

theorem Function.encloses_listing {f : Function} (hnames : f.NamesAvoid ['\n']) :
    Encloses f.listing f.head f.body.term where
  one_line := Listing.avoids_head (isWord_of_mem_head (by decide) hnames.signature)
  eq := by
    rw [← Term.listing_node hnames.body, listing, outline, bind_assoc]
    rfl

/-- Printing is compositional. On a blank page a term, a body or a function prints its listing. On
any page a term without line breaks in its names prints the same lines further to the right, with
the blanks of the depth of the page in front of each, and leaves the depth as it is; and if it is
refused, then on every page and with the same error. So the listing of a body or of a function is
made if that of the term in it is, and refused with the same error if not; and it consists of one
line of its own, of the listing of the term one level down, and of a parenthesis. -/
theorem printing_is_compositional :
    ((∀ {σ : Kind} (t : Term σ), t.print.written = t.listing) ∧
        (∀ b : Body, b.print.written = b.listing) ∧
        ∀ f : Function, f.print.written = f.listing) ∧
      (∀ {σ : Kind} (t : Term σ), t.NamesAvoid ['\n'] →
        ∀ page, t.print.run page = t.listing.map fun text => ((), page.add text)) ∧
      (∀ b : Body, b.NamesAvoid ['\n'] → Encloses b.listing b.head b.term) ∧
      ∀ f : Function, f.NamesAvoid ['\n'] → Encloses f.listing f.head f.body.term :=
  ⟨⟨Term.written_print, Body.written_print, Function.written_print⟩,
    fun _ hnames => Term.run_print_eq_listing hnames,
    fun _ hnames => Body.encloses_listing hnames,
    fun _ hnames => Function.encloses_listing hnames⟩

/-- A function that chooses between two constants. -/
def choosing : Function where
  name := ⟨"f"⟩
  params := [(⟨1, some "p"⟩, .i32)]
  body := .value (.ite .i32 (.var (.ofParam ⟨1, some "p"⟩)) (.i32 5) (.i32 7)) .i32

theorem namesAvoid_choosing {cs : List Char} (hf : Avoids cs "f") (hp : Avoids cs "p") :
    choosing.NamesAvoid cs where
  signature := by
    simp [choosing, Function.names, Handle.names, Ty.names, Body.result?, hf, hp]
  body := by
    have hleaf {t : Value} (hnames : ∀ n ∈ t.names, Avoids cs n) (hparts : t.parts = []) :
        t.NamesAvoid cs :=
      Term.namesAvoid_iff.mpr ⟨hnames, by simp [hparts]⟩
    have hvar : (Term.var (.ofParam ⟨1, some "p"⟩)).NamesAvoid cs :=
      hleaf (by simpa [Term.names, Var.names, Handle.names] using hp) rfl
    have hconst (n : Int32) : (Term.i32 n).NamesAvoid cs := hleaf (by simp [Term.names]) rfl
    refine Term.namesAvoid_iff.mpr ⟨List.forall_mem_nil _, ?_⟩
    exact List.forall_mem_cons.mpr
      ⟨hvar, List.forall_mem_cons.mpr ⟨hconst 5, List.forall_mem_singleton.mpr (hconst 7)⟩⟩

/-- Below a line at depth zero the choice is printed one level down, as it stands in the listing
of the function. -/
theorem printing_choosing :
    let f := choosing
    let page : Page := ⟨"(func $f (param $p/1 i32) (result i32)", 1⟩
    f.NamesAvoid ['\n'] ∧
      (f.body.term.print.run page = f.body.term.listing.map fun text => ((), page.add text)) ∧
      Encloses f.listing f.head f.body.term ∧
      (f.body.term.print.run page).toOption.map (fun r => r.2.text ++ ")")
        = f.listing.toOption ∧
      f.listing.toOption = some ("\n".intercalate
        ["(func $f (param $p/1 i32) (result i32)", "  (if (result i32)", "    (local.get $p/1)",
          "    (then", "      (i32.const 5))", "    (else", "      (i32.const 7))))"]) := by
  have hnames : choosing.NamesAvoid ['\n'] := namesAvoid_choosing (by decide) (by decide)
  obtain ⟨-, hterm, -, hfunction⟩ := printing_is_compositional
  exact ⟨hnames, hterm _ hnames.body _, hfunction _ hnames, by decide +kernel, by decide +kernel⟩

end JoinIR
