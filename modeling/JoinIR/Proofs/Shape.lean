/-
# JoinIR.Proofs.Shape — what a recording tells of a tree

Entering and leaving nodes are the **brackets** of a recording. Without its other events a
recording spells out a tree of captions, the **shape** of the term: a node opens, its children
follow from the left, and it closes (`Term.brackets_tour`).

Such a word can be read back: it delimits itself, whatever comes after it (`Shape.word_append_inj`).
A caption tells the construct at a node, once the number of its children is known, and the text of a
caption tells the caption (`brackets_eq_of_texts_eq`). So the texts of the brackets decide which
construct stands where in a term (`Term.construct_at?_eq`).
-/
import JoinIR.Proofs.Trail
import JoinIR.Proofs.Words

namespace JoinIR

open Listing (Avoids)

/-- The event is that of entering or of leaving a node. -/
def Event.isBracket : Event → Bool
  | enter _ | leave _ => true
  | bind .. | join .. => false

/-- The events of entering and leaving nodes, without the others. -/
def brackets (l : List Event) : List Event := l.filter Event.isBracket

/-! ## Trees of captions -/

/-- A tree of captions. -/
inductive Shape
  | node (c : Caption) (children : List Shape)

namespace Shape

mutual

/-- The brackets around a tree, outside those of its children from the left. -/
def word : Shape → List Event
  | node c children => .enter c :: (wordAll children ++ [.leave c])

/-- The brackets of several trees, from the left. -/
def wordAll : List Shape → List Event
  | [] => []
  | s :: rest => s.word ++ wordAll rest

end

theorem word_node (c : Caption) (children : List Shape) :
    (node c children).word = .enter c :: (wordAll children ++ [.leave c]) := by rw [word]

@[simp] theorem wordAll_nil : wordAll [] = [] := by rw [wordAll]

@[simp] theorem wordAll_cons (s : Shape) (rest : List Shape) :
    wordAll (s :: rest) = s.word ++ wordAll rest := by rw [wordAll]

/-- A tree does not open with a closing bracket. -/
theorem leave_ne_word (c : Caption) (l m : List Event) (s : Shape) :
    .leave c :: l ≠ s.word ++ m := by
  obtain ⟨d, children⟩ := s
  rw [word_node]
  simp

mutual

/-- The word of a tree delimits itself. -/
theorem word_append_inj : ∀ {s u : Shape} {l m : List Event}, s.word ++ l = u.word ++ m →
    s = u ∧ l = m
  | node c ss, node d us, l, m, h => by
    simp only [word_node, List.cons_append, List.append_assoc, List.nil_append, List.cons.injEq,
      Event.enter.injEq] at h
    obtain ⟨rfl, hrest⟩ := h
    obtain ⟨rfl, hlm⟩ := wordAll_append_inj hrest
    exact ⟨rfl, hlm⟩

/-- The words of trees delimit themselves up to the bracket that closes above them. -/
theorem wordAll_append_inj : ∀ {ss us : List Shape} {c d : Caption} {l m : List Event},
    wordAll ss ++ .leave c :: l = wordAll us ++ .leave d :: m → ss = us ∧ l = m
  | [], [], _, _, _, _, h => ⟨rfl, (List.cons.inj h).2⟩
  | [], u :: us, c, d, l, m, h => by
    rw [wordAll_nil, wordAll_cons, List.append_assoc] at h
    exact absurd h (leave_ne_word c l _ u)
  | s :: ss, [], c, d, l, m, h => by
    rw [wordAll_nil, wordAll_cons, List.append_assoc] at h
    exact absurd h.symm (leave_ne_word d m _ s)
  | s :: ss, u :: us, _, _, _, _, h => by
    rw [wordAll_cons, wordAll_cons, List.append_assoc, List.append_assoc] at h
    obtain ⟨rfl, hrest⟩ := word_append_inj h
    obtain ⟨rfl, hlm⟩ := wordAll_append_inj hrest
    exact ⟨rfl, hlm⟩

end

/-- A tree is determined by its word. -/
theorem word_inj {s u : Shape} (h : s.word = u.word) : s = u :=
  (word_append_inj (l := []) (m := []) (by rw [h])).1

end Shape

/-! ## Well-bracketed words -/

/-- Every opening bracket is closed by one of the same caption, and what stands between the two is
of this form again. -/
inductive WellBracketed : List Event → Prop
  | nil : WellBracketed []
  | pair (c : Caption) {l m : List Event} : WellBracketed l → WellBracketed m →
      WellBracketed (.enter c :: (l ++ .leave c :: m))

theorem WellBracketed.append {l m : List Event} (hl : WellBracketed l) (hm : WellBracketed m) :
    WellBracketed (l ++ m) := by
  induction hl with
  | nil => exact hm
  | pair c hinner _ _ ih =>
    rw [List.cons_append, List.append_assoc, List.cons_append]
    exact .pair c hinner ih

mutual

theorem Shape.wellBracketed_word : ∀ s : Shape, WellBracketed s.word
  | node c children => by
    rw [word_node]
    exact .pair c (wellBracketed_wordAll children) .nil

theorem Shape.wellBracketed_wordAll : ∀ ss : List Shape, WellBracketed (wordAll ss)
  | [] => by
    rw [wordAll_nil]
    exact .nil
  | s :: rest => by
    rw [wordAll_cons]
    exact s.wellBracketed_word.append (wellBracketed_wordAll rest)

end

/-! ## The shape of a term -/

/-- The captions of a term, as a tree. -/
def Term.shape {σ : Kind} (t : Term σ) : Shape :=
  .node t.caption (t.parts.attach.filterMap fun
    | ⟨.child c, _⟩ => some c.shape
    | ⟨.bind .., _⟩ | ⟨.join .., _⟩ => none)
termination_by sizeOf t
decreasing_by exact parts_below t _ ‹_›

/-- The shape of a part, if it is a subterm. -/
def Part.shape? : Part → Option Shape
  | child t => some t.shape
  | bind .. | join .. => none

namespace Term

theorem shape_eq {σ : Kind} (t : Term σ) :
    t.shape = .node t.caption (t.parts.filterMap Part.shape?) := by
  have hparts : t.parts.filterMap Part.shape? = t.parts.attach.filterMap fun p => p.1.shape? := by
    conv_lhs => rw [← List.attach_map_subtype_val t.parts]
    rw [List.filterMap_map]
    rfl
  rw [shape, hparts]
  congr 2
  funext ⟨p, hp⟩
  cases p <;> rfl

theorem brackets_tourParams (ps : List ContParam) : brackets (tourParams ps) = [] := by
  induction ps with
  | nil => rfl
  | cons p rest ih =>
    obtain ⟨_ | x, ty⟩ := p
    · exact ih
    · exact ih

/-- Parts leave the words of the subterms among them. -/
theorem brackets_flatMap_tour {ps : List Part}
    (h : ∀ {τ : Kind} (c : Term τ), Part.child c ∈ ps → brackets c.tour = c.shape.word) :
    brackets (ps.flatMap Part.tour) = Shape.wordAll (ps.filterMap Part.shape?) := by
  induction ps with
  | nil => exact Shape.wordAll_nil.symm
  | cons p rest ih =>
    have hrest := ih fun c hc => h c (List.mem_cons_of_mem p hc)
    rw [brackets] at hrest ⊢
    rw [List.flatMap_cons, List.filter_append, hrest]
    cases p with
    | child c =>
      have hroot := h c List.mem_cons_self
      rw [brackets] at hroot
      rw [Part.tour, hroot, List.filterMap_cons_some (by rfl), Shape.wordAll_cons]
    | bind x ty => rfl
    | join k qs =>
      have hparams := brackets_tourParams qs
      rw [brackets] at hparams
      rw [Part.tour, tourJoin, List.filter_cons_of_neg (by simp [Event.isBracket]), hparams]
      rfl

/-- The brackets of a recording spell out the shape of the term. -/
theorem brackets_tour {σ : Kind} (t : Term σ) : brackets t.tour = t.shape.word := by
  induction t using Term.parts_induction with
  | step t ih =>
    have hinside := brackets_flatMap_tour ih
    rw [tour, around, inside_eq_parts, shape_eq, Shape.word_node, ← hinside, brackets,
      List.cons_append, List.filter_cons_of_pos rfl, List.filter_append]
    rfl

end Term

/-! ## Captions and their texts -/

/-- The mark and the word of the caption end where its text says so. -/
def Caption.Plain (c : Caption) : Prop := Avoids [' ', ':'] c.word

theorem Term.plain_caption {σ : Kind} (t : Term σ) : t.caption.Plain := by
  show Avoids [' ', ':'] t.word
  cases t <;> rw [word] <;> decide

namespace Caption

/-- What the text of a caption ends with. -/
def tail (c : Caption) : List Char :=
  match c.detail with
  | some detail => ' ' :: detail.toList
  | none => []

theorem toList_text (c : Caption) :
    c.text.toList = c.kind.mark.toList ++ (c.word.toList ++ c.tail) := by
  obtain ⟨kind, word, _ | detail⟩ := c <;> simp [text, tail]

/-- The word ends at the first blank. -/
theorem word_tail_inj {c d : Caption} (hc : c.Plain) (hd : d.Plain)
    (h : c.word.toList ++ c.tail = d.word.toList ++ d.tail) :
    c.word = d.word ∧ c.detail = d.detail := by
  have hword {c : Caption} (hc : c.Plain) : ∀ x ∈ c.word.toList, ¬ x = ' ' := by
    rintro x hx rfl
    exact hc ' ' hx (by decide)
  have htail (c : Caption) : ∀ x ∈ c.tail.head?, x = ' ' := by
    obtain ⟨kind, word, _ | detail⟩ := c <;> simp [tail]
  obtain ⟨hw, ht⟩ := Listing.run_append_inj (hword hc) (hword hd) (htail c) (htail d) h
  refine ⟨String.toList_inj.mp hw, ?_⟩
  obtain ⟨kind, word, _ | detail⟩ := c <;> obtain ⟨kind', word', _ | detail'⟩ := d <;>
    simp_all [tail, String.toList_inj]

/-- A plain word does not go on with a colon, as a mark does. -/
theorem ne_marked {c : Caption} (hc : c.Plain) {x : Char} (hx : x ≠ ' ') (l : List Char) :
    c.word.toList ++ c.tail ≠ x :: ':' :: l := by
  have hcolon : ':' ∉ c.word.toList := fun hmem => hc ':' hmem (by decide)
  have htail {y : Char} {m : List Char} (hy : y ≠ ' ') : c.tail ≠ y :: m := by
    obtain ⟨kind, word, _ | detail⟩ := c
    · simp [tail]
    · simpa [tail, eq_comm] using fun h => absurd h hy
  intro h
  rcases List.append_eq_cons_iff.mp h with ⟨-, htail'⟩ | ⟨rest, hword, hrest⟩
  · exact htail hx htail'
  · rcases List.append_eq_cons_iff.mp hrest.symm with ⟨-, htail'⟩ | ⟨rest', rfl, -⟩
    · exact htail (by decide) htail'
    · exact hcolon (by simp [hword])

/-- The mark in front tells the kind. -/
theorem kind_eq {c d : Caption} (hc : c.Plain) (hd : d.Plain) (h : c.text = d.text) :
    c.kind = d.kind := by
  have hlist := congrArg String.toList h
  rw [toList_text, toList_text] at hlist
  have heffect : "e:".toList = ['e', ':'] := by decide
  have htail : "t:".toList = ['t', ':'] := by decide
  cases hk : c.kind <;> cases hk' : d.kind <;>
    simp only [hk, hk', Kind.mark, heffect, htail, String.toList_empty, List.nil_append,
      List.cons_append] at hlist
  -- a kind without a mark against one with a mark, in both orders
  case value.effect | value.tail => exact absurd hlist (ne_marked hc (by decide) _)
  case effect.value | tail.value => exact absurd hlist.symm (ne_marked hd (by decide) _)
  -- the two marks differ in their first characters
  case effect.tail | tail.effect => simp at hlist
  all_goals rfl

/-- A plain caption is determined by its text. -/
theorem text_inj {c d : Caption} (hc : c.Plain) (hd : d.Plain) (h : c.text = d.text) : c = d := by
  have hkind := kind_eq hc hd h
  have hlist := congrArg String.toList h
  rw [toList_text, toList_text, hkind, List.append_cancel_left_eq] at hlist
  obtain ⟨hword, hdetail⟩ := word_tail_inj hc hd hlist
  obtain ⟨kind, word, detail⟩ := c
  obtain ⟨kind', word', detail'⟩ := d
  obtain rfl : kind = kind' := hkind
  obtain rfl : word = word' := hword
  obtain rfl : detail = detail' := hdetail
  rfl

end Caption

/-! ## Texts of recordings -/

namespace Event

/-- The caption in the event, if there is one, is plain. -/
def Plain : Event → Prop
  | enter c | leave c => c.Plain
  | bind .. | join .. => True

/-- The text of an event tells whether it is a bracket, and which one. -/
theorem eq_or_of_text_eq {e f : Event} (he : e.Plain) (hf : f.Plain) (h : e.text = f.text) :
    e = f ∨ e.isBracket = false ∧ f.isBracket = false := by
  cases e <;> cases f
  case enter.enter c d =>
    rw [Caption.text_inj he hf (by simpa [text] using h)]
    exact .inl rfl
  case leave.leave c d =>
    rw [Caption.text_inj he hf (by simpa [text] using h)]
    exact .inl rfl
  case bind.bind | bind.join | join.bind | join.join => exact .inr ⟨rfl, rfl⟩
  -- the first characters tell all others apart
  all_goals simp [text, ← String.toList_inj] at h

end Event

/-- Recordings with the same texts have the same brackets. -/
theorem brackets_eq_of_texts_eq {l m : List Event} (hl : ∀ e ∈ l, e.Plain)
    (hm : ∀ e ∈ m, e.Plain) (h : l.map Event.text = m.map Event.text) :
    brackets l = brackets m := by
  induction l generalizing m with
  | nil =>
    cases m with
    | nil => rfl
    | cons f m => cases h
  | cons e l ih =>
    cases m with
    | nil => cases h
    | cons f m =>
      rw [List.forall_mem_cons] at hl hm
      obtain ⟨htext, hrest⟩ := List.cons.inj h
      have hbrackets := ih hl.2 hm.2 hrest
      rw [brackets, brackets] at hbrackets ⊢
      obtain rfl | ⟨he, hf⟩ := Event.eq_or_of_text_eq hl.1 hm.1 htext
      · rw [List.filter_cons, List.filter_cons, hbrackets]
      · rw [List.filter_cons_of_neg (by simp [he]), List.filter_cons_of_neg (by simp [hf]),
          hbrackets]

namespace Term

theorem plain_of_mem_tourParams {ps : List ContParam} : ∀ e ∈ tourParams ps, e.Plain := by
  induction ps with
  | nil => simp [tourParams]
  | cons p rest ih =>
    obtain ⟨_ | x, ty⟩ := p
    · exact ih
    · exact List.forall_mem_cons.mpr ⟨trivial, ih⟩

/-- The captions in a recording are those of nodes. -/
theorem plain_of_mem_tour {σ : Kind} (t : Term σ) : ∀ e ∈ t.tour, e.Plain := by
  induction t using Term.parts_induction with
  | step t ih =>
    have hinside : ∀ e ∈ t.inside, e.Plain := by
      rw [inside_eq_parts]
      intro e he
      obtain ⟨p, hp, he⟩ := List.mem_flatMap.mp he
      cases p with
      | child c => exact ih c hp e he
      | bind x ty =>
        rw [List.mem_singleton.mp he]
        trivial
      | join k ps =>
        rcases List.mem_cons.mp he with rfl | he
        · trivial
        · exact plain_of_mem_tourParams e he
    rw [tour, around, List.forall_mem_append, List.forall_mem_cons, List.forall_mem_singleton]
    exact ⟨⟨t.plain_caption, hinside⟩, t.plain_caption⟩

end Term

/-! ## The construct at a node -/

/-- The part is a subterm. -/
def Part.isChild : Part → Bool
  | child _ => true
  | bind .. | join .. => false

namespace Term

/-- The construct at the root, as the number of its constructor. -/
def construct (t : Sigma Term) : Nat := t.2.ctorIdx

@[simp] theorem map_isChild_childParts {τ : Kind} (ts : List (Term τ)) :
    (childParts ts).map Part.isChild = List.replicate ts.length true := by
  rw [childParts, List.map_map, ← List.map_const']
  rfl

/-- The word at the root and the number of its children tell the construct, and where among its
parts the children stand. -/
theorem layout_of_word_eq {σ : Kind} {t u : Term σ} (hword : t.word = u.word)
    (hcount : childCount t.parts = childCount u.parts) :
    construct ⟨σ, t⟩ = construct ⟨σ, u⟩ ∧
      t.parts.map Part.isChild = u.parts.map Part.isChild := by
  -- constructs with one word are equal, but for the two kinds of branch
  cases t <;> cases u <;> first | (simp only [word, String.reduceEq] at hword; done) | clear hword
  all_goals simp_all [parts, Part.isChild, construct, Term.ctorIdx]

theorem length_filterMap_shape? (ps : List Part) :
    (ps.filterMap Part.shape?).length = childCount ps := by
  induction ps with
  | nil => rfl
  | cons p rest ih =>
    cases p with
    | child c => rw [List.filterMap_cons_some (by rfl), List.length_cons, ih, childCount_child]
    | bind | join => rw [List.filterMap_cons_none (by rfl), ih]; simp

/-- The shapes of the children and their places tell the shapes at all places. -/
theorem map_shape?_eq {ps qs : List Part} (hlayout : ps.map Part.isChild = qs.map Part.isChild)
    (hshapes : ps.filterMap Part.shape? = qs.filterMap Part.shape?) :
    ps.map Part.shape? = qs.map Part.shape? := by
  induction ps generalizing qs with
  | nil => rw [List.map_eq_nil_iff.mp hlayout.symm]
  | cons p ps ih =>
    cases qs with
    | nil => cases hlayout
    | cons q qs =>
      obtain ⟨hroot, hrest⟩ := List.cons.inj hlayout
      cases p with
      | child c =>
        cases q with
        | child d =>
          rw [List.filterMap_cons_some (by rfl), List.filterMap_cons_some (by rfl)] at hshapes
          obtain ⟨hcd, hshapes⟩ := List.cons.inj hshapes
          rw [List.map_cons, List.map_cons, ih hrest hshapes, Part.shape?, Part.shape?, hcd]
        | bind | join => cases hroot
      | bind | join =>
        cases q with
        | child d => cases hroot
        | bind | join =>
          rw [List.filterMap_cons_none (by rfl), List.filterMap_cons_none (by rfl)] at hshapes
          rw [List.map_cons, List.map_cons, ih hrest hshapes]
          rfl

/-- Terms of one shape agree in the construct at the root and in the shapes at all places. -/
theorem layout_of_shape_eq {σ τ : Kind} {t : Term σ} {u : Term τ} (h : t.shape = u.shape) :
    construct ⟨σ, t⟩ = construct ⟨τ, u⟩ ∧ t.parts.map Part.shape? = u.parts.map Part.shape? := by
  rw [shape_eq, shape_eq, Shape.node.injEq] at h
  obtain ⟨hcaption, hshapes⟩ := h
  obtain rfl : σ = τ := congrArg Caption.kind hcaption
  have hcount : childCount t.parts = childCount u.parts := by
    rw [← length_filterMap_shape?, hshapes, length_filterMap_shape?]
  obtain ⟨hconstruct, hlayout⟩ := layout_of_word_eq (congrArg Caption.word hcaption) hcount
  exact ⟨hconstruct, map_shape?_eq hlayout hshapes⟩

/-- Terms of one shape have nodes at the same addresses, and the same constructs there. -/
theorem construct_at?_eq {σ τ : Kind} {t : Term σ} {u : Term τ} (h : t.shape = u.shape)
    (p : Address) : (t.at? p).map construct = (u.at? p).map construct := by
  obtain ⟨hconstruct, hshapes⟩ := layout_of_shape_eq h
  induction p generalizing σ τ with
  | nil =>
    rw [at?, at?, Option.map_some, Option.map_some, hconstruct]
  | cons i p ih =>
    have hi : (t.parts[i]?).map Part.shape? = (u.parts[i]?).map Part.shape? := by
      rw [← List.getElem?_map, ← List.getElem?_map, hshapes]
    rw [at?, at?]
    rcases ht : t.parts[i]? with _ | ⟨c | _ | _⟩ <;> rcases hu : u.parts[i]? with _ | ⟨d | _ | _⟩
    -- two subterms of one shape
    case some.child.some.child =>
      have hcd : c.shape = d.shape := by simpa [ht, hu, Part.shape?] using hi
      obtain ⟨hconstruct, hshapes⟩ := layout_of_shape_eq hcd
      exact ih hcd hconstruct hshapes
    -- a subterm has a shape, and the other parts have none
    all_goals first | rfl | simp [ht, hu, Part.shape?] at hi

end Term

end JoinIR
