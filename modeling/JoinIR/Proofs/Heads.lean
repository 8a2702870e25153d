/-
# JoinIR.Proofs.Heads — what stands in the head of a node

The head of a node is made of fixed words, numbers, operators, and of names: debug names and the
names of functions, globals and heap types (`Term.names`). Every word of it is a word to a reader
as far as these names allow (`Term.isWord_of_mem_head`), and so is every word of the outline of a
term (`Term.isWord_of_mem_outline`).

The first word of a head tells which construct stands at the node. The two branches with and
without an argument share one; their children tell them apart.
-/
import JoinIR.Proofs.Listing.Reading
import JoinIR.Proofs.Outline
import JoinIR.Proofs.Mnemonics
import JoinIR.Proofs.Binary64
import JoinIR.Term.Caption

namespace JoinIR

open Listing (Datum Outline Avoids IsWord delimiters)

/-! ## Names -/

/-- The names that a parameter of a join point is written with. -/
def ContParam.names (p : ContParam) : List String :=
  (p.local?.map Handle.names).getD [] ++ p.ty.names

namespace Term

/-- The names that the root is written with. -/
def names : {σ : Kind} → Term σ → List String
  | _, refFunc f => [f.name]
  | _, var v => v.names
  | _, letIn x ty _ _ => x.names ++ ty.names
  | _, ite ty _ _ _ => ty.names
  | _, unary op _ => op.names
  | _, structNew h _ => [h.name]
  | _, arrayNewFixed h _ => [h.name]
  | _, refCast h _ => [h.name]
  | _, call f _ => [f.name]
  | _, callRef h _ _ => [h.name]
  | _, globalGet g => [g.name]
  | _, letCont k ps _ _ => k.names ++ ps.flatMap ContParam.names
  | _, applyCont k _ => k.names
  | _, brOnCast _ h k _ => k.names ++ [h.name]
  | _, brIf _ k _ => k.names
  | _, tryCatch ty _ x thrown _ => ty.names ++ x.names ++ thrown.names
  | _, store op _ _ => op.names
  | _, assign v _ => v.names
  | _, loop k _ => k.names
  | _, brWhen _ k => k.names
  | _, letContTail k ps _ _ => k.names ++ ps.flatMap ContParam.names
  | _, brTable _ ks k => ks.flatMap Handle.names ++ k.names
  | _, br k _ => k.names
  | _, brBare k => k.names
  | _, _ => []

end Term

/-- No name in the term holds one of the characters. -/
def Term.NamesAvoid (cs : List Char) {σ : Kind} (t : Term σ) : Prop :=
  Term.Everywhere (fun s => ∀ n ∈ s.names, Avoids cs n) t

/-- No name in the part, if it is a subterm, holds one of the characters. -/
def Part.NamesAvoid (cs : List Char) : Part → Prop
  | child t => t.NamesAvoid cs
  | bind .. | join .. => True

theorem Term.namesAvoid_iff {cs : List Char} {σ : Kind} {t : Term σ} :
    t.NamesAvoid cs ↔ (∀ n ∈ t.names, Avoids cs n) ∧ ∀ p ∈ t.parts, p.NamesAvoid cs := by
  rw [NamesAvoid, everywhere_iff]
  refine and_congr_right fun _ => ⟨fun h p hp => ?_, fun h τ c hc => h _ hc⟩
  cases p with
  | child c => exact h c hp
  | bind | join => trivial

namespace Function

/-- The names that the signature of a function is written with. -/
def names (f : Function) : List String :=
  f.name.name :: f.params.flatMap (fun p => p.1.names ++ p.2.names)
    ++ (f.body.result?.map Ty.names).getD []

/-- No name in the function, in its signature or in its body, holds one of the characters. -/
structure NamesAvoid (cs : List Char) (f : Function) : Prop where
  signature : ∀ n ∈ f.names, Avoids cs n
  body : f.body.term.NamesAvoid cs

end Function

/-! ## Words -/

section Words

variable {cs : List Char} (hcs : cs ⊆ delimiters)
include hcs

theorem ContParam.isWord_of_mem_datum {p : ContParam} (hnames : ∀ n ∈ p.names, Avoids cs n) :
    ∀ w ∈ p.datum.words, IsWord cs w := by
  rw [names, List.forall_mem_append] at hnames
  have hty := Ty.isWord_of_mem_datum hcs hnames.2
  have hplaceholder : IsWord cs "_" := IsWord.of_subset hcs (by decide)
  obtain ⟨_ | x, ty⟩ := p
  · simpa [datum, hplaceholder] using hty
  · have hlocal := Handle.isWord_text (h := x) hcs hnames.1
    simpa [datum, hlocal] using hty

theorem Term.isWord_of_mem_resultDatum (ty : Ty) (hnames : ∀ n ∈ ty.names, Avoids cs n) :
    ∀ w ∈ (resultDatum ty).words, IsWord cs w := by
  have hresult : IsWord cs "result" := IsWord.of_subset hcs (by decide)
  have hty := Ty.isWord_of_mem_datum hcs hnames
  simpa [resultDatum, hresult] using hty

theorem Term.isWord_of_mem_joinHead {k : Label} {ps : List ContParam}
    (hk : ∀ n ∈ k.names, Avoids cs n) (hps : ∀ n ∈ ps.flatMap ContParam.names, Avoids cs n) :
    ∀ d ∈ joinHead k ps, ∀ w ∈ d.words, IsWord cs w := by
  have hword : IsWord cs "let_cont" := IsWord.of_subset hcs (by decide)
  have hparams : ∀ p ∈ ps, ∀ w ∈ p.datum.words, IsWord cs w := by
    intro p hp
    apply ContParam.isWord_of_mem_datum hcs
    intro n hn
    apply hps n
    exact List.mem_flatMap.mpr ⟨p, hp, hn⟩
  simpa [joinHead, hword, Handle.isWord_text hcs hk] using hparams

/-- The words of a head are words to a reader if the names in it are. -/
theorem Term.isWord_of_mem_head {σ : Kind} {t : Term σ} (hnames : ∀ n ∈ t.names, Avoids cs n) :
    ∀ d ∈ t.head, ∀ w ∈ d.words, IsWord cs w := by
  -- the fixed words are closed terms, for which being a word is decided
  have hfixed (s : String) (hs : IsWord delimiters s) : IsWord cs s := hs.of_subset hcs
  cases t with
  | i32 | i64 => simp (disch := decide) [head, hfixed, isWord_repr_int hcs]
  | f64 => simp (disch := decide) [head, hfixed, Binary64.isWord_text hcs]
  | refFunc | structNew | refCast | call | callRef | globalGet =>
    simp only [names, List.mem_singleton, forall_eq] at hnames
    simp (disch := decide) [head, hfixed, Symbol.isWord_text hcs hnames]
  | arrayNewFixed =>
    simp only [names, List.mem_singleton, forall_eq] at hnames
    simp (disch := decide) [head, hfixed, Symbol.isWord_text hcs hnames, isWord_repr hcs]
  | var | assign => simp (disch := decide) [head, hfixed, Var.isWord_text hcs hnames]
  | applyCont | brIf | loop | brWhen | br | brBare =>
    simp (disch := decide) [head, hfixed, Handle.isWord_text hcs hnames]
  | letIn x ty =>
    rw [names, List.forall_mem_append] at hnames
    have hty := Ty.isWord_of_mem_datum hcs hnames.2
    simpa (disch := decide) [head, hfixed, Handle.isWord_text hcs hnames.1] using hty
  | ite ty =>
    have hty := isWord_of_mem_resultDatum hcs ty hnames
    simpa (disch := decide) [head, hfixed] using hty
  | binary op => simp [head, BinOp.isWord_text hcs]
  | unary op => simpa [head] using UnOp.isWord_of_mem_words hcs hnames
  | store op => simpa [head] using StoreOp.isWord_of_mem_words hcs hnames
  | letCont k ps | letContTail k ps =>
    rw [names, List.forall_mem_append] at hnames
    exact isWord_of_mem_joinHead hcs hnames.1 hnames.2
  | brOnCast _ h k =>
    rw [names, List.forall_mem_append] at hnames
    have hname := Symbol.isWord_text hcs (hnames.2 _ List.mem_cons_self)
    simp (disch := decide) [head, hfixed, Handle.isWord_text hcs hnames.1, hname]
  | brTable _ ks k =>
    rw [names, List.forall_mem_append] at hnames
    have hcases : ∀ j ∈ ks, IsWord cs j.text := by
      intro j hj
      apply Handle.isWord_text hcs
      intro n hn
      apply hnames.1 n
      exact List.mem_flatMap.mpr ⟨j, hj, hn⟩
    have hdefault := Handle.isWord_text hcs hnames.2
    intro d hd w hw
    simp only [head, List.map_append, List.map_map, List.map_cons, List.map_nil, List.mem_cons,
      List.mem_append, List.mem_map, Function.comp_apply, List.not_mem_nil, or_false] at hd
    rcases hd with rfl | ⟨j, hj, rfl⟩ | rfl <;>
      simp only [Datum.words_word, List.mem_singleton] at hw <;> subst hw
    · exact hfixed _ (by decide)
    · exact hcases j hj
    · exact hdefault
  -- exceptions are not listed and have no head
  | tryCatch | raise => simp [head]
  | _ => simp (disch := decide) [head, hfixed]

/-- The words over the arms of a node are words to a reader. -/
theorem Term.isWord_of_arm {σ : Kind} {t : Term σ} {i : Nat} {w : String}
    (h : t.arm i = some w) : IsWord cs w := by
  have hwords : ∀ v ∈ armWords, IsWord delimiters v := by decide
  exact (hwords w (arm_mem_armWords h)).of_subset hcs

omit hcs in
theorem Term.isWord_of_mem_wrap {a : Option String} {o : Outline}
    (ha : ∀ w, a = some w → IsWord cs w) (ho : ∀ w ∈ o.words, IsWord cs w) :
    ∀ w ∈ (wrap a o).words, IsWord cs w := by
  cases a with
  | none => exact ho
  | some word => simpa [wrap, under, ha word rfl] using ho

/-- The words of an outline are words to a reader if the names in the term are. -/
theorem Term.isWord_of_mem_outline {σ : Kind} (t : Term σ) {o : Outline}
    (hnames : t.NamesAvoid cs) (ho : t.outline = .ok o) :
    ∀ w ∈ o.words, IsWord cs w := by
  induction t using Term.parts_induction generalizing o with
  | step t ih =>
    obtain ⟨hroot, hchildren⟩ := everywhere_iff.mp hnames
    obtain ⟨-, os, hos, rfl⟩ := outline_eq_ok_iff.mp ho
    rw [Outline.words_node, Outline.wordsAll_eq_flatMap, List.forall_mem_append]
    constructor
    · intro w hw
      obtain ⟨d, hd, hw⟩ := List.mem_flatMap.mp hw
      exact isWord_of_mem_head hcs hroot d hd w hw
    · intro w hw
      obtain ⟨o', ho', hw⟩ := List.mem_flatMap.mp hw
      obtain ⟨i, hi, rfl⟩ := List.mem_mapIdx.mp ho'
      obtain ⟨τ, c, hc, hout⟩ := exists_child_of_mem hos _ (List.getElem_mem hi)
      exact isWord_of_mem_wrap (fun w hw => isWord_of_arm hcs hw)
        (ih c hc (hchildren c hc) hout) w hw

theorem Function.isWord_of_mem_head {f : Function} (hnames : ∀ n ∈ f.names, Avoids cs n) :
    ∀ d ∈ f.head, ∀ w ∈ d.words, IsWord cs w := by
  obtain ⟨name, params, body⟩ := f
  rw [names, List.forall_mem_append, List.forall_mem_cons] at hnames
  obtain ⟨⟨hname, hparams⟩, hresult⟩ := hnames
  have hfixed (s : String) (hs : IsWord delimiters s) : IsWord cs s := hs.of_subset hcs
  have hparam : ∀ p ∈ params, ∀ w ∈ (paramDatum p).words, IsWord cs w := by
    intro p hp
    have hp' : ∀ n ∈ p.1.names ++ p.2.names, Avoids cs n :=
      fun n hn => hparams n (List.mem_flatMap.mpr ⟨p, hp, hn⟩)
    rw [List.forall_mem_append] at hp'
    have hty := Ty.isWord_of_mem_datum hcs hp'.2
    simpa (disch := decide) [paramDatum, hfixed, Handle.isWord_text hcs hp'.1] using hty
  intro d hd
  simp only [head, List.mem_append, List.mem_cons, List.not_mem_nil, or_false, List.mem_map,
    Option.mem_toList, Option.map_eq_some_iff] at hd
  rcases hd with ((rfl | rfl) | ⟨p, hp, rfl⟩) | ⟨ty, hty, rfl⟩
  · simp (disch := decide) [hfixed]
  · simp [Symbol.isWord_text hcs hname]
  · exact hparam p hp
  · apply Term.isWord_of_mem_resultDatum hcs ty
    intro n hn
    apply hresult n
    rw [hty]
    exact hn

/-- The words of the outline of a function are words to a reader if the names in it are. -/
theorem Function.isWord_of_mem_outline {f : Function} {o : Outline} (hnames : f.NamesAvoid cs)
    (ho : f.outline = .ok o) : ∀ w ∈ o.words, IsWord cs w := by
  obtain ⟨b, hbody, rfl⟩ := outline_eq_ok_iff.mp ho
  have hhead := isWord_of_mem_head hcs hnames.signature
  have hterm := Term.isWord_of_mem_outline hcs f.body.term hnames.body hbody
  intro w hw
  simp only [Outline.words_node, Outline.wordsAll_eq_flatMap, List.flatMap_cons,
    List.flatMap_nil, List.append_nil, List.mem_append, List.mem_flatMap] at hw
  rcases hw with ⟨d, hd, hw⟩ | hw
  · exact hhead d hd w hw
  · exact hterm w hw

end Words

/-! ## The construct at a node -/

namespace Term

/-- The constructs that the first words of heads stand for, binary operators left out. -/
def constructs : List (String × String) :=
  [("i32.const", "i32"), ("i64.const", "i64"), ("f64.const", "f64"), ("ref.func", "ref_func"),
    ("local.get", "var"), ("let", "let"), ("if", "if"), ("i31.get_s", "un"), ("ref.i31", "un"),
    ("ref.test", "un"), ("struct.get", "un"), ("struct.get_s", "un"), ("struct.get_u", "un"),
    ("array.len", "un"), ("struct.new", "struct_new"), ("array.new_fixed", "array_new_fixed"),
    ("ref.cast", "ref_cast"), ("call", "call"), ("call_ref", "call_ref"),
    ("global.get", "global_get"), ("seq", "seq"), ("let_cont", "let_cont"),
    ("apply_cont", "apply_cont"), ("br_on_cast", "br_on_cast"), ("br_if", "br_if"),
    ("effect", "effect"), ("no_return", "no_return"), ("drop", "drop"), ("struct.set", "store"),
    ("local.set", "assign"), ("loop", "loop"), ("nop", "nop"), ("br_table", "br_table"),
    ("br", "br"), ("unreachable", "unreachable")]

/-- The word of the construct whose head opens with the given word. -/
def wordOf (mnemonic : String) : String :=
  ((constructs.find? fun c => c.1 == mnemonic).map Prod.snd).getD "bin"

theorem wordOf_binary (op : BinOp) : wordOf op.text = "bin" := by
  rcases op with ⟨⟨⟩, op⟩ | ⟨⟨⟩, op⟩ | ⟨⟨⟩⟩ | _ <;>
    first
      | decide +kernel
      | rcases op with _ | _ | ⟨⟨⟩⟩ | ⟨⟨⟩⟩ | ⟨⟨⟩⟩ | ⟨⟨⟩⟩ <;> decide +kernel
      | rcases op with _ | _ | _ | _ | _ | _ | _ | ⟨⟨⟩⟩ <;> decide +kernel

/-- The head of a listed node opens with a word that tells the construct. -/
theorem exists_mnemonic {σ : Kind} {t : Term σ} (h : t.unlisted? = none) :
    ∃ m rest, t.head = .word m :: rest ∧ wordOf m = t.word := by
  cases t with
  | binary op => exact ⟨_, _, rfl, wordOf_binary op⟩
  | unary op =>
    rw [word]
    cases op with
    | structGetPacked _ _ extend => cases extend <;> exact ⟨_, _, rfl, by decide +kernel⟩
    | _ => exact ⟨_, _, rfl, by decide +kernel⟩
  | store op =>
    rw [word]
    cases op
    exact ⟨_, _, rfl, by decide +kernel⟩
  | tryCatch | raise => cases h
  | _ =>
    rw [word]
    exact ⟨_, _, rfl, by decide +kernel⟩

/-- Nodes with one head are of one construct. -/
theorem word_eq_of_head_eq {σ : Kind} {t u : Term σ} (ht : t.unlisted? = none)
    (hu : u.unlisted? = none) (h : t.head = u.head) : t.word = u.word := by
  obtain ⟨m, l, hm, hmt⟩ := exists_mnemonic ht
  obtain ⟨n, l', hn, hnu⟩ := exists_mnemonic hu
  rw [hm, hn, List.cons.injEq, Datum.word.injEq] at h
  rw [← hmt, ← hnu, h.1]

end Term
end JoinIR
