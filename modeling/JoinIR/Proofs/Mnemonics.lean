/-
# JoinIR.Proofs.Mnemonics — the words of operators

An operator is determined by its words (`BinOp.text_inj`, `UnOp.words_inj`, `StoreOp.words_inj`),
and these are words to a reader as far as the names in them allow.
-/
import JoinIR.Proofs.Words
import JoinIR.Op

namespace JoinIR

open Listing (Avoids IsWord delimiters)

/-! ## Parts of a mnemonic -/

@[simp] theorem RelOp.text_inj {a b : RelOp} : a.text = b.text ↔ a = b := by
  rcases a with _ | _ | ⟨⟨⟩⟩ | ⟨⟨⟩⟩ | ⟨⟨⟩⟩ | ⟨⟨⟩⟩ <;>
    rcases b with _ | _ | ⟨⟨⟩⟩ | ⟨⟨⟩⟩ | ⟨⟨⟩⟩ | ⟨⟨⟩⟩ <;> decide

@[simp] theorem IntOp.text_inj {a b : IntOp} : a.text = b.text ↔ a = b := by
  rcases a with _ | _ | _ | _ | _ | _ | _ | ⟨⟨⟩⟩ <;>
    rcases b with _ | _ | _ | _ | _ | _ | _ | ⟨⟨⟩⟩ <;> decide

@[simp] theorem FloatOp.text_inj {a b : FloatOp} : a.text = b.text ↔ a = b := by
  cases a <;> cases b <;> decide

theorem RelOp.text_ne_int (a : RelOp) (b : IntOp) : a.text ≠ b.text := by
  rcases a with _ | _ | ⟨⟨⟩⟩ | ⟨⟨⟩⟩ | ⟨⟨⟩⟩ | ⟨⟨⟩⟩ <;>
    rcases b with _ | _ | _ | _ | _ | _ | _ | ⟨⟨⟩⟩ <;> decide

/-- The machine type in front of a mnemonic is three characters long. -/
theorem Width.length_text (w : Width) : w.text.toList.length = 3 := by
  cases w <;> decide

@[simp] theorem Width.text_inj {a b : Width} : a.text = b.text ↔ a = b := by
  cases a <;> cases b <;> decide

/-- The type and the operation are told apart by their place in the mnemonic. -/
theorem dotted_inj {v w s t : String} (hlength : v.toList.length = w.toList.length) :
    v ++ "." ++ s = w ++ "." ++ t ↔ v = w ∧ s = t := by
  constructor
  · intro h
    have hlist := congrArg String.toList h
    simp only [String.toList_append, List.append_assoc] at hlist
    obtain ⟨htype, hrest⟩ := List.append_inj hlist hlength
    exact ⟨String.toList_inj.mp htype, String.toList_inj.mp (List.append_cancel_left hrest)⟩
  · rintro ⟨rfl, rfl⟩
    rfl

theorem Width.text_ne_f64 (w : Width) : w.text ≠ "f64" := by
  cases w <;> decide

theorem Width.text_ne_ref (w : Width) : w.text ≠ "ref" := by
  cases w <;> decide

/-! ## Binary operators -/

namespace BinOp

/-- The type in front of a mnemonic. -/
def typeText : BinOp → String
  | cmp w _ => w.text
  | int w _ => w.text
  | float _ => "f64"
  | refEq => "ref"

/-- The operation in a mnemonic. -/
def operation : BinOp → String
  | cmp _ op => op.text
  | int _ op => op.text
  | float op => op.text
  | refEq => "eq"

theorem text_eq (op : BinOp) : op.text = op.typeText ++ "." ++ op.operation := by
  cases op <;> simp [text, typeText, operation]

theorem dot_mem_text (op : BinOp) : '.' ∈ op.text.toList := by
  rw [text_eq, String.toList_append, String.toList_append]
  simp

theorem length_typeText (op : BinOp) : op.typeText.toList.length = 3 := by
  cases op with
  | cmp w _ | int w _ => exact w.length_text
  | float _ =>
    show "f64".toList.length = 3
    decide
  | refEq => decide

@[simp] theorem text_inj {a b : BinOp} : a.text = b.text ↔ a = b := by
  have hlength : a.typeText.toList.length = b.typeText.toList.length := by
    rw [length_typeText, length_typeText]
  rw [text_eq, text_eq, dotted_inj hlength]
  cases a <;> cases b <;>
    simp [typeText, operation, Width.text_ne_f64, Width.text_ne_ref, RelOp.text_ne_int,
      (Width.text_ne_f64 _).symm, (Width.text_ne_ref _).symm, (RelOp.text_ne_int _ _).symm]

theorem isWord_text {cs : List Char} (hcs : cs ⊆ delimiters) (op : BinOp) : IsWord cs op.text := by
  apply IsWord.of_subset hcs
  rcases op with ⟨⟨⟩, op⟩ | ⟨⟨⟩, op⟩ | ⟨⟨⟩⟩ | _ <;>
    first
      | decide
      | rcases op with _ | _ | ⟨⟨⟩⟩ | ⟨⟨⟩⟩ | ⟨⟨⟩⟩ | ⟨⟨⟩⟩ <;> decide
      | rcases op with _ | _ | _ | _ | _ | _ | _ | ⟨⟨⟩⟩ <;> decide

end BinOp

/-! ## Unary operators and stores -/

@[simp] theorem Signedness.ending_inj {a b : Signedness} : a.ending = b.ending ↔ a = b := by
  cases a <;> cases b <;> decide

theorem Signedness.ending_ne_empty (s : Signedness) : s.ending ≠ "" := by
  cases s <;> decide

namespace UnOp

/-- The names that an operator is written with. -/
def names : UnOp → List String
  | structGet heap _ => [heap.name]
  | structGetPacked heap .. => [heap.name]
  | _ => []

/-- Reading a packed field has a mnemonic of its own. -/
theorem packed_ne (s : Signedness) : "struct.get" ≠ "struct.get" ++ s.ending := by
  cases s <;> decide

@[simp] theorem words_inj {a b : UnOp} : a.words = b.words ↔ a = b := by
  cases a <;> cases b <;>
    simp [words, packed_ne, Nat.repr, String.ofList_inj, digits_inj, UInt32.toNat_inj]
  · simp [Signedness.ending_ne_empty]
  · tauto

theorem isWord_of_mem_words {cs : List Char} (hcs : cs ⊆ delimiters) {op : UnOp}
    (hnames : ∀ n ∈ op.names, Avoids cs n) : ∀ w ∈ op.words, IsWord cs w := by
  have hfixed (s : String) (hs : IsWord delimiters s) : IsWord cs s := hs.of_subset hcs
  cases op with
  | i31GetS | refI31 | isI31 | arrayLen => simp (disch := decide) [words, hfixed]
  | structGet heap field =>
    have hheap : Avoids cs heap.name := hnames _ (by simp [names])
    simp (disch := decide) [words, hfixed, Symbol.isWord_text hcs hheap, isWord_repr hcs]
  | structGetPacked heap field extend =>
    have hheap : Avoids cs heap.name := hnames _ (by simp [names])
    have hmnemonic : IsWord cs ("struct.get" ++ extend.ending) := by
      cases extend <;> exact hfixed _ (by decide)
    simp [words, hmnemonic, Symbol.isWord_text hcs hheap, isWord_repr hcs]

end UnOp

namespace StoreOp

/-- The names that an operator is written with. -/
def names (op : StoreOp) : List String := [op.heapName]

@[simp] theorem words_inj {a b : StoreOp} : a.words = b.words ↔ a = b := by
  cases a
  cases b
  simp [words, Nat.repr, String.ofList_inj, digits_inj, UInt32.toNat_inj]

theorem isWord_of_mem_words {cs : List Char} (hcs : cs ⊆ delimiters) {op : StoreOp}
    (hnames : ∀ n ∈ op.names, Avoids cs n) : ∀ w ∈ op.words, IsWord cs w := by
  have hmnemonic : IsWord cs "struct.set" := IsWord.of_subset hcs (by decide)
  obtain ⟨heap, field⟩ := op
  have hheap : Avoids cs heap.name := hnames _ (by simp [names, heapName])
  simp [words, hmnemonic, Symbol.isWord_text hcs hheap, isWord_repr hcs]

end StoreOp
end JoinIR
