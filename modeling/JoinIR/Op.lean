/-
# JoinIR.Op — operators

Binary and unary operations that produce a value, and the one operation that stores into the
heap. Each has a mnemonic, which is its text in a listing.

Operators are ordered by kind, then by width, operation and signedness in the order in which
those are declared. Each order is a lexicographic chain of comparisons of numbers and names, so
that its laws are those of the chain (`BinOp.compare_eq_iff`, `UnOp.compare_eq_iff`,
`StoreOp.compare_eq_iff` and the `Std.TransOrd` instances).
-/
import JoinIR.Symbol

namespace JoinIR

/-! ## Parts of an operator -/

/-- The width of an integer operand. -/
inductive Width
  | w32
  | w64
  deriving DecidableEq, Hashable, Repr

namespace Width

/-- The machine type of that width. -/
def text : Width → String
  | w32 => "i32"
  | w64 => "i64"

/-- The place in the order of widths. -/
def rank : Width → Nat
  | w32 => 0
  | w64 => 1

theorem rank_inj {a b : Width} : a.rank = b.rank ↔ a = b := by
  cases a <;> cases b <;> decide

end Width

/-- How the bits of an integer are read. -/
inductive Signedness
  | signed
  | unsigned
  deriving DecidableEq, Hashable, Repr

namespace Signedness

/-- What the signedness appends to a mnemonic. -/
def ending : Signedness → String
  | signed => "_s"
  | unsigned => "_u"

/-- The place in the order of signednesses. -/
def rank : Signedness → Nat
  | signed => 0
  | unsigned => 1

theorem rank_inj {a b : Signedness} : a.rank = b.rank ↔ a = b := by
  cases a <;> cases b <;> decide

end Signedness

/-- Comparisons of integers. Those that order say how the bits are read. -/
inductive RelOp
  | eq
  | ne
  | lt (s : Signedness)
  | gt (s : Signedness)
  | le (s : Signedness)
  | ge (s : Signedness)
  deriving DecidableEq, Hashable, Repr

namespace RelOp

/-- The mnemonic without its width. -/
def text : RelOp → String
  | eq => "eq"
  | ne => "ne"
  | lt s => "lt" ++ s.ending
  | gt s => "gt" ++ s.ending
  | le s => "le" ++ s.ending
  | ge s => "ge" ++ s.ending

/-- The place in the order of comparisons. -/
def rank : RelOp → Nat
  | eq => 0
  | ne => 1
  | lt s => 2 + s.rank
  | gt s => 4 + s.rank
  | le s => 6 + s.rank
  | ge s => 8 + s.rank

theorem rank_inj {a b : RelOp} : a.rank = b.rank ↔ a = b := by
  rcases a with _ | _ | ⟨⟨⟩⟩ | ⟨⟨⟩⟩ | ⟨⟨⟩⟩ | ⟨⟨⟩⟩ <;>
    rcases b with _ | _ | ⟨⟨⟩⟩ | ⟨⟨⟩⟩ | ⟨⟨⟩⟩ | ⟨⟨⟩⟩ <;> decide

end RelOp

/-- Arithmetic and bit operations on integers. -/
inductive IntOp
  | add
  | sub
  | mul
  | and
  | or
  | xor
  | shl
  | shr (s : Signedness)
  deriving DecidableEq, Hashable, Repr

namespace IntOp

/-- The mnemonic without its width. -/
def text : IntOp → String
  | add => "add"
  | sub => "sub"
  | mul => "mul"
  | and => "and"
  | or => "or"
  | xor => "xor"
  | shl => "shl"
  | shr s => "shr" ++ s.ending

/-- The place in the order of integer operations. -/
def rank : IntOp → Nat
  | add => 0
  | sub => 1
  | mul => 2
  | and => 3
  | or => 4
  | xor => 5
  | shl => 6
  | shr s => 7 + s.rank

theorem rank_inj {a b : IntOp} : a.rank = b.rank ↔ a = b := by
  rcases a with _ | _ | _ | _ | _ | _ | _ | ⟨⟨⟩⟩ <;>
    rcases b with _ | _ | _ | _ | _ | _ | _ | ⟨⟨⟩⟩ <;> decide

end IntOp

/-- Arithmetic on floating-point numbers. -/
inductive FloatOp
  | add
  | sub
  | mul
  | div
  deriving DecidableEq, Hashable, Repr

namespace FloatOp

/-- The mnemonic without its type. -/
def text : FloatOp → String
  | add => "add"
  | sub => "sub"
  | mul => "mul"
  | div => "div"

/-- The place in the order of floating-point operations. -/
def rank : FloatOp → Nat
  | add => 0
  | sub => 1
  | mul => 2
  | div => 3

theorem rank_inj {a b : FloatOp} : a.rank = b.rank ↔ a = b := by
  cases a <;> cases b <;> decide

end FloatOp

/-! ## Binary operators -/

/-- A binary operation that produces a value. -/
inductive BinOp
  | cmp (w : Width) (op : RelOp)
  | int (w : Width) (op : IntOp)
  | float (op : FloatOp)
  /-- Identity of references. -/
  | refEq
  deriving DecidableEq, Hashable, Repr

namespace BinOp

/-- The mnemonic, such as `i32.lt_s`, `i64.shr_u`, `f64.add` or `ref.eq`. -/
def text : BinOp → String
  | cmp w op => w.text ++ "." ++ op.text
  | int w op => w.text ++ "." ++ op.text
  | float op => "f64." ++ op.text
  | refEq => "ref.eq"

/-- The place of the kind of operation. -/
def kind : BinOp → Nat
  | cmp .. => 0
  | int .. => 1
  | float _ => 2
  | refEq => 3

/-- The place of the width; operations without one share it. -/
def width : BinOp → Nat
  | cmp w _ => w.rank
  | int w _ => w.rank
  | float _ => 0
  | refEq => 0

/-- The place of the operation inside its kind. -/
def rank : BinOp → Nat
  | cmp _ op => op.rank
  | int _ op => op.rank
  | float op => op.rank
  | refEq => 0

/-- By kind, then by width, then by operation. -/
instance : Ord BinOp :=
  ⟨compareLex (compareOn kind) (compareLex (compareOn width) (compareOn rank))⟩

instance : Std.TransOrd BinOp :=
  inferInstanceAs
    (Std.TransCmp (compareLex (compareOn kind) (compareLex (compareOn width) (compareOn rank))))

theorem compare_eq_iff {a b : BinOp} : compare a b = .eq ↔ a = b := by
  change compareLex (compareOn kind) (compareLex (compareOn width) (compareOn rank)) a b = .eq ↔ _
  simp only [compareLex, compareOn, Ordering.then_eq_eq, Std.LawfulEqOrd.compare_eq_iff_eq]
  cases a <;> cases b <;>
    simp [kind, width, rank, Width.rank_inj, RelOp.rank_inj, IntOp.rank_inj, FloatOp.rank_inj]

instance : Std.LawfulEqOrd BinOp where
  eq_of_compare := compare_eq_iff.mp

end BinOp

/-! ## Unary operators -/

/-- A unary operation that produces a value. -/
inductive UnOp
  /-- Unbox a compact small-integer reference, extending its sign. -/
  | i31GetS
  /-- Box a 32-bit integer into a compact small-integer reference. -/
  | refI31
  /-- Test whether a reference is a compact small integer. -/
  | isI31
  | structGet (heap : HeapName) (field : UInt32)
  /-- Read a field narrower than a word, extending it. -/
  | structGetPacked (heap : HeapName) (field : UInt32) (extend : Signedness)
  | arrayLen
  deriving DecidableEq, Hashable, Repr

namespace UnOp

/-- The mnemonic and its immediate arguments. -/
def words : UnOp → List String
  | i31GetS => ["i31.get_s"]
  | refI31 => ["ref.i31"]
  | isI31 => ["ref.test", "i31"]
  | structGet heap field => ["struct.get", heap.text, toString field.toNat]
  | structGetPacked heap field extend =>
    ["struct.get" ++ extend.ending, heap.text, toString field.toNat]
  | arrayLen => ["array.len"]

/-- The mnemonic with its immediate arguments, such as `struct.get_u $block 0`. -/
def text (op : UnOp) : String := " ".intercalate op.words

/-- The place of the kind of operation. -/
def kind : UnOp → Nat
  | i31GetS => 0
  | refI31 => 1
  | isI31 => 2
  | structGet .. => 3
  | structGetPacked .. => 4
  | arrayLen => 5

/-- The heap type that is read; operations without one share the empty name. -/
def heapName : UnOp → String
  | structGet heap _ => heap.name
  | structGetPacked heap .. => heap.name
  | _ => ""

/-- The field that is read; operations without one share field zero. -/
def field : UnOp → UInt32
  | structGet _ field => field
  | structGetPacked _ field _ => field
  | _ => 0

/-- The place of the extension; operations without one share it. -/
def extension : UnOp → Nat
  | structGetPacked _ _ extend => extend.rank
  | _ => 0

/-- By kind, then by heap type, field and extension. -/
instance : Ord UnOp :=
  ⟨compareLex (compareOn kind)
    (compareLex (compareOn heapName) (compareLex (compareOn field) (compareOn extension)))⟩

instance : Std.TransOrd UnOp :=
  inferInstanceAs (Std.TransCmp (compareLex (compareOn kind)
    (compareLex (compareOn heapName) (compareLex (compareOn field) (compareOn extension)))))

theorem compare_eq_iff {a b : UnOp} : compare a b = .eq ↔ a = b := by
  change compareLex (compareOn kind) (compareLex (compareOn heapName)
    (compareLex (compareOn field) (compareOn extension))) a b = .eq ↔ _
  simp only [compareLex, compareOn, Ordering.then_eq_eq, Std.LawfulEqOrd.compare_eq_iff_eq]
  cases a <;> cases b <;>
    simp [kind, heapName, field, extension, Signedness.rank_inj, Symbol.ext_iff]

instance : Std.LawfulEqOrd UnOp where
  eq_of_compare := compare_eq_iff.mp

end UnOp

/-! ## Stores -/

/-- A binary operation that changes the heap and produces no value. -/
inductive StoreOp
  | structSet (heap : HeapName) (field : UInt32)
  deriving DecidableEq, Hashable, Repr

namespace StoreOp

/-- The mnemonic and its immediate arguments. -/
def words : StoreOp → List String
  | structSet heap field => ["struct.set", heap.text, toString field.toNat]

/-- The mnemonic with its immediate arguments, such as `struct.set $block 1`. -/
def text (op : StoreOp) : String := " ".intercalate op.words

/-- The heap type that is written. -/
def heapName : StoreOp → String
  | structSet heap _ => heap.name

/-- The field that is written. -/
def field : StoreOp → UInt32
  | structSet _ field => field

/-- By heap type, then by field. -/
instance : Ord StoreOp := ⟨compareLex (compareOn heapName) (compareOn field)⟩

instance : Std.TransOrd StoreOp :=
  inferInstanceAs (Std.TransCmp (compareLex (compareOn heapName) (compareOn field)))

theorem compare_eq_iff {a b : StoreOp} : compare a b = .eq ↔ a = b := by
  change compareLex (compareOn heapName) (compareOn field) a b = .eq ↔ _
  simp only [compareLex, compareOn, Ordering.then_eq_eq, Std.LawfulEqOrd.compare_eq_iff_eq]
  cases a
  cases b
  simp [heapName, field, Symbol.ext_iff]

instance : Std.LawfulEqOrd StoreOp where
  eq_of_compare := compare_eq_iff.mp

end StoreOp

end JoinIR
