/-
# JoinIR.Ty — types of values

A value is a number of one of three machine types, a reference to a heap type, or a tuple. Tuples
nest, and two of them are equal when they are equal position by position. The order of types is in
`JoinIR.Ty.Order`.
-/
import JoinIR.Symbol
import JoinIR.Listing.Datum

namespace JoinIR

/-- The type of a value. -/
inductive Ty
  | i32
  | i64
  | f64
  /-- A reference to a value of a heap type. -/
  | ref (heap : HeapName)
  /-- A tuple of values, passed together. -/
  | tuple (parts : List Ty)
  deriving Repr

namespace Ty

/-- Whether the type is a tuple type, of any length. -/
def isTuple : Ty → Bool
  | tuple _ => true
  | _ => false

/-! ## The text of a type -/

mutual

/-- The notation of a type: a word, or a list that opens with `ref` or `tuple`. -/
def datum : Ty → Listing.Datum
  | i32 => .word "i32"
  | i64 => .word "i64"
  | f64 => .word "f64"
  | ref heap => .list [.word "ref", .word heap.text]
  | tuple parts => .list (.word "tuple" :: data parts)

/-- The notation of each type of a list. -/
def data : List Ty → List Listing.Datum
  | [] => []
  | t :: rest => t.datum :: data rest

end

/-- The text of a type, such as `i64`, `(ref $block)` or `(tuple i32 (ref $env))`. -/
def text (t : Ty) : String := t.datum.text

/-! ## Equality -/

mutual

/-- Structural comparison. -/
def beq : Ty → Ty → Bool
  | i32, i32 => true
  | i64, i64 => true
  | f64, f64 => true
  | ref a, ref b => a == b
  | tuple as, tuple bs => beqAll as bs
  | _, _ => false

/-- Structural comparison, position by position. -/
def beqAll : List Ty → List Ty → Bool
  | [], [] => true
  | a :: as, b :: bs => beq a b && beqAll as bs
  | _, _ => false

end

mutual

theorem beq_iff : ∀ {a b : Ty}, beq a b = true ↔ a = b
  | i32, b => by cases b <;> simp [beq]
  | i64, b => by cases b <;> simp [beq]
  | f64, b => by cases b <;> simp [beq]
  | ref _, b => by cases b <;> simp [beq]
  | tuple as, b => by
    cases b with
    | tuple bs => simp [beq, beqAll_iff as]
    | _ => simp [beq]

theorem beqAll_iff : ∀ (as bs : List Ty), beqAll as bs = true ↔ as = bs
  | [], bs => by cases bs <;> simp [beqAll]
  | a :: as, bs => by
    cases bs with
    | nil => simp [beqAll]
    | cons b bs => simp [beqAll, beq_iff (a := a), beqAll_iff as]

end

instance : DecidableEq Ty := fun _ _ => decidable_of_iff _ beq_iff

/-! ## Hashing -/

mutual

/-- The constructor and what it holds, mixed into one word. -/
def digest : Ty → UInt64
  | i32 => 0
  | i64 => 1
  | f64 => 2
  | ref heap => mixHash 3 (hash heap)
  | tuple parts => mixHash 4 (digestAll parts)

/-- The types of a list, mixed from the last one on. -/
def digestAll : List Ty → UInt64
  | [] => 0
  | t :: rest => mixHash (digest t) (digestAll rest)

end

instance : Hashable Ty := ⟨digest⟩

end Ty

end JoinIR
