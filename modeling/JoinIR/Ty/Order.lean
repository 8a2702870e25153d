/-
# JoinIR.Ty.Order — types in order

Types are ordered by constructor, in the order in which the constructors are declared, and then by
what they hold: references by the name of the heap type, tuples like words in a dictionary, so that
a proper beginning comes first.

This is a total order in which only identical types are equal, for tuples nested to any depth: the
`Std.TransOrd` and `Std.LawfulEqOrd` instances say so.
-/
import JoinIR.Ty

namespace JoinIR.Ty

/-- The place of a type's constructor in the order. -/
def rank : Ty → Nat
  | i32 => 0
  | i64 => 1
  | f64 => 2
  | ref _ => 3
  | tuple _ => 4

mutual

/-- Constructors in their order, then heap types by name and tuples like words of a dictionary. -/
def order : Ty → Ty → Ordering
  | ref a, ref b => compare a b
  | tuple as, tuple bs => orderAll as bs
  | a, b => compare a.rank b.rank

/-- Position by position; a proper beginning comes first. -/
def orderAll : List Ty → List Ty → Ordering
  | [], [] => .eq
  | [], _ :: _ => .lt
  | _ :: _, [] => .gt
  | a :: as, b :: bs => (order a b).then (orderAll as bs)

end

instance : Ord Ty := ⟨order⟩

/-! ## Its laws -/

mutual

theorem order_eq_iff : ∀ {a b : Ty}, order a b = .eq ↔ a = b
  | i32, b => by cases b <;> simp [order, rank]
  | i64, b => by cases b <;> simp [order, rank]
  | f64, b => by cases b <;> simp [order, rank]
  | ref a, b => by
    cases b with
    | ref b => simp [order]
    | _ => simp [order, rank]
  | tuple as, b => by
    cases b with
    | tuple bs => simp [order, orderAll_eq_iff as]
    | _ => simp [order, rank]

theorem orderAll_eq_iff : ∀ (as bs : List Ty), orderAll as bs = .eq ↔ as = bs
  | [], bs => by cases bs <;> simp [orderAll]
  | a :: as, bs => by
    cases bs with
    | nil => simp [orderAll]
    | cons b bs =>
      simp [orderAll, Ordering.then_eq_eq, order_eq_iff (a := a), orderAll_eq_iff as]

end

mutual

theorem order_swap : ∀ {a b : Ty}, order a b = (order b a).swap
  | i32, b => by cases b <;> simp [order, rank] <;> decide
  | i64, b => by cases b <;> simp [order, rank] <;> decide
  | f64, b => by cases b <;> simp [order, rank] <;> decide
  | ref a, b => by
    cases b with
    | ref b => simpa [order] using Std.OrientedOrd.eq_swap
    | _ => simp [order, rank]; decide
  | tuple as, b => by
    cases b with
    | tuple bs => simpa [order] using orderAll_swap as bs
    | _ => simp [order, rank]; decide

theorem orderAll_swap : ∀ (as bs : List Ty), orderAll as bs = (orderAll bs as).swap
  | [], bs => by cases bs <;> simp [orderAll]
  | a :: as, bs => by
    cases bs with
    | nil => simp [orderAll]
    | cons b bs =>
      simp [orderAll, Ordering.swap_then, ← order_swap (a := a), ← orderAll_swap as]

end

mutual

theorem order_isLE_trans : ∀ {a b c : Ty},
    (order a b).isLE → (order b c).isLE → (order a c).isLE
  | i32, b, c => by cases b <;> cases c <;> simp [order, rank, Nat.isLE_compare]
  | i64, b, c => by cases b <;> cases c <;> simp [order, rank, Nat.isLE_compare]
  | f64, b, c => by cases b <;> cases c <;> simp [order, rank, Nat.isLE_compare]
  | ref a, b, c => by
    cases b <;> cases c
    case ref.ref b c => simpa [order] using Std.TransOrd.isLE_trans
    all_goals simp [order, rank, Nat.isLE_compare]
  | tuple as, b, c => by
    cases b <;> cases c
    case tuple.tuple bs cs => simpa [order] using orderAll_isLE_trans as bs cs
    all_goals simp [order, rank, Nat.isLE_compare]

theorem orderAll_isLE_trans : ∀ (as bs cs : List Ty),
    (orderAll as bs).isLE → (orderAll bs cs).isLE → (orderAll as cs).isLE
  | [], _, cs => by cases cs <;> simp [orderAll]
  | a :: as, bs, cs => by
    cases bs with
    | nil => simp [orderAll]
    | cons b bs =>
      cases cs with
      | nil => simp [orderAll]
      | cons c cs =>
        simp only [orderAll, Ordering.isLE_then_iff_or, order_eq_iff]
        rintro (hab | ⟨rfl, has⟩) (hbc | ⟨rfl, hbs⟩)
        · have hac := order_isLE_trans (a := a) (by simp [hab]) (by simp [hbc] : (order b c).isLE)
          cases h : order a c with
          | lt => exact .inl rfl
          | gt => simp [h] at hac
          | eq =>
            have := order_swap (a := a) (b := b)
            simp [order_eq_iff.mp h, hbc] at this hab
            simp [hab] at this
        · exact .inl hab
        · exact .inl hbc
        · exact .inr ⟨rfl, orderAll_isLE_trans _ _ _ has hbs⟩

end

instance : Std.TransOrd Ty where
  eq_swap := order_swap
  isLE_trans := order_isLE_trans

instance : Std.LawfulEqOrd Ty where
  compare_self := order_eq_iff.mpr rfl
  eq_of_compare := order_eq_iff.mp

end JoinIR.Ty
