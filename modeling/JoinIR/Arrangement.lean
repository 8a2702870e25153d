/-
# JoinIR.Arrangement — arranging items of an ordered kind

Handles, symbols, types and operators are compared in three ways: by an order, by an equality and
by a hash. The functions here arrange a list of items in each of these ways: neighbours compared,
the items marked that a hashed set finds new, the items sorted without disturbing equal ones, and
the items gathered in an ordered set.

A hashed set looks for an item only among those that it holds with the same hash, so it finds an
equal item as long as equal items have equal hashes.

The marks and the ordered set disagree about which of several equal items they speak of: the marks
point at the **first** one, and the set is made from the sorted items by cutting every run of equal
ones down to its **last** (`lastOfRuns`). For handles the difference shows, because equal handles
can carry different debug names.
-/

namespace JoinIR.Arrangement

variable {α β : Type}

/-- A function applied to each neighbouring pair of a list. -/
def neighbours (f : α → α → β) : List α → List β
  | [] => []
  | [_] => []
  | a :: b :: rest => f a b :: neighbours f (b :: rest)

/-- Whether a hashed set finds an item equal to `a` among those that it holds. Only items with the
hash of `a` are compared with it. -/
def finds [BEq α] [Hashable α] (held : List α) (a : α) : Bool :=
  held.any fun b => hash b == hash a && b == a

/-- For each item, whether it is new to a hashed set into which the items are put one after the
other. An item that the set finds is not put in. -/
def freshAfter [BEq α] [Hashable α] (held : List α) : List α → List Bool
  | [] => []
  | a :: rest =>
    if finds held a then false :: freshAfter held rest else true :: freshAfter (a :: held) rest

/-- Marks of the items that are new to a hashed set which is empty at the start. -/
def fresh [BEq α] [Hashable α] (items : List α) : List Bool := freshAfter [] items

/-- The items in ascending order; equal items keep the order that they have. -/
def sorted [Ord α] (items : List α) : List α := items.mergeSort fun a b => (compare a b).isLE

/-- The list with every run of equal neighbours cut down to its last item. -/
def lastOfRuns [Ord α] : List α → List α
  | [] => []
  | [a] => [a]
  | a :: b :: rest =>
    match compare a b with
    | .eq => lastOfRuns (b :: rest)
    | _ => a :: lastOfRuns (b :: rest)

/-- The items as an ordered set: ascending, the last of several equal ones standing for all. -/
def distinct [Ord α] (items : List α) : List α := lastOfRuns (sorted items)

theorem sorted_perm [Ord α] (items : List α) : (sorted items).Perm items :=
  List.mergeSort_perm items _

end JoinIR.Arrangement
