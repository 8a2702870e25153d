/-
# JoinIR.Listing.Datum — words and parenthesised lists

The inline notation of the intermediate representation: a **datum** is a word or a parenthesised
list of data with single blanks between them. Types, parameters and the heads of listing nodes
are data, so their texts come from one function, `Datum.text`.

A word is written as it is. The text of a datum is therefore readable back when no word in it
holds a blank or a parenthesis; nothing here checks that.
-/

namespace JoinIR.Listing

/-- A word, or a parenthesised list. -/
inductive Datum
  | word (text : String)
  | list (items : List Datum)
  deriving Repr

namespace Datum

mutual

/-- The text of a datum. -/
def text : Datum → String
  | word w => w
  | list items => "(" ++ textAll items ++ ")"

/-- The texts of data with single blanks between them. -/
def textAll : List Datum → String
  | [] => ""
  | [d] => d.text
  | d :: e :: rest => d.text ++ " " ++ textAll (e :: rest)

end

@[simp] theorem text_word (w : String) : (word w).text = w := by rw [text]

@[simp] theorem text_list (items : List Datum) :
    (list items).text = "(" ++ textAll items ++ ")" := by
  rw [text]

@[simp] theorem textAll_nil : textAll [] = "" := by rw [textAll]

@[simp] theorem textAll_singleton (d : Datum) : textAll [d] = d.text := by rw [textAll]

@[simp] theorem textAll_cons_cons (d e : Datum) (rest : List Datum) :
    textAll (d :: e :: rest) = d.text ++ " " ++ textAll (e :: rest) := by rw [textAll]

/-- The text of a list of data is the join of their texts. -/
theorem textAll_eq_intercalate (items : List Datum) :
    textAll items = " ".intercalate (items.map text) := by
  induction items with
  | nil => simp
  | cons d rest ih =>
    cases rest with
    | nil => simp
    | cons e rest => simp_all [String.intercalate_cons_cons, String.append_assoc]

end Datum

end JoinIR.Listing
