/-
# JoinIR.Toml.Scalar — numbers, dates and truth values

A value that is neither quoted nor bracketed is a single word, and the whole word has to be of one
of the shapes here: `true` or `false`, an integer, a float, or a date and time.

* An integer is decimal with an optional sign, or hexadecimal, octal or binary without one; single
  low lines may stand between digits; a decimal one has no leading zero. It has to fit 64 bits.
* A float has a fraction, an exponent or both. One above the largest finite double is refused; one
  below the lowest is accepted.
* A date has a day that exists; a time may have second 60.
-/
import JoinIR.Toml.Value

namespace JoinIR.Toml.Scalar

/-! ## Digits -/

/-- Whether a character is a decimal digit. -/
def isDigit (c : Char) : Bool := c.isDigit

/-- The digits of a group in which single low lines may stand between digits; nothing if there are
none, or if a low line stands anywhere else. -/
def digitGroup? (p : Char → Bool) : List Char → Option (List Char)
  | [] => none
  | [c] => if p c then some [c] else none
  | c :: '_' :: rest => if p c then (digitGroup? p rest).map (c :: ·) else none
  | c :: rest => if p c then (digitGroup? p rest).map (c :: ·) else none

/-- The value of a digit, up to base sixteen. -/
def digitValue (c : Char) : Nat :=
  if c.isDigit then c.toNat - '0'.toNat
  else if 'a' ≤ c then c.toNat - 'a'.toNat + 10
  else c.toNat - 'A'.toNat + 10

/-- The number that digits denote in a base. -/
def valueOf (base : Nat) (digits : List Char) : Nat :=
  digits.foldl (fun n c => base * n + digitValue c) 0

/-- The sign in front of a word, and the word behind it. -/
def splitSign : List Char → Bool × List Char
  | '-' :: rest => (true, rest)
  | '+' :: rest => (false, rest)
  | cs => (false, cs)

/-- The digits of a decimal integer without its sign: no leading zero but in zero itself. -/
def wholeDigits? (cs : List Char) : Option (List Char) :=
  match cs with
  | '0' :: _ :: _ => none
  | cs => digitGroup? isDigit cs

/-! ## Integers -/

/-- An integer that fits 64 bits. -/
def fitting? (n : Int) : Option Int :=
  if Int64.minValue.toInt ≤ n ∧ n ≤ Int64.maxValue.toInt then some n else none

/-- The integer that a word denotes. -/
def integer? : List Char → Option Int
  | '0' :: 'x' :: rest => do
    fitting? (valueOf 16 (← digitGroup? (fun c =>
      c.isDigit || decide ('a' ≤ c ∧ c ≤ 'f') || decide ('A' ≤ c ∧ c ≤ 'F')) rest))
  | '0' :: 'o' :: rest => do
    fitting? (valueOf 8 (← digitGroup? (fun c => decide ('0' ≤ c ∧ c ≤ '7')) rest))
  | '0' :: 'b' :: rest => do
    fitting? (valueOf 2 (← digitGroup? (fun c => c == '0' || c == '1') rest))
  | cs => do
    let (negative, word) := splitSign cs
    let n := valueOf 10 (← wholeDigits? word)
    fitting? (if negative then -n else n)

/-! ## Floats -/

/-- The least magnitude that is rounded to infinity: half-way between the largest double and the
next power of two. -/
def infinityBound : Nat := Nat.pow 2 1024 - Nat.pow 2 970

/-- Whether `digits * 10 ^ power` is rounded to infinity. The place of the leading digit decides it
unless it is close to that of the bound. -/
def exceedsRange (digits : List Char) (power : Int) : Bool :=
  let significant := digits.dropWhile (· == '0')
  let leading := power + significant.length
  if significant.isEmpty then false
  else if leading < 308 then false
  else if 310 < leading then true
  else
    let n := valueOf 10 significant
    if power < 0 then decide (infinityBound * Nat.pow 10 (-power).toNat ≤ n)
    else decide (infinityBound ≤ n * Nat.pow 10 power.toNat)

/-- The exponent of a float, behind the letter. -/
def exponent? (cs : List Char) : Option Int := do
  let (negative, word) := splitSign cs
  let n := valueOf 10 (← digitGroup? isDigit word)
  return if negative then -n else n

/-- The parts of a float without its sign: the digits before and after the point, and the exponent.
At least one of the point and the exponent is there. -/
def floatParts? (cs : List Char) : Option (List Char × List Char × Int) := do
  let (mantissa, tail) := cs.span fun c => c != 'e' && c != 'E'
  let (whole, point) := mantissa.span (· != '.')
  let wholeDigits ← wholeDigits? whole
  let fraction ← match point with
    | [] => some []
    | _ :: fraction => digitGroup? isDigit fraction
  match point, tail with
  | [], [] => none
  | _, [] => return (wholeDigits, fraction, 0)
  | _, _ :: e => return (wholeDigits, fraction, ← exponent? e)

/-- Whether a word is a float. -/
def isFloat (cs : List Char) : Bool :=
  let (negative, word) := splitSign cs
  if word = ['i', 'n', 'f'] ∨ word = ['n', 'a', 'n'] then true
  else
    match floatParts? word with
    | some (whole, fraction, e) =>
      negative || !exceedsRange (whole ++ fraction) (e - fraction.length)
    | none => false

/-! ## Dates and times -/

/-- The number that two digits denote. -/
def twoDigits? (a b : Char) : Option Nat :=
  if a.isDigit ∧ b.isDigit then some (valueOf 10 [a, b]) else none

/-- The number of days of a month. -/
def daysIn (year month : Nat) : Nat :=
  match month with
  | 2 => if year % 4 = 0 ∧ (year % 100 ≠ 0 ∨ year % 400 = 0) then 29 else 28
  | 4 | 6 | 9 | 11 => 30
  | _ => 31

/-- What follows a date at the front of a word. -/
def afterDate? : List Char → Option (List Char)
  | a :: b :: c :: d :: '-' :: m :: n :: '-' :: x :: y :: rest => do
    let year := 100 * (← twoDigits? a b) + (← twoDigits? c d)
    let month ← twoDigits? m n
    let day ← twoDigits? x y
    if 1 ≤ month ∧ month ≤ 12 ∧ 1 ≤ day ∧ day ≤ daysIn year month then some rest else none
  | _ => none

/-- What follows a time at the front of a word. A fraction of a second has at least one digit. -/
def afterTime? : List Char → Option (List Char)
  | a :: b :: ':' :: c :: d :: ':' :: e :: f :: rest => do
    let hour ← twoDigits? a b
    let minute ← twoDigits? c d
    let second ← twoDigits? e f
    if 23 < hour ∨ 59 < minute ∨ 60 < second then none
    else
      match rest with
      | '.' :: rest =>
        match rest.span isDigit with
        | ([], _) => none
        | (_, rest) => some rest
      | rest => some rest
  | _ => none

/-- Whether a word is the distance of a time from universal time. -/
def isOffset : List Char → Bool
  | ['Z'] => true
  | ['z'] => true
  | [s, a, b, ':', c, d] =>
    (s == '+' || s == '-') &&
      match twoDigits? a b, twoDigits? c d with
      | some hour, some minute => decide (hour ≤ 23 ∧ minute ≤ 59)
      | _, _ => false
  | _ => false

/-- Whether a character stands between a date and a time. -/
def isDateTimeMark (c : Char) : Bool := c == 'T' || c == 't' || c == ' '

/-- Whether a word is a date, a time, or both with or without an offset. -/
def isDateTime (cs : List Char) : Bool :=
  match afterDate? cs with
  | some [] => true
  | some (mark :: rest) =>
    isDateTimeMark mark &&
      match afterTime? rest with
      | some [] => true
      | some offset => isOffset offset
      | none => false
  | none => afterTime? cs == some []

/-! ## Words -/

/-- The value that a word denotes. -/
def ofWord? (cs : List Char) : Option Value :=
  if cs = ['t', 'r', 'u', 'e'] then some (.boolean true)
  else if cs = ['f', 'a', 'l', 's', 'e'] then some (.boolean false)
  else if isDateTime cs then some (.dateTime (.ofList cs))
  else if isFloat cs then some (.float (.ofList cs))
  else (integer? cs).map .integer

end JoinIR.Toml.Scalar
