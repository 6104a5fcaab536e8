import PaneCompletion.Text.Basic

/-!
# Decimal numbers as they are written

A written number is kept as its text. What is asked of it here is whether it counts as zero, and
whether it is the same number as another. In binary floating point of 64 bits the numbers up to
`2^-1075` have no neighbour nearer than zero, so a text that is not zero may still stand for it.
-/

namespace PaneCompletion.Json.Decimal

/-- The whole number that digits stand for. -/
def wholeOf (digits : Text) : Nat :=
  digits.foldl (fun n c => n * 10 + (c.toNat - '0'.toNat)) 0

/-- The whole number that digits with a sign or none in front stand for. -/
def signedOf : Text → Int
  | '-' :: digits => -(wholeOf digits : Int)
  | '+' :: digits => wholeOf digits
  | digits => wholeOf digits

/-- Whether `n · 10^power` is at most `2^-1075`; `length` is a number of digits that `n` has room
in. A product that even `10^length` in place of `n` leaves far too small is not calculated. -/
def isTiny (n length : Nat) (power : Int) : Bool :=
  n == 0 || length + power ≤ -324 || (power < 0 && n * Nat.pow 2 1075 ≤ Nat.pow 10 power.natAbs)

/-- The digits of a written number as a whole number, how many there are, and the power of ten that
it is to be taken by. -/
def scaled (written : Text) : Nat × Nat × Int :=
  let significand := written.takeWhile fun c => c ≠ 'e' ∧ c ≠ 'E'
  let digits := significand.filter Char.isDigit
  let places := ((significand.dropWhile (· ≠ '.')).drop 1).length
  let power := signedOf (written.drop (significand.length + 1))
  (wholeOf digits, digits.length, power - places)

/-- Whether a written number counts as zero. A text without digits is the name of no number, and
does not. -/
def vanishes (written : Text) : Bool :=
  let (n, length, power) := scaled written
  length != 0 && isTiny n length power

/-- A number times a power of ten, with as many zeros of the number as there are moved into the
power. -/
def shortest (n : Int) (power : Int) : Int × Int :=
  if h : n ≠ 0 ∧ n % 10 = 0 then shortest (n / 10) (power + 1) else (n, if n = 0 then 0 else power)
termination_by n.natAbs
decreasing_by omega

/-- The number that a text stands for, in the form in which equal numbers are alike; none where the
text is the name of no number. -/
def number? (written : Text) : Option (Int × Int) :=
  let (n, length, power) := scaled written
  if length = 0 then none
  else if isTiny n length power then some (0, 0)
  else some (shortest (if Text.startsWith written ['-'] then -n else n) power)

end PaneCompletion.Json.Decimal
