/-
**The spelling of JSON numbers.**

* `isNumber` — the grammar of numbers.
* `roundToDouble` — the nearest number of double precision, ties to even.
* `exceedsDouble` — the magnitude is beyond every finite number of double precision.
-/

namespace Bindery.Json

/-- At least one digit, and what stands behind the digits. -/
def digits? (cs : List Char) : Option (List Char × List Char) :=
  let digits := cs.takeWhile Char.isDigit
  if digits.isEmpty then none else some (digits, cs.dropWhile Char.isDigit)

/-- A number taken apart. -/
structure NumberParts where
  /-- The digits before the point; a zero in front of another digit is not allowed. -/
  whole : List Char
  /-- The digits behind the point. -/
  fraction : List Char
  isNegativeExponent : Bool
  exponent : List Char

/-- What stands behind the point, if there is one. -/
def fractionPart? : List Char → Option (List Char × List Char)
  | '.' :: cs => digits? cs
  | cs => some ([], cs)

/-- The sign and the digits of the exponent, if there is one. -/
def exponentPart? : List Char → Option (Bool × List Char × List Char)
  | [] => some (false, [], [])
  | c :: cs =>
    if c = 'e' ∨ c = 'E' then
      match cs with
      | '-' :: ds => (digits? ds).map fun (digits, rest) => (true, digits, rest)
      | '+' :: ds => (digits? ds).map fun (digits, rest) => (false, digits, rest)
      | ds => (digits? ds).map fun (digits, rest) => (false, digits, rest)
    else some (false, [], c :: cs)

/-- The parts of a number, if the characters spell one. -/
def numberParts? (cs : List Char) : Option NumberParts := do
  let unsigned := match cs with
    | '-' :: rest => rest
    | all => all
  let (whole, rest) ← digits? unsigned
  if whole.head? = some '0' ∧ whole.length ≠ 1 then none
  else
    let (fraction, rest) ← fractionPart? rest
    let (isNegativeExponent, exponent, rest) ← exponentPart? rest
    if rest.isEmpty then some { whole, fraction, isNegativeExponent, exponent } else none

/-- Whether the characters spell a number. -/
def isNumber (cs : List Char) : Bool := (numberParts? cs).isSome

/-- The number that decimal digits spell. -/
def decimalValue (digits : List Char) : Nat :=
  digits.foldl (fun n c => 10 * n + (c.toNat - '0'.toNat)) 0

/-! ## Double precision -/

/-- The number with 53 significant bits that lies nearest; of two, the one whose last bit is
zero. -/
def roundToDouble (n : Nat) : Nat :=
  let step := Nat.pow 2 (n.log2 - 52)
  let count := n / step
  let excess := 2 * (n % step)
  let roundsUp := step < excess || (excess == step && count % 2 == 1)
  (if roundsUp then count + 1 else count) * step

/-- The least magnitude that rounds beyond the finite numbers of double precision. -/
def doubleLimit : Nat := Nat.pow 2 1024 - Nat.pow 2 970

/-- The number that decimal digits spell behind `n`, as far as it fits into 64 bits, and the digits
that do not. -/
def appendDigits (n : Nat) : List Char → Nat × List Char
  | [] => (n, [])
  | c :: cs =>
    let next := 10 * n + (c.toNat - '0'.toNat)
    if next < Nat.pow 2 64 then appendDigits next cs else (n, c :: cs)

/-- A spelt number as a significand of 64 bits and a power of ten. Digits that do not fit into the
significand count by their places alone. -/
def NumberParts.scientific (parts : NumberParts) : Nat × Int :=
  let (whole, dropped) := appendDigits 0 parts.whole
  let (significand, unread) := appendDigits whole parts.fraction
  let exponent : Int := decimalValue parts.exponent
  (significand, (if parts.isNegativeExponent then -exponent else exponent) + dropped.length
    - (parts.fraction.length - unread.length : Nat))

/-- Whether the magnitude of a spelt number is beyond the finite numbers of double precision. It is
the product of significand and power of ten, each rounded on its own. -/
def exceedsDouble (cs : List Char) : Bool :=
  match numberParts? cs with
  | none => false
  | some parts =>
    let (significand, exponent) := parts.scientific
    if significand = 0 ∨ exponent < 0 then false
    else if 308 < exponent then true
    else doubleLimit ≤ roundToDouble significand * roundToDouble (Nat.pow 10 exponent.toNat)

end Bindery.Json
