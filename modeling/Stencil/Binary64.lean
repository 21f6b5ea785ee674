import Stencil.Text.Basic

/-!
# Binary floating-point numbers

Numbers with a fraction are read as 64-bit binary floating-point numbers and shown with the fewest
digits that read back as the same number. Both directions are exact arithmetic on natural numbers:
a finite number is `mantissa · 2 ^ exponent`, and a decimal is `digits · 10 ^ exponent`.
-/

namespace Stencil

inductive Binary64 where
  | finite (negative : Bool) (mantissa : Nat) (exponent : Int)
  | infinite (negative : Bool)
deriving DecidableEq, Repr

namespace Binary64

/-- The exponent of the smallest numbers, which have fewer than 53 bits. -/
def leastExponent : Int := -1074

/-- `num / den` to the nearest whole number, halves to the even neighbour. -/
def roundDiv (num den : Nat) : Nat :=
  let low := num / den
  let twice := 2 * (num % den)
  if twice < den || (twice == den && low % 2 == 0) then low else low + 1

/-- `n · base ^ exponent` as a quotient. -/
def scaled (base n : Nat) (exponent : Int) : Nat × Nat :=
  if 0 ≤ exponent then (n * Nat.pow base exponent.toNat, 1)
  else (n, Nat.pow base (-exponent).toNat)

/-- The nearest number to `num / den`, which is not zero. The exponent is the one that leaves 53
bits, unless that is below the least. -/
def ofQuotient (negative : Bool) (num den : Nat) : Binary64 :=
  let mantissaAt (exponent : Int) : Nat :=
    let (n, d) := scaled 2 den exponent
    roundDiv (num * d) n
  let wide : Int := (Nat.log2 num : Int) - Nat.log2 den - 52
  let exponent :=
    let (n, d) := scaled 2 den wide
    max leastExponent (if num * d / n < Nat.pow 2 52 then wide - 1 else wide)
  let mantissa := mantissaAt exponent
  let (mantissa, exponent) :=
    if mantissa == Nat.pow 2 53 then (Nat.pow 2 52, exponent + 1) else (mantissa, exponent)
  if 971 < exponent then .infinite negative else .finite negative mantissa exponent

def decimalLength (n : Nat) : Nat := (Nat.toDigits 10 n).length

/-- The nearest number to `digits · 10 ^ exponent`. -/
def ofDecimal (negative : Bool) (digits : Nat) (exponent : Int) : Binary64 :=
  let magnitude := decimalLength digits + exponent
  if digits == 0 || magnitude < -330 then .finite negative 0 leastExponent
  else if 310 < magnitude then .infinite negative
  else
    let (num, den) := scaled 10 digits exponent
    ofQuotient negative num den

/-- The exponent of the leading decimal digit of `num / den`, which is not zero. -/
def leadingExponent (num den : Nat) : Int :=
  if den ≤ num then decimalLength (num / den) - 1
  else
    let places := decimalLength (den / num)
    if den ≤ num * Nat.pow 10 (places - 1) then -((places : Int) - 1) else -places

/-- A decimal between `low` and `high`, counted in units of `unit`, that has its last digit at
`10 ^ place`: of the two neighbours of `value` on that grid the nearer one that lies between, the
even one if both are as near. -/
def onGrid? (value low high : Nat) (closed : Bool) (unit : Nat × Nat) (place : Int) : Option Nat :=
  let (gridNum, gridDen) := scaled 10 1 place
  let scaleUp := unit.1 * gridDen
  let scaleDown := unit.2 * gridNum
  let at_ (n : Nat) : Nat := n * scaleUp
  let inside (k : Nat) : Bool :=
    if closed then at_ low ≤ k * scaleDown && k * scaleDown ≤ at_ high
    else at_ low < k * scaleDown && k * scaleDown < at_ high
  let below := at_ value / scaleDown
  let above := below + 1
  let toBelow := at_ value - below * scaleDown
  let toAbove := above * scaleDown - at_ value
  match inside below, inside above with
  | true, true =>
    if toBelow < toAbove || (toBelow == toAbove && below % 2 == 0) then some below else some above
  | true, false => some below
  | false, true => some above
  | false, false => none

/-- The fewest digits that read back as `mantissa · 2 ^ exponent`, and the exponent of the last of
them. The numbers that read back are those between the midpoints to the neighbours. -/
def shortest (mantissa : Nat) (exponent : Int) : Nat × Int :=
  let unit := scaled 2 1 (exponent - 2)
  let value := 4 * mantissa
  let low := if mantissa == Nat.pow 2 52 && leastExponent < exponent then value - 1 else value - 2
  let high := value + 2
  let lead := leadingExponent (value * unit.1) unit.2
  let found := (List.range 17).findSome? fun (more : Nat) =>
    (onGrid? value low high (mantissa % 2 == 0) unit (lead - more)).map fun k => (k, lead - more)
  found.getD (value * unit.1 / unit.2, 0)

/-- The digits of a decimal without zeros at the end, and the exponent of the first digit. -/
def trimmed (digits : Nat) (exponent : Int) : List Char × Int :=
  let all := Nat.toDigits 10 digits
  let kept := (all.reverse.dropWhile (· == '0')).reverse
  (kept, exponent + all.length - 1)

/-- Positional from `0.0001` up to sixteen digits before the point, always with a digit behind the
point; otherwise one digit before the point and an exponent with its sign and two digits or more. -/
def shownDigits (digits : List Char) (lead : Int) : List Char :=
  if lead < -4 || 16 ≤ lead then
    let exponentDigits := Nat.toDigits 10 lead.natAbs
    let padded := if exponentDigits.length < 2 then '0' :: exponentDigits else exponentDigits
    let head := match digits with
      | [] => ['0']
      | [d] => [d]
      | d :: rest => d :: '.' :: rest
    head ++ 'e' :: (if lead < 0 then '-' else '+') :: padded
  else if lead < 0 then
    '0' :: '.' :: List.replicate (lead.natAbs - 1) '0' ++ digits
  else
    let whole := lead.toNat + 1
    let before := digits.take whole ++ List.replicate (whole - digits.length) '0'
    let after := digits.drop whole
    before ++ '.' :: (if after.isEmpty then ['0'] else after)

/-- The number as text. -/
def shown : Binary64 → Text
  | .infinite negative => if negative then "-inf" else "inf"
  | .finite negative mantissa exponent =>
    let sign : Text := if negative then "-" else []
    if mantissa == 0 then sign ++ ("0.0" : Text)
    else
      let (digits, place) := shortest mantissa exponent
      let (kept, lead) := trimmed digits place
      sign ++ (shownDigits kept lead).map .char

end Binary64

end Stencil
