import MarkerTemplate.Decimal.Shortest
import MarkerTemplate.Text

/-!
# The layout of numbers

How the digits of a floating-point number are set out as text.

## Main definitions

- `Numeral` is a row of digits with the place of the decimal point
- `Layout` holds the decisions of an output format
- `Layout.write` is the text of a floating-point number in a format

## Design notes

Which digits are written is settled by `Magnitude.shortest`; a layout only says which way a tie
goes. All that tells one format from another is in the four fields of `Layout`, so a format is a
value of that type, kept where the format belongs.
-/

namespace MarkerTemplate

def digitsOf (n : Nat) : Text :=
  Nat.toDigits 10 n

/-- The digits of an integer, behind a minus sign if it is negative. -/
def integerText : Int → Text
  | .ofNat n => digitsOf n
  | .negSucc n => '-' :: digitsOf (n + 1)

/-- Digits with the place of the point: `point` counts the digits before it, and is zero or
negative where zeros stand between the point and the first digit. -/
structure Numeral where
  digits : Text
  -- How many of the digits stand before the point.
  point : Int
  deriving DecidableEq, Repr

namespace Numeral

/-- The digits of a decimal without the zeros at the end. -/
def ofDecimal (d : Decimal) : Numeral :=
  let digits := digitsOf d.coefficient
  ⟨digits.reverse.dropWhile (· == '0') |>.reverse, digits.length + d.exponent⟩

/-- The numeral with the point at its place, filled up with zeros. A whole number ends in
`fraction`. -/
def positional (fraction : Text) (n : Numeral) : Text :=
  let length : Int := n.digits.length
  if n.point ≤ 0 then
    '0' :: '.' :: (List.replicate (-n.point).toNat '0' ++ n.digits)
  else if length ≤ n.point then
    n.digits ++ List.replicate (n.point - length).toNat '0' ++ fraction
  else
    n.digits.take n.point.toNat ++ '.' :: n.digits.drop n.point.toNat

/-- The numeral with the point behind the first digit and a signed power of ten. A single digit
has no point. -/
def scientific (n : Numeral) : Text :=
  let power := n.point - 1
  let mantissa := n.digits.take 1 ++ if n.digits.length ≤ 1 then [] else '.' :: n.digits.drop 1
  mantissa ++ 'e' :: (if 0 ≤ power then '+' :: integerText power else integerText power)

end Numeral

structure Layout where
  -- Which of two equally near decimals is written.
  tie : Tie
  -- Whether a leading digit at this power of ten is written positionally.
  isPositional : Int → Bool
  -- What a whole number ends in when it is written positionally.
  wholeEnding : Text
  -- Whether negative zero keeps its sign.
  signsZero : Bool

namespace Layout

def writeMagnitude (l : Layout) (x : Magnitude) : Text :=
  let n := Numeral.ofDecimal (x.shortest l.tie)
  if l.isPositional (n.point - 1) then n.positional l.wholeEnding else n.scientific

/-- The text of a finite floating-point number. -/
def write (l : Layout) (x : Float) : Text :=
  let isNegative : Bool := x.toBits.toNat / Nat.pow 2 63 = 1
  let magnitude := Magnitude.ofFloat x
  if magnitude.significand = 0 then
    (if isNegative && l.signsZero then ['-'] else []) ++ '0' :: l.wholeEnding
  else (if isNegative then ['-'] else []) ++ l.writeMagnitude magnitude

end Layout

end MarkerTemplate
