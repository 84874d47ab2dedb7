/-!
# Shortest decimals

The decimal with the fewest digits that still identifies a binary floating-point number.

## Main definitions

- `Magnitude` is a positive binary number with the gaps to its neighbours
- `Magnitude.Identifies` holds of the decimals that round to a magnitude
- `Magnitude.shortest` selects one of them with as few digits as possible

## Design notes

All comparisons are exact, in natural numbers. The decimals that round to a magnitude form an
interval from halfway to the neighbour below to halfway to the neighbour above; an end belongs to
it when the significand is even, since ties round to even. The search tries one digit, then two,
and so on: the first grid of decimals with a point in the interval gives the answer, and of two
such points the one nearer to the magnitude.
-/

namespace MarkerTemplate

structure Decimal where
  coefficient : Nat
  exponent : Int
  deriving DecidableEq, Repr

/-- The order of a decimal and the binary number `significand * 2 ^ exponent`. -/
def Decimal.compareBinary (d : Decimal) (significand : Nat) (exponent : Int) : Ordering :=
  compare (d.coefficient * Nat.pow 10 d.exponent.toNat * Nat.pow 2 (-exponent).toNat)
    (significand * Nat.pow 2 exponent.toNat * Nat.pow 10 (-d.exponent).toNat)

/-- What is done with a number exactly halfway between two candidates. -/
inductive Tie where
  | toEven
  | up
  deriving DecidableEq, Repr

/-- The number `significand * 2 ^ exponent`, where `narrowBelow` says that the gap to the next
smaller number is half the gap to the next larger one. -/
structure Magnitude where
  significand : Nat
  exponent : Int
  -- Whether the number is the smallest of its binary order.
  narrowBelow : Bool
  deriving DecidableEq, Repr

namespace Magnitude

/-- The magnitude of a finite floating-point number. -/
def ofFloat (x : Float) : Magnitude :=
  let bits := x.toBits.toNat
  let fraction := bits % Nat.pow 2 52
  let order := bits / Nat.pow 2 52 % Nat.pow 2 11
  if order = 0 then ⟨fraction, -1074, false⟩
  else ⟨Nat.pow 2 52 + fraction, (order : Int) - 1075, fraction = 0 ∧ 1 < order⟩

/-- A decimal identifies a magnitude when it rounds to it. The ends of the interval are written
in quarters of the last binary place. -/
def Identifies (d : Decimal) (x : Magnitude) : Prop :=
  let lower := 4 * x.significand - (if x.narrowBelow then 1 else 2)
  let upper := 4 * x.significand + 2
  let fromLower := d.compareBinary lower (x.exponent - 2)
  let fromUpper := d.compareBinary upper (x.exponent - 2)
  (fromLower = .gt ∧ fromUpper = .lt) ∨
    (x.significand % 2 = 0 ∧ (fromLower = .eq ∨ fromUpper = .eq))

instance (d : Decimal) (x : Magnitude) : Decidable (Identifies d x) := by
  unfold Identifies
  infer_instance

/-- The whole part of the magnitude divided by `10 ^ place`. -/
def wholeAt (x : Magnitude) (place : Int) : Nat :=
  x.significand * Nat.pow 2 x.exponent.toNat * Nat.pow 10 (-place).toNat /
    (Nat.pow 2 (-x.exponent).toNat * Nat.pow 10 place.toNat)

/-- The number of digits before the decimal point; zero or negative if the number is less than
one. Every magnitude is at least one in units of `10 ^ (-324)`. -/
def leadingPlace (x : Magnitude) : Int :=
  (Nat.toDigits 10 (x.wholeAt (-324))).length - 324

/-- The decimal that identifies the magnitude among the multiples of `10 ^ place`. Only the two
multiples around the magnitude can be meant. -/
def onGrid? (tie : Tie) (x : Magnitude) (place : Int) : Option Decimal :=
  let below := x.wholeAt place
  let down : Decimal := ⟨below, place⟩
  let up : Decimal := ⟨below + 1, place⟩
  if Identifies down x then
    if Identifies up x then
      -- The point halfway between the two decides which is nearer.
      match Decimal.compareBinary ⟨2 * below + 1, place⟩ (2 * x.significand) x.exponent with
      | .gt => some down
      | .lt => some up
      | .eq =>
        match tie with
        | .toEven => some (if below % 2 = 0 then down else up)
        | .up => some up
    else some down
  else if Identifies up x then some up
  else none

def exact (x : Magnitude) : Decimal :=
  if 0 ≤ x.exponent then ⟨x.significand * Nat.pow 2 x.exponent.toNat, 0⟩
  else ⟨x.significand * Nat.pow 5 (-x.exponent).toNat, x.exponent⟩

/-- The decimal with the fewest digits that identifies the magnitude. Seventeen digits are enough
for every floating-point number of 64 bits. -/
def shortest (tie : Tie) (x : Magnitude) : Decimal :=
  ((List.range 17).findSome? fun (n : Nat) => x.onGrid? tie (x.leadingPlace - (n + 1))).getD
    x.exact

end Magnitude

end MarkerTemplate
