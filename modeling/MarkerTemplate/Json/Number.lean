import MarkerTemplate.Json.Failure

/-!
# Reading numbers

The number literals of JSON and the values they stand for.

## Main definitions

- `Json.readNumber` reads a literal whose sign has been read
- `Json.scaleDecimal?` is the floating-point number nearest to a decimal, by one scaling step

## Design notes

Digits are gathered into a significand as long as it fits into 64 bits; of the digits that no
longer fit, those before the point count for the power of ten and those behind it are dropped. A
floating-point number is the significand, rounded, times or divided by a rounded power of ten, and
rounded once more. Thus a literal of many digits may come out one place off the nearest number,
and a power of ten beyond the range is taken in steps.
-/

namespace MarkerTemplate

namespace Json

def digitValue (c : Char) : Nat :=
  c.toNat - '0'.toNat

/-- The significand after as many of the digits as leave it below `2 ^ 64`, and the number of
digits that are left over. -/
def gatherDigits (significand : Nat) : Text → Nat × Nat
  | [] => (significand, 0)
  | c :: digits =>
    let next := 10 * significand + digitValue c
    if next < Nat.pow 2 64 then gatherDigits next digits else (significand, digits.length + 1)

/-- The power of ten that the digits of an exponent stand for; the digits behind the first one
that takes it to `2 ^ 31`, if one does. -/
def gatherExponent (power : Nat) : Text → Except Text Nat
  | [] => .ok power
  | c :: digits =>
    let next := 10 * power + digitValue c
    if next < Nat.pow 2 31 then gatherExponent next digits else .error digits

/-- The largest power of ten in the range of floating-point numbers. -/
def maxPower : Nat :=
  308

/-- `x * 10 ^ exponent`, rounded, unless it is too large. A power of ten below the range is taken
in steps, which ends at the latest when the number has become zero. -/
def scale? (x : Float) (exponent : Int) : Option Float :=
  if exponent.natAbs ≤ maxPower then
    let power := Float.ofScientific 1 false exponent.natAbs
    if 0 ≤ exponent then
      let product := x * power
      if product.isFinite then some product else none
    else some (x / power)
  else if x == 0 then some x
  else if 0 ≤ exponent then none
  else scale? (x / Float.ofScientific 1 false maxPower) (exponent + maxPower)
termination_by exponent.natAbs
decreasing_by simp only [maxPower] at *; omega

/-- The number `significand * 10 ^ exponent` with its sign, unless it is too large. -/
def scaleDecimal? (isNegative : Bool) (significand : Nat) (exponent : Int) : Option Number :=
  (scale? (Float.ofNat significand) exponent).bind fun x =>
    let x := if isNegative then -x else x
    if h : x.isFinite = true then some (.float ⟨x, h⟩) else none

/-- The number of a literal without fraction and exponent: whole if it fits into 64 bits, with or
without sign, and a floating-point number otherwise. The literal `-0` is not whole, as a whole
number has no sign to keep. -/
def wholeNumber? (isNegative : Bool) (digits : Text) : Option Number :=
  let (significand, leftOver) := gatherDigits 0 digits
  if leftOver = 0 ∧ isNegative = false then some (.int significand)
  else if leftOver = 0 ∧ isNegative = true ∧ 0 < significand ∧ significand ≤ Nat.pow 2 63 then
    some (.int (-significand))
  else scaleDecimal? isNegative significand leftOver

structure Exponent where
  isNegative : Bool
  digits : Text

/-- The number of a literal with its digits before and behind the point and its exponent. The
failure holds the digits of the exponent that have not been looked at. -/
def fractionalNumber? (isNegative : Bool) (whole fraction : Text) (exponent : Exponent) :
    Except Text Number :=
  let (wholePart, wholeLeftOver) := gatherDigits 0 whole
  let (significand, leftOver) := gatherDigits wholePart fraction
  let shift : Int := wholeLeftOver - ((fraction.length : Int) - leftOver)
  let number? (power : Int) : Except Text Number :=
    match scaleDecimal? isNegative significand power with
    | some n => .ok n
    | none => .error []
  match gatherExponent 0 exponent.digits with
  | .ok power => number? (if exponent.isNegative then shift - power else shift + power)
  | .error unread =>
    -- So large a power makes zero of any number, or goes beyond every one but zero.
    if significand ≠ 0 ∧ exponent.isNegative = false then .error unread
    else
      match scaleDecimal? isNegative 0 0 with
      | some n => .ok n
      | none => .error unread

/-- A row of decimal digits and the text behind it. -/
def readDigits (s : Text) : Text × Text :=
  (s.takeWhile Char.isDigit, s.dropWhile Char.isDigit)

/-- The failure of a text that does not begin with a digit. -/
def expectedDigit : Text → Failure
  | [] => .atEnd
  | s => .behindFirst .invalidNumber s

/-- The digits of a fraction, without its point, and the text behind them. -/
def readFraction : Text → Except Failure (Text × Text)
  | '.' :: s =>
    if (readDigits s).1 = [] then .error (expectedDigit s) else .ok (readDigits s)
  | s => .ok ([], s)

/-- Whether a minus sign stands first, and the text behind the sign, if there is one. -/
def readSign : Text → Bool × Text
  | '+' :: s => (false, s)
  | '-' :: s => (true, s)
  | s => (false, s)

/-- The exponent, if there is one, and the text behind it. -/
def readExponent : Text → Except Failure (Option Exponent × Text)
  | [] => .ok (none, [])
  | c :: s =>
    if c = 'e' ∨ c = 'E' then
      let (isNegative, s) := readSign s
      let (digits, rest) := readDigits s
      if digits = [] then .error (expectedDigit s) else .ok (some ⟨isNegative, digits⟩, rest)
    else .ok (none, c :: s)

/-- The digits before the point, among which a zero comes first only if it is alone, and the text
behind them. -/
def readWhole (s : Text) : Except Failure (Text × Text) :=
  match readDigits s with
  | ([], _) => .error (expectedDigit s)
  | ('0' :: _ :: _, _) => .error (.behindFirst .invalidNumber (s.drop 1))
  | (digits, rest) => .ok (digits, rest)

/-- The number of a literal whose sign has been read, and the text behind it. -/
def readNumber (isNegative : Bool) (s : Text) : Except Failure (Number × Text) :=
  match readWhole s with
  | .error failure => .error failure
  | .ok (whole, s) =>
    match readFraction s with
    | .error failure => .error failure
    | .ok (fraction, s) =>
      match readExponent s with
      | .error failure => .error failure
      | .ok (exponent, s) =>
        match number? whole fraction exponent with
        | .ok n => .ok (n, s)
        | .error unread => .error (.before .numberOutOfRange (unread ++ s))
where
  -- The number of the parts of a literal.
  number? (whole fraction : Text) : Option Exponent → Except Text Number
    | none =>
      if fraction = [] then
        match wholeNumber? isNegative whole with
        | some n => .ok n
        | none => .error []
      else fractionalNumber? isNegative whole fraction ⟨false, []⟩
    | some exponent => fractionalNumber? isNegative whole fraction exponent

/-! ### Lemmas -/

theorem length_readDigits (s : Text) :
    (readDigits s).1.length + (readDigits s).2.length = s.length := by
  rw [← List.length_append]
  exact congrArg List.length List.takeWhile_append_dropWhile

theorem length_readDigits_le (s : Text) : (readDigits s).2.length ≤ s.length := by
  have h := length_readDigits s
  omega

theorem length_le_of_readFraction_eq_ok {s digits rest : Text}
    (h : readFraction s = .ok (digits, rest)) : rest.length ≤ s.length := by
  unfold readFraction at h
  split at h
  · rename_i more
    split at h
    · exact absurd h (by simp)
    · have hle := length_readDigits_le more
      rw [Except.ok.inj h] at hle
      exact Nat.le_succ_of_le hle
  · simp only [Except.ok.injEq, Prod.mk.injEq] at h
    exact h.2 ▸ Nat.le_refl _

theorem length_readSign_le (s : Text) : (readSign s).2.length ≤ s.length := by
  unfold readSign
  split <;> simp

theorem length_le_of_readExponent_eq_ok {s rest : Text} {exponent : Option Exponent}
    (h : readExponent s = .ok (exponent, rest)) : rest.length ≤ s.length := by
  unfold readExponent at h
  split at h
  · simp only [Except.ok.injEq, Prod.mk.injEq] at h
    exact h.2 ▸ Nat.le_refl _
  · rename_i c more
    split at h
    · simp only at h
      split at h
      · exact absurd h (by simp)
      · simp only [Except.ok.injEq, Prod.mk.injEq] at h
        have hdigits := length_readDigits_le (readSign more).2
        have hsign := length_readSign_le more
        rw [h.2] at hdigits
        simp only [List.length_cons]
        omega
    · simp only [Except.ok.injEq, Prod.mk.injEq] at h
      exact h.2 ▸ Nat.le_refl _

theorem length_lt_of_readWhole_eq_ok {s digits rest : Text}
    (h : readWhole s = .ok (digits, rest)) : rest.length < s.length := by
  have hlength := length_readDigits s
  unfold readWhole at h
  rcases hread : readDigits s with ⟨_ | ⟨c, more⟩, behind⟩
  · simp [hread] at h
  · rw [hread] at h hlength
    simp only [List.length_cons] at hlength
    have hrest : rest = behind := by
      split at h <;> simp_all
    rw [hrest]
    omega

theorem length_lt_of_readNumber_eq_ok {isNegative : Bool} {s rest : Text} {n : Number}
    (h : readNumber isNegative s = .ok (n, rest)) : rest.length < s.length := by
  unfold readNumber at h
  split at h
  · exact absurd h (by simp)
  · rename_i hwhole
    split at h
    · exact absurd h (by simp)
    · rename_i hfraction
      split at h
      · exact absurd h (by simp)
      · rename_i hexponent
        split at h
        · simp only [Except.ok.injEq, Prod.mk.injEq] at h
          obtain ⟨-, rfl⟩ := h
          have h₁ := length_lt_of_readWhole_eq_ok hwhole
          have h₂ := length_le_of_readFraction_eq_ok hfraction
          have h₃ := length_le_of_readExponent_eq_ok hexponent
          omega
        · exact absurd h (by simp)

end Json

end MarkerTemplate
