import Mathlib.Data.List.Basic
import Mathlib.Data.Nat.Init
import Mathlib.Tactic.SplitIfs
import MarkerTemplate.Json.Reader
import MarkerTemplate.Json.Writer

/-!
# Reading back strings and whole numbers

A quoted string is read back up to its closing quote whatever follows, and the digits of a whole
number are read back if what follows cannot belong to a number.

## Main definitions

- `Json.Reading.Gives` — a step of reading gives a value and leaves a text
- `Json.EndsNumber` — no number goes on with the text

## Design notes

Every lemma has the text behind what is read as a variable, so that it can be used inside of
brackets.
-/

namespace MarkerTemplate

namespace Json

/-- The step gives the value and leaves the text `rest`. -/
def Reading.Gives {α : Type} {s : Text} (reading : Reading α s) (value : α) (rest : Text) : Prop :=
  ∃ h, reading = .ok ⟨(value, rest), h⟩

theorem Reading.Gives.widen {α : Type} {t s rest : Text} {reading : Reading α t} {value : α}
    (h : reading.Gives value rest) (hle : t.length ≤ s.length) :
    (reading.widen hle).Gives value rest := by
  obtain ⟨hlt, rfl⟩ := h
  exact ⟨Nat.lt_of_lt_of_le hlt hle, rfl⟩

theorem Reading.Gives.map {α β : Type} {s rest : Text} {reading : Reading α s} {value : α}
    (h : reading.Gives value rest) (f : α → β) : (reading.map f).Gives (f value) rest := by
  obtain ⟨hlt, rfl⟩ := h
  exact ⟨hlt, rfl⟩

/-! ### Strings -/

theorem hexValue?_digitChar : ∀ n < 16, hexValue? (Nat.digitChar n) = some n := by
  decide

theorem gives_readHex {n : Nat} (h : n < 256) (rest : Text) :
    (readHex ('0' :: '0' :: Nat.digitChar (n / 16) :: Nat.digitChar (n % 16) :: rest)).Gives n
      rest := by
  have hlength : ¬ Text.utf8Length
      ('0' :: '0' :: Nat.digitChar (n / 16) :: Nat.digitChar (n % 16) :: rest) < 4 := by
    have hhigh := Char.utf8Size_pos (Nat.digitChar (n / 16))
    have hlow := Char.utf8Size_pos (Nat.digitChar (n % 16))
    have hzero : '0'.utf8Size = 1 := by decide
    simp only [Text.utf8Length, hzero]
    omega
  have hzero : hexValue? '0' = some 0 := rfl
  have hvalue : ((0 * 16 + 0) * 16 + n / 16) * 16 + n % 16 = n := by omega
  rw [readHex, if_neg hlength]
  simp only [hzero, hexValue?_digitChar (n / 16) (by omega),
    hexValue?_digitChar (n % 16) (by omega), hvalue]
  exact ⟨_, rfl⟩

/-- A number of two hexadecimal digits is no half of a surrogate pair. -/
theorem gives_readCodePoint {n : Nat} (h : n < 256) (rest : Text) :
    (readCodePoint ('0' :: '0' :: Nat.digitChar (n / 16) :: Nat.digitChar (n % 16) :: rest)).Gives
      (Char.ofNat n) rest := by
  obtain ⟨hlt, hhex⟩ := gives_readHex h rest
  have htrailing : isTrailingSurrogate n = false := decide_eq_false (by omega)
  have hleading : isLeadingSurrogate n = false := decide_eq_false (by omega)
  rw [readCodePoint, hhex]
  simp only [htrailing, hleading, Bool.false_eq_true, if_false]
  exact ⟨hlt, rfl⟩

/-- A character stands for itself, or its escape is read back behind the backslash. -/
theorem escape_cases (c : Char) :
    (escape c = [c] ∧ c ≠ '"' ∧ c ≠ '\\' ∧ ¬ c.toNat < 0x20) ∨
      ∃ s, escape c = '\\' :: s ∧ ∀ rest, (readEscape (s ++ rest)).Gives c rest := by
  have hletter : ∀ d e, escapedChar? d = some e →
      ∀ rest, (readEscape ([d] ++ rest)).Gives e rest := by
    intro d e hescaped rest
    simp only [List.singleton_append, readEscape, hescaped]
    exact ⟨Nat.lt_succ_self _, rfl⟩
  unfold escape
  split_ifs with hquote hslash hback hfeed hline hreturn htab hcontrol
  · exact Or.inr ⟨['"'], rfl, hquote ▸ hletter '"' '"' rfl⟩
  · exact Or.inr ⟨['\\'], rfl, hslash ▸ hletter '\\' '\\' rfl⟩
  · exact Or.inr ⟨['b'], rfl, hback ▸ hletter 'b' '\x08' rfl⟩
  · exact Or.inr ⟨['f'], rfl, hfeed ▸ hletter 'f' '\x0c' rfl⟩
  · exact Or.inr ⟨['n'], rfl, hline ▸ hletter 'n' '\n' rfl⟩
  · exact Or.inr ⟨['r'], rfl, hreturn ▸ hletter 'r' '\r' rfl⟩
  · exact Or.inr ⟨['t'], rfl, htab ▸ hletter 't' '\t' rfl⟩
  · refine Or.inr ⟨_, rfl, fun rest => ?_⟩
    have hpoint := gives_readCodePoint (n := c.toNat) (by omega) rest
    rw [Char.ofNat_toNat] at hpoint
    exact hpoint.widen (Nat.le_succ _)
  · exact Or.inl ⟨rfl, hquote, hslash, hcontrol⟩

theorem gives_readString (s rest : Text) :
    (readString (s.flatMap escape ++ '"' :: rest)).Gives s rest := by
  induction s with
  | nil =>
    rw [List.flatMap_nil, List.nil_append, readString, if_pos rfl]
    exact ⟨Nat.lt_succ_self _, rfl⟩
  | cons c s ih =>
    rw [List.flatMap_cons, List.append_assoc]
    rcases escape_cases c with ⟨hself, hquote, hslash, hcontrol⟩ | ⟨body, hescape, hbody⟩
    · rw [hself, List.singleton_append, readString, if_neg hquote, if_neg hslash, if_neg hcontrol]
      exact (ih.map (c :: ·)).widen (Nat.le_succ _)
    · obtain ⟨hlt, hread⟩ := hbody (s.flatMap escape ++ '"' :: rest)
      rw [hescape, List.cons_append, readString, if_neg (by decide), if_pos rfl]
      simp only [hread]
      exact (ih.map (c :: ·)).widen _

/-! ### Whole numbers -/

/-- A number that stands before the text ends there: the text does not begin with a digit, a point
or the letter of an exponent. -/
def EndsNumber (s : Text) : Prop :=
  ∀ c ∈ s.head?, c.isDigit = false ∧ c ≠ '.' ∧ c ≠ 'e' ∧ c ≠ 'E'

theorem endsNumber_nil : EndsNumber [] := by
  intro c hc
  cases hc

theorem endsNumber_cons {c : Char} {s : Text}
    (h : c.isDigit = false ∧ c ≠ '.' ∧ c ≠ 'e' ∧ c ≠ 'E') : EndsNumber (c :: s) := by
  intro d hd
  cases hd
  exact h

theorem isDigit_of_mem_digitsOf {n : Nat} {c : Char} (h : c ∈ digitsOf n) : c.isDigit = true :=
  Nat.isDigit_of_mem_toDigits (by decide) (by decide) h

theorem exists_digitsOf_eq_cons (n : Nat) : ∃ c s, digitsOf n = c :: s ∧ c.isDigit = true := by
  obtain ⟨c, s, hdigits⟩ : ∃ c s, digitsOf n = c :: s :=
    List.exists_cons_of_ne_nil Nat.toDigits_ne_nil
  exact ⟨c, s, hdigits, isDigit_of_mem_digitsOf (hdigits ▸ List.mem_cons_self)⟩

theorem readDigits_digitsOf (n : Nat) {rest : Text} (h : EndsNumber rest) :
    readDigits (digitsOf n ++ rest) = (digitsOf n, rest) := by
  have hdigits : ∀ c ∈ digitsOf n, c.isDigit = true := fun _ => isDigit_of_mem_digitsOf
  have htake : rest.takeWhile Char.isDigit = [] ∧ rest.dropWhile Char.isDigit = rest := by
    cases rest with
    | nil => exact ⟨rfl, rfl⟩
    | cons c rest =>
      have hc := (h c rfl).1
      exact ⟨by rw [List.takeWhile_cons, hc]; rfl, by rw [List.dropWhile_cons, hc]; rfl⟩
  rw [readDigits, List.takeWhile_append_of_pos hdigits, List.dropWhile_append_of_pos hdigits,
    htake.1, htake.2, List.append_nil]

/-- Only zero has a zero in front. -/
theorem head?_digitsOf_ne {n : Nat} (h : 0 < n) : (digitsOf n).head? ≠ some '0' := by
  induction n using Nat.strongRecOn with
  | ind n ih =>
    rw [digitsOf, Nat.toDigits_eq_if (by decide)]
    split_ifs with hsmall
    · rw [List.head?_cons, ne_eq, Option.some.injEq, Nat.digitChar_eq_zero]
      exact Nat.ne_of_gt h
    · rw [List.head?_append_of_ne_nil _ Nat.toDigits_ne_nil]
      exact ih (n / 10) (by omega) (by omega)

theorem readWhole_digitsOf (n : Nat) {rest : Text} (h : EndsNumber rest) :
    readWhole (digitsOf n ++ rest) = .ok (digitsOf n, rest) := by
  rw [readWhole, readDigits_digitsOf n h]
  split
  case h_1 hnil => exact absurd (congrArg Prod.fst hnil) Nat.toDigits_ne_nil
  case h_2 c digits behind hzero =>
    -- A zero in front of other digits would be the number zero, which has one digit.
    have hdigits : digitsOf n = '0' :: c :: digits := congrArg Prod.fst hzero
    rcases Nat.eq_zero_or_pos n with rfl | hpos
    · cases hdigits
    · exact absurd (by rw [hdigits]; rfl) (head?_digitsOf_ne hpos)
  case h_3 hother => rw [hother]

theorem le_ofDigitChars (digits : Text) (significand : Nat) :
    significand ≤ Nat.ofDigitChars 10 digits significand := by
  rw [Nat.ofDigitChars_eq_ofDigitChars_zero]
  have hpower : 0 < 10 ^ digits.length := Nat.pow_pos (by decide)
  exact Nat.le_trans (Nat.le_mul_of_pos_left significand hpower) (Nat.le_add_right _ _)

/-- Digits whose number fits into 64 bits are all gathered. -/
theorem gatherDigits_of_lt {digits : Text} {significand : Nat}
    (h : Nat.ofDigitChars 10 digits significand < Nat.pow 2 64) :
    gatherDigits significand digits = (Nat.ofDigitChars 10 digits significand, 0) := by
  induction digits generalizing significand with
  | nil => rfl
  | cons c digits ih =>
    rw [Nat.ofDigitChars_cons] at h ⊢
    have hnext := Nat.lt_of_le_of_lt (le_ofDigitChars _ _) h
    rw [gatherDigits]
    exact (if_pos hnext).trans (ih h)

theorem gatherDigits_digitsOf {n : Nat} (h : n < Nat.pow 2 64) :
    gatherDigits 0 (digitsOf n) = (n, 0) := by
  have hvalue : Nat.ofDigitChars 10 (digitsOf n) 0 = n := Nat.ofDigitChars_ten_toDigits
  rw [gatherDigits_of_lt (by rwa [hvalue]), hvalue]

theorem wholeNumber?_false {n : Nat} (h : n < Nat.pow 2 64) :
    wholeNumber? false (digitsOf n) = some (.int n) := by
  rw [wholeNumber?, gatherDigits_digitsOf h]
  exact if_pos ⟨rfl, rfl⟩

theorem wholeNumber?_true {n : Nat} (hpos : 0 < n) (h : n ≤ Nat.pow 2 63) :
    wholeNumber? true (digitsOf n) = some (.int (-n)) := by
  have hlt : n < Nat.pow 2 64 := Nat.lt_of_le_of_lt h (by decide)
  rw [wholeNumber?, gatherDigits_digitsOf hlt]
  exact (if_neg fun hfalse => Bool.noConfusion hfalse.2).trans (if_pos ⟨rfl, rfl, hpos, h⟩)

/-- Neither a fraction nor an exponent is found behind the digits. -/
theorem readNumber_digitsOf {isNegative : Bool} {n : Nat} {rest : Text} {number : Number}
    (h : EndsNumber rest) (hnumber : wholeNumber? isNegative (digitsOf n) = some number) :
    readNumber isNegative (digitsOf n ++ rest) = .ok (number, rest) := by
  have hfraction : readFraction rest = .ok ([], rest) := by
    rw [readFraction.eq_def]
    split
    · exact absurd rfl (h '.' rfl).2.1
    · rfl
  have hexponent : readExponent rest = .ok (none, rest) := by
    rw [readExponent.eq_def]
    split
    · rfl
    · rename_i c rest
      obtain ⟨-, -, he, hE⟩ := h c rfl
      exact if_neg fun hletter => hletter.elim he hE
  have hvalue : readNumber.number? isNegative (digitsOf n) [] none = .ok number := by
    rw [readNumber.number?, if_pos rfl, hnumber]
  rw [readNumber, readWhole_digitsOf n h]
  simp only [hfraction, hexponent, hvalue]

theorem gives_readUnsigned {isNegative : Bool} {n : Nat} {rest : Text} {number : Number}
    (h : EndsNumber rest) (hnumber : wholeNumber? isNegative (digitsOf n) = some number) :
    (readUnsigned isNegative (digitsOf n ++ rest)).Gives (.number number) rest := by
  have hread := readNumber_digitsOf h hnumber
  rw [readUnsigned]
  split
  · rename_i hfailed
    cases hfailed.symm.trans hread
  · rename_i hdone
    cases hdone.symm.trans hread
    exact ⟨_, rfl⟩

end Json

end MarkerTemplate
