import MarkerTemplate.Json.Writer
import MarkerTemplate.Proofs.Text.Braces

/-!
# Braces in the texts of data

Numbers and quoted strings bring no braces of their own. A JSON text has a left brace only at the
beginning of an object, where the name of the first member or a right brace follows, so no marker
for a key stands in it.

## Main definitions

- `Json.BraceFree` — no string and no member name in the data has a brace
- `Json.NotObjectLike` — a marker with this body is not the beginning of an object
-/

namespace MarkerTemplate

open Text (BraceFree Closed Inert braced)

/-! ### Numbers -/

theorem braceFree_of_forall_isDigit {s : Text} (h : ∀ c ∈ s, c.isDigit = true) :
    BraceFree s := by
  constructor
  · intro hmem
    exact absurd (h '{' hmem) (by decide)
  · intro hmem
    exact absurd (h '}' hmem) (by decide)

theorem braceFree_digitsOf (n : Nat) : BraceFree (digitsOf n) :=
  braceFree_of_forall_isDigit fun _ hc =>
    Nat.isDigit_of_mem_toDigits (by decide) (by decide) hc

theorem braceFree_integerText (n : Int) : BraceFree (integerText n) := by
  cases n with
  | ofNat n => exact braceFree_digitsOf n
  | negSucc n => exact Text.braceFree_cons.2 ⟨by decide, braceFree_digitsOf (n + 1)⟩

theorem braceFree_replicate_zero (n : Nat) : BraceFree (List.replicate n '0') :=
  braceFree_of_forall_isDigit fun c hc => by
    rw [List.eq_of_mem_replicate hc]
    decide

namespace Numeral

theorem braceFree_digits_ofDecimal (d : Decimal) : BraceFree (ofDecimal d).digits := by
  refine (braceFree_digitsOf d.coefficient).subset fun c hc => ?_
  have hdrop := (List.dropWhile_sublist _).subset (List.mem_reverse.1 hc)
  exact List.mem_reverse.1 hdrop

theorem braceFree_positional {fraction : Text} {n : Numeral} (hfraction : BraceFree fraction)
    (hdigits : BraceFree n.digits) : BraceFree (n.positional fraction) := by
  have htake := hdigits.subset (List.take_subset n.point.toNat n.digits)
  have hdrop := hdigits.subset (List.drop_subset n.point.toNat n.digits)
  unfold positional
  split
  · simp [Text.braceFree_cons, Text.braceFree_append, braceFree_replicate_zero, hdigits]
  · simp only
    split
    · simp [Text.braceFree_append, braceFree_replicate_zero, hdigits, hfraction]
    · simp [Text.braceFree_cons, Text.braceFree_append, htake, hdrop]

theorem braceFree_scientific {n : Numeral} (hdigits : BraceFree n.digits) :
    BraceFree n.scientific := by
  have htake := hdigits.subset (List.take_subset 1 n.digits)
  have hdrop := hdigits.subset (List.drop_subset 1 n.digits)
  have hpower := braceFree_integerText (n.point - 1)
  unfold scientific
  simp only [Text.braceFree_append, Text.braceFree_cons]
  refine ⟨⟨htake, ?_⟩, by decide, ?_⟩
  · split
    · exact Text.braceFree_nil
    · exact Text.braceFree_cons.2 ⟨by decide, hdrop⟩
  · split
    · exact Text.braceFree_cons.2 ⟨by decide, hpower⟩
    · exact hpower

end Numeral

theorem Layout.braceFree_write {l : Layout} (h : BraceFree l.wholeEnding) (x : Float) :
    BraceFree (l.write x) := by
  have hmagnitude : ∀ m : Magnitude, BraceFree (l.writeMagnitude m) := by
    intro m
    have hdigits := Numeral.braceFree_digits_ofDecimal (m.shortest l.tie)
    unfold writeMagnitude
    simp only
    split
    · exact Numeral.braceFree_positional h hdigits
    · exact Numeral.braceFree_scientific hdigits
  have hsign : ∀ b : Bool, BraceFree (if b = true then ['-'] else []) := by decide
  unfold write
  simp only
  split
  · exact Text.braceFree_append.2 ⟨hsign _, Text.braceFree_cons.2 ⟨by decide, h⟩⟩
  · exact Text.braceFree_append.2 ⟨hsign _, hmagnitude _⟩

theorem Number.braceFree_plainText (n : Number) : BraceFree n.plainText := by
  cases n with
  | int n => exact braceFree_integerText n
  | float x => exact Layout.braceFree_write Text.braceFree_nil x.value

theorem Number.braceFree_jsonText (n : Number) : BraceFree n.jsonText := by
  cases n with
  | int n => exact braceFree_integerText n
  | float x => exact Layout.braceFree_write (by decide) x.value

/-! ### Strings -/

namespace Json

theorem braceFree_escape {c : Char} (h : c ≠ '{' ∧ c ≠ '}') : BraceFree (escape c) := by
  unfold escape
  repeat' split
  all_goals first | decide | skip
  · have hdigit : ∀ n < 16, BraceFree [Nat.digitChar n] := by decide
    have hhigh := hdigit (c.toNat / 16) (by omega)
    have hlow := hdigit (c.toNat % 16) (by omega)
    simp only [Text.braceFree_cons] at hhigh hlow ⊢
    exact ⟨by decide, by decide, by decide, by decide, hhigh.1, hlow⟩
  · exact Text.braceFree_cons.2 ⟨h, Text.braceFree_nil⟩

theorem braceFree_quote {s : Text} (h : BraceFree s) : BraceFree (quote s) := by
  refine Text.braceFree_append.2 ⟨Text.braceFree_cons.2 ⟨by decide, ?_⟩, by decide⟩
  refine Text.braceFree_flatMap fun c hc => braceFree_escape ⟨?_, ?_⟩
  · rintro rfl
    exact h.1 hc
  · rintro rfl
    exact h.2 hc

/-! ### Data -/

mutual

/-- No string and no member name in the data has a brace. -/
def BraceFree : Json → Prop
  | .string s => Text.BraceFree s
  | .array items => BraceFreeItems items
  | .object members => BraceFreeMembers members
  | .null | .bool _ | .number _ => True

/-- The items of an array are without braces. -/
def BraceFreeItems : List Json → Prop
  | [] => True
  | item :: items => BraceFree item ∧ BraceFreeItems items

/-- The members of an object and their names are without braces. -/
def BraceFreeMembers : List (Text × Json) → Prop
  | [] => True
  | (name, value) :: members => Text.BraceFree name ∧ BraceFree value ∧ BraceFreeMembers members

end

/-- A marker with this body is not the beginning of an object: that is a right brace, or a quoted
name with a colon behind it. -/
def NotObjectLike (body : Text) : Prop :=
  body ≠ [] ∧ (body.head? = some '"' → ':' ∉ body)

/-- What closes a marker cannot come before a colon that no brace precedes. -/
theorem colon_mem_of_isPrefix {body q r : Text} (hq : Text.BraceFree q)
    (h : body ++ ['}'] <+: q ++ ':' :: r) : ':' ∈ body := by
  have hcolon : q ++ [':'] <+: q ++ ':' :: r := by
    rw [List.append_cons q ':' r]
    exact List.prefix_append (q ++ [':']) r
  rcases List.prefix_or_prefix_of_prefix h hcolon with hle | hle
  · have hmem := hle.subset (List.mem_append_right body List.mem_cons_self)
    exact absurd hmem (by simp [hq.2])
  · have hmem := hle.subset (List.mem_append_right q List.mem_cons_self)
    simpa using hmem

variable {sought : Text → Prop}

theorem inert_close : Inert sought ['}'] := by
  refine ⟨Text.closed_append_close [], fun body _ _ hoccurs => ?_⟩
  have hmem : '{' ∈ ['}'] := hoccurs.subset List.mem_cons_self
  exact absurd hmem (by decide)

theorem inert_comma : Inert sought [','] :=
  Text.BraceFree.inert (by decide)

/-- Between braces, a quoted name and a colon are not the body of a marker. -/
theorem inert_object {q r : Text} (hsought : ∀ body, sought body → NotObjectLike body)
    (hq : Text.BraceFree q) (hquote : q.head? = some '"')
    (hinner : Inert sought (q ++ ':' :: r)) :
    Inert sought ('{' :: (q ++ ':' :: r) ++ ['}']) := by
  refine ⟨Text.closed_append_close _, fun body hbody hmember hoccurs => ?_⟩
  -- Only the brace that opens the object can begin a marker here.
  rcases List.infix_cons_iff.1 hoccurs with hbegins | hlater
  · have htail : body ++ ['}'] <+: q ++ ':' :: (r ++ ['}']) := by
      simpa [braced] using hbegins
    obtain ⟨hne, hcolon⟩ := hsought body hmember
    obtain ⟨d, body', rfl⟩ := List.exists_cons_of_ne_nil hne
    obtain ⟨e, q', rfl⟩ := List.exists_cons_of_ne_nil (l := q) (by rintro rfl; cases hquote)
    obtain ⟨rfl, -⟩ := List.cons_prefix_cons.1 htail
    exact hcolon hquote (colon_mem_of_isPrefix hq htail)
  · exact (hinner.append inert_close).not_isInfix body hbody hmember hlater

mutual

/-- The text of data without braces holds no marker and is closed, so that a marker is neither
found in it nor completed by what follows. -/
theorem inert_write (hsought : ∀ body, sought body → NotObjectLike body) :
    ∀ json : Json, json.BraceFree → Inert sought json.write
  | .null, _ | .bool true, _ | .bool false, _ => Text.BraceFree.inert (by decide)
  | .number n, _ => n.braceFree_jsonText.inert
  | .string s, h => (braceFree_quote h).inert
  | .array items, h => by
    have hitems := Text.inert_intercalate inert_comma (inert_writeItems hsought items h)
    have hopen : Inert sought ['['] := Text.BraceFree.inert (by decide)
    have hclose : Inert sought [']'] := Text.BraceFree.inert (by decide)
    exact (hopen.append hitems).append hclose
  | .object [], _ => by
    refine ⟨Text.closed_append_close ['{'], fun body hbody hmember hoccurs => ?_⟩
    have heq : body = [] := (Text.braced_isInfix_braced hbody Text.braceFree_nil).1 hoccurs
    exact (hsought body hmember).1 heq
  | .object ((name, value) :: members), h => by
    obtain ⟨hname, hvalue, hmembers⟩ := h
    have hquote := braceFree_quote hname
    have hparts := inert_writeMembers hsought ((name, value) :: members) ⟨hname, hvalue, hmembers⟩
    have hinner := Text.inert_intercalate inert_comma hparts
    obtain ⟨rest, hrest⟩ : ∃ rest, [','].intercalate (writeMembers ((name, value) :: members)) =
        quote name ++ ':' :: rest := by
      cases members with
      | nil => exact ⟨write value, by simp [writeMembers]⟩
      | cons next members =>
        refine ⟨write value ++ [','] ++ [','].intercalate (writeMembers (next :: members)), ?_⟩
        obtain ⟨nextName, nextValue⟩ := next
        simp [writeMembers, List.intercalate_cons_cons]
    rw [write, hrest]
    rw [hrest] at hinner
    exact inert_object hsought hquote rfl hinner

theorem inert_writeItems (hsought : ∀ body, sought body → NotObjectLike body) :
    ∀ items : List Json, BraceFreeItems items → ∀ part ∈ writeItems items, Inert sought part
  | [], _, part, hpart => by cases hpart
  | item :: items, h, part, hpart => by
    rcases List.mem_cons.1 hpart with rfl | hlater
    · exact inert_write hsought item h.1
    · exact inert_writeItems hsought items h.2 part hlater

theorem inert_writeMembers (hsought : ∀ body, sought body → NotObjectLike body) :
    ∀ members : List (Text × Json), BraceFreeMembers members →
      ∀ part ∈ writeMembers members, Inert sought part
  | [], _, part, hpart => by cases hpart
  | (name, value) :: members, h, part, hpart => by
    rcases List.mem_cons.1 hpart with rfl | hlater
    · have hcolon : Inert sought [':'] := Text.BraceFree.inert (by decide)
      have hmember := ((braceFree_quote h.1).inert.append hcolon).append
        (inert_write hsought value h.2.1)
      simpa using hmember
    · exact inert_writeMembers hsought members h.2.2 part hlater

end

end Json

end MarkerTemplate
