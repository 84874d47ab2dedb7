import Mathlib.Tactic.ByContra
import Mathlib.Tactic.Tauto
import MarkerTemplate.Proofs.Text.Splitting

/-!
# Texts with braces

Every mark of the template language begins with a left brace and has no brace before its last
character. `Text.Closed` says that a text does not end inside of such a mark, so that nothing put
behind it completes one. `Text.Inert` texts hold no marker of a given set, and `Text.Tokenised`
texts are put together from inert texts and from markers. Replacing a marker in a tokenised text
acts on each part by itself.
-/

namespace MarkerTemplate

namespace Text

/-- The text has no brace. -/
def BraceFree (s : Text) : Prop :=
  '{' ∉ s ∧ '}' ∉ s

instance (s : Text) : Decidable (BraceFree s) :=
  inferInstanceAs (Decidable ('{' ∉ s ∧ '}' ∉ s))

theorem braceFree_nil : BraceFree [] :=
  ⟨List.not_mem_nil, List.not_mem_nil⟩

theorem braceFree_append {a b : Text} : BraceFree (a ++ b) ↔ BraceFree a ∧ BraceFree b := by
  simp only [BraceFree, List.mem_append, not_or]
  tauto

theorem braceFree_cons {c : Char} {s : Text} :
    BraceFree (c :: s) ↔ (c ≠ '{' ∧ c ≠ '}') ∧ BraceFree s := by
  simp only [BraceFree, List.mem_cons, not_or, ne_eq, eq_comm]
  tauto

theorem BraceFree.subset {a b : Text} (h : BraceFree b) (hab : a ⊆ b) : BraceFree a :=
  ⟨fun ha => h.1 (hab ha), fun ha => h.2 (hab ha)⟩

theorem braceFree_flatMap {α : Type} {l : List α} {f : α → Text}
    (h : ∀ x ∈ l, BraceFree (f x)) : BraceFree (l.flatMap f) :=
  flatMap_induction braceFree_nil (fun ha hb => braceFree_append.2 ⟨ha, hb⟩) h

/-- The text does not end inside of a mark: behind its last left brace there is a right one. -/
def Closed (s : Text) : Prop :=
  ∀ m, BraceFree m → ¬ '{' :: m <:+ s

theorem BraceFree.closed {s : Text} (h : BraceFree s) : Closed s := by
  intro m _ hm
  exact h.1 (hm.subset List.mem_cons_self)

theorem closed_append_close (s : Text) : Closed (s ++ ['}']) := by
  intro m hm hsuffix
  rcases suffix_append_cases hsuffix with h | ⟨u, hu, -⟩
  · have hmem := h.subset List.mem_cons_self
    exact absurd hmem (by decide)
  · cases u with
    | nil => exact absurd hu (by simp)
    | cons c u =>
      obtain ⟨-, rfl⟩ := List.cons.inj hu
      exact hm.2 (by simp)

theorem Closed.append {a b : Text} (ha : Closed a) (hb : Closed b) : Closed (a ++ b) := by
  intro m hm hsuffix
  rcases suffix_append_cases hsuffix with h | ⟨u, hu, h⟩
  · exact hb m hm h
  · cases u with
    | nil =>
      apply hb m hm
      rw [hu]
      exact List.suffix_rfl
    | cons c u =>
      obtain ⟨rfl, rfl⟩ := List.cons.inj hu
      exact ha u (braceFree_append.1 hm).1 h

/-! ### Marks -/

/-- A left brace with a text behind it of which only the last character may be a brace. -/
def IsMark (pattern : Text) : Prop :=
  ∃ m c, pattern = '{' :: m ++ [c] ∧ BraceFree m

/-- A closed text is clear of every mark that it does not hold. -/
theorem Closed.clear {pattern a : Text} (ha : Closed a) (hpattern : IsMark pattern)
    (h : ¬ pattern <:+: a) (b : Text) : Clear pattern a b := by
  obtain ⟨m, c, rfl, hm⟩ := hpattern
  intro t hne ht hbegins
  -- An occurrence that begins in the text lies in it or reaches beyond its end.
  rcases List.prefix_or_prefix_of_prefix hbegins (List.prefix_append t b) with hpt | htp
  · exact h (hpt.isInfix.trans ht.isInfix)
  · rcases List.prefix_concat_iff.1 htp with rfl | htm
    · exact h ht.isInfix
    · -- Here the text would end inside of the mark.
      obtain ⟨d, t', rfl⟩ := List.exists_cons_of_ne_nil hne
      obtain ⟨rfl, ht'⟩ := List.cons_prefix_cons.1 htm
      exact ha t' (hm.subset ht'.subset) ht

/-- The text `body` between braces. -/
def braced (body : Text) : Text :=
  '{' :: body ++ ['}']

theorem braced_ne_nil (body : Text) : braced body ≠ [] :=
  List.cons_ne_nil '{' _

theorem isMark_braced {body : Text} (h : BraceFree body) : IsMark (braced body) :=
  ⟨body, '}', rfl, h⟩

/-- Behind its left brace, a marker holds no further beginning of a mark. -/
theorem clear_braced {pattern body b : Text} (hbody : BraceFree body)
    (h : ¬ '{' :: pattern <+: braced body ++ b) : Clear ('{' :: pattern) (braced body) b := by
  refine clear_cons h (clear_of_notMem ?_ b)
  simp [hbody.1]

/-- Two markers of which one begins with the other are the same. -/
theorem eq_of_braced_isPrefix {body body' b : Text} (hbody : BraceFree body)
    (hbody' : BraceFree body') (h : braced body <+: braced body' ++ b) : body = body' := by
  have htail : body ++ ['}'] <+: body' ++ ['}'] ++ b := by
    simpa [braced] using h
  clear h
  induction body generalizing body' with
  | nil =>
    cases body' with
    | nil => rfl
    | cons c body' =>
      obtain ⟨rfl, -⟩ := List.cons_prefix_cons.1 htail
      exact absurd List.mem_cons_self hbody'.2
  | cons d body ih =>
    cases body' with
    | nil =>
      obtain ⟨rfl, -⟩ := List.cons_prefix_cons.1 htail
      exact absurd List.mem_cons_self hbody.2
    | cons c body' =>
      obtain ⟨rfl, hrest⟩ := List.cons_prefix_cons.1 htail
      rw [ih (braceFree_cons.1 hbody).2 (braceFree_cons.1 hbody').2 hrest]

theorem braced_isInfix_braced {body body' : Text} (hbody : BraceFree body)
    (hbody' : BraceFree body') : braced body <:+: braced body' ↔ body = body' := by
  constructor
  · intro h
    by_contra hne
    have hclear : Clear (braced body) (braced body') [] := by
      refine clear_braced hbody' fun hbegins => hne ?_
      exact eq_of_braced_isPrefix hbody hbody' hbegins
    exact (clear_nil_iff (braced_ne_nil body)).1 hclear h
  · rintro rfl
    exact List.infix_rfl

/-- A text between braces that stands in a text between braces is the whole of it, if the latter has
no other braces. -/
theorem eq_of_braced_isInfix_braced {body body' : Text} (hbody' : BraceFree body')
    (h : braced body <:+: braced body') : body = body' := by
  by_cases hbegins : braced body <+: braced body'
  · -- The brace that ends the one is the brace that ends the other.
    have htail : body ++ ['}'] <+: body' ++ ['}'] := (List.prefix_cons_inj '{').1 hbegins
    rcases List.prefix_concat_iff.1 htail with heq | hinside
    · exact List.append_cancel_right heq
    · exact absurd (hinside.subset (List.mem_append_right body List.mem_cons_self)) hbody'.2
  · have hclear : Clear (braced body) (braced body') [] :=
      clear_braced hbody' (by rwa [List.append_nil])
    exact absurd h ((clear_nil_iff (braced_ne_nil body)).1 hclear)

/-! ### Inert texts -/

/-- The text is closed and holds no marker with a body that is sought. -/
structure Inert (sought : Text → Prop) (s : Text) : Prop where
  -- Nothing put behind the text completes a mark.
  closed : Closed s
  not_isInfix : ∀ body, BraceFree body → sought body → ¬ braced body <:+: s

variable {sought kept : Text → Prop}

theorem Inert.clear {s body : Text} (h : Inert sought s) (hbody : BraceFree body)
    (hsought : sought body) (b : Text) : Clear (braced body) s b :=
  h.closed.clear (isMark_braced hbody) (h.not_isInfix body hbody hsought) b

theorem Inert.append {a b : Text} (ha : Inert sought a) (hb : Inert sought b) :
    Inert sought (a ++ b) := by
  refine ⟨ha.closed.append hb.closed, ?_⟩
  intro body hbody hsought
  rw [← clear_nil_iff (braced_ne_nil body)]
  exact (ha.clear hbody hsought _).append (hb.clear hbody hsought [])

theorem BraceFree.inert {s : Text} (h : BraceFree s) : Inert sought s := by
  refine ⟨h.closed, ?_⟩
  intro body _ _ hoccurs
  exact h.1 (hoccurs.subset List.mem_cons_self)

theorem inert_nil : Inert sought [] :=
  braceFree_nil.inert

theorem inert_intercalate {sep : Text} {parts : List Text} (hsep : Inert sought sep)
    (h : ∀ part ∈ parts, Inert sought part) : Inert sought (sep.intercalate parts) :=
  intercalate_induction inert_nil Inert.append hsep h

/-! ### Tokenised texts -/

/-- The text is made of inert texts and of markers whose bodies are among those that are kept. -/
inductive Tokenised (sought kept : Text → Prop) : Text → Prop
  | nil : Tokenised sought kept []
  | inert {s t : Text} : Inert sought s → Tokenised sought kept t →
      Tokenised sought kept (s ++ t)
  | token {body t : Text} : BraceFree body → kept body → Tokenised sought kept t →
      Tokenised sought kept (braced body ++ t)

theorem Inert.tokenised {s : Text} (h : Inert sought s) : Tokenised sought kept s := by
  rw [← List.append_nil s]
  exact Tokenised.inert h Tokenised.nil

theorem BraceFree.tokenised {s : Text} (h : BraceFree s) : Tokenised sought kept s :=
  h.inert.tokenised

theorem tokenised_braced {body : Text} (hbody : BraceFree body) (hkept : kept body) :
    Tokenised sought kept (braced body) := by
  rw [← List.append_nil (braced body)]
  exact Tokenised.token hbody hkept Tokenised.nil

theorem Tokenised.append {a b : Text} (ha : Tokenised sought kept a)
    (hb : Tokenised sought kept b) : Tokenised sought kept (a ++ b) := by
  induction ha with
  | nil => exact hb
  | inert hs _ ih =>
    rw [List.append_assoc]
    exact Tokenised.inert hs ih
  | token hbody hkept _ ih =>
    rw [List.append_assoc]
    exact Tokenised.token hbody hkept ih

theorem tokenised_flatMap {α : Type} {l : List α} {f : α → Text}
    (h : ∀ x ∈ l, Tokenised sought kept (f x)) : Tokenised sought kept (l.flatMap f) :=
  flatMap_induction Tokenised.nil Tokenised.append h

theorem tokenised_intercalate {sep : Text} {parts : List Text} (hsep : Tokenised sought kept sep)
    (h : ∀ part ∈ parts, Tokenised sought kept part) :
    Tokenised sought kept (sep.intercalate parts) :=
  intercalate_induction Tokenised.nil Tokenised.append hsep h

theorem Tokenised.mono {kept' : Text → Prop} {s : Text} (h : Tokenised sought kept s)
    (hkept : ∀ body, kept body → kept' body) : Tokenised sought kept' s := by
  induction h with
  | nil => exact Tokenised.nil
  | inert hs _ ih => exact Tokenised.inert hs ih
  | token hbody hbodyKept _ ih => exact Tokenised.token hbody (hkept _ hbodyKept) ih

variable {body : Text}

/-- No marker that is sought but not kept begins in a tokenised text. -/
theorem Tokenised.clear {a : Text} (ha : Tokenised sought kept a) (hbody : BraceFree body)
    (hsought : sought body) (hkept : ¬ kept body) (b : Text) : Clear (braced body) a b := by
  induction ha with
  | nil => exact fun t hne ht => absurd (List.suffix_nil.1 ht) hne
  | inert hs _ ih => exact (hs.clear hbody hsought _).append ih
  | token hbody' hkept' _ ih =>
    refine Clear.append (clear_braced hbody' fun hbegins => hkept ?_) ih
    rw [eq_of_braced_isPrefix hbody hbody' hbegins]
    exact hkept'

theorem Tokenised.not_isInfix {a : Text} (ha : Tokenised sought kept a) (hbody : BraceFree body)
    (hsought : sought body) (hkept : ¬ kept body) : ¬ braced body <:+: a :=
  (clear_nil_iff (braced_ne_nil body)).1 (ha.clear hbody hsought hkept [])

/-! ### Replacing a marker -/

/-- A marker is replaced if it is the one that is meant. -/
theorem replaceAll_braced_append {body' : Text} (hbody : BraceFree body)
    (hbody' : BraceFree body') (replacement t : Text) :
    replaceAll (braced body) replacement (braced body' ++ t) =
      (if body' = body then replacement else braced body') ++
        replaceAll (braced body) replacement t := by
  split
  · rename_i heq
    subst heq
    exact replaceAll_pattern_append (braced_ne_nil body') replacement t
  · rename_i hne
    refine replaceAll_append_of_clear replacement (clear_braced hbody' fun hbegins => hne ?_)
    exact (eq_of_braced_isPrefix hbody hbody' hbegins).symm

theorem replaceAll_braced_self (body replacement : Text) :
    replaceAll (braced body) replacement (braced body) = replacement := by
  have h := replaceAll_pattern_append (braced_ne_nil body) replacement []
  simpa [replaceAll, splitAll, splitSkipping, Pieces.joinWith] using h

theorem Inert.replaceAll_append {s : Text} (h : Inert sought s) (hbody : BraceFree body)
    (hsought : sought body) (replacement t : Text) :
    replaceAll (braced body) replacement (s ++ t) =
      s ++ replaceAll (braced body) replacement t :=
  replaceAll_append_of_clear replacement (h.clear hbody hsought t)

theorem Inert.replaceAll_eq_self {s : Text} (h : Inert sought s) (hbody : BraceFree body)
    (hsought : sought body) (replacement : Text) :
    replaceAll (braced body) replacement s = s :=
  replaceAll_of_not_isInfix (braced_ne_nil body) replacement (h.not_isInfix body hbody hsought)

/-- Replacing in a tokenised text and in what follows it are independent. -/
theorem Tokenised.replaceAll_append {a : Text} (ha : Tokenised sought kept a)
    (hbody : BraceFree body) (hsought : sought body) (replacement b : Text) :
    replaceAll (braced body) replacement (a ++ b) =
      replaceAll (braced body) replacement a ++ replaceAll (braced body) replacement b := by
  induction ha with
  | nil => rfl
  | inert hs _ ih =>
    rw [List.append_assoc, hs.replaceAll_append hbody hsought, ih,
      hs.replaceAll_append hbody hsought, List.append_assoc]
  | token hbody' _ _ ih =>
    rw [List.append_assoc, replaceAll_braced_append hbody hbody', ih,
      replaceAll_braced_append hbody hbody', List.append_assoc]

/-- Replacing a marker by a tokenised text leaves a tokenised text. -/
theorem Tokenised.tokenised_replaceAll {a replacement : Text} (ha : Tokenised sought kept a)
    (hbody : BraceFree body) (hsought : sought body)
    (hreplacement : kept body → Tokenised sought kept replacement) :
    Tokenised sought kept (replaceAll (braced body) replacement a) := by
  induction ha with
  | nil => exact Tokenised.nil
  | inert hs _ ih =>
    rw [hs.replaceAll_append hbody hsought]
    exact Tokenised.inert hs ih
  | token hbody' hkept _ ih =>
    rw [replaceAll_braced_append hbody hbody']
    refine Tokenised.append ?_ ih
    split
    · rename_i heq
      subst heq
      exact hreplacement hkept
    · exact tokenised_braced hbody' hkept

/-- A marker that is not kept does not occur in a tokenised text. -/
theorem Tokenised.replaceAll_eq_self {a : Text} (ha : Tokenised sought kept a)
    (hbody : BraceFree body) (hsought : sought body) (hkept : ¬ kept body)
    (replacement : Text) : replaceAll (braced body) replacement a = a :=
  replaceAll_of_not_isInfix (braced_ne_nil body) replacement (ha.not_isInfix hbody hsought hkept)

end Text

end MarkerTemplate
