import MarkerTemplate.Text

/-!
# Splitting concatenations

How the operations that look for a delimiter act on a text put together from parts. `Text.Clear`
says that no occurrence of the delimiter begins in the first part, in which case the scan passes
over that part unchanged. The pieces that a scan leaves hold no delimiter, and a text that was
joined from such pieces is cut into them again. `Text.occurrences` counts how often a pattern stands
in a text.
-/

namespace MarkerTemplate

namespace Text

/-- An ending of a concatenation lies in the second part or reaches into the first. -/
theorem suffix_append_cases {t a b : Text} (h : t <:+ a ++ b) :
    t <:+ b ∨ ∃ u, t = u ++ b ∧ u <:+ a := by
  obtain ⟨before, hbefore⟩ := h
  rcases List.append_eq_append_iff.1 hbefore with ⟨u, rfl, rfl⟩ | ⟨u, rfl, rfl⟩
  · exact Or.inr ⟨u, rfl, List.suffix_append before u⟩
  · exact Or.inl (List.suffix_append u t)

/-- What holds of nothing and is kept by appending holds of texts put together from parts. -/
theorem flatMap_induction {P : Text → Prop} (hnil : P [])
    (happend : ∀ {a b}, P a → P b → P (a ++ b)) {α : Type} {l : List α} {f : α → Text}
    (h : ∀ x ∈ l, P (f x)) : P (l.flatMap f) := by
  induction l with
  | nil => exact hnil
  | cons x l ih =>
    rw [List.flatMap_cons]
    exact happend (h x List.mem_cons_self) (ih fun y hy => h y (List.mem_cons_of_mem x hy))

theorem intercalate_induction {P : Text → Prop} (hnil : P [])
    (happend : ∀ {a b}, P a → P b → P (a ++ b)) {sep : Text} (hsep : P sep) {parts : List Text}
    (h : ∀ part ∈ parts, P part) : P (sep.intercalate parts) := by
  induction parts with
  | nil => exact hnil
  | cons part parts ih =>
    have hpart := h part List.mem_cons_self
    have hrest := ih fun later hlater => h later (List.mem_cons_of_mem part hlater)
    cases parts with
    | nil => simpa using hpart
    | cons next parts =>
      rw [List.intercalate_cons_cons]
      exact happend (happend hpart hsep) hrest

/-- The texts joined by a separator are the first one and the others, each behind a separator. -/
theorem intercalate_cons (sep part : Text) (parts : List Text) :
    sep.intercalate (part :: parts) = part ++ parts.flatMap (sep ++ ·) := by
  induction parts generalizing part with
  | nil => simp
  | cons next parts ih =>
    rw [List.intercalate_cons_cons, ih next, List.flatMap_cons]
    simp only [List.append_assoc]

/-- No occurrence of `pattern` in `a ++ b` begins in `a`. -/
def Clear (pattern a b : Text) : Prop :=
  ∀ t, t ≠ [] → t <:+ a → ¬ pattern <+: t ++ b

/-- The head of a clear text does not begin an occurrence. -/
theorem Clear.head {pattern a b : Text} {c : Char} (h : Clear pattern (c :: a) b) :
    ¬ pattern <+: c :: (a ++ b) :=
  h (c :: a) (List.cons_ne_nil c a) List.suffix_rfl

theorem Clear.tail {pattern a b : Text} {c : Char} (h : Clear pattern (c :: a) b) :
    Clear pattern a b := by
  intro t hne ht
  exact h t hne (ht.trans (List.suffix_cons c a))

theorem Clear.append {pattern a a' b : Text} (h : Clear pattern a (a' ++ b))
    (h' : Clear pattern a' b) : Clear pattern (a ++ a') b := by
  intro t hne ht
  rcases suffix_append_cases ht with ht' | ⟨u, rfl, hu⟩
  · exact h' t hne ht'
  · rw [List.append_assoc]
    by_cases hnil : u = []
    · subst hnil
      exact h' a' hne List.suffix_rfl
    · exact h u hnil hu

theorem clear_cons {pattern a b : Text} {c : Char} (hhead : ¬ pattern <+: c :: (a ++ b))
    (h : Clear pattern a b) : Clear pattern (c :: a) b := by
  intro t hne ht
  rcases List.suffix_cons_iff.1 ht with rfl | ht
  · exact hhead
  · exact h t hne ht

/-- A text without the first character of the pattern is clear of the pattern. -/
theorem clear_of_notMem {pattern a : Text} {c : Char} (h : c ∉ a) (b : Text) :
    Clear (c :: pattern) a b := by
  intro t hne ht hbegins
  obtain ⟨d, t', rfl⟩ := List.exists_cons_of_ne_nil hne
  obtain ⟨rfl, -⟩ := List.cons_prefix_cons.1 hbegins
  exact h (ht.subset List.mem_cons_self)

/-- At the end of a text, being clear is having no occurrence. -/
theorem clear_nil_iff {pattern a : Text} (hpattern : pattern ≠ []) :
    Clear pattern a [] ↔ ¬ pattern <:+: a := by
  constructor
  · rintro h ⟨before, behind, rfl⟩
    refine h (pattern ++ behind) ?_ ?_ ?_
    · exact List.append_ne_nil_of_left_ne_nil hpattern behind
    · rw [List.append_assoc]
      exact List.suffix_append before _
    · rw [List.append_nil]
      exact List.prefix_append pattern behind
  · intro h t _ ht hbegins
    rw [List.append_nil] at hbegins
    exact h (hbegins.isInfix.trans ht.isInfix)

/-- A text without an occurrence stays clear of it before a character that the pattern holds at most
as its first: an occurrence cannot reach from the text beyond that character. -/
theorem clear_of_not_isInfix {pattern a : Text} {c d : Char} (hd : d ∉ pattern)
    (h : ¬ c :: pattern <:+: a) (b : Text) : Clear (c :: pattern) a (d :: b) := by
  intro t hne ht hbegins
  obtain hinside | hacross :=
    List.prefix_or_prefix_of_prefix hbegins (List.prefix_append t (d :: b))
  · exact h (hinside.isInfix.trans ht.isInfix)
  · obtain ⟨u, hu⟩ := hacross
    rw [← hu, List.prefix_append_right_inj] at hbegins
    cases u with
    | nil =>
      rw [List.append_nil] at hu
      exact h (hu ▸ ht.isInfix)
    | cons e u =>
      obtain ⟨rfl, -⟩ := List.cons_prefix_cons.1 hbegins
      obtain ⟨c', t', rfl⟩ := List.exists_cons_of_ne_nil hne
      obtain ⟨-, rfl⟩ := List.cons.inj hu
      exact hd (List.mem_append_right t' List.mem_cons_self)

/-- What follows a clear text holds all the occurrences. -/
theorem Clear.isInfix_append_iff {pattern a b : Text} (h : Clear pattern a b) :
    pattern <:+: a ++ b ↔ pattern <:+: b := by
  constructor
  · rintro ⟨before, behind, hoccurs⟩
    have hsuffix : pattern ++ behind <:+ a ++ b := ⟨before, by rw [← hoccurs, List.append_assoc]⟩
    rcases suffix_append_cases hsuffix with hinside | ⟨u, hu, hua⟩
    · exact (List.prefix_append pattern behind).isInfix.trans hinside.isInfix
    · by_cases hnil : u = []
      · subst hnil
        exact ⟨[], behind, hu⟩
      · exact absurd ⟨behind, hu⟩ (h u hnil hua)
  · exact fun hoccurs => hoccurs.trans (List.suffix_append a b).isInfix

/-- A character that the pattern holds at most as its first one parts the occurrences before it from
those behind it. -/
theorem isInfix_append_cons_iff {pattern a b : Text} {c d : Char} (hd : d ∉ pattern) :
    c :: pattern <:+: a ++ d :: b ↔ c :: pattern <:+: a ∨ c :: pattern <:+: d :: b := by
  by_cases ha : c :: pattern <:+: a
  · simp only [ha, true_or, iff_true]
    exact ha.trans (List.prefix_append a (d :: b)).isInfix
  · simp only [ha, false_or]
    exact (clear_of_not_isInfix hd ha b).isInfix_append_iff

/-! ### Splitting at every occurrence -/

theorem splitSkipping_eq_drop (sep : Text) (skip : Nat) (s : Text) :
    splitSkipping sep skip s = splitAll sep (s.drop skip) := by
  induction skip generalizing s with
  | zero => rfl
  | succ skip ih =>
    cases s with
    | nil => simp [splitSkipping, splitAll]
    | cons c s => simpa [splitSkipping] using ih s

theorem splitAll_append_of_clear {sep a b : Text} (h : Clear sep a b) :
    splitAll sep (a ++ b) = ⟨a ++ (splitAll sep b).first, (splitAll sep b).later⟩ := by
  induction a with
  | nil => rfl
  | cons c a ih =>
    have hhead : sep.isPrefixOf (c :: (a ++ b)) = false := by
      rw [← Bool.not_eq_true, List.isPrefixOf_iff_prefix]
      exact h.head
    have hrest := ih h.tail
    simp only [splitAll] at hrest ⊢
    simp [splitSkipping, hhead, hrest]

theorem splitAll_sep_append {sep : Text} (hsep : sep ≠ []) (b : Text) :
    splitAll sep (sep ++ b) = ⟨[], (splitAll sep b).first :: (splitAll sep b).later⟩ := by
  obtain ⟨c, sep', rfl⟩ := List.exists_cons_of_ne_nil hsep
  have hbegins : (c :: sep').isPrefixOf (c :: (sep' ++ b)) = true :=
    List.isPrefixOf_iff_prefix.2 (List.prefix_append (c :: sep') b)
  show splitSkipping (c :: sep') 0 (c :: (sep' ++ b)) = _
  rw [splitSkipping, if_pos hbegins, splitSkipping_eq_drop]
  simp

theorem splitAll_of_clear {sep s : Text} (h : Clear sep s []) : splitAll sep s = ⟨s, []⟩ := by
  have happend := splitAll_append_of_clear h
  simpa [splitAll, splitSkipping] using happend

theorem splitAll_of_not_isInfix {sep s : Text} (hsep : sep ≠ []) (h : ¬ sep <:+: s) :
    splitAll sep s = ⟨s, []⟩ :=
  splitAll_of_clear ((clear_nil_iff hsep).2 h)

theorem first_splitAll_isPrefix {sep : Text} (hsep : sep ≠ []) (s : Text) :
    (splitAll sep s).first <+: s := by
  refine ⟨(splitAll sep s).later.flatMap (sep ++ ·), ?_⟩
  exact joinWith_splitAll hsep s

/-- A character at which no separator begins goes to the first piece. -/
theorem splitAll_cons_of_not_isPrefix {sep s : Text} {c : Char} (h : ¬ sep <+: c :: s) :
    splitAll sep (c :: s) = ⟨c :: (splitAll sep s).first, (splitAll sep s).later⟩ := by
  refine splitAll_append_of_clear (a := [c]) fun t hne ht => ?_
  rcases List.suffix_cons_iff.1 ht with rfl | ht
  · exact h
  · exact absurd (List.suffix_nil.1 ht) hne

/-- A text is cut up completely: no separator is left in the first piece or in a later one. -/
theorem not_isInfix_of_mem_splitAll {sep : Text} (hsep : sep ≠ []) (s : Text) :
    ∀ piece ∈ (splitAll sep s).first :: (splitAll sep s).later, ¬ sep <:+: piece := by
  induction hlen : s.length using Nat.strongRecOn generalizing s with
  | ind n ih =>
    by_cases hbegins : sep <+: s
    · -- The pieces are nothing and those of what follows the separator.
      obtain ⟨b, hb⟩ := hbegins
      have hshorter : b.length < n := by
        have hpos := List.length_pos_iff.2 hsep
        have hsum := congrArg List.length hb
        rw [List.length_append] at hsum
        omega
      rw [← hb, splitAll_sep_append hsep]
      exact List.forall_mem_cons.2
        ⟨fun hnil => hsep (List.infix_nil.1 hnil), ih b.length hshorter b rfl⟩
    · cases s with
      | nil =>
        refine List.forall_mem_cons.2 ⟨fun hnil => hsep (List.infix_nil.1 hnil), ?_⟩
        exact List.forall_mem_nil _
      | cons c s =>
        have hshorter : s.length < n := by
          rw [← hlen, List.length_cons]
          omega
        obtain ⟨hfirst, hlater⟩ := List.forall_mem_cons.1 (ih s.length hshorter s rfl)
        rw [splitAll_cons_of_not_isPrefix hbegins]
        refine List.forall_mem_cons.2 ⟨fun hoccurs => ?_, hlater⟩
        rcases List.infix_cons_iff.1 hoccurs with hstart | hrest
        · have hwhole := (List.prefix_cons_inj c).2 (first_splitAll_isPrefix hsep s)
          exact hbegins (hstart.trans hwhole)
        · exact hfirst hrest

/-- Splitting gives the pieces back from which a text was joined, if no piece holds the separator
and the separator does not overlap itself. -/
theorem splitAll_joinWith {sep : Text} {c : Char} (hc : c ∉ sep) {pieces : Pieces}
    (h : ∀ piece ∈ pieces.first :: pieces.later, ¬ c :: sep <:+: piece) :
    splitAll (c :: sep) (pieces.joinWith (c :: sep)) = pieces := by
  obtain ⟨first, later⟩ := pieces
  induction later generalizing first with
  | nil =>
    rw [Pieces.joinWith, List.flatMap_nil, List.append_nil]
    exact splitAll_of_not_isInfix (List.cons_ne_nil c sep) (h first List.mem_cons_self)
  | cons next later ih =>
    obtain ⟨hfirst, hrest⟩ := List.forall_mem_cons.1 h
    have hnext := ih next hrest
    simp only [Pieces.joinWith, List.flatMap_cons, List.append_assoc] at hnext ⊢
    rw [List.cons_append, splitAll_append_of_clear (clear_of_not_isInfix hc hfirst _),
      ← List.cons_append, splitAll_sep_append (List.cons_ne_nil c sep), hnext, List.append_nil]

/-- A separator that does not overlap itself parts the pieces before it from those behind it. -/
theorem splitAll_append_sep_append {sep : Text} {c : Char} (hc : c ∉ sep) (a b : Text) :
    splitAll (c :: sep) (a ++ (c :: sep ++ b)) =
      ⟨(splitAll (c :: sep) a).first,
        (splitAll (c :: sep) a).later ++
          (splitAll (c :: sep) b).first :: (splitAll (c :: sep) b).later⟩ := by
  have hsep : c :: sep ≠ [] := List.cons_ne_nil c sep
  have ha := not_isInfix_of_mem_splitAll hsep a
  have hb := not_isInfix_of_mem_splitAll hsep b
  have hjoinA := joinWith_splitAll hsep a
  have hjoinB := joinWith_splitAll hsep b
  generalize splitAll (c :: sep) a = before at ha hjoinA ⊢
  generalize splitAll (c :: sep) b = behind at hb hjoinB ⊢
  -- No separator is left in a piece, so the text that they join to is cut into them again.
  have hjoin : a ++ (c :: sep ++ b) = Pieces.joinWith (c :: sep)
      ⟨before.first, before.later ++ behind.first :: behind.later⟩ := by
    rw [← hjoinA, ← hjoinB]
    simp [Pieces.joinWith]
  rw [hjoin]
  refine splitAll_joinWith hc fun piece hpiece => ?_
  rcases List.mem_append.1 (List.cons_append ▸ hpiece) with hpiece | hpiece
  · exact ha piece hpiece
  · exact hb piece hpiece

/-! ### Splitting at the first occurrence -/

theorem splitOnce?_append_of_clear {sep a b : Text} (h : Clear sep a b) :
    splitOnce? sep (a ++ b) =
      (splitOnce? sep b).map fun (before, behind) => (a ++ before, behind) := by
  induction a with
  | nil => simp
  | cons c a ih =>
    have hhead : sep.isPrefixOf (c :: (a ++ b)) = false := by
      rw [← Bool.not_eq_true, List.isPrefixOf_iff_prefix]
      exact h.head
    rw [List.cons_append, splitOnce?, if_neg (by simp [hhead]), ih h.tail, Option.map_map]
    rfl

theorem splitOnce?_sep_append {sep : Text} (hsep : sep ≠ []) (b : Text) :
    splitOnce? sep (sep ++ b) = some ([], b) := by
  obtain ⟨c, sep', rfl⟩ := List.exists_cons_of_ne_nil hsep
  have hbegins : (c :: sep').isPrefixOf (c :: (sep' ++ b)) = true :=
    List.isPrefixOf_iff_prefix.2 (List.prefix_append (c :: sep') b)
  rw [List.cons_append, splitOnce?, if_pos hbegins]
  simp

/-- Behind a clear beginning, the separator is the first one. -/
theorem splitOnce?_append_sep_append {sep a b : Text} (hsep : sep ≠ [])
    (h : Clear sep a (sep ++ b)) : splitOnce? sep (a ++ (sep ++ b)) = some (a, b) := by
  rw [splitOnce?_append_of_clear h, splitOnce?_sep_append hsep]
  simp

theorem splitOnce_append_sep_append {sep a b : Text} (hsep : sep ≠ [])
    (h : Clear sep a (sep ++ b)) : splitOnce sep (a ++ (sep ++ b)) = (a, b) := by
  rw [splitOnce, splitOnce?_append_sep_append hsep h, Option.getD_some]

theorem splitOnce?_of_not_isInfix {sep s : Text} (hsep : sep ≠ []) (h : ¬ sep <:+: s) :
    splitOnce? sep s = none := by
  have happend := splitOnce?_append_of_clear ((clear_nil_iff hsep).2 h)
  simpa [splitOnce?] using happend

theorem splitOnce?_isInfix {sep s before behind : Text}
    (h : splitOnce? sep s = some (before, behind)) : before <:+: s ∧ behind <:+: s := by
  rw [splitOnce?_eq_append h]
  constructor
  · rw [List.append_assoc]
    exact List.infix_append_left
  · exact List.infix_append_right

theorem splitOnce_isInfix (sep s : Text) :
    (splitOnce sep s).1 <:+: s ∧ (splitOnce sep s).2 <:+: s := by
  unfold splitOnce
  cases h : splitOnce? sep s with
  | none => exact ⟨List.infix_rfl, List.nil_infix⟩
  | some cut => exact splitOnce?_isInfix h

/-- The cut is at the first occurrence. -/
theorem not_isInfix_of_splitOnce?_eq_some {sep s before behind : Text} (hsep : sep ≠ [])
    (h : splitOnce? sep s = some (before, behind)) : ¬ sep <:+: before := by
  induction s generalizing before with
  | nil => cases h
  | cons c s ih =>
    rw [splitOnce?] at h
    split at h
    · cases h
      exact fun hnil => hsep (List.infix_nil.1 hnil)
    · rename_i hhead
      obtain ⟨⟨before', behind'⟩, hrest, heq⟩ := Option.map_eq_some_iff.1 h
      cases heq
      intro hoccurs
      obtain hstart | hlater := List.infix_cons_iff.1 hoccurs
      · have hbegins : before' <+: s := by
          rw [splitOnce?_eq_append hrest, List.append_assoc]
          exact List.prefix_append before' _
        exact hhead (List.isPrefixOf_iff_prefix.2
          (hstart.trans ((List.prefix_cons_inj c).2 hbegins)))
      · exact ih hrest hlater

theorem exists_splitOnce?_of_isInfix {sep s : Text} (hsep : sep ≠ []) (h : sep <:+: s) :
    ∃ before behind, splitOnce? sep s = some (before, behind) := by
  induction s with
  | nil => exact absurd (List.infix_nil.1 h) hsep
  | cons c s ih =>
    rw [splitOnce?]
    by_cases hhead : sep.isPrefixOf (c :: s) = true
    · rw [if_pos hhead]
      exact ⟨_, _, rfl⟩
    · rw [if_neg hhead]
      obtain hstart | hlater := List.infix_cons_iff.1 h
      · exact absurd (List.isPrefixOf_iff_prefix.2 hstart) hhead
      · obtain ⟨before, behind, hcut⟩ := ih hlater
        exact ⟨c :: before, behind, by rw [hcut, Option.map_some]⟩

/-- The first piece ends where a text is cut once. -/
theorem first_splitAll (sep s : Text) : (splitAll sep s).first = (splitOnce sep s).1 := by
  induction s with
  | nil => rfl
  | cons c s ih =>
    rw [splitAll, splitSkipping, splitOnce, splitOnce?]
    split
    · rfl
    · show c :: (splitAll sep s).first = _
      rw [ih, splitOnce]
      cases splitOnce? sep s <;> rfl

/-- Cutting once takes nothing away but the separator. -/
theorem splitOnce_sublist (sep s : Text) :
    ((splitOnce sep s).1 ++ (splitOnce sep s).2).Sublist s := by
  rw [splitOnce]
  cases hcut : splitOnce? sep s with
  | none => simp only [Option.getD_none, List.append_nil, List.Sublist.refl]
  | some cut =>
    obtain ⟨before, behind⟩ := cut
    rw [Option.getD_some, splitOnce?_eq_append hcut, List.append_assoc]
    exact (List.sublist_append_right sep behind).append_left before

theorem length_le_splitOnce (sep s : Text) :
    s.length ≤ (splitOnce sep s).1.length + sep.length + (splitOnce sep s).2.length := by
  rw [splitOnce]
  cases hcut : splitOnce? sep s with
  | none =>
    show s.length ≤ s.length + sep.length + 0
    omega
  | some cut =>
    obtain ⟨before, behind⟩ := cut
    rw [splitOnce?_eq_append hcut, List.length_append, List.length_append]
    exact Nat.le_refl _

/-! ### Counting -/

/-- At how many places of a text the pattern begins. -/
def occurrences (pattern : Text) : Text → Nat
  | [] => 0
  | c :: s => (if pattern.isPrefixOf (c :: s) then 1 else 0) + occurrences pattern s

theorem occurrences_append_of_clear {pattern a b : Text} (h : Clear pattern a b) :
    occurrences pattern (a ++ b) = occurrences pattern b := by
  induction a with
  | nil => rfl
  | cons c a ih =>
    rw [List.cons_append, occurrences, ih h.tail, if_neg, Nat.zero_add]
    rw [List.isPrefixOf_iff_prefix]
    exact h.head

theorem occurrences_of_not_isInfix {pattern s : Text} (hpattern : pattern ≠ [])
    (h : ¬ pattern <:+: s) : occurrences pattern s = 0 := by
  have happend := occurrences_append_of_clear ((clear_nil_iff hpattern).2 h)
  rwa [List.append_nil] at happend

theorem occurrences_pos_of_isInfix {pattern s : Text} (hpattern : pattern ≠ [])
    (h : pattern <:+: s) : 0 < occurrences pattern s := by
  induction s with
  | nil => exact absurd (List.infix_nil.1 h) hpattern
  | cons c s ih =>
    rw [occurrences]
    obtain hstart | hlater := List.infix_cons_iff.1 h
    · rw [if_pos (List.isPrefixOf_iff_prefix.2 hstart)]
      omega
    · have hpos := ih hlater
      omega

/-- A pattern that does not overlap itself is counted once where it stands. -/
theorem occurrences_pattern_append {pattern : Text} {c : Char} (hc : c ∉ pattern) (b : Text) :
    occurrences (c :: pattern) (c :: pattern ++ b) = 1 + occurrences (c :: pattern) b := by
  have hbegins : (c :: pattern).isPrefixOf (c :: (pattern ++ b)) = true :=
    List.isPrefixOf_iff_prefix.2 (List.prefix_append (c :: pattern) b)
  rw [List.cons_append, occurrences, if_pos hbegins,
    occurrences_append_of_clear (clear_of_notMem hc b)]

/-! ### Replacing -/

theorem replaceAll_append_of_clear {pattern a b : Text} (replacement : Text)
    (h : Clear pattern a b) :
    replaceAll pattern replacement (a ++ b) = a ++ replaceAll pattern replacement b := by
  rw [replaceAll, splitAll_append_of_clear h]
  simp [replaceAll, Pieces.joinWith]

theorem replaceAll_pattern_append {pattern : Text} (hpattern : pattern ≠ [])
    (replacement b : Text) :
    replaceAll pattern replacement (pattern ++ b) =
      replacement ++ replaceAll pattern replacement b := by
  rw [replaceAll, splitAll_sep_append hpattern]
  simp [replaceAll, Pieces.joinWith]

theorem replaceAll_of_not_isInfix {pattern s : Text} (hpattern : pattern ≠ [])
    (replacement : Text) (h : ¬ pattern <:+: s) : replaceAll pattern replacement s = s := by
  rw [replaceAll, splitAll_of_not_isInfix hpattern h]
  simp [Pieces.joinWith]

/-- The texts joined by a pattern are joined by its replacement instead. -/
theorem replaceAll_intercalate {pattern : Text} {c : Char} (replacement : Text)
    {parts : List Text} (h : ∀ part ∈ parts, c ∉ part) :
    replaceAll (c :: pattern) replacement ((c :: pattern).intercalate parts) =
      replacement.intercalate parts := by
  induction parts with
  | nil => rfl
  | cons part parts ih =>
    obtain ⟨hpart, hrest⟩ := List.forall_mem_cons.1 h
    cases parts with
    | nil =>
      rw [List.intercalate_singleton, List.intercalate_singleton]
      exact replaceAll_of_not_isInfix (List.cons_ne_nil c pattern) replacement
        fun hoccurs => hpart (hoccurs.subset List.mem_cons_self)
    | cons next parts =>
      rw [List.intercalate_cons_cons, List.intercalate_cons_cons, List.append_assoc,
        replaceAll_append_of_clear replacement (clear_of_notMem hpart _),
        replaceAll_pattern_append (List.cons_ne_nil c pattern), ih hrest, List.append_assoc]

end Text

end MarkerTemplate
