import MarkerTemplate.Proofs.Conditional.Printed

/-!
# Writing shorthands in full

Writing the shorthands of a template in full makes it longer, and leaves a template without
shorthands as it is. A name may bring a shorthand of its own, since it is written twice and each
time between other characters than before; which names do so can be told from the name alone.

## Main definitions

- `shorthandNames` — the names of the shorthands of a template
- `BringsShorthand` — the name makes another shorthand when it is written in full
-/

namespace MarkerTemplate

open Text (Clear)

/-- The piece of a template behind the opener of a shorthand, with the shorthand written in full. -/
def writtenInFull (piece : Text) : Text :=
  let cut := Text.splitOnce Markup.shorthandCloser piece
  arrayBlockStart cut.1 ++ cut.2

/-- The names of the shorthands of a template: what stands behind each of their openers up to the
first closer before the next opener, or up to that opener or the end of the template if there is no
closer before it. -/
def shorthandNames (raw : Text) : List Text :=
  (Text.splitAll Markup.shorthandOpener raw).later.map fun piece =>
    (Text.splitOnce Markup.shorthandCloser piece).1

/-- In one of the two places where the name is written, an opener of a shorthand comes about. -/
def BringsShorthand (name : Text) : Prop :=
  Markup.shorthandOpener <:+: Markup.opener ++ name ++ ['['] ∨
    Markup.shorthandOpener <:+: ['{'] ++ name ++ ['[']

instance (name : Text) : Decidable (BringsShorthand name) :=
  inferInstanceAs (Decidable (_ ∨ _))

theorem expandShorthand_eq (raw : Text) :
    expandShorthand raw =
      (Text.splitAll Markup.shorthandOpener raw).first ++
        (Text.splitAll Markup.shorthandOpener raw).later.flatMap writtenInFull :=
  rfl

/-! ### Templates without shorthands -/

theorem length_lt_length_writtenInFull (piece : Text) :
    (Markup.shorthandOpener ++ piece).length < (writtenInFull piece).length := by
  have hcut := Text.length_le_splitOnce Markup.shorthandCloser piece
  simp only [writtenInFull, arrayBlockStart, Markup.shorthandOpener, Markup.shorthandCloser,
    Markup.opener, Markup.arrayEnding, Markup.elseMark, List.length_append, List.length_cons,
    List.length_nil] at hcut ⊢
  omega

theorem length_le_length_flatMap_writtenInFull (pieces : List Text) :
    (pieces.flatMap (Markup.shorthandOpener ++ ·)).length + pieces.length ≤
      (pieces.flatMap writtenInFull).length := by
  induction pieces with
  | nil => exact Nat.le_refl 0
  | cons piece pieces ih =>
    have hpiece := length_lt_length_writtenInFull piece
    simp only [List.flatMap_cons, List.length_append, List.length_cons] at hpiece ⊢
    omega

/-- Each shorthand makes the template longer. -/
theorem length_lt_length_expandShorthand {raw : Text} (h : Markup.shorthandOpener <:+: raw) :
    raw.length < (expandShorthand raw).length := by
  have hjoin := Text.joinWith_splitAll Markup.shorthandOpener_ne_nil raw
  have hpieces := length_le_length_flatMap_writtenInFull
    (Text.splitAll Markup.shorthandOpener raw).later
  have hpos : 0 < (Text.splitAll Markup.shorthandOpener raw).later.length := by
    -- Without a later piece, the first one would be the whole text.
    refine List.length_pos_iff.2 fun hnil => ?_
    have hfirst := Text.not_isInfix_of_mem_splitAll Markup.shorthandOpener_ne_nil raw _
      List.mem_cons_self
    rw [Text.Pieces.joinWith, hnil, List.flatMap_nil, List.append_nil] at hjoin
    exact hfirst (hjoin.symm ▸ h)
  have hlength := congrArg List.length hjoin
  rw [Text.Pieces.joinWith, List.length_append] at hlength
  rw [expandShorthand_eq, List.length_append]
  omega

theorem expandShorthand_eq_self_iff {raw : Text} :
    expandShorthand raw = raw ↔ ¬ Markup.shorthandOpener <:+: raw := by
  constructor
  · intro heq hoccurs
    have hlonger := length_lt_length_expandShorthand hoccurs
    rw [heq] at hlonger
    exact Nat.lt_irrefl _ hlonger
  · intro h
    rw [expandShorthand, Text.splitAll_of_not_isInfix Markup.shorthandOpener_ne_nil h]
    exact List.append_nil raw

/-! ### Shorthands that come about -/

/-- An opener of a shorthand behind the beginning of a block over an array stands behind all of it,
or the name brings one. -/
theorem isInfix_arrayBlockStart_append_iff (name b : Text) :
    Markup.shorthandOpener <:+: arrayBlockStart name ++ b ↔
      BringsShorthand name ∨ Markup.shorthandOpener <:+: b := by
  have hbracket : ']' ∉ ['?', ':', '['] := by decide
  have hclose : ∀ t, Markup.shorthandOpener <:+: [']', '}'] ++ t ↔ Markup.shorthandOpener <:+: t :=
    fun t => (Text.clear_of_notMem (by decide) t).isInfix_append_iff
  have helse : Markup.shorthandOpener <:+: Markup.elseMark ++ b ↔ Markup.shorthandOpener <:+: b :=
    (clear_shorthandOpener_elseMark b).isInfix_append_iff
  -- No opener reaches over the right bracket behind the name, in either place.
  have hparts : arrayBlockStart name ++ b =
      (Markup.opener ++ name ++ ['[']) ++ ']' :: '}' ::
        ((['{'] ++ name ++ ['[']) ++ ']' :: '}' :: (Markup.elseMark ++ b)) := by
    simp [arrayBlockStart, Markup.arrayEnding]
  calc Markup.shorthandOpener <:+: arrayBlockStart name ++ b
    _ ↔ Markup.shorthandOpener <:+: Markup.opener ++ name ++ ['['] ∨
          Markup.shorthandOpener <:+:
            (['{'] ++ name ++ ['[']) ++ ']' :: '}' :: (Markup.elseMark ++ b) := by
      rw [hparts, Markup.shorthandOpener, Text.isInfix_append_cons_iff hbracket]
      exact or_congr Iff.rfl (hclose _)
    _ ↔ Markup.shorthandOpener <:+: Markup.opener ++ name ++ ['['] ∨
          Markup.shorthandOpener <:+: ['{'] ++ name ++ ['['] ∨ Markup.shorthandOpener <:+: b := by
      refine or_congr Iff.rfl ?_
      rw [Markup.shorthandOpener, Text.isInfix_append_cons_iff hbracket]
      exact or_congr Iff.rfl ((hclose _).trans helse)
    _ ↔ BringsShorthand name ∨ Markup.shorthandOpener <:+: b := by
      rw [BringsShorthand, or_assoc]

/-- No opener of a shorthand reaches from a text into a shorthand that is written in full. -/
theorem isInfix_append_flatMap_writtenInFull_iff {a : Text} (ha : ¬ Markup.shorthandOpener <:+: a)
    (pieces : List Text) :
    Markup.shorthandOpener <:+: a ++ pieces.flatMap writtenInFull ↔
      Markup.shorthandOpener <:+: pieces.flatMap writtenInFull := by
  cases pieces with
  | nil => simpa [Markup.shorthandOpener_ne_nil] using ha
  | cons piece pieces =>
    have hbrace : '{' ∉ ['?', ':', '['] := by decide
    obtain ⟨t, ht⟩ : ∃ t, (piece :: pieces).flatMap writtenInFull = '{' :: t := ⟨_, rfl⟩
    rw [ht, Markup.shorthandOpener, Text.isInfix_append_cons_iff hbrace]
    exact or_iff_right ha

/-- The template with its shorthands written in full has a shorthand if and only if one of the names
brings it. -/
theorem shorthandOpener_isInfix_expandShorthand_iff (raw : Text) :
    Markup.shorthandOpener <:+: expandShorthand raw ↔
      ∃ name ∈ shorthandNames raw, BringsShorthand name := by
  obtain ⟨hfirst, hlater⟩ := List.forall_mem_cons.1
    (Text.not_isInfix_of_mem_splitAll Markup.shorthandOpener_ne_nil raw)
  rw [expandShorthand_eq, isInfix_append_flatMap_writtenInFull_iff hfirst, shorthandNames]
  generalize (Text.splitAll Markup.shorthandOpener raw).later = pieces at hlater ⊢
  induction pieces with
  | nil => simp [Markup.shorthandOpener_ne_nil]
  | cons piece pieces ih =>
    obtain ⟨hpiece, hrest⟩ := List.forall_mem_cons.1 hlater
    have hcut : ¬ Markup.shorthandOpener <:+: (Text.splitOnce Markup.shorthandCloser piece).2 :=
      fun hoccurs => hpiece (hoccurs.trans (Text.splitOnce_isInfix _ piece).2)
    rw [List.flatMap_cons, writtenInFull, List.append_assoc, isInfix_arrayBlockStart_append_iff,
      isInfix_append_flatMap_writtenInFull_iff hcut, ih hrest, List.map_cons,
      List.exists_mem_cons_iff]

/-! ### Names -/

theorem bringsShorthand_nil : BringsShorthand [] :=
  Or.inl (by decide)

theorem bringsShorthand_of_isPrefix {name : Text} (h : ['['] <+: name) : BringsShorthand name := by
  obtain ⟨rest, rfl⟩ := h
  exact Or.inl (List.prefix_append Markup.shorthandOpener (rest ++ ['['])).isInfix

/-- A name without the characters of the opener does not make one with what it stands between. -/
theorem not_bringsShorthand {name : Text} (hne : name ≠ []) (hbrace : '{' ∉ name)
    (hbracket : '[' ∉ name) (hquestion : '?' ∉ name) : ¬ BringsShorthand name := by
  obtain ⟨c, name, rfl⟩ := List.exists_cons_of_ne_nil hne
  have htail : ∀ t, '{' ∉ t → ¬ Markup.shorthandOpener <:+: t :=
    fun t ht hoccurs => ht (hoccurs.subset List.mem_cons_self)
  have hname : '{' ∉ c :: name ++ ['['] := by simpa using hbrace
  rintro (hfirst | hsecond)
  · -- Only the brace of the opener before the name can begin it, and the name would begin with `[`.
    rcases List.infix_cons_iff.1 hfirst with hbegins | hinside
    · have hc : ['['] <+: c :: name ++ ['['] := by
        simpa [Markup.shorthandOpener, Markup.opener] using hbegins
      obtain ⟨rfl, -⟩ := List.cons_prefix_cons.1 hc
      exact hbracket List.mem_cons_self
    · exact htail _ (by simpa using hname) hinside
  · rcases List.infix_cons_iff.1 hsecond with hbegins | hinside
    · have hc : ['?', ':', '['] <+: c :: name ++ ['['] := by
        simpa [Markup.shorthandOpener] using hbegins
      obtain ⟨rfl, -⟩ := List.cons_prefix_cons.1 hc
      exact hquestion List.mem_cons_self
    · exact htail _ hname hinside

/-- Writing the shorthands of a template in full leaves it as it is if and only if it has none, and
makes it longer otherwise. Doing it twice comes to doing it once if and only if no name makes a
shorthand in one of the places where it is written. No name does if all are non-empty and without
the characters of an opener, and a name does if it is empty or begins with a bracket. -/
theorem expandShorthand_fixed_iff (raw : Text) :
    (expandShorthand raw = raw ↔ ¬ Markup.shorthandOpener <:+: raw) ∧
      (Markup.shorthandOpener <:+: raw → raw.length < (expandShorthand raw).length) ∧
      (expandShorthand (expandShorthand raw) = expandShorthand raw ↔
        ∀ name ∈ shorthandNames raw,
          ¬ Markup.shorthandOpener <:+: Markup.opener ++ name ++ ['['] ∧
            ¬ Markup.shorthandOpener <:+: ['{'] ++ name ++ ['[']) ∧
      ((∀ name ∈ shorthandNames raw, name ≠ [] ∧ '{' ∉ name ∧ '[' ∉ name ∧ '?' ∉ name) →
        expandShorthand (expandShorthand raw) = expandShorthand raw) ∧
      ((∃ name ∈ shorthandNames raw, name = [] ∨ ['['] <+: name) →
        expandShorthand (expandShorthand raw) ≠ expandShorthand raw) := by
  have htwice : expandShorthand (expandShorthand raw) = expandShorthand raw ↔
      ∀ name ∈ shorthandNames raw, ¬ BringsShorthand name := by
    rw [expandShorthand_eq_self_iff, shorthandOpener_isInfix_expandShorthand_iff]
    simp only [not_exists, not_and]
  refine ⟨expandShorthand_eq_self_iff, length_lt_length_expandShorthand, ?_, ?_, ?_⟩
  · simp only [htwice, BringsShorthand, not_or]
  · intro hnames
    refine htwice.2 fun name hname => ?_
    obtain ⟨hne, hbrace, hbracket, hquestion⟩ := hnames name hname
    exact not_bringsShorthand hne hbrace hbracket hquestion
  · rintro ⟨name, hname, hbegins⟩ heq
    refine htwice.1 heq name hname ?_
    rcases hbegins with rfl | hbegins
    · exact bringsShorthand_nil
    · exact bringsShorthand_of_isPrefix hbegins

/-- A shorthand with a closer and one without are written in full once and for all. An empty name
brings another shorthand, and so does one that completes an opener behind its second brace. -/
theorem expandShorthand_fixed_iff_unclosedShorthand :
    let raw := "\x7b?:[a]\x7dx\x7b?:[b".toList
    let nameless := "\x7b?:[]\x7d".toList
    let remade := "\x7b?:[?:]\x7d".toList
    (shorthandNames raw = ["a".toList, "b".toList] ∧
        expandShorthand (expandShorthand raw) = expandShorthand raw) ∧
      (shorthandNames nameless = [[]] ∧
        expandShorthand (expandShorthand nameless) ≠ expandShorthand nameless) ∧
      (shorthandNames remade = ["?:".toList] ∧
        expandShorthand (expandShorthand remade) ≠ expandShorthand remade) := by
  intro raw nameless remade
  have hnames : shorthandNames raw = ["a".toList, "b".toList] := by decide
  have hempty : shorthandNames nameless = [[]] := by decide
  have hremade : shorthandNames remade = ["?:".toList] := by decide
  obtain ⟨-, -, -, hfixed, -⟩ := expandShorthand_fixed_iff raw
  obtain ⟨-, -, -, -, hbrought⟩ := expandShorthand_fixed_iff nameless
  obtain ⟨-, -, htwice, -, -⟩ := expandShorthand_fixed_iff remade
  refine ⟨⟨hnames, hfixed ?_⟩, ⟨hempty, hbrought ?_⟩, ⟨hremade, fun heq => ?_⟩⟩
  · rw [hnames]
    decide
  · rw [hempty]
    exact ⟨[], List.mem_cons_self, Or.inl rfl⟩
  · have hname := htwice.1 heq "?:".toList (hremade ▸ List.mem_cons_self)
    exact hname.2 (by decide)

end MarkerTemplate
