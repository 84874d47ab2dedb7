import Mathlib.Data.List.Infix
import MarkerTemplate.Proofs.Text.Braces

/-!
# Texts of tokens

A token is a text without braces, put between braces. Where every brace belongs to a token,
replacing one marker after another comes to passes over the tokens, and passes can be put together.

## Main definitions

- `Text.OfTokens` — every brace of the text belongs to a token
- `Text.mapTokens` — one pass over a text that puts a text in for each token

## Design notes

`Text.mapTokens` is defined for all texts, by cutting at every left brace and then at the first
right brace. Its laws are those for a token and for what stands between tokens, and they hold
whatever follows; so what is shown of a text of tokens is shown by induction on its tokens.
-/

namespace MarkerTemplate

namespace Text

/-- Every brace of the text belongs to a token, and the tokens are among those that are allowed. -/
inductive OfTokens (allowed : Text → Prop) : Text → Prop
  | nil : OfTokens allowed []
  | between {run s : Text} : BraceFree run → OfTokens allowed s → OfTokens allowed (run ++ s)
  | token {body s : Text} : BraceFree body → allowed body → OfTokens allowed s →
      OfTokens allowed (braced body ++ s)

/-- The text with `f body` in the place of every token with the text `body`. What stands between
tokens stays. -/
def mapTokens (f : Text → Text) (s : Text) : Text :=
  let pieces := splitAll ['{'] s
  pieces.first ++ pieces.later.flatMap fun piece =>
    match splitOnce? ['}'] piece with
    | some (body, rest) => f body ++ rest
    | none => '{' :: piece

/-! ### Passing over a text -/

section MapTokens

variable {f : Text → Text} {run body s : Text}

theorem mapTokens_nil (f : Text → Text) : mapTokens f [] = [] :=
  rfl

theorem mapTokens_append_of_braceFree (h : BraceFree run) :
    mapTokens f (run ++ s) = run ++ mapTokens f s := by
  have hclear : Clear ['{'] run s := clear_of_notMem h.1 s
  simp only [mapTokens, splitAll_append_of_clear hclear, List.append_assoc]

theorem mapTokens_of_braceFree (h : BraceFree s) : mapTokens f s = s := by
  have hall := mapTokens_append_of_braceFree (f := f) (s := []) h
  rwa [List.append_nil, mapTokens_nil, List.append_nil] at hall

/-- At a token, the text is cut at its left brace, and then at its right brace. -/
theorem splitAll_braced_append (h : BraceFree body) :
    splitAll ['{'] (braced body ++ s) =
      ⟨[], (body ++ (['}'] ++ (splitAll ['{'] s).first)) :: (splitAll ['{'] s).later⟩ := by
  have hclear : Clear ['{'] (body ++ ['}']) s := clear_of_notMem (by simp [h.1]) s
  have hcut := splitAll_sep_append (List.cons_ne_nil '{' []) (body ++ ['}'] ++ s)
  rw [splitAll_append_of_clear hclear] at hcut
  simpa [braced] using hcut

theorem splitOnce?_body_append (h : BraceFree body) (rest : Text) :
    splitOnce? ['}'] (body ++ (['}'] ++ rest)) = some (body, rest) :=
  splitOnce?_append_sep_append (List.cons_ne_nil '}' []) (clear_of_notMem h.2 _)

theorem mapTokens_braced_append (h : BraceFree body) :
    mapTokens f (braced body ++ s) = f body ++ mapTokens f s := by
  simp only [mapTokens, splitAll_braced_append h, List.flatMap_cons, splitOnce?_body_append h,
    List.nil_append]
  exact List.append_assoc _ _ _

theorem mapTokens_braced (h : BraceFree body) : mapTokens f (braced body) = f body := by
  have hall := mapTokens_braced_append (f := f) (s := []) h
  rwa [List.append_nil, mapTokens_nil, List.append_nil] at hall

end MapTokens

/-! ### Texts of tokens -/

variable {allowed allowed' : Text → Prop} {f g : Text → Text} {a s : Text}

theorem BraceFree.ofTokens (h : BraceFree s) : OfTokens allowed s := by
  rw [← List.append_nil s]
  exact OfTokens.between h OfTokens.nil

theorem ofTokens_braced {body : Text} (hbody : BraceFree body) (hallowed : allowed body) :
    OfTokens allowed (braced body) := by
  rw [← List.append_nil (braced body)]
  exact OfTokens.token hbody hallowed OfTokens.nil

namespace OfTokens

theorem append (ha : OfTokens allowed a) (hs : OfTokens allowed s) :
    OfTokens allowed (a ++ s) := by
  induction ha with
  | nil => exact hs
  | between hrun _ ih =>
    rw [List.append_assoc]
    exact OfTokens.between hrun ih
  | token hbody hallowed _ ih =>
    rw [List.append_assoc]
    exact OfTokens.token hbody hallowed ih

theorem tokenised {sought : Text → Prop} (h : OfTokens allowed s) :
    Tokenised sought allowed s := by
  induction h with
  | nil => exact Tokenised.nil
  | between hrun _ ih => exact Tokenised.inert hrun.inert ih
  | token hbody hallowed _ ih => exact Tokenised.token hbody hallowed ih

theorem mapTokens_append (ha : OfTokens allowed a) (f : Text → Text) (s : Text) :
    mapTokens f (a ++ s) = mapTokens f a ++ mapTokens f s := by
  induction ha with
  | nil => rfl
  | between hrun _ ih =>
    rw [List.append_assoc, mapTokens_append_of_braceFree hrun, ih,
      mapTokens_append_of_braceFree hrun, List.append_assoc]
  | token hbody _ _ ih =>
    rw [List.append_assoc, mapTokens_braced_append hbody, ih, mapTokens_braced_append hbody,
      List.append_assoc]

theorem mapTokens_congr (h : OfTokens allowed s)
    (hfg : ∀ body, BraceFree body → allowed body → f body = g body) :
    mapTokens f s = mapTokens g s := by
  induction h with
  | nil => rfl
  | between hrun _ ih =>
    rw [mapTokens_append_of_braceFree hrun, mapTokens_append_of_braceFree hrun, ih]
  | token hbody hallowed _ ih =>
    rw [mapTokens_braced_append hbody, mapTokens_braced_append hbody, ih,
      hfg _ hbody hallowed]

theorem mapTokens_eq_self (h : OfTokens allowed s) : mapTokens braced s = s := by
  induction h with
  | nil => rfl
  | between hrun _ ih => rw [mapTokens_append_of_braceFree hrun, ih]
  | token hbody _ _ ih => rw [mapTokens_braced_append hbody, ih]

/-- Putting texts of tokens in for tokens leaves a text of tokens. -/
theorem mapTokens (h : OfTokens allowed s)
    (hf : ∀ body, BraceFree body → allowed body → OfTokens allowed' (f body)) :
    OfTokens allowed' (mapTokens f s) := by
  induction h with
  | nil => exact OfTokens.nil
  | between hrun _ ih =>
    rw [mapTokens_append_of_braceFree hrun]
    exact OfTokens.between hrun ih
  | token hbody hallowed _ ih =>
    rw [mapTokens_braced_append hbody]
    exact (hf _ hbody hallowed).append ih

/-- Two passes are one, which passes over the texts that the first puts in. -/
theorem mapTokens_mapTokens (h : OfTokens allowed s)
    (hf : ∀ body, BraceFree body → allowed body → OfTokens allowed' (f body)) :
    Text.mapTokens g (Text.mapTokens f s) =
      Text.mapTokens (fun body => Text.mapTokens g (f body)) s := by
  induction h with
  | nil => rfl
  | between hrun _ ih =>
    rw [mapTokens_append_of_braceFree hrun, mapTokens_append_of_braceFree hrun,
      mapTokens_append_of_braceFree hrun, ih]
  | token hbody hallowed _ ih =>
    rw [mapTokens_braced_append hbody, mapTokens_braced_append hbody,
      (hf _ hbody hallowed).mapTokens_append, ih]

/-- Replacing a marker is a pass that leaves all other tokens as they are. -/
theorem replaceAll_eq_mapTokens (h : OfTokens allowed s) {key : Text} (hkey : BraceFree key)
    (replacement : Text) :
    replaceAll (braced key) replacement s =
      Text.mapTokens (fun body => if body = key then replacement else braced body) s := by
  induction h with
  | nil => rfl
  | between hrun _ ih =>
    have hinert : Inert (fun _ => True) _ := hrun.inert
    rw [hinert.replaceAll_append hkey trivial, mapTokens_append_of_braceFree hrun, ih]
  | token hbody _ _ ih =>
    rw [replaceAll_braced_append hkey hbody, mapTokens_braced_append hbody, ih]

end OfTokens

/-! ### Checking -/

/-- What stands behind a left brace ends its token, and has no brace behind that. -/
def EndsToken (allowed : Text → Prop) (piece : Text) : Prop :=
  match splitOnce? ['}'] piece with
  | some (body, rest) => allowed body ∧ '}' ∉ rest
  | none => False

instance [DecidablePred allowed] (piece : Text) : Decidable (EndsToken allowed piece) := by
  unfold EndsToken
  split <;> infer_instance

theorem EndsToken.ofTokens {piece : Text} (h : EndsToken allowed piece) (hopen : '{' ∉ piece) :
    OfTokens allowed (['{'] ++ piece) := by
  unfold EndsToken at h
  split at h
  · rename_i body rest hcut
    have hpiece := splitOnce?_eq_append hcut
    have hbody : '}' ∉ body := fun hmem =>
      not_isInfix_of_splitOnce?_eq_some (List.cons_ne_nil '}' []) hcut
        ((List.singleton_infix_iff _ _).2 hmem)
    rw [hpiece, List.append_assoc, List.mem_append, not_or] at hopen
    have hrest : '{' ∉ rest := fun hmem => hopen.2 (List.mem_append_right ['}'] hmem)
    have htext : ['{'] ++ piece = braced body ++ rest := by
      rw [hpiece]
      rfl
    rw [htext]
    exact OfTokens.token ⟨hopen.1, hbody⟩ h.1 (BraceFree.ofTokens ⟨hrest, h.2⟩)
  · exact h.elim

/-- Whether every brace belongs to a token is seen from the pieces between left braces. -/
theorem ofTokens_iff :
    OfTokens allowed s ↔
      '}' ∉ (splitAll ['{'] s).first ∧
        ∀ piece ∈ (splitAll ['{'] s).later, EndsToken allowed piece := by
  constructor
  · intro h
    induction h with
    | nil => exact ⟨List.not_mem_nil, fun piece hpiece => absurd hpiece List.not_mem_nil⟩
    | @between run s hrun _ ih =>
      have hclear : Clear ['{'] run s := clear_of_notMem hrun.1 s
      rw [splitAll_append_of_clear hclear, List.mem_append, not_or]
      exact ⟨⟨hrun.2, ih.1⟩, ih.2⟩
    | @token body s hbody hallowed _ ih =>
      rw [splitAll_braced_append hbody]
      refine ⟨List.not_mem_nil, List.forall_mem_cons.2 ⟨?_, ih.2⟩⟩
      rw [EndsToken, splitOnce?_body_append hbody]
      exact ⟨hallowed, ih.1⟩
  · rintro ⟨hfirst, hlater⟩
    have hopen : ∀ piece ∈ (splitAll ['{'] s).first :: (splitAll ['{'] s).later, '{' ∉ piece :=
      fun piece hpiece hmem =>
        not_isInfix_of_mem_splitAll (List.cons_ne_nil '{' []) s piece hpiece
          ((List.singleton_infix_iff _ _).2 hmem)
    rw [← joinWith_splitAll (List.cons_ne_nil '{' []) s, Pieces.joinWith]
    refine OfTokens.between ⟨hopen _ List.mem_cons_self, hfirst⟩ ?_
    exact flatMap_induction OfTokens.nil OfTokens.append fun piece hpiece =>
      (hlater piece hpiece).ofTokens (hopen piece (List.mem_cons_of_mem _ hpiece))

instance [DecidablePred allowed] (s : Text) : Decidable (OfTokens allowed s) :=
  decidable_of_iff _ ofTokens_iff.symm

end Text

end MarkerTemplate
