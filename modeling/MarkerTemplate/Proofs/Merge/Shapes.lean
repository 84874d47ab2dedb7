import MarkerTemplate.Proofs.Merge.Related
import MarkerTemplate.Proofs.Substitution.Shapes

/-!
# Merging with suppliers of other shapes

Mappings that are alike up to the shapes of their suppliers give the same text, in substitution, in
merging and in rendering collections.

## Main definitions

- `Collection.Alike` — collections whose elements are alike, one by one

## Design notes

The blocks of a template depend on which keys a mapping has and not on their values. So mappings
that are alike choose the same branches and render the same arrays, and what is bound on the way
is the same text on both sides.
-/

namespace MarkerTemplate

variable {waits : Prop} {vars vars' : Variables}

/-- The collections have elements that are alike, with the same keys in the same order. -/
inductive Collection.Alike (waits : Prop) : Collection → Collection → Prop
  | sequence {elements elements' : List Variables} :
      List.Forall₂ (Variables.Alike waits) elements elements' →
      Alike waits (.sequence elements) (.sequence elements')
  | keyed {elements elements' : OrderedMap Variables} :
      OrderedMap.Related (fun _ => Variables.Alike waits) elements elements' →
      Alike waits (.keyed elements) (.keyed elements')

/-- Alikeness says something of suppliers only. -/
theorem comparison_alike : Value.Comparison (Value.Alike waits) where
  refl_of_data := fun _ _ hdata => Value.Alike.data hdata
  items?_eq := by
    intro key value value' h
    cases h with
    | data _ => rfl
    | supplied _ _ _ => rfl

theorem Collection.Alike.related {collection collection' : Collection}
    (h : collection.Alike waits collection') :
    collection.Related (Value.Alike waits) collection' := by
  cases h with
  | sequence helements => exact forall₂_mapIdx helements fun index _ _ h => ⟨rfl, h⟩
  | keyed helements => exact helements

theorem respects_substitute : Merger.Respects (Value.Alike waits) (fun _ => Effect.Agree waits)
    substitute :=
  fun h item => agree_substitute h item

theorem agree_merge (h : vars.Alike waits vars') (raw spacer : Text) :
    Effect.Agree waits (merge raw vars spacer) (merge raw vars' spacer) :=
  rel_merge (Effect.sequential_agree waits) comparison_alike respects_substitute h raw spacer

theorem agree_renderCollection {collection collection' : Collection}
    (hcollection : collection.Alike waits collection') (h : vars.Alike waits vars')
    (item spacer : Text) :
    Effect.Agree waits (renderCollection item collection vars spacer)
      (renderCollection item collection' vars' spacer) :=
  rel_renderCollection (Effect.sequential_agree waits) comparison_alike respects_substitute
    hcollection.related h item spacer

/-- The shapes of suppliers do not matter. Mappings and collections that are alike give the same
text, whatever was asked before; and if no supplier may wait forever, they do give a text. -/
theorem result_eq_of_alike {collection collection' : Collection} (hvars : vars.Alike waits vars')
    (hcollection : collection.Alike waits collection') (raw item spacer : Text)
    (history history' : History) :
    (substitute raw vars history).result = (substitute raw vars' history').result ∧
      (merge raw vars spacer history).result = (merge raw vars' spacer history').result ∧
      (renderCollection item collection vars spacer history).result =
        (renderCollection item collection' vars' spacer history').result ∧
      (¬ waits →
        (∃ t, (substitute raw vars history).result = some t) ∧
          (∃ t, (merge raw vars spacer history).result = some t) ∧
          ∃ t, (renderCollection item collection vars spacer history).result = some t) := by
  have hsubstitute := agree_substitute hvars raw history history'
  have hmerge := agree_merge hvars raw spacer history history'
  have hrender := agree_renderCollection hcollection hvars item spacer history history'
  refine ⟨hsubstitute.1, hmerge.1, hrender.1, fun hwaits => ⟨?_, ?_, ?_⟩⟩
  · exact Option.ne_none_iff_exists'.1 fun hnone => hwaits (hsubstitute.2 hnone)
  · exact Option.ne_none_iff_exists'.1 fun hnone => hwaits (hmerge.2 hnone)
  · exact Option.ne_none_iff_exists'.1 fun hnone => hwaits (hrender.2 hnone)

/-- With the second supplier deferred the first attempt is given up, and the text is the same. -/
theorem result_eq_of_alike_suppliersOf :
    (suppliersOf .immediate .immediate).Alike False (suppliersOf (.future 2) .callback) ∧
      (Collection.sequence [suppliersOf .callback .immediate]).Alike False
        (.sequence [suppliersOf .callback (.future 1)]) ∧
      (merge ['{', 'a', '}'] (suppliersOf (.future 2) .callback) [] []).result =
        some ['<', 'b', 'b', '>'] := by
  have halike : ∀ {first second first' second' : Shape}, first ≠ .never → second ≠ .never →
      first' ≠ .never → second' ≠ .never →
      (suppliersOf first second).Alike False (suppliersOf first' second') := by
    intro first second first' second' h₁ h₂ h₁' h₂'
    exact .cons ⟨rfl, .supplied (fun _ _ => rfl) (iff_of_false h₁ h₁') h₁⟩
      (.cons ⟨rfl, .supplied (fun _ _ => rfl) (iff_of_false h₂ h₂') h₂⟩ .nil)
  have hvars : (suppliersOf .immediate .immediate).Alike False
      (suppliersOf (.future 2) .callback) :=
    halike (by decide) (by decide) (by decide) (by decide)
  have hcollection : (Collection.sequence [suppliersOf .callback .immediate]).Alike False
      (.sequence [suppliersOf .callback (.future 1)]) :=
    .sequence (.cons (halike (by decide) (by decide) (by decide) (by decide)) .nil)
  refine ⟨hvars, hcollection, ?_⟩
  rw [← (result_eq_of_alike hvars hcollection ['{', 'a', '}'] [] [] [] []).2.1]
  rfl

end MarkerTemplate
