import ReversePolish.Proofs.Listing.Refusal
import ReversePolish.Proofs.Source.Places

/-! # Where a text stops being a listing

Reading a text stops behind a listing, before something that is neither a blank nor a comment nor
a phrase (`Cursor.exists_listingStops`). Expanding tabs respaces a text, so that reading the
expanded text stops before the same character (`exists_listingStops_of_expandTabs`). The place
that is told of a text is the one in the expanded text: it is in the right line, and exact but
for the tabs before it (`assemble_refusedAt`).
-/

namespace ReversePolish

variable {text other before after read rest otherBefore otherAfter : List Char} {char : Char}
  {phrase : Phrase} {diagnostic : Diagnostic} {position : Position}

/-! ## Where reading stops -/

/-- A text behind which nothing more of a listing can be read: it is a listing itself, and
neither a blank, a comment nor a phrase comes next. -/
structure ListingStops (before after : List Char) : Prop where
  listing : IsListing before
  solid : Solid after
  none_stands : ∀ (phrase : Phrase) (later : List Char), after = phrase.chars ++ later →
    ¬ phrase.Stands before later

namespace Cursor

/-- Where no statement starts, no phrase stands. -/
theorem not_stands_of_started? (solid : Solid (phrase.chars ++ after))
    (none : (behind read (phrase.chars ++ after)).started? = none) :
    ¬ phrase.Stands read after := by
  intro stands
  have some := isSome_statement?_of_stands stands
  have skipped := @skip_gap [] _ read .empty solid
  rw [List.nil_append, List.append_nil] at skipped
  rw [statement?_eq, skipped, none] at some
  exact absurd some (by simp)

theorem exists_listingStops (text : List Char) :
    ∃ before after, text = before ++ after ∧ ListingStops before after ∧
      (behind [] text).statements.2.skip.rest = after := by
  obtain ⟨phrases, gap, after, rfl, stand, solid, -, stopped, none⟩ := exists_stop [] text
  refine ⟨Phrase.text phrases gap, after, rfl, ⟨⟨phrases, gap, rfl, stand⟩, solid, ?_⟩, ?_⟩
  · rintro phrase later rfl
    exact not_stands_of_started? solid none
  · rw [stopped]
    rfl

end Cursor

/-- A listing that is refused for its syntax is refused where reading its expanded text stops. -/
theorem exists_listingStops_of_parseListing (failed : parseListing text = .error diagnostic) :
    ∃ before after, Text.expandTabs text = before ++ after ∧ ListingStops before after ∧
      after ≠ [] ∧ diagnostic = .notAStatement (.after before) := by
  obtain ⟨before, after, text_eq, stops, left⟩ := Cursor.exists_listingStops (Text.expandTabs text)
  rw [parseListing_eq, left] at failed
  split at failed
  · exact absurd failed (by simp)
  · next nonempty =>
      refine ⟨before, after, text_eq, stops, nonempty, ?_⟩
      rw [← Except.error.inj failed, text_eq, List.length_append, Nat.add_sub_cancel,
        List.take_left]

/-! ## The place in the text as it was written -/

theorem IsListing.respaced (isListing : IsListing text) (respaced : Respaced text other) :
    IsListing other := by
  obtain ⟨phrases, last, composes⟩ := isListing
  obtain ⟨others, otherLast, otherComposes, -⟩ := composes.respaced respaced
  exact ⟨others, otherLast, otherComposes⟩

/-- Reading stops before the same character of a respaced text. -/
theorem ListingStops.respaced (stops : ListingStops before (char :: after))
    (earlier : Respaced before otherBefore) (later : Respaced after otherAfter) :
    ListingStops otherBefore (char :: otherAfter) where
  listing := stops.listing.respaced earlier
  solid := by
    intro first rest same
    obtain ⟨rfl, rfl⟩ := List.cons.inj same
    obtain ⟨notBlank, notComment⟩ := stops.solid char after rfl
    exact ⟨notBlank, fun pair => notComment ⟨pair.1, later.slash_head_iff.mpr pair.2⟩⟩
  none_stands := by
    intro phrase rest same stands
    have back : Respaced (phrase.chars ++ rest) (char :: after) := same ▸ .char char later.symm
    have ends : Apart ([] ++ otherBefore).getLast? ↔ Apart ([] ++ before).getLast? :=
      earlier.symm.apart_getLast?_iff Iff.rfl
    obtain ⟨found, foundRest, text_eq, foundStands, -, -⟩ := stands.respaced back ends
    exact stops.none_stands found foundRest text_eq foundStands

/-- Where reading the expanded text stops, reading the text stops too. -/
theorem exists_listingStops_of_expandTabs (text_eq : Text.expandTabs text = read ++ rest)
    (stops : ListingStops read rest) (nonempty : rest ≠ []) :
    ∃ before after, text = before ++ after ∧ ListingStops before after ∧ after ≠ [] ∧
      read = Text.expandTabs before := by
  obtain ⟨char, tail, rfl⟩ := List.exists_cons_of_ne_nil nonempty
  obtain ⟨notBlank, -⟩ := stops.solid char tail rfl
  have notSpace : char ≠ ' ' := by
    rintro rfl
    exact notBlank rfl
  rw [Text.expandTabs_eq] at text_eq
  obtain ⟨before, after, column, rfl, rfl, rfl⟩ := Text.exists_of_expansion_eq notSpace text_eq
  exact ⟨before, char :: after, rfl,
    stops.respaced (Text.respaced_expansion 0 before).symm
      (Text.respaced_expansion column after).symm,
    List.cons_ne_nil char after, (Text.expandTabs_eq before).symm⟩

/-- The place that a text is refused at: that of the character at which reading stops, counted
with the tabs before it expanded. -/
structure RefusedAt (text before after : List Char) (position : Position) : Prop where
  text_eq : text = before ++ after
  stops : ListingStops before after
  nonempty : after ≠ []
  expanded : position = .after (Text.expandTabs before)
  ahead : position.AheadOf (.after before)
  /-- If the tabs make no difference to the count, it is the place that the lexer gives. -/
  exact_of_offset_eq : position.offset = before.length → position.PlaceIn text ∧
    ∃ lexer, (Lexer.ofText text).moved position.offset = some lexer ∧ lexer.position = position
  offset_eq_of_no_tab : '\t' ∉ before → position.offset = before.length

theorem RefusedAt.of_stops (stops : ListingStops before after) (nonempty : after ≠ []) :
    RefusedAt (before ++ after) before after (.after (Text.expandTabs before)) where
  text_eq := rfl
  stops := stops
  nonempty := nonempty
  expanded := rfl
  ahead := Position.after_expandTabs_aheadOf before
  exact_of_offset_eq same := by
    rw [← Position.after_offset before] at same
    rw [(Position.after_expandTabs_aheadOf before).eq_of_offset_eq same, Position.after_offset]
    exact ⟨Position.placeIn_after before nonempty,
      _, Lexer.moved_eq before after (Lexer.ofText (before ++ after)) rfl, rfl⟩
  offset_eq_of_no_tab noTab := by
    rw [Position.after_offset, Text.expandTabs_eq, Text.expansion_of_no_tab noTab]

theorem parseListing_of_placed (failed : assemble text = .error diagnostic)
    (placed : diagnostic.position? = some position) :
    parseListing text = .error diagnostic := by
  cases parsed : parseListing text with
  | ok statements =>
      obtain ⟨phrases, last, composes, -⟩ := parseListing_eq_ok_iff_composes.mp parsed
      have unplaced := (composes.ofValue_of_assemble failed).2
      exact absurd (unplaced.symm.trans placed) (by simp)
  | error other =>
      have same := assemble_of_parseListing_eq_error parsed
      rw [Except.error.inj (same.symm.trans failed)]

/-- **A text that is no listing is refused where reading it stops**: what comes before is a
listing, and nothing of a listing comes next. -/
theorem assemble_refusedAt (failed : assemble text = .error diagnostic)
    (placed : diagnostic.position? = some position) :
    ∃ before after, RefusedAt text before after position := by
  obtain ⟨read, rest, text_eq, stopsExpanded, left, rfl⟩ :=
    exists_listingStops_of_parseListing (parseListing_of_placed failed placed)
  obtain ⟨before, after, rfl, stops, nonempty, rfl⟩ :=
    exists_listingStops_of_expandTabs text_eq stopsExpanded left
  obtain rfl := Option.some.inj placed
  exact ⟨before, after, .of_stops stops nonempty⟩

/-- A second line that starts no statement is refused at its start. -/
theorem assemble_refusedAt_of_pop :
    ∃ diagnostic position before after, assemble "push 1\npop".toList = .error diagnostic ∧
      diagnostic.position? = some position ∧
      RefusedAt "push 1\npop".toList before after position := by
  have first : (Cursor.behind [] (Text.expandTabs "push 1\npop".toList)).statement? =
      some (.push ['1'], Cursor.behind "push 1".toList "\npop".toList) := by decide
  have none : (Cursor.behind "push 1".toList "\npop".toList).statement? = none := by decide
  have parsed : parseListing "push 1\npop".toList = .error (.notAStatement ⟨7, 2, 1⟩) := by
    rw [parseListing_eq, Cursor.statements_of_some first, Cursor.statements_of_none none]
    rfl
  have failed := assemble_of_parseListing_eq_error parsed
  obtain ⟨before, after, refused⟩ := assemble_refusedAt failed rfl
  exact ⟨_, _, before, after, failed, rfl, refused⟩

/-- Behind a tab the place may not even be inside the text. -/
theorem assemble_misplaced_of_tab :
    ∃ diagnostic position, assemble "\tx".toList = .error diagnostic ∧
      diagnostic.position? = some position ∧ ¬ position.offset < "\tx".toList.length := by
  have none : (Cursor.behind [] (Text.expandTabs "\tx".toList)).statement? = none := by decide
  have parsed : parseListing "\tx".toList = .error (.notAStatement ⟨8, 1, 9⟩) := by
    rw [parseListing_eq, Cursor.statements_of_none none]
    rfl
  exact ⟨_, _, assemble_of_parseListing_eq_error parsed, rfl, by decide⟩

end ReversePolish
