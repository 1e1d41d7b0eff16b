import FileSelect.Proofs.Glob.Directory
import FileSelect.Proofs.Glob.NormalForm

/-!
# Neighbouring `**`

Two `**` in a row stand for any number of segments, as one does. So a directory text says
the same when every run of `**` in it is replaced by a single one: the matcher may be of
another form then, but it gives the same answers to both questions about every path.
-/

namespace FileSelect

namespace Tokens

variable {left right tokens : List Token} {path : List Text}

/-- What one `**` and then another can take, one of them can take alone. -/
theorem matches_recursive_recursive_iff :
    Matches (.recursive :: .recursive :: tokens) path ↔ Matches (.recursive :: tokens) path := by
  rw [matches_recursive_iff]
  constructor
  · rintro ⟨taken, rest, rfl, second⟩
    obtain ⟨more, last, rfl, layout⟩ := matches_recursive_iff.mp second
    exact matches_recursive_iff.mpr
      ⟨taken ++ more, last, (List.append_assoc taken more last).symm, layout⟩
  · intro layout
    exact ⟨[], path, rfl, layout⟩

/-- Tokens with the same layouts keep them behind a common first token. -/
theorem matches_cons_congr (same : ∀ path, Matches left path ↔ Matches right path)
    (token : Token) : Matches (token :: left) path ↔ Matches (token :: right) path := by
  cases single : token.isRecursive with
  | false => simp only [matches_single_iff single, same]
  | true => simp only [Token.eq_recursive single, matches_recursive_iff, same]

theorem acceptStart_cons_congr (same : ∀ path, acceptStart left path = acceptStart right path)
    (token : Token) : acceptStart (token :: left) path = acceptStart (token :: right) path := by
  cases path with
  | nil => simp only [acceptStart]
  | cons name path => cases token <;> simp only [acceptStart, same]

/-- At a `**` the comparison stops, so what follows it does not matter. -/
theorem acceptStart_recursive (tokens : List Token) (path : List Text) :
    acceptStart (.recursive :: tokens) path = true := by
  cases path <;> rfl

end Tokens

/-! ## Merging the segments of a directory -/

namespace Clean

theorem map_ofSegment_recursive (rest : List Text) :
    (Token.recursiveText :: rest).map Token.ofSegment = .recursive :: rest.map Token.ofSegment :=
  rfl

theorem matches_mergeParts_iff (parts path : List Text) :
    Tokens.Matches ((mergeParts parts).map Token.ofSegment) path ↔
      Tokens.Matches (parts.map Token.ofSegment) path := by
  fun_induction mergeParts parts generalizing path with
  | case1 part next rest both ih =>
      obtain ⟨rfl, rfl⟩ := both
      simp only [ih, map_ofSegment_recursive, Tokens.matches_recursive_recursive_iff]
  | case2 part next rest apart ih => exact Tokens.matches_cons_congr ih (Token.ofSegment part)
  | case3 parts _ => rfl

theorem acceptStart_mergeParts (parts path : List Text) :
    Tokens.acceptStart ((mergeParts parts).map Token.ofSegment) path =
      Tokens.acceptStart (parts.map Token.ofSegment) path := by
  fun_induction mergeParts parts generalizing path with
  | case1 part next rest both ih =>
      obtain ⟨rfl, rfl⟩ := both
      simp only [ih, map_ofSegment_recursive, Tokens.acceptStart_recursive]
  | case2 part next rest apart ih => exact Tokens.acceptStart_cons_congr ih (Token.ofSegment part)
  | case3 parts _ => rfl

end Clean

namespace DirectoryMatcher

/--
A directory text and one in which every run of neighbouring `**` is a single `**` are
compiled to matchers that answer alike, about what stands directly inside a directory and
about what stands at or below it.
-/
theorem ofText_merged {directory merged : Text}
    (runs : segments merged = Clean.mergeParts (segments directory)) (path : Text) :
    (ofText? (some merged)).acceptsInside (segments path) =
        (ofText? (some directory)).acceptsInside (segments path) ∧
      (ofText? (some merged)).acceptsBelow (segments path) =
        (ofText? (some directory)).acceptsBelow (segments path) := by
  constructor
  · rw [Bool.eq_iff_iff, acceptsInside_iff_matches, acceptsInside_iff_matches, ofText?, ofText?,
      toTokens_ofSegments, toTokens_ofSegments, runs, Clean.matches_mergeParts_iff]
  · rw [acceptsBelow_eq_acceptStart, acceptsBelow_eq_acceptStart, ofText?, ofText?,
      toTokens_ofSegments, toTokens_ofSegments, runs, Clean.acceptStart_mergeParts]

/-- Two `**` are searched with backtracking and one is not, and below `a` both are asked. -/
theorem ofText_merged_twice :
    segments "**" = Clean.mergeParts (segments "**/**") ∧
      ofText? (some "**/**") = .tokens [.recursive, .recursive] ∧
      ofText? (some "**") = .anyDepth ∧
      (ofText? (some "**/**")).acceptsInside (segments "a/b") = true ∧
      segments "a/**//b" = Clean.mergeParts (segments "a/**/**//**/b") ∧
      (ofText? (some "a/**/**//**/b")).acceptsInside (segments "a/x/y/b") =
        (ofText? (some "a/**//b")).acceptsInside (segments "a/x/y/b") ∧
      (ofText? (some "a/**/**//**/b")).acceptsBelow (segments "b") =
        (ofText? (some "a/**//b")).acceptsBelow (segments "b") := by
  have pair : segments "**" = Clean.mergeParts (segments "**/**") := by decide
  have inner : segments "a/**//b" = Clean.mergeParts (segments "a/**/**//**/b") := by decide
  exact ⟨pair, by decide, by decide, (ofText_merged pair "a/b").1.symm, inner,
    (ofText_merged inner "a/x/y/b").1.symm, (ofText_merged inner "b").2.symm⟩

end DirectoryMatcher

end FileSelect
