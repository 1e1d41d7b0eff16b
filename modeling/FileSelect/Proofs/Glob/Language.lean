import FileSelect.Proofs.Glob.Directory
import FileSelect.Proofs.Glob.NormalForm

/-!
# The language of a pattern

A pattern accepts a path exactly when the names of the path can be laid out along the
segments of its normal form. Cutting the pattern into a directory part and a name part
loses nothing, because the last segment of a normal form takes exactly one name.
-/

namespace FileSelect

/--
The names of a path laid out along the segments of a pattern: `**` takes any number of
names, a segment with wildcard characters takes one that it fits, and any other segment
takes the name that it is.
-/
inductive PathMatches : List Text → List Text → Prop
  | done : PathMatches [] []
  | literal {name : Text} {parts names : List Text} :
      hasWildcard name = false → PathMatches parts names →
      PathMatches (name :: parts) (name :: names)
  | wildcard {part name : Text} {parts names : List Text} :
      hasWildcard part = true → part ≠ Token.recursiveText → Wildcard.Matches part name →
      PathMatches parts names → PathMatches (part :: parts) (name :: names)
  | recursive {parts names : List Text} (taken : List Text) :
      PathMatches parts names → PathMatches (Token.recursiveText :: parts) (taken ++ names)

namespace PathMatches

theorem tokens_match {parts names : List Text} (layout : PathMatches parts names) :
    Tokens.Matches (parts.map Token.ofSegment) names := by
  induction layout with
  | done => exact .done
  | @literal name parts names plain _ ih =>
      have single : name ≠ Token.recursiveText := by
        rintro rfl
        cases plain
      apply Tokens.Matches.single (Token.isRecursive_ofSegment single) _ ih
      rw [Token.accepts_ofSegment_iff single]
      exact (Wildcard.matches_iff_eq plain name).mpr rfl
  | wildcard _ single fits _ ih =>
      apply Tokens.Matches.single (Token.isRecursive_ofSegment single) _ ih
      exact (Token.accepts_ofSegment_iff single _).mpr fits
  | recursive taken _ ih => exact Tokens.matches_recursive_iff.mpr ⟨taken, _, rfl, ih⟩

theorem of_tokens_match {parts names : List Text}
    (layout : Tokens.Matches (parts.map Token.ofSegment) names) : PathMatches parts names := by
  induction parts generalizing names with
  | nil =>
      rw [Tokens.matches_nil_iff.mp layout]
      exact .done
  | cons part parts ih =>
      rw [List.map_cons] at layout
      by_cases run : part = Token.recursiveText
      · subst run
        obtain ⟨taken, rest, rfl, behind⟩ := Tokens.matches_recursive_iff.mp layout
        exact .recursive taken (ih behind)
      · obtain ⟨name, rest, rfl, accepted, behind⟩ :=
          (Tokens.matches_single_iff (Token.isRecursive_ofSegment run)).mp layout
        have fits := (Token.accepts_ofSegment_iff run name).mp accepted
        cases wild : hasWildcard part with
        | true => exact .wildcard wild run fits (ih behind)
        | false =>
            rw [(Wildcard.matches_iff_eq wild name).mp fits]
            exact .literal wild (ih behind)

end PathMatches

/-- Compiled segments are laid out along a path as the segments themselves are. -/
theorem tokens_match_iff_pathMatches {parts names : List Text} :
    Tokens.Matches (parts.map Token.ofSegment) names ↔ PathMatches parts names :=
  ⟨PathMatches.of_tokens_match, PathMatches.tokens_match⟩

/-- A name matcher judges as the token of the same segment does. -/
theorem NameMatcher.accepts_ofText {part : Text} (single : part ≠ Token.recursiveText)
    (name : Text) :
    (NameMatcher.ofText part).accepts name = (Token.ofSegment part).accepts name := by
  rw [NameMatcher.ofText, Token.ofSegment, if_neg single]
  split <;> rfl

namespace Pattern

/-! ## Judging a path by its names -/

/-- However a path is written, it is judged by the names it leads through. -/
theorem accepts_eq {path name : Text} {above : List Text}
    (named : segments path = above ++ [name]) (p : Pattern) :
    p.accepts path = p.acceptsEntry above name := by
  rw [← segments_strip] at named
  have lastChar : ∀ c, (Text.strip isSlash path).getLast? = some c → isSlash c = false :=
    fun _ => Text.getLast?_strip
  rw [accepts]
  generalize Text.strip isSlash path = stripped at named lastChar
  cases cut : Text.splitLast? '/' stripped with
  | none =>
      have whole : IsName stripped := by
        refine ⟨?_, Text.splitLast?_eq_none_iff.mp cut⟩
        rintro rfl
        exact List.append_ne_nil_of_right_ne_nil above (by simp) named.symm
      rw [segments_of_isName whole, ← List.nil_append [stripped]] at named
      obtain ⟨rfl, same⟩ := List.append_inj' named rfl
      rw [(List.cons.inj same).1]
  | some found =>
      obtain ⟨directory, last⟩ := found
      obtain ⟨rfl, free⟩ := Text.splitLast?_eq_some_iff.mp cut
      have ne : last ≠ [] := by
        rintro rfl
        have slash := lastChar '/' List.getLast?_concat
        cases slash
      rw [segments_append_slash, segments_of_isName ⟨ne, free⟩] at named
      obtain ⟨rfl, same⟩ := List.append_inj' named rfl
      rw [(List.cons.inj same).1]

theorem accepts_congr {path other : Text} (named : segments path ≠ [])
    (same : segments other = segments path) (p : Pattern) : p.accepts other = p.accepts path := by
  obtain ⟨above, name, eq⟩ := (List.eq_nil_or_concat' (segments path)).resolve_left named
  rw [accepts_eq eq, accepts_eq (same.trans eq)]

/-! ## Acceptance is a layout -/

/-- The names in front are judged by all segments of the pattern but the last. -/
theorem exists_directory_tokens (raw : Text) : ∃ parts last,
    segments (clean raw) = parts ++ [last] ∧ (∀ part ∈ parts ++ [last], IsName part) ∧
      last ≠ Token.recursiveText ∧
      (ofText raw).directory.toTokens = parts.map Token.ofSegment ∧
      (ofText raw).name = .ofText last := by
  obtain ⟨parts, last, eq, isName, single⟩ := (isClean_clean raw).exists_names
  have whole := ofText_eq eq isName
  refine ⟨parts, last, by rw [eq, segments_joinSegments isName], isName, single, ?_, ?_⟩
  · rw [whole, DirectoryMatcher.toTokens_ofSegments]
  · rw [whole]

theorem accepts_iff_tokens_match (raw : Text) {path : Text} (named : segments path ≠ []) :
    (ofText raw).accepts path = true ↔
      Tokens.Matches ((segments (clean raw)).map Token.ofSegment) (segments path) := by
  obtain ⟨parts, last, eq, _, single, directory, name⟩ := exists_directory_tokens raw
  obtain ⟨above, final, names⟩ := (List.eq_nil_or_concat' (segments path)).resolve_left named
  rw [accepts_eq names, acceptsEntry, Bool.and_eq_true, DirectoryMatcher.acceptsInside_iff_matches,
    directory, name, NameMatcher.accepts_ofText single, eq, names, List.map_append,
    List.map_singleton, Tokens.matches_concat_iff (Token.isRecursive_ofSegment single)]

/--
A compiled pattern decides the language of its normal form. Slashes in front of the
path, behind it or next to another slash make no difference.
-/
theorem accepts_iff_pathMatches (raw path : Text) (named : segments path ≠ []) :
    ((ofText raw).accepts path = true ↔
      PathMatches (segments (clean raw)) (segments path)) ∧
    (ofText raw).accepts ('/' :: path) = (ofText raw).accepts path ∧
    (ofText raw).accepts (path ++ ['/']) = (ofText raw).accepts path ∧
    ∀ above below, path = above ++ '/' :: below →
      (ofText raw).accepts (above ++ '/' :: '/' :: below) = (ofText raw).accepts path := by
  refine ⟨?_, accepts_congr named (segments_slash_cons path) _,
    accepts_congr named (segments_concat_slash path) _, ?_⟩
  · rw [accepts_iff_tokens_match raw named, tokens_match_iff_pathMatches]
  · rintro above below rfl
    apply accepts_congr named
    rw [segments_append_slash, segments_append_slash, segments_slash_cons]

/-- A run of stars inside a segment takes the directories in between. -/
theorem accepts_iff_pathMatches_sources :
    segments "/src//a/b.rs/" ≠ [] ∧
      (ofText " src/./**.rs").accepts "/src//a/b.rs/" = true ∧
      PathMatches ["src", "**", "*.rs"] ["src", "a", "b.rs"] := by
  have named : segments "/src//a/b.rs/" ≠ [] := by decide
  have normal : segments (clean " src/./**.rs") = ["src", "**", "*.rs"] := by decide +kernel
  have names : segments "/src//a/b.rs/" = ["src", "a", "b.rs"] := by decide
  have fits : Wildcard.Matches "*.rs" "b.rs" :=
    (Wildcard.accepts_iff_matches ⟨"*.rs"⟩ "b.rs").mp (by decide)
  have layout : PathMatches ["src", "**", "*.rs"] ["src", "a", "b.rs"] :=
    .literal (by decide) (.recursive ["a"] (.wildcard (by decide) (by decide) fits .done))
  refine ⟨named, (accepts_iff_pathMatches _ _ named).1.mpr ?_, layout⟩
  rw [normal, names]
  exact layout

end Pattern

end FileSelect
