import FileSelect.Glob.Token
import FileSelect.Proofs.Glob.Wildcard

/-!
# Laying tokens out along a path

The backtracking search finds a layout exactly when there is one, and comparing the
tokens with the beginning of a path tells exactly whether the path can be continued to
one with a layout. The second needs that each token can be played by some name, which
the tokens of a pattern always can.
-/

namespace FileSelect

namespace Token

/-- Some name stands for the token. -/
def IsPlayable (token : Token) : Prop := ∃ name, IsName name ∧ token.accepts name = true

theorem eq_recursive {token : Token} (h : token.isRecursive = true) : token = .recursive := by
  cases token with
  | literal expected => cases h
  | wildcard w => cases h
  | recursive => rfl

theorem ofSegment_of_plain {segment : Text} (plain : hasWildcard segment = false) :
    ofSegment segment = .literal segment := by
  rw [ofSegment, if_neg, plain]
  · rfl
  · rintro rfl
    cases plain

theorem isRecursive_ofSegment {segment : Text} (ne : segment ≠ recursiveText) :
    (ofSegment segment).isRecursive = false := by
  rw [ofSegment, if_neg ne]
  split <;> rfl

/-- Any segment but `**` is judged as a wildcard, even if it holds no wildcard character. -/
theorem accepts_ofSegment_iff {segment : Text} (ne : segment ≠ recursiveText) (name : Text) :
    (ofSegment segment).accepts name = true ↔ Wildcard.Matches segment name := by
  rw [ofSegment, if_neg ne]
  split
  case isTrue => exact Wildcard.accepts_iff_matches ⟨segment⟩ name
  case isFalse plain =>
    rw [accepts, beq_iff_eq, Wildcard.matches_iff_eq (Bool.eq_false_iff.mpr plain), eq_comm]

theorem isPlayable_ofSegment {segment : Text} (name : IsName segment) :
    (ofSegment segment).IsPlayable := by
  refine ⟨Wildcard.sample segment, Wildcard.isName_sample name, ?_⟩
  by_cases same : segment = recursiveText
  · rw [same]
    rfl
  · exact (accepts_ofSegment_iff same _).mpr (Wildcard.matches_sample segment)

end Token

namespace Tokens

/-! ## Layouts by their first token -/

theorem matches_nil_iff {path : List Text} : Matches [] path ↔ path = [] := by
  constructor
  · intro h
    cases h with
    | done => rfl
  · rintro rfl
    exact .done

theorem matches_single_iff {token : Token} {tokens : List Token} {path : List Text}
    (single : token.isRecursive = false) :
    Matches (token :: tokens) path ↔
      ∃ name rest, path = name :: rest ∧ token.accepts name = true ∧ Matches tokens rest := by
  constructor
  · intro h
    cases h with
    | single _ accepted rest => exact ⟨_, _, rfl, accepted, rest⟩
    | recursiveEnd _ => cases single
    | recursiveStep _ => cases single
  · rintro ⟨name, rest, rfl, accepted, layout⟩
    exact .single single accepted layout

/-- `**` takes any number of segments from the front. -/
theorem matches_recursive_iff {tokens : List Token} {path : List Text} :
    Matches (.recursive :: tokens) path ↔
      ∃ taken rest, path = taken ++ rest ∧ Matches tokens rest := by
  constructor
  · intro h
    induction path with
    | nil =>
        cases h with
        | recursiveEnd rest => exact ⟨[], [], rfl, rest⟩
    | cons name path ih =>
        cases h with
        | single notRecursive _ _ => cases notRecursive
        | recursiveEnd rest => exact ⟨[], name :: path, rfl, rest⟩
        | recursiveStep further =>
            obtain ⟨taken, rest, rfl, layout⟩ := ih further
            exact ⟨name :: taken, rest, rfl, layout⟩
  · rintro ⟨taken, rest, rfl, layout⟩
    induction taken with
    | nil => exact .recursiveEnd layout
    | cons name taken ih => exact .recursiveStep ih

/-! ## The search -/

theorem acceptSuffix_iff {accepts : List Text → Bool} {path : List Text} :
    acceptSuffix accepts path = true ↔
      ∃ taken rest, path = taken ++ rest ∧ accepts rest = true := by
  induction path with
  | nil =>
      constructor
      · intro h
        exact ⟨[], [], rfl, h⟩
      · rintro ⟨taken, rest, eq, accepted⟩
        rw [(List.append_eq_nil_iff.mp eq.symm).2] at accepted
        exact accepted
  | cons name path ih =>
      rw [acceptSuffix, Bool.or_eq_true, ih]
      constructor
      · rintro (whole | ⟨taken, rest, rfl, accepted⟩)
        · exact ⟨[], name :: path, rfl, whole⟩
        · exact ⟨name :: taken, rest, rfl, accepted⟩
      · rintro ⟨taken, rest, eq, accepted⟩
        cases taken with
        | nil => exact Or.inl (by rw [eq]; exact accepted)
        | cons first taken =>
            injection eq with _ eq
            exact Or.inr ⟨taken, rest, eq, accepted⟩

theorem accept_single_iff {token : Token} {tokens : List Token} {path : List Text}
    (single : token.isRecursive = false) :
    accept (token :: tokens) path = true ↔
      ∃ name rest, path = name :: rest ∧ token.accepts name = true ∧
        accept tokens rest = true := by
  cases token with
  | recursive => cases single
  | literal expected => cases path <;> simp [accept]
  | wildcard w => cases path <;> simp [accept]

/-- The search decides whether there is a layout. -/
theorem accept_iff_matches (tokens : List Token) (path : List Text) :
    accept tokens path = true ↔ Matches tokens path := by
  induction tokens generalizing path with
  | nil => rw [accept, matches_nil_iff, List.isEmpty_iff]
  | cons token tokens ih =>
      cases single : token.isRecursive with
      | false => simp only [accept_single_iff single, matches_single_iff single, ih]
      | true =>
          rw [Token.eq_recursive single]
          simp only [accept, acceptSuffix_iff, matches_recursive_iff, ih]

/-! ## Tokens in two groups -/

/-- Tokens in two groups are laid out along the two pieces of a cut of the path. -/
theorem matches_append_iff {front back : List Token} {path : List Text} :
    Matches (front ++ back) path ↔
      ∃ above below, path = above ++ below ∧ Matches front above ∧ Matches back below := by
  induction front generalizing path with
  | nil =>
      constructor
      · intro layout
        exact ⟨[], path, rfl, .done, layout⟩
      · rintro ⟨above, below, rfl, empty, layout⟩
        rw [matches_nil_iff.mp empty]
        exact layout
  | cons token front ih =>
      rw [List.cons_append]
      cases single : token.isRecursive with
      | false =>
          simp only [matches_single_iff single, ih]
          constructor
          · rintro ⟨name, rest, rfl, accepted, above, below, rfl, first, second⟩
            exact ⟨name :: above, below, rfl, ⟨name, above, rfl, accepted, first⟩, second⟩
          · rintro ⟨above, below, rfl, ⟨name, rest, rfl, accepted, first⟩, second⟩
            exact ⟨name, rest ++ below, rfl, accepted, rest, below, rfl, first, second⟩
      | true =>
          simp only [Token.eq_recursive single, matches_recursive_iff, ih]
          constructor
          · rintro ⟨taken, rest, rfl, above, below, rfl, first, second⟩
            exact ⟨taken ++ above, below, (List.append_assoc taken above below).symm,
              ⟨taken, above, rfl, first⟩, second⟩
          · rintro ⟨above, below, rfl, ⟨taken, rest, rfl, first⟩, second⟩
            exact ⟨taken, rest ++ below, List.append_assoc taken rest below, rest, below, rfl,
              first, second⟩

/-- A single token at the end takes the last segment. -/
theorem matches_concat_iff {tokens : List Token} {token : Token} {path : List Text} {name : Text}
    (single : token.isRecursive = false) :
    Matches (tokens ++ [token]) (path ++ [name]) ↔
      Matches tokens path ∧ token.accepts name = true := by
  rw [matches_append_iff]
  simp only [matches_single_iff single, matches_nil_iff]
  constructor
  · rintro ⟨above, below, eq, layout, last, rest, rfl, accepted, rfl⟩
    obtain ⟨rfl, same⟩ := List.append_inj' eq rfl
    injection same with same
    exact ⟨layout, same ▸ accepted⟩
  · rintro ⟨layout, accepted⟩
    exact ⟨path, [name], rfl, layout, name, [], rfl, accepted, rfl⟩

/-! ## Continuing a path -/

theorem acceptStart_cons_iff {token : Token} {tokens : List Token} {name : Text}
    {path : List Text} (single : token.isRecursive = false) :
    acceptStart (token :: tokens) (name :: path) = true ↔
      token.accepts name = true ∧ acceptStart tokens path = true := by
  cases token with
  | recursive => cases single
  | literal expected => simp [acceptStart]
  | wildcard w => simp [acceptStart]

/-- The beginning of a path with a layout is not refused. -/
theorem acceptStart_of_matches {tokens : List Token} {path more : List Text}
    (layout : Matches tokens (path ++ more)) : acceptStart tokens path = true := by
  induction path generalizing tokens with
  | nil => rw [acceptStart]
  | cons name path ih =>
      cases tokens with
      | nil => cases matches_nil_iff.mp layout
      | cons token tokens =>
          cases single : token.isRecursive with
          | false =>
              obtain ⟨first, rest, eq, accepted, layout⟩ := (matches_single_iff single).mp layout
              injection eq with same eq
              subst same
              subst eq
              exact (acceptStart_cons_iff single).mpr ⟨accepted, ih layout⟩
          | true => rw [Token.eq_recursive single, acceptStart]

/-- Tokens that some names stand for have a layout along a path of names. -/
theorem exists_matches {tokens : List Token} (playable : ∀ token ∈ tokens, token.IsPlayable) :
    ∃ names, (∀ name ∈ names, IsName name) ∧ Matches tokens names := by
  induction tokens with
  | nil => exact ⟨[], List.forall_mem_nil IsName, .done⟩
  | cons token tokens ih =>
      obtain ⟨names, isName, layout⟩ := ih fun t h => playable t (List.mem_cons_of_mem token h)
      cases single : token.isRecursive with
      | false =>
          obtain ⟨name, named, accepted⟩ := playable token List.mem_cons_self
          refine ⟨name :: names, ?_, .single single accepted layout⟩
          exact List.forall_mem_cons.mpr ⟨named, isName⟩
      | true =>
          rw [Token.eq_recursive single]
          exact ⟨names, isName, .recursiveEnd layout⟩

/-- What is not refused can be continued to a path with a layout. -/
theorem exists_matches_of_acceptStart {tokens : List Token} {path : List Text}
    (playable : ∀ token ∈ tokens, token.IsPlayable) (starts : acceptStart tokens path = true) :
    ∃ names, (∀ name ∈ names, IsName name) ∧ Matches tokens (path ++ names) := by
  induction path generalizing tokens with
  | nil => exact exists_matches playable
  | cons name path ih =>
      cases tokens with
      | nil => cases starts
      | cons token tokens =>
          have later : ∀ t ∈ tokens, t.IsPlayable := fun t h =>
            playable t (List.mem_cons_of_mem token h)
          cases single : token.isRecursive with
          | false =>
              obtain ⟨accepted, rest⟩ := (acceptStart_cons_iff single).mp starts
              obtain ⟨names, isName, layout⟩ := ih later rest
              exact ⟨names, isName, .single single accepted layout⟩
          | true =>
              -- `**` takes the whole of the given path, and the other tokens follow it.
              obtain ⟨names, isName, layout⟩ := exists_matches later
              rw [Token.eq_recursive single]
              exact ⟨names, isName, matches_recursive_iff.mpr ⟨name :: path, names, rfl, layout⟩⟩

/-- Comparing the beginning decides whether a path can be continued to one with a layout. -/
theorem acceptStart_iff {tokens : List Token} {path : List Text}
    (playable : ∀ token ∈ tokens, token.IsPlayable) :
    acceptStart tokens path = true ↔
      ∃ names, (∀ name ∈ names, IsName name) ∧ Matches tokens (path ++ names) := by
  constructor
  · exact exists_matches_of_acceptStart playable
  · rintro ⟨names, _, layout⟩
    exact acceptStart_of_matches layout

end Tokens

end FileSelect
