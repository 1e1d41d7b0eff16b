import FileSelect.Proofs.Glob.Language

/-!
# Pruning by a pattern

A directory is worth entering for a pattern exactly when some path strictly below it is
accepted. Such a path can always be made up, since every segment of a pattern stands for
some name.
-/

namespace FileSelect.Pattern

/-- Below a directory, in any spelling, a path is judged by all names on the way. -/
theorem accepts_append_iff (raw directory : Text) {names : List Text} (ne : names ≠ [])
    (isName : ∀ name ∈ names, IsName name) :
    (ofText raw).accepts (Path.append directory (joinSegments names)) = true ↔
      Tokens.Matches ((segments (clean raw)).map Token.ofSegment)
        (segments directory ++ names) := by
  have whole := segments_append_joinSegments directory isName
  rw [accepts_iff_tokens_match raw, whole]
  rw [whole]
  exact List.append_ne_nil_of_right_ne_nil (segments directory) ne

/-- A directory is entered exactly when something strictly below it can match. -/
theorem acceptsBelow_iff_exists_accepted (raw directory : Text) :
    (ofText raw).directory.acceptsBelow (segments directory) = true ↔
      ∃ names, names ≠ [] ∧ (∀ name ∈ names, IsName name) ∧
        (ofText raw).accepts (Path.append directory (joinSegments names)) = true := by
  obtain ⟨parts, last, eq, isName, single, tokens, _⟩ := exists_directory_tokens raw
  have lastSingle := Token.isRecursive_ofSegment single
  have playable : ∀ token ∈ parts.map Token.ofSegment, token.IsPlayable := by
    intro token h
    obtain ⟨part, inside, rfl⟩ := List.mem_map.mp h
    exact Token.isPlayable_ofSegment (isName part (List.mem_append_left [last] inside))
  rw [DirectoryMatcher.acceptsBelow_eq_acceptStart, tokens, Tokens.acceptStart_iff playable]
  constructor
  · rintro ⟨names, named, layout⟩
    obtain ⟨final, finalName, accepted⟩ :=
      Token.isPlayable_ofSegment (isName last (List.mem_append_right parts List.mem_cons_self))
    have ne : names ++ [final] ≠ [] := List.append_ne_nil_of_right_ne_nil names (by simp)
    have allNames : ∀ name ∈ names ++ [final], IsName name :=
      List.forall_mem_append.mpr ⟨named, List.forall_mem_singleton.mpr finalName⟩
    refine ⟨names ++ [final], ne, allNames, ?_⟩
    rw [accepts_append_iff raw directory ne allNames, eq, List.map_append, ← List.append_assoc]
    exact (Tokens.matches_concat_iff lastSingle).mpr ⟨layout, accepted⟩
  · rintro ⟨names, ne, named, accepted⟩
    rw [accepts_append_iff raw directory ne named, eq, List.map_append] at accepted
    obtain ⟨front, final, rfl⟩ := (List.eq_nil_or_concat' names).resolve_left ne
    rw [← List.append_assoc] at accepted
    refine ⟨front, fun name h => named name (List.mem_append_left [final] h), ?_⟩
    exact ((Tokens.matches_concat_iff lastSingle).mp accepted).1

end FileSelect.Pattern
