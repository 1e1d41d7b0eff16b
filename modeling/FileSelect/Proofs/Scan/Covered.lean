import FileSelect.Proofs.Glob.Coverage
import FileSelect.Proofs.Scan.Select

/-!
# Paths below excluded directories

An exclude that covers a directory takes everything below it away. A path is judged by all
the directories above it but the root, so nothing below an excluded directory is accepted
if this is not the root itself. At the root an exclude only vetoes what stands directly
inside, unless it has a directory part and reaches every directory.
-/

namespace FileSelect

/-- A matcher that accepts the root and asks for some directories accepts all of them. -/
theorem DirectoryMatcher.acceptsInside_of_root {m : DirectoryMatcher}
    (root : m.acceptsInside [] = true) (part : m.toTokens ≠ []) (path : List Text) :
    m.acceptsInside path = true := by
  rw [acceptsInside_iff_matches] at root ⊢
  cases tokens : m.toTokens with
  | nil => exact absurd tokens part
  | cons token later =>
      rw [tokens] at root
      cases root with
      | recursiveEnd rest =>
          exact Tokens.matches_recursive_iff.mpr ⟨path, [], (List.append_nil path).symm, rest⟩

theorem DirectoryMatcher.toTokens_ofText?_ne_nil {directory : Option Text}
    (part : ofText? directory ≠ .rootOnly) : (ofText? directory).toTokens ≠ [] := by
  cases directory with
  | none => exact absurd rfl part
  | some text =>
      rw [ofText?] at part ⊢
      rw [toTokens_ofSegments, Ne, List.map_eq_nil_iff]
      intro empty
      exact part (by rw [empty]; rfl)

theorem Pattern.exists_directory_eq_ofText? (raw : Text) :
    ∃ directory, (ofText raw).directory = .ofText? directory := by
  rw [ofText]
  split
  · exact ⟨some _, rfl⟩
  · exact ⟨none, rfl⟩

namespace PatternSet

variable {set : PatternSet} {directory : List Name}

/-- An excluded directory stands on the way to everything below it, if it is not the root. -/
theorem excludesOnTheWay_of_excludesDirectory (ne : directory ≠ [])
    (excluded : set.excludesDirectory directory = true) :
    set.excludesOnTheWay [] directory = true := by
  obtain ⟨above, name, rfl⟩ := (List.eq_nil_or_concat' directory).resolve_left ne
  rw [excludesOnTheWay_concat, excluded, Bool.or_true]

/-- What stands directly inside an excluded directory is vetoed. -/
theorem acceptsPath_concat_eq_false (excluded : set.excludesDirectory directory = true)
    {name : Name} (free : '/' ∉ name) : set.acceptsPath (directory ++ [name]) = false := by
  obtain ⟨p, inside, covers⟩ := List.any_eq_true.mp excluded
  obtain ⟨every, accepted⟩ := Bool.and_eq_true_iff.mp covers
  have veto : p.acceptsEntry directory name = true :=
    Bool.and_eq_true_iff.mpr ⟨accepted, p.name.acceptsAll_iff_accepts.mp every name free⟩
  have vetoed : set.excludes.any (·.acceptsEntry directory name) = true :=
    List.any_eq_true.mpr ⟨p, inside, veto⟩
  rw [acceptsPath_concat, acceptsEntry, vetoed, Bool.not_true, Bool.and_false, Bool.and_false]

theorem exists_compile_of_mem_excludes {patterns : List Text} {settings : Settings} {p : Pattern}
    (inside : p ∈ (ofTexts patterns settings).excludes) : ∃ raw, p = .ofText raw := by
  rcases List.mem_append.mp inside with read | default
  · obtain ⟨entry, _, made⟩ := List.mem_filterMap.mp read
    cases entry with
    | excludes raw => exact ⟨raw, (Option.some.inj made).symm⟩
    | blank => cases made
    | includes raw => cases made
  · obtain ⟨raw, _, made⟩ := List.mem_map.mp default
    exact ⟨raw, made.symm⟩

/-- An exclude with a directory part that covers the root covers every directory. -/
theorem excludesDirectory_of_root {patterns : List Text} {settings : Settings} {p : Pattern}
    (inside : p ∈ (ofTexts patterns settings).excludes) (covers : p.coversDirectory [] = true)
    (part : p.directory ≠ .rootOnly) (directory : List Name) :
    (ofTexts patterns settings).excludesDirectory directory = true := by
  obtain ⟨raw, rfl⟩ := exists_compile_of_mem_excludes inside
  obtain ⟨every, root⟩ := Bool.and_eq_true_iff.mp covers
  obtain ⟨text, eq⟩ := Pattern.exists_directory_eq_ofText? raw
  have tokens : (Pattern.ofText raw).directory.toTokens ≠ [] := by
    rw [eq] at part ⊢
    exact DirectoryMatcher.toTokens_ofText?_ne_nil part
  exact List.any_eq_true.mpr ⟨_, inside, Bool.and_eq_true_iff.mpr
    ⟨every, DirectoryMatcher.acceptsInside_of_root root tokens directory⟩⟩

/--
A path below an excluded directory is not accepted, if the directory is not the root, or
the path stands directly inside it, or an exclude that covers it has a directory part.
-/
theorem acceptsPath_eq_false_below {patterns : List Text} {settings : Settings}
    {directory path : Text} {names : List Name}
    (excluded : (ofTexts patterns settings).excludesDirectory (segments directory) = true)
    (below : segments path = segments directory ++ names) (ne : names ≠ [])
    (met : segments directory ≠ [] ∨ names.length = 1 ∨
      ∃ p ∈ (ofTexts patterns settings).excludes,
        p.coversDirectory (segments directory) = true ∧ p.directory ≠ .rootOnly) :
    (ofTexts patterns settings).acceptsPath (segments path) = false := by
  have free : ∀ name ∈ names, '/' ∉ name := fun name inside =>
    (isName_of_mem_segments (below ▸ List.mem_append_right _ inside)).no_slash
  by_cases root : segments directory = []
  · obtain ⟨above, last, rfl⟩ := (List.eq_nil_or_concat' names).resolve_left ne
    rw [root] at excluded below met
    rw [below, List.nil_append]
    refine acceptsPath_concat_eq_false ?_ (free last (by simp))
    rcases met.resolve_left (absurd rfl) with direct | ⟨p, inside, covers, part⟩
    · have top : above = [] := List.eq_nil_of_length_eq_zero (by simpa using direct)
      rw [top]
      exact excluded
    · exact excludesDirectory_of_root inside covers part above
  · obtain ⟨name, rest, rfl⟩ := List.exists_cons_of_ne_nil ne
    rw [below]
    exact acceptsPath_eq_false_of_excluded _
      (excludesOnTheWay_of_excludesDirectory root excluded) name rest

/-- What was built is not accepted at any depth, and what stands beside it is. -/
theorem acceptsPath_eq_false_below_build :
    (ofTexts ["**", "!build/"] .standard).excludesDirectory (segments "build") = true ∧
      segments "build/sub/deep.txt" = segments "build" ++ (["sub", "deep.txt"] : List Text) ∧
      (ofTexts ["**", "!build/"] .standard).acceptsPath (segments "build/sub/deep.txt") =
        false ∧
      (ofTexts ["**", "!build/"] .standard).acceptsPath (segments "src/build/kept.txt") =
        true := by
  have excluded : (ofTexts ["**", "!build/"] .standard).excludesDirectory
      (segments "build") = true := by decide +kernel
  have below : segments "build/sub/deep.txt" =
      segments "build" ++ (["sub", "deep.txt"] : List Text) := by decide
  exact ⟨excluded, below, acceptsPath_eq_false_below excluded below (by decide)
    (.inl (by decide)), by decide +kernel⟩

/-- The exclude `*` covers the root, and yet a path two levels below it is accepted. -/
theorem acceptsPath_below_root :
    (ofTexts ["**", "!*"] .standard).excludesDirectory (segments "") = true ∧
      segments "a/b" = segments "" ++ (["a", "b"] : List Text) ∧
      (ofTexts ["**", "!*"] .standard).acceptsPath (segments "a/b") = true :=
  ⟨by decide +kernel, by decide, by decide +kernel⟩

end PatternSet

end FileSelect
