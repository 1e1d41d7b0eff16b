import FileSelect.Proofs.Glob.Language
import FileSelect.Proofs.Scan.Algebra

/-!
# Names that are excluded at any depth

The pattern `**/name/**` covers every directory that has the name on its path, as its own
name or above it. A scan that excludes the pattern finds no such directory and nothing
inside one. The pattern says nothing about a file of that name, which is still found.
-/

namespace FileSelect

/-- A name that a pattern takes literally, in whatever segment it is written. -/
structure IsPlainSegment (name : Text) : Prop where
  isName : IsName name
  trimmed : Text.trim name = name
  plain : hasWildcard name = false
  not_dot : name ≠ ['.']

/-- The pattern `**/name/**` for what stands inside directories of that name. -/
def insideOf (name : Text) : Text :=
  joinSegments [Token.recursiveText, name, Token.recursiveText]

theorem IsPlainSegment.ne_recursive {name : Text} (segment : IsPlainSegment name) :
    name ≠ Token.recursiveText := by
  rintro rfl
  exact Bool.noConfusion segment.plain

namespace Clean

theorem hasNoRun_of_plain {name : Text} (plain : hasWildcard name = false) : HasNoRun name :=
  hasNoRun_of_notMem fun star => List.any_eq_false.mp plain '*' star rfl

/-- A pattern that ends in `**` is completed by a star, and else stays as it is. -/
theorem cleanParts_concat_recursive {parts : List Text}
    (normal : IsNormal (parts ++ [Token.recursiveText, ['*']])) :
    cleanParts (parts ++ [Token.recursiveText]) = parts ++ [Token.recursiveText, ['*']] := by
  have isPart : ∀ part ∈ parts, IsPart part := fun part inside =>
    normal.isPart part (List.mem_append_left _ inside)
  have inner (bad : Text) (absent : ∀ part ∈ parts, part ≠ bad) :
      dropInner bad (parts ++ [Token.recursiveText]) = parts ++ [Token.recursiveText] := by
    rw [dropInner_concat, List.filter_eq_self.mpr fun part h => decide_eq_true (absent part h)]
  have notDot : ∀ part ∈ parts, part ≠ ['.'] := fun part inside =>
    normal.dot_last part (by simp [inside])
  have expanded : (parts ++ [Token.recursiveText]).flatMap (expand true) =
      parts ++ [Token.recursiveText] := by
    rw [List.flatMap_append, flatMap_expand_of_isPart isPart, List.flatMap_singleton,
      expand_recursiveText]
  rw [cleanParts, inner ['.'] notDot, inner [] fun part h => (isPart part h).isName.ne_nil,
    expanded, completeParts_concat]
  exact mergeParts_eq_self normal.apart

/-- The pattern for the inside of directories, with a segment for the entries there. -/
theorem clean_insideOf {name : Text} (segment : IsPlainSegment name) :
    clean (insideOf name) =
      joinSegments [Token.recursiveText, name, Token.recursiveText, ['*']] := by
  have namePart : IsPart name :=
    ⟨segment.isName, segment.trimmed, .inr (hasNoRun_of_plain segment.plain)⟩
  have normal : IsNormal ([Token.recursiveText, name] ++ [Token.recursiveText, ['*']]) := by
    have starSingle : ['*'] ≠ Token.recursiveText := by decide
    refine ⟨by simp, ?_, ?_, ?_, by simp [starSingle]⟩
    · simp [isPart_recursiveText, namePart, isPart_star]
    · simp [segment.not_dot, Token.recursiveText]
    · simp [Apart, segment.ne_recursive, starSingle]
  have free : ∀ part ∈ [Token.recursiveText, name, Token.recursiveText], '/' ∉ part := by
    simp [segment.isName.no_slash, isPart_recursiveText.isName.no_slash]
  have cut := Text.split_join (List.cons_ne_nil _ _) free
  rw [clean_eq_joinSegments, insideOf]
  rw [show Text.split '/' (joinSegments _) = _ from cut]
  simp only [List.map_cons, List.map_nil, segment.trimmed, isPart_recursiveText.trimmed]
  exact congrArg joinSegments (cleanParts_concat_recursive normal)

end Clean

namespace Pattern

/-- The pattern for the inside covers the directories with the name on their path. -/
theorem coversDirectory_insideOf {name : Text} (segment : IsPlainSegment name)
    {path : List Name} : (ofText (insideOf name)).coversDirectory path = true ↔ name ∈ path := by
  have isName : ∀ part ∈ [Token.recursiveText, name, Token.recursiveText] ++ [['*']],
      IsName part := by
    simp [segment.isName, Clean.isPart_recursiveText.isName, Clean.isPart_star.isName]
  have compiled := ofText_eq (Clean.clean_insideOf segment) isName
  have tokens : (DirectoryMatcher.ofSegments
      [Token.recursiveText, name, Token.recursiveText]).toTokens =
      [.recursive, .literal name, .recursive] := by
    rw [DirectoryMatcher.toTokens_ofSegments, List.map_cons, List.map_cons,
      Token.ofSegment_of_plain segment.plain]
    rfl
  have all : (NameMatcher.ofText ['*']).acceptsAll = true := by decide
  rw [coversDirectory, compiled]
  dsimp only
  have single : (Token.literal name).isRecursive = false := rfl
  rw [all, Bool.true_and, DirectoryMatcher.acceptsInside_iff_matches, tokens,
    Tokens.matches_recursive_iff]
  simp only [Tokens.matches_single_iff single, Tokens.matches_recursive_iff,
    Tokens.matches_nil_iff, Token.accepts, beq_iff_eq]
  constructor
  · rintro ⟨above, _, rfl, _, below, rfl, rfl, _⟩
    simp
  · intro inside
    obtain ⟨above, below, rfl⟩ := List.append_of_mem inside
    exact ⟨above, _, rfl, name, below, rfl, rfl, below, [], (List.append_nil below).symm, rfl⟩

end Pattern

namespace PatternSet

variable {set : PatternSet} {name : Name} {s : Selected}

/-- Where directories with the name on their path are covered, an entry with it is a file. -/
theorem isDirectory_eq_false_of_covered
    (covered : ∀ path, name ∈ path → set.excludesDirectory path = true)
    (admitted : set.Admits s) (inside : name ∈ s.path) :
    s.isDirectory = false ∧ ∃ above, s.path = above ++ [name] ∧ name ∉ above := by
  have file : s.isDirectory = false := by
    by_contra directory
    have free := admitted.directory (eq_true_of_ne_false directory)
    rw [covered s.path inside] at free
    cases free
  have way := admitted.way
  rcases List.eq_nil_or_concat' s.path with top | ⟨above, last, eq⟩
  · rw [top] at inside
    cases inside
  · rw [eq, List.dropLast_concat] at way
    have notAbove : name ∉ above := by
      intro onTheWay
      rcases List.eq_nil_or_concat' above with rfl | ⟨front, parent, rfl⟩
      · cases onTheWay
      · rw [excludesOnTheWay_concat, covered _ onTheWay, Bool.or_true] at way
        cases way
    rw [eq, List.mem_append, List.mem_singleton] at inside
    obtain rfl := inside.resolve_left notAbove
    exact ⟨file, above, eq, notAbove⟩

/-- A list excludes the inside of directories by itself or by the configuration. -/
def ExcludesInside (patterns : List Text) (settings : Settings) (name : Text) : Prop :=
  (∃ p ∈ patterns, Entry.ofText p = .excludes (insideOf name)) ∨
    insideOf name ∈ settings.defaultExcludes

theorem mem_excludes_ofTexts {patterns : List Text} {settings : Settings}
    (excluded : ExcludesInside patterns settings name) :
    Pattern.ofText (insideOf name) ∈ (ofTexts patterns settings).excludes := by
  rcases excluded with ⟨p, inside, read⟩ | byDefault
  · refine List.mem_append_left _ (List.mem_filterMap.mpr ⟨.excludes (insideOf name), ?_, rfl⟩)
    exact List.mem_map.mpr ⟨p, inside, read⟩
  · exact List.mem_append_right _ (List.mem_map_of_mem byDefault)

theorem excludesDirectory_of_mem {patterns : List Text} {settings : Settings}
    (segment : IsPlainSegment name) (excluded : ExcludesInside patterns settings name)
    (path : List Name) (inside : name ∈ path) :
    (ofTexts patterns settings).excludesDirectory path = true :=
  List.any_eq_true.mpr ⟨_, mem_excludes_ofTexts excluded,
    (Pattern.coversDirectory_insideOf segment).mpr inside⟩

end PatternSet

namespace Query

/--
A scan that excludes the inside of directories of a name finds an entry with the name on
its path only if this is the name of a file, and no directory above the file has it. So
nothing with the name on its path is found as long as no file of that name is. Only a list
that is refused has no scan.
-/
theorem scan_excludes_inside {d : Disk} (wf : d.WellFormed) {root : Text}
    (notFile : d.rootKind root ≠ .file) {name : Text} (segment : IsPlainSegment name)
    {patterns : List Text} {settings : Settings}
    (excluded : PatternSet.ExcludesInside patterns settings name) :
    ∃ found, scan d root patterns settings =
        (PatternSet.ofPatterns patterns settings).map (fun _ => found) ∧
      (∀ f ∈ found, name ∈ segments f.relative → f.isDirectory = false ∧
        ∃ above, segments f.relative = above ++ [name] ∧ name ∉ above) ∧
      ((∀ f ∈ found, name ∉ segments f.relative) ↔
        ∀ f ∈ found, f.isDirectory = false → (segments f.relative).getLast? ≠ some name) := by
  obtain ⟨entries, listed, scanned⟩ := exists_scan_eq notFile settings
  refine ⟨_, scanned patterns, ?_⟩
  generalize setEq : PatternSet.ofTexts patterns settings = set
  have files : ∀ f ∈ (entries.filter set.keeps).map (Found.below root),
      name ∈ segments f.relative → f.isDirectory = false ∧
        ∃ above, segments f.relative = above ++ [name] ∧ name ∉ above := by
    intro f inside
    obtain ⟨s, kept, rfl⟩ := List.mem_map.mp inside
    obtain ⟨entry, kept⟩ := List.mem_filter.mp kept
    rw [segments_relative_below (Disk.wellFormed_listing wf settings.followLinks root) root
      (listed.subset entry)]
    refine PatternSet.isDirectory_eq_false_of_covered ?_ (PatternSet.keeps_iff_takes.mp kept).2
    exact setEq ▸ PatternSet.excludesDirectory_of_mem segment excluded
  refine ⟨files, fun free f inside _ last => ?_, fun free f inside onPath => ?_⟩
  · exact free f inside (List.mem_of_getLast? last)
  · obtain ⟨file, above, eq, _⟩ := files f inside onPath
    exact free f inside file (by rw [eq, List.getLast?_concat])

/-- Below a directory without links a scan finds what the patterns keep. -/
theorem exists_scan_plain {d : Disk} (wf : d.WellFormed) {root : Text} {place : Place}
    (led : d.look .follow root = .ok (place, .directory)) (plain : d.IsPlainBelow place)
    (patterns : List Text) (settings : Settings) :
    ∃ found, scan d root patterns settings =
        (PatternSet.ofPatterns patterns settings).map (fun _ => found) ∧
      ∀ names node, names ≠ [] → d.find? (place ++ names) = some node →
        (PatternSet.ofTexts patterns settings).keeps ⟨names, node.isDirectory⟩ = true →
        ⟨root, joinSegments names, node.isDirectory⟩ ∈ found := by
  have directory : d.rootKind root = .directory := by rw [Disk.rootKind, led]
  refine ⟨_, (scan_directory directory patterns settings).trans (PatternSet.map_ofPatterns _ _ _),
    fun names node ne present kept => ?_⟩
  refine List.mem_map.mpr ⟨⟨names, node.isDirectory⟩, List.mem_filter.mpr ⟨?_, kept⟩, rfl⟩
  exact (Disk.mem_entries_listing wf led plain settings.followLinks).mpr ⟨ne, node, present, rfl⟩

/-- A repository with a second work tree, which has a file `.git` instead of a directory. -/
def worktrees : Disk :=
  ((((⟨[], []⟩ : Disk).put [".git"] .directory).put [".git", "HEAD"] (.file .empty)).put
    ["sub"] .directory).put ["sub", ".git"] (.file .empty)

theorem wellFormed_worktrees : worktrees.WellFormed := by
  have wf := Disk.WellFormed.nothing []
  have wf := wf.put_free [] ".git" (by decide) rfl rfl .directory
  have wf := wf.put_free [".git"] "HEAD" (by decide) rfl rfl (.file .empty)
  have wf := wf.put_free [] "sub" (by decide) rfl rfl .directory
  exact wf.put_free ["sub"] ".git" (by decide) rfl rfl (.file .empty)

theorem isPlainBelow_worktrees (place : Place) : worktrees.IsPlainBelow place := by
  refine .put (.put (.put (.put (.nothing [] place) (by decide) ?_) (by decide) ?_) (by decide) ?_)
    (by decide) ?_ <;> exact fun _ link => nomatch link

theorem look_worktrees : worktrees.look .follow "/" = .ok ([], .directory) := rfl

theorem refusal?_recursive_standard : PatternSet.refusal? ["**"] .standard = none := by
  decide +kernel

theorem isPlainSegment_git : IsPlainSegment ".git" :=
  ⟨⟨by decide, by decide⟩, by decide, by decide, by decide⟩

/-- By default the directory `.git` is passed over, and a directory beside it is found. -/
theorem scan_excludes_inside_worktrees : worktrees.WellFormed ∧
    worktrees.rootKind "/" ≠ .file ∧ IsPlainSegment ".git" ∧
    PatternSet.ExcludesInside ["**"] .standard ".git" ∧
    ∃ found, scan worktrees "/" ["**"] .standard = .ok found ∧ ⟨"/", "sub", true⟩ ∈ found ∧
      ⟨"/", ".git", true⟩ ∉ found ∧ ⟨"/", ".git/HEAD", false⟩ ∉ found := by
  have notFile : worktrees.rootKind "/" ≠ .file := by decide
  have excluded : PatternSet.ExcludesInside ["**"] .standard ".git" := .inr (by decide)
  refine ⟨wellFormed_worktrees, notFile, isPlainSegment_git, excluded, ?_⟩
  obtain ⟨found, scanned, files, _⟩ :=
    scan_excludes_inside wellFormed_worktrees notFile isPlainSegment_git excluded
  obtain ⟨same, again, kept⟩ := exists_scan_plain wellFormed_worktrees look_worktrees
    (isPlainBelow_worktrees []) ["**"] .standard
  rw [PatternSet.ofPatterns_of_accepted refusal?_recursive_standard] at scanned again
  cases again.symm.trans scanned
  refine ⟨found, scanned, ?_, fun inside => ?_, fun inside => ?_⟩
  · exact kept ["sub"] .directory (by decide) rfl (by decide +kernel)
  · cases (files _ inside (by decide)).1
  · obtain ⟨_, above, eq, _⟩ := files _ inside (by decide)
    have last := congrArg List.getLast? eq
    rw [List.getLast?_concat] at last
    revert last
    decide

/-- The file `.git` of the second work tree is found, although the pattern is excluded. -/
theorem scan_finds_excluded_worktrees : worktrees.WellFormed ∧
    worktrees.rootKind "/" ≠ .file ∧ IsPlainSegment ".git" ∧
    PatternSet.ExcludesInside ["**"] .standard ".git" ∧
    ∃ found, scan worktrees "/" ["**"] .standard = .ok found ∧
      ⟨"/", "sub/.git", false⟩ ∈ found ∧ Text.ofString ".git" ∈ segments "sub/.git" := by
  refine ⟨wellFormed_worktrees, by decide, isPlainSegment_git, .inr (by decide), ?_⟩
  obtain ⟨found, scanned, kept⟩ := exists_scan_plain wellFormed_worktrees look_worktrees
    (isPlainBelow_worktrees []) ["**"] .standard
  rw [PatternSet.ofPatterns_of_accepted refusal?_recursive_standard] at scanned
  refine ⟨found, scanned, ?_, by decide⟩
  exact kept ["sub", ".git"] (.file .empty) (by decide) rfl (by decide +kernel)

end Query

end FileSelect
