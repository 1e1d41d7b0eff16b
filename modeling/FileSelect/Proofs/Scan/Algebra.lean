import FileSelect.Proofs.Selection.Filter

/-!
# Pattern lists and what they find

The includes and the excludes of a list judge an entry apart from each other: some
include has to take it, and no exclude may stand against it. So the order of a list and
its repetitions do not matter, more includes find the union of what each of them finds,
and more excludes find less.
-/

namespace FileSelect

/-- Does the pattern accept the last name of the path in the directory above it? -/
def Pattern.takes (p : Pattern) (path : List Name) : Bool :=
  match path.getLast? with
  | none => false
  | some name => p.acceptsEntry path.dropLast name

namespace PatternSet

/-- The excludes of a set leave an entry and the way to it alone. -/
structure Admits (set : PatternSet) (s : Selected) : Prop where
  way : set.excludesOnTheWay [] s.path.dropLast = false
  entry : ∀ p ∈ set.excludes, p.takes s.path = false
  directory : s.isDirectory = true → set.excludesDirectory s.path = false

variable {set other : PatternSet} {s : Selected}

/-- Includes and excludes judge apart from each other. -/
theorem keeps_iff_takes :
    set.keeps s = true ↔ (∃ p ∈ set.includes, p.takes s.path = true) ∧ set.Admits s := by
  obtain ⟨path, isDirectory⟩ := s
  rw [Query.keeps_iff]
  rcases List.eq_nil_or_concat' path with rfl | ⟨above, name, rfl⟩
  · simp [acceptsPath, Pattern.takes]
  · have taken (p : Pattern) : p.takes (above ++ [name]) = p.acceptsEntry above name := by
      simp [Pattern.takes]
    simp only [acceptsPath_concat, acceptsEntry, Bool.and_eq_true, Bool.not_eq_true',
      List.any_eq_true, List.any_eq_false, Bool.not_eq_true, taken]
    constructor
    · rintro ⟨⟨way, included, entry⟩, directory⟩
      exact ⟨included, by simpa using way, by simpa [taken] using entry, directory⟩
    · rintro ⟨included, way, entry, directory⟩
      exact ⟨⟨by simpa using way, included, by simpa [taken] using entry⟩, directory⟩

theorem Admits.of_subset (fewer : other.excludes ⊆ set.excludes) (admitted : set.Admits s) :
    other.Admits s where
  way := excludesOnTheWay_of_subset fewer admitted.way
  entry p inside := admitted.entry p (fewer inside)
  directory isDirectory := excludesDirectory_of_subset fewer (admitted.directory isDirectory)

/-- More includes and fewer excludes keep what was kept. -/
theorem keeps_of_subset (more : set.includes ⊆ other.includes)
    (fewer : other.excludes ⊆ set.excludes) (kept : set.keeps s = true) :
    other.keeps s = true := by
  obtain ⟨⟨p, inside, taken⟩, admitted⟩ := keeps_iff_takes.mp kept
  exact keeps_iff_takes.mpr ⟨⟨p, more inside, taken⟩, admitted.of_subset fewer⟩

/-! ## The patterns of a list -/

variable {patterns others : List Text} {settings : Settings}

/-- Some entry of the list is an include. -/
def HasInclude (patterns : List Text) : Prop :=
  ∃ p ∈ patterns, ∃ raw, Entry.ofText p = .includes raw

/-- No entry of the list is an exclude; blank ones may be among them. -/
def ExcludeFree (patterns : List Text) : Prop :=
  ∀ p ∈ patterns, ∀ raw, Entry.ofText p ≠ .excludes raw

theorem HasInclude.of_subset (hasInclude : HasInclude patterns) (within : patterns ⊆ others) :
    HasInclude others := by
  obtain ⟨text, inside, read⟩ := hasInclude
  exact ⟨text, within inside, read⟩

theorem HasInclude.append (hasInclude : HasInclude patterns) (others : List Text) :
    HasInclude (patterns ++ others) := hasInclude.of_subset (List.subset_append_left _ _)

theorem mem_filterMap_include {p : Pattern} :
    p ∈ (patterns.map Entry.ofText).filterMap Entry.include? ↔
      ∃ text ∈ patterns, ∃ raw, Entry.ofText text = .includes raw ∧ p = .ofText raw := by
  simp only [List.mem_filterMap, List.mem_map, exists_exists_and_eq_and]
  refine exists_congr fun text => and_congr_right fun _ => ?_
  cases Entry.ofText text <;> simp [Entry.include?, eq_comm]

theorem hasInclude_iff :
    HasInclude patterns ↔ (patterns.map Entry.ofText).filterMap Entry.include? ≠ [] := by
  constructor
  · rintro ⟨text, inside, raw, read⟩
    exact List.ne_nil_of_mem (mem_filterMap_include.mpr ⟨text, inside, raw, read, rfl⟩)
  · intro ne
    obtain ⟨p, inside⟩ := List.exists_mem_of_ne_nil _ ne
    obtain ⟨text, textIn, raw, read, _⟩ := mem_filterMap_include.mp inside
    exact ⟨text, textIn, raw, read⟩

theorem includes_ofTexts (hasInclude : HasInclude patterns) :
    (ofTexts patterns settings).includes =
      (patterns.map Entry.ofText).filterMap Entry.include? := by
  rw [ofTexts]
  exact if_neg fun isEmpty => hasInclude_iff.mp hasInclude (List.isEmpty_iff.mp isEmpty)

theorem mem_includes_iff (hasInclude : HasInclude patterns) {p : Pattern} :
    p ∈ (ofTexts patterns settings).includes ↔
      ∃ text ∈ patterns, ∃ raw, Entry.ofText text = .includes raw ∧ p = .ofText raw := by
  rw [includes_ofTexts hasInclude, mem_filterMap_include]

/-- Patterns that are no excludes may be left out as far as excludes are concerned. -/
theorem excludes_append (before after : List Text) (free : ExcludeFree patterns) :
    (ofTexts (before ++ patterns ++ after) settings).excludes =
      (ofTexts (before ++ after) settings).excludes := by
  have noExclude : (patterns.map Entry.ofText).filterMap Entry.exclude? = [] := by
    rw [List.filterMap_eq_nil_iff]
    intro entry inside
    obtain ⟨text, textIn, rfl⟩ := List.mem_map.mp inside
    cases read : Entry.ofText text with
    | excludes raw => exact absurd read (free text textIn raw)
    | blank => rfl
    | includes raw => rfl
  simp [ofTexts, noExclude]

theorem excludes_subset_of_subset (within : patterns ⊆ others) :
    (ofTexts patterns settings).excludes ⊆ (ofTexts others settings).excludes := by
  have read := List.filterMap_subset Entry.exclude? (List.map_subset Entry.ofText within)
  exact List.append_subset.mpr
    ⟨List.subset_append_of_subset_left _ read, List.subset_append_right _ _⟩

/-- More patterns include more, if there are includes among the fewer. -/
theorem includes_subset_of_subset (hasInclude : HasInclude patterns) (within : patterns ⊆ others) :
    (ofTexts patterns settings).includes ⊆ (ofTexts others settings).includes := by
  intro p inside
  obtain ⟨text, textIn, raw, read, rfl⟩ := (mem_includes_iff hasInclude).mp inside
  exact (mem_includes_iff (hasInclude.of_subset within)).mpr ⟨text, within textIn, raw, read, rfl⟩

/-! ## Three laws of keeping -/

/-- Only the members of a list matter, not their order or how often they occur. -/
theorem keeps_eq_of_mem_iff (same : ∀ p, p ∈ patterns ↔ p ∈ others) (settings : Settings) :
    (ofTexts patterns settings).keeps = (ofTexts others settings).keeps := by
  have step {patterns others : List Text} (same : ∀ p, p ∈ patterns ↔ p ∈ others)
      (s : Selected) (kept : (ofTexts patterns settings).keeps s = true) :
      (ofTexts others settings).keeps s = true := by
    have fewer : (ofTexts others settings).excludes ⊆ (ofTexts patterns settings).excludes :=
      excludes_subset_of_subset fun p => (same p).mpr
    refine keeps_of_subset ?_ fewer kept
    by_cases hasInclude : HasInclude patterns
    · exact includes_subset_of_subset hasInclude fun p => (same p).mp
    · have lacksInclude : ¬ HasInclude others := fun more =>
        hasInclude (more.of_subset fun p => (same p).mpr)
      rw [hasInclude_iff, not_not] at hasInclude lacksInclude
      simp [ofTexts, hasInclude, lacksInclude]
  funext s
  exact Bool.eq_iff_iff.mpr ⟨step same s, step (fun p => (same p).symm) s⟩

/-- Together the includes of two lists keep what the includes of one of them keep. -/
theorem keeps_append_iff {first second : List Text} (excludes : List Text)
    (firstFree : ExcludeFree first) (firstSome : HasInclude first)
    (secondFree : ExcludeFree second) (secondSome : HasInclude second) :
    (ofTexts (first ++ second ++ excludes) settings).keeps s = true ↔
      (ofTexts (first ++ excludes) settings).keeps s = true ∨
        (ofTexts (second ++ excludes) settings).keeps s = true := by
  let both := first ++ second ++ excludes
  have firstIn : first ++ excludes ⊆ both := by simp [both]
  have secondIn : second ++ excludes ⊆ both := by simp [both]
  have left : HasInclude (first ++ excludes) := firstSome.append excludes
  have right : HasInclude (second ++ excludes) := secondSome.append excludes
  constructor
  · intro kept
    obtain ⟨⟨p, inside, taken⟩, admitted⟩ := keeps_iff_takes.mp kept
    obtain ⟨text, textIn, read⟩ := (mem_includes_iff (left.of_subset firstIn)).mp inside
    have keptBy {list : List Text} (hasInclude : HasInclude list) (within : list ⊆ both)
        (textIn : text ∈ list) : (ofTexts list settings).keeps s = true :=
      keeps_iff_takes.mpr ⟨⟨p, (mem_includes_iff hasInclude).mpr ⟨text, textIn, read⟩, taken⟩,
        admitted.of_subset (excludes_subset_of_subset within)⟩
    rcases List.mem_append.mp textIn with inLists | inExcludes
    · rcases List.mem_append.mp inLists with inFirst | inSecond
      · exact .inl (keptBy left firstIn (List.mem_append_left _ inFirst))
      · exact .inr (keptBy right secondIn (List.mem_append_left _ inSecond))
    · exact .inl (keptBy left firstIn (List.mem_append_right _ inExcludes))
  · rintro (kept | kept)
    · refine keeps_of_subset (includes_subset_of_subset left firstIn) ?_ kept
      rw [excludes_append first excludes secondFree]
      exact List.Subset.refl _
    · refine keeps_of_subset (includes_subset_of_subset right secondIn) ?_ kept
      have same : (ofTexts (first ++ (second ++ excludes)) settings).excludes =
          (ofTexts (second ++ excludes) settings).excludes :=
        excludes_append [] (second ++ excludes) firstFree
      rw [List.append_assoc, same]
      exact List.Subset.refl _

/-- An exclude, wherever it stands in the list, keeps nothing new. -/
theorem keeps_of_keeps_exclude {before after : List Text} {text raw : Text}
    (exclude : Entry.ofText text = .excludes raw)
    (kept : (ofTexts (before ++ text :: after) settings).keeps s = true) :
    (ofTexts (before ++ after) settings).keeps s = true := by
  have read : ((before ++ text :: after).map Entry.ofText).filterMap Entry.include? =
      ((before ++ after).map Entry.ofText).filterMap Entry.include? := by
    rw [List.map_append, List.map_cons, List.filterMap_append, exclude,
      List.filterMap_cons_none rfl, List.map_append, List.filterMap_append]
  have included : (ofTexts (before ++ text :: after) settings).includes =
      (ofTexts (before ++ after) settings).includes := by
    simp only [ofTexts, read]
  have within : before ++ after ⊆ before ++ text :: after :=
    ((List.sublist_cons_self text after).append_left before).subset
  refine keeps_of_subset ?_ (excludes_subset_of_subset within) kept
  rw [included]
  exact List.Subset.refl _

end PatternSet

/-! ## The laws of scanning -/

namespace Query

/-- A scan of `root` by a list of patterns. -/
def scan (d : Disk) (root : Text) (patterns : List Text) (settings : Settings) :
    Except Failure (List Found) :=
  (ofPatterns d root patterns settings).map fun q => q.run d settings.followLinks

/-- Unless the root is a file, a scan fails for its patterns alone. -/
theorem scan_eq {d : Disk} {root : Text} (notFile : d.rootKind root ≠ .file)
    (patterns : List Text) (settings : Settings) :
    scan d root patterns settings = (PatternSet.ofPatterns patterns settings).map fun set =>
      run ⟨root, d.rootKind root, set⟩ d settings.followLinks := by
  rw [scan, ofPatterns_eq notFile]
  cases PatternSet.ofPatterns patterns settings <;> rfl

/-- In a directory the entries of its listing are filtered. -/
theorem scan_directory {d : Disk} {root : Text} (directory : d.rootKind root = .directory)
    (patterns : List Text) (settings : Settings) :
    scan d root patterns settings = (PatternSet.ofPatterns patterns settings).map fun set =>
      (((d.listing settings.followLinks root).entries []).filter set.keeps).map
        (Found.below root) := by
  have notFile : d.rootKind root ≠ .file := by simp [directory]
  rw [scan_eq notFile, directory]
  exact congrArg (Except.map · _) (funext fun set => found_eq_map_filter _ _)

/-- Unless the root is a file, one list of entries is filtered, whatever the patterns are. -/
theorem exists_scan_eq {d : Disk} {root : Text} (notFile : d.rootKind root ≠ .file)
    (settings : Settings) : ∃ entries : List Selected,
      entries.Sublist ((d.listing settings.followLinks root).entries []) ∧ ∀ patterns,
        scan d root patterns settings = (PatternSet.ofPatterns patterns settings).map fun _ =>
          (entries.filter (PatternSet.ofTexts patterns settings).keeps).map
            (Found.below root) := by
  cases kind : d.rootKind root with
  | file => exact absurd kind notFile
  | missing =>
      refine ⟨[], List.nil_sublist _, fun patterns => ?_⟩
      rw [scan_eq notFile, kind]
      rfl
  | directory =>
      refine ⟨_, List.Sublist.refl _, fun patterns => ?_⟩
      rw [scan_directory kind, PatternSet.map_ofPatterns]

/--
Scans of one root under one configuration. The order of a list of patterns and its
repetitions do not matter; with two lists that have includes and no excludes a scan finds
the union of what it finds with each of them, whatever other patterns follow; and with one
more exclude it finds no more. Only a list that is refused has no scan.
-/
theorem scan_algebra {d : Disk} {root : Text} (notFile : d.rootKind root ≠ .file)
    (settings : Settings) : ∃ found : List Text → List Found,
      (∀ patterns, scan d root patterns settings =
        (PatternSet.ofPatterns patterns settings).map fun _ => found patterns) ∧
      (∀ patterns others, (∀ p, p ∈ patterns ↔ p ∈ others) → found patterns = found others) ∧
      (∀ first second excludes,
        PatternSet.ExcludeFree first → PatternSet.HasInclude first →
        PatternSet.ExcludeFree second → PatternSet.HasInclude second →
        ∀ f, f ∈ found (first ++ second ++ excludes) ↔
          f ∈ found (first ++ excludes) ∨ f ∈ found (second ++ excludes)) ∧
      ∀ before text raw after, PatternSet.Entry.ofText text = .excludes raw →
        (found (before ++ text :: after)).Sublist (found (before ++ after)) := by
  obtain ⟨entries, _, scanned⟩ := exists_scan_eq notFile settings
  refine ⟨_, scanned, ?_, ?_, ?_⟩
  · intro patterns others same
    rw [PatternSet.keeps_eq_of_mem_iff same]
  · intro first second excludes firstFree firstSome secondFree secondSome f
    simp only [List.mem_map, List.mem_filter, PatternSet.keeps_append_iff excludes firstFree
      firstSome secondFree secondSome, and_or_left, or_and_right, exists_or]
  · intro before text raw after exclude
    exact (List.monotone_filter_right entries
      fun s => PatternSet.keeps_of_keeps_exclude exclude).map (Found.below root)

/-- Text files and what stands below a directory, found together and with an exclude. -/
theorem scan_algebra_built : Disk.built.rootKind "/" ≠ .file ∧
    ∃ found : List Text → List Found,
      (∀ patterns, scan Disk.built "/" patterns .standard =
        (PatternSet.ofPatterns patterns .standard).map fun _ => found patterns) ∧
      PatternSet.refusal? ["*.txt", "build/**", "!build/"] .standard = none ∧
      found ["*.txt", "build/**", "*.txt"] = found ["build/**", "*.txt"] ∧
      (∀ f, f ∈ found ["*.txt", "build/**", "!build/"] ↔
        f ∈ found ["*.txt", "!build/"] ∨ f ∈ found ["build/**", "!build/"]) ∧
      (found ["*.txt", "!build/"]).Sublist (found ["*.txt"]) := by
  have notFile : Disk.built.rootKind "/" ≠ .file := by decide
  have free (pattern : Text) (raw : Text) (read : PatternSet.Entry.ofText pattern = .includes raw) :
      PatternSet.ExcludeFree [pattern] ∧ PatternSet.HasInclude [pattern] :=
    ⟨List.forall_mem_singleton.mpr fun other => by rw [read]; exact PatternSet.Entry.noConfusion,
      pattern, List.mem_singleton_self pattern, raw, read⟩
  have texts := free "*.txt" "*.txt" rfl
  have below := free "build/**" "build/**" rfl
  obtain ⟨found, scanned, congr, union, fewer⟩ := scan_algebra notFile .standard
  refine ⟨notFile, found, scanned, by decide +kernel, congr _ _ (by simp [or_comm]), ?_, ?_⟩
  · exact union ["*.txt"] ["build/**"] ["!build/"] texts.1 texts.2 below.1 below.2
  · exact fewer ["*.txt"] "!build/" "build/" [] rfl

end Query

end FileSelect
