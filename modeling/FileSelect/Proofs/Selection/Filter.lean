import FileSelect.Proofs.Selection.Glob

/-!
# Filtering and scanning

To filter what has been gathered by `**` judges every path by its text. That is how a
scan judges files, but a scan also passes over a directory that an exclude covers, which
its own path does not show. So both agree unless such a directory is left by the filter.
-/

namespace FileSelect

namespace PatternSet

/-! ## Fewer excludes -/

section Fewer

variable {set other : PatternSet} (fewer : other.excludes ⊆ set.excludes)

include fewer

theorem excludesDirectory_of_subset {path : List Name}
    (free : set.excludesDirectory path = false) : other.excludesDirectory path = false := by
  rw [excludesDirectory, List.any_eq_false] at free ⊢
  exact fun p inside => free p (fewer inside)

theorem excludesOnTheWay_of_subset {above path : List Name}
    (free : set.excludesOnTheWay above path = false) :
    other.excludesOnTheWay above path = false := by
  induction path generalizing above with
  | nil => rfl
  | cons name path ih =>
      rw [excludesOnTheWay, Bool.or_eq_false_iff] at free ⊢
      exact ⟨excludesDirectory_of_subset fewer free.1, ih free.2⟩

/-- What a set accepts is accepted with fewer excludes by every set that includes it. -/
theorem acceptsEntry_of_subset {above : List Name} {name : Name}
    (included : other.includes.any (·.acceptsEntry above name) = true)
    (accepted : set.acceptsEntry above name = true) : other.acceptsEntry above name = true := by
  rw [acceptsEntry, Bool.and_eq_true, Bool.not_eq_true'] at accepted ⊢
  refine ⟨included, ?_⟩
  rw [List.any_eq_false] at accepted ⊢
  exact fun p inside => accepted.2 p (fewer inside)

end Fewer

/-! ## Everything -/

/-- The pattern that includes every entry. -/
def everything : List Text := ["**"]

theorem includes_everything (above : List Name) {name : Name} (named : IsName name)
    (settings : Settings) :
    (ofTexts everything settings).includes.any (·.acceptsEntry above name) = true := by
  have included : (ofTexts everything settings).includes = [Pattern.ofText ['*', '*']] := rfl
  have compiled : Pattern.ofText ['*', '*'] =
      ⟨['*', '*'], "**/*", .anyDepth, .wildcard ⟨['*']⟩⟩ := by decide +kernel
  have accepted : (⟨['*']⟩ : Wildcard).accepts name = true := by
    rw [Wildcard.accepts_iff_matches]
    have free := named.no_slash
    clear named
    induction name with
    | nil => exact .starEnd .done
    | cons c name ih =>
        have letter : c ≠ '/' := fun same => free (same ▸ List.mem_cons_self)
        exact .starStep letter (ih fun inside => free (List.mem_cons_of_mem c inside))
  rw [included, List.any_cons, compiled, Pattern.acceptsEntry, NameMatcher.accepts, accepted]
  rfl

theorem excludes_everything_subset (patterns : List Text) (settings : Settings) :
    (ofTexts everything settings).excludes ⊆ (ofTexts patterns settings).excludes :=
  List.subset_append_right _ (settings.defaultExcludes.map Pattern.ofText)

/-- With other patterns that are accepted, so is `**` under the same settings. -/
theorem refusal?_everything {patterns : List Text} {settings : Settings}
    (accepted : refusal? patterns settings = none) : refusal? everything settings = none := by
  obtain ⟨_, excludes⟩ := refusal?_eq_none_iff.mp accepted
  refine refusal?_eq_none_iff.mpr ⟨List.forall_mem_singleton.mpr refusal?_recursive, ?_⟩
  exact fun p inside => excludes p (excludes_everything_subset patterns settings inside)

/-- What some patterns keep is kept by `**` under the same settings. -/
theorem keeps_everything {patterns : List Text} {settings : Settings} {s : Selected}
    (isName : ∀ name ∈ s.path, IsName name)
    (kept : (ofTexts patterns settings).keeps s = true) :
    (ofTexts everything settings).keeps s = true := by
  have fewer := excludes_everything_subset patterns settings
  obtain ⟨accepted, free⟩ := Query.keeps_iff.mp kept
  refine Query.keeps_iff.mpr
    ⟨?_, fun directory => excludesDirectory_of_subset fewer (free directory)⟩
  rcases List.eq_nil_or_concat' s.path with top | ⟨above, name, eq⟩
  · rw [top] at accepted
    cases accepted
  · rw [eq] at isName accepted ⊢
    rw [acceptsPath_concat, Bool.and_eq_true, Bool.not_eq_true'] at accepted ⊢
    have named := isName name (List.mem_append_right above List.mem_cons_self)
    exact ⟨excludesOnTheWay_of_subset fewer accepted.1,
      acceptsEntry_of_subset fewer (includes_everything above named settings) accepted.2⟩

end PatternSet

namespace Selection

theorem filter_of_accepted {s : Selection} {patterns : List Text}
    (accepted : PatternSet.refusal? patterns s.settings = none) :
    s.filter patterns = .ok { s with members := s.members.filter fun m =>
      (PatternSet.ofTexts patterns s.settings).acceptsPath (segments m.relative) } := by
  rw [filter, PatternSet.ofPatterns_of_accepted accepted]
  rfl

theorem filter_of_refused {s : Selection} {patterns : List Text} {failure : Failure}
    (refused : PatternSet.refusal? patterns s.settings = some failure) :
    s.filter patterns = .error failure := by
  rw [filter, PatternSet.ofPatterns_eq_error_iff.mpr refused]
  rfl

/-- A directory that an exclude of the patterns covers. -/
def isCovered (d : Disk) (set : PatternSet) (m : Member) : Bool :=
  m.isDirectory d && set.excludesDirectory (segments m.relative)

section Below

variable {d : Disk} {root : Text} {place : Place} (wf : d.WellFormed)
variable (led : d.look .follow root = .ok (place, .directory)) (plain : d.IsPlainBelow place)
variable {followLinks : Bool} {s : Selected}

include wf led plain

omit led plain in
theorem segments_relative_of_mem_entries (entry : s ∈ (d.listing followLinks root).entries []) :
    segments (Member.below root place s.path).relative = s.path :=
  Query.segments_relative_below (Disk.wellFormed_listing wf followLinks root) root entry

theorem isCovered_below (entry : s ∈ (d.listing followLinks root).entries [])
    (set : PatternSet) :
    isCovered d set (Member.below root place s.path) =
      (s.isDirectory && set.excludesDirectory s.path) := by
  obtain ⟨_, node, found, kind⟩ := (Disk.mem_entries_listing wf led plain followLinks).mp entry
  rw [isCovered, segments_relative_of_mem_entries wf entry, kind,
    Member.isDirectory_eq wf found fun target link => plain s.path target (link ▸ found)]

/-- The filter judges by the settings that everything was gathered under. -/
theorem exists_filter_everything {patterns : List Text} {settings : Settings}
    (accepted : PatternSet.refusal? patterns settings = none) : ∃ kept,
    ((empty settings).glob d root PatternSet.everything).1.filter patterns = .ok kept ∧
      kept.members = ((empty settings).glob d root PatternSet.everything).1.members.filter
        fun m => (PatternSet.ofTexts patterns settings).acceptsPath (segments m.relative) := by
  rw [glob_eq wf led plain]
  exact ⟨_, filter_of_accepted accepted, rfl⟩

variable {patterns : List Text} {settings : Settings} {kept : Selection}
variable (accepted : PatternSet.refusal? patterns settings = none)
variable (filtered :
  ((empty settings).glob d root PatternSet.everything).1.filter patterns = .ok kept)

include accepted filtered

/-- The filter of everything leaves the entries whose paths are accepted. -/
theorem members_filter_everything :
    kept.members =
      ((((d.listing settings.followLinks root).entries []).filter
        (PatternSet.ofTexts PatternSet.everything settings).keeps).filter
          fun s => (PatternSet.ofTexts patterns settings).acceptsPath s.path).map
            fun s => Member.below root place s.path := by
  obtain ⟨_, same, members⟩ := exists_filter_everything wf led plain accepted
  cases filtered.symm.trans same
  rw [members, glob_eq wf led plain,
    PatternSet.selects_eq (PatternSet.refusal?_everything accepted)]
  dsimp only
  rw [List.filter_map]
  refine congrArg _ (List.filter_congr fun s kept => ?_)
  have entry := (List.mem_filter.mp kept).1
  exact congrArg _ (segments_relative_of_mem_entries wf entry)

/-- Gathering leaves out what is covered, and else what the filter leaves out. -/
theorem members_glob_eq_filter :
    ((empty settings).glob d root patterns).1.members =
      kept.members.filter
        fun m => !isCovered d (PatternSet.ofTexts patterns settings) m := by
  rw [members_filter_everything wf led plain accepted filtered, glob_eq wf led plain,
    PatternSet.selects_eq accepted, List.filter_map, List.filter_filter, List.filter_filter]
  refine congrArg _ (List.filter_congr fun s entry => ?_)
  have isName := Listing.isName_of_mem_entries
    (Disk.wellFormed_listing wf settings.followLinks root) (List.forall_mem_nil IsName) entry
  rw [Function.comp_apply, isCovered_below wf led plain entry, Bool.eq_iff_iff, Bool.and_eq_true,
    Bool.and_eq_true]
  constructor
  · intro kept
    have judged := kept
    rw [PatternSet.keeps, Bool.and_eq_true] at judged
    exact ⟨⟨judged.2, judged.1⟩, PatternSet.keeps_everything isName kept⟩
  · rintro ⟨⟨free, accepted⟩, _⟩
    rw [PatternSet.keeps, accepted, free]
    rfl

/-- Both find the same relative paths unless the filter leaves something covered. -/
theorem relativePaths_agree_iff :
    (∀ relative, relative ∈ ((empty settings).glob d root patterns).1.relativePaths ↔
        relative ∈ kept.relativePaths) ↔
      ∀ m ∈ kept.members, isCovered d (PatternSet.ofTexts patterns settings) m = false := by
  have distinct : (kept.members.map Member.relative).Nodup := by
    rw [members_filter_everything wf led plain accepted filtered, List.map_map]
    exact (Listing.nodup_written_paths
      (Disk.wellFormed_listing wf settings.followLinks root)).sublist
        ((List.filter_sublist.trans List.filter_sublist).map _)
  rw [relativePaths, relativePaths, members_glob_eq_filter wf led plain accepted filtered]
  constructor
  · intro same m inside
    obtain ⟨n, left, eq⟩ := List.mem_map.mp ((same m.relative).mpr (List.mem_map_of_mem inside))
    obtain ⟨nIn, free⟩ := List.mem_filter.mp left
    rw [List.inj_on_of_nodup_map distinct nIn inside eq] at free
    rwa [Bool.not_eq_true'] at free
  · intro free relative
    rw [List.filter_eq_self.mpr fun m inside => by rw [free m inside]; rfl]

omit accepted filtered

/--
To gather by patterns is to gather everything, to filter it by the patterns, and to leave
out the directories that an exclude covers. The filter alone gives the same relative paths
exactly when it leaves no such directory. Patterns that are refused fail alike in both.
-/
theorem glob_eq_filter_everything (patterns : List Text) (settings : Settings) :
    let everything := (empty settings).glob d root PatternSet.everything
    let chosen := (empty settings).glob d root patterns
    let covered := isCovered d (PatternSet.ofTexts patterns settings)
    match PatternSet.refusal? patterns settings with
    | some failure => chosen.2 = some failure ∧ everything.1.filter patterns = .error failure
    | none => everything.2 = none ∧ chosen.2 = none ∧
        ∃ kept, everything.1.filter patterns = .ok kept ∧
          chosen.1.members = kept.members.filter (fun m => !covered m) ∧
          ((∀ relative, relative ∈ chosen.1.relativePaths ↔ relative ∈ kept.relativePaths) ↔
            ∀ m ∈ kept.members, covered m = false) := by
  intro everything chosen covered
  have whole : everything.2 = PatternSet.refusal? PatternSet.everything settings :=
    congrArg Prod.snd (glob_eq wf led plain PatternSet.everything settings)
  have ends : chosen.2 = PatternSet.refusal? patterns settings :=
    congrArg Prod.snd (glob_eq wf led plain patterns settings)
  have given : everything.1.settings = settings :=
    congrArg (fun result => result.1.settings)
      (glob_eq wf led plain PatternSet.everything settings)
  cases accepted : PatternSet.refusal? patterns settings with
  | some failure => exact ⟨ends.trans accepted, filter_of_refused (given ▸ accepted)⟩
  | none =>
      obtain ⟨kept, filtered, _⟩ := exists_filter_everything wf led plain accepted
      exact ⟨whole.trans (PatternSet.refusal?_everything accepted), ends.trans accepted, kept,
        filtered, members_glob_eq_filter wf led plain accepted filtered,
        relativePaths_agree_iff wf led plain accepted filtered⟩

end Below

theorem look_built : Disk.built.look .follow "/" = .ok ([], .directory) := rfl

theorem mem_glob_built_iff {patterns : List Text} {m : Member} :
    m ∈ ((empty .standard).glob Disk.built "/" patterns).1.members ↔
      ∃ entry ∈ Disk.built.nodes, PatternSet.selects patterns .standard
        ⟨entry.1, entry.2.isDirectory⟩ = true ∧ m = Member.below "/" [] entry.1 := by
  rw [mem_glob_iff Disk.wellFormed_built look_built (Disk.isPlainBelow_built [])]
  constructor
  · rintro ⟨names, node, ne, found, kept, rfl⟩
    exact ⟨(names, node), Disk.wellFormed_built.mem_nodes_iff.mpr ⟨ne, found⟩, kept, rfl⟩
  · rintro ⟨⟨names, node⟩, present, kept, rfl⟩
    obtain ⟨ne, found⟩ := Disk.wellFormed_built.mem_nodes_iff.mp present
    exact ⟨names, node, ne, found, kept, rfl⟩

/-- Excluding files by their names leaves directories to both. -/
theorem glob_eq_filter_everything_built :
    Disk.built.WellFormed ∧ Disk.built.look .follow "/" = .ok ([], .directory) ∧
      Disk.built.IsPlainBelow [] ∧
      ∃ kept, ((empty .standard).glob Disk.built "/" PatternSet.everything).1.filter
          ["**", "!*.txt"] = .ok kept ∧
        ∀ relative,
          relative ∈ ((empty .standard).glob Disk.built "/" ["**", "!*.txt"]).1.relativePaths ↔
          relative ∈ kept.relativePaths := by
  refine ⟨Disk.wellFormed_built, look_built, (Disk.isPlainBelow_built []), ?_⟩
  have outcome := glob_eq_filter_everything Disk.wellFormed_built look_built
    (Disk.isPlainBelow_built []) ["**", "!*.txt"] .standard
  have accepted : PatternSet.refusal? ["**", "!*.txt"] .standard = none := by decide +kernel
  simp only [accepted] at outcome
  obtain ⟨_, _, kept, filtered, _, agree⟩ := outcome
  refine ⟨kept, filtered, agree.mpr fun m inside => ?_⟩
  have uncovered : ∀ entry ∈ Disk.built.nodes,
      (PatternSet.ofTexts ["**", "!*.txt"] .standard).excludesDirectory
        (segments (joinSegments entry.1)) = false := by decide +kernel
  obtain ⟨_, same, members⟩ := exists_filter_everything Disk.wellFormed_built look_built
    (Disk.isPlainBelow_built []) accepted
  cases filtered.symm.trans same
  rw [members, List.mem_filter, mem_glob_built_iff] at inside
  obtain ⟨⟨entry, present, _, rfl⟩, _⟩ := inside
  rw [isCovered, Member.below, uncovered entry present, Bool.and_false]

/-- A directory that is excluded is left by the filter, and not gathered. -/
theorem filter_everything_ne_glob_built :
    Disk.built.WellFormed ∧ Disk.built.look .follow "/" = .ok ([], .directory) ∧
      Disk.built.IsPlainBelow [] ∧
      (∃ kept, ((empty .standard).glob Disk.built "/" PatternSet.everything).1.filter
          ["**", "!build/"] = .ok kept ∧ Text.ofString "build" ∈ kept.relativePaths) ∧
      Text.ofString "build" ∉
        ((empty .standard).glob Disk.built "/" ["**", "!build/"]).1.relativePaths := by
  refine ⟨Disk.wellFormed_built, look_built, (Disk.isPlainBelow_built []), ?_, ?_⟩
  · have accepted : PatternSet.refusal? ["**", "!build/"] .standard = none := by decide +kernel
    obtain ⟨kept, filtered, members⟩ := exists_filter_everything Disk.wellFormed_built look_built
      (Disk.isPlainBelow_built []) accepted
    refine ⟨kept, filtered, List.mem_map.mpr ⟨.below "/" [] ["build"], ?_, rfl⟩⟩
    rw [members, List.mem_filter, mem_glob_built_iff]
    have present : ([Text.ofString "build"], Node.directory) ∈ Disk.built.nodes :=
      Disk.wellFormed_built.mem_nodes_iff.mpr ⟨by decide, rfl⟩
    exact ⟨⟨_, present, by decide +kernel, rfl⟩, by decide +kernel⟩
  · intro chosen
    obtain ⟨m, inside, same⟩ := List.mem_map.mp chosen
    obtain ⟨entry, present, kept, rfl⟩ := mem_glob_built_iff.mp inside
    have others : ∀ entry ∈ Disk.built.nodes,
        PatternSet.selects ["**", "!build/"] .standard
          ⟨entry.1, entry.2.isDirectory⟩ = true → joinSegments entry.1 ≠ "build" := by
      decide +kernel
    exact others entry present kept same

end Selection

end FileSelect
