import FileSelect.Proofs.Disk.Listing
import FileSelect.Proofs.Glob.Refusal
import FileSelect.Proofs.Scan.Select
import FileSelect.Proofs.Selection.Runs

/-!
# Gathering below a directory without links

Below a directory without links every entry that a scan finds can be located. So
gathering by patterns does not fail there, and its members are the entries that the
patterns keep, each once.
-/

namespace FileSelect

/-! ## Places as texts -/

theorem Place.text_eq {place : Place} (isName : ∀ name ∈ place, IsName name) :
    place.text = Path.append ['/'] (joinSegments place) := by
  have joined : ∀ (name : Name) (rest : List Name),
      ((name :: rest).flatMap fun name => '/' :: name) = '/' :: joinSegments (name :: rest) := by
    intro name rest
    induction rest generalizing name with
    | nil => simp [joinSegments, Text.join]
    | cons next rest ih =>
        rw [List.flatMap_cons, ih next, joinSegments_cons_cons, List.cons_append]
  rw [Path.append, isAbsolute_joinSegments isName, if_neg Bool.false_ne_true]
  cases place with
  | nil => rfl
  | cons name rest => exact joined name rest

/-- A path of names is written without slashes at its ends. -/
theorem strip_joinSegments {names : List Name} (isName : ∀ name ∈ names, IsName name) :
    Text.strip isSlash (joinSegments names) = joinSegments names := by
  refine Text.strip_eq_self_iff.mpr ⟨fun c first => ?_, fun c last => ?_⟩
  · have relative := isAbsolute_joinSegments isName
    rw [isSlash, beq_eq_false_iff_ne]
    rintro rfl
    rw [Path.isAbsolute_iff.mpr first] at relative
    cases relative
  · rw [isSlash, beq_eq_false_iff_ne]
    rintro rfl
    rcases List.eq_nil_or_concat' names with rfl | ⟨front, name, rfl⟩
    · cases last
    · have slash := Path.endsWith_slash_append [] (List.concat_ne_nil name front) isName
      obtain ⟨above, eq⟩ := List.getLast?_eq_some_iff.mp last
      rw [Path.append, isAbsolute_joinSegments isName, if_neg Bool.false_ne_true,
        if_pos (by rfl), List.nil_append, endsWith_slash_iff.mpr ⟨above, eq⟩] at slash
      cases slash

/-! ## Members below a directory -/

namespace Member

variable {d : Disk} {root : Text} {place : Place} {names : List Name} {node : Node}

/-- The member that is reached from `root`, which leads to `place`, over the names. -/
def below (root : Text) (place : Place) (names : List Name) : Member :=
  ⟨root, joinSegments names, place ++ names⟩

theorem below_injective (root : Text) (place : Place) :
    Function.Injective (below root place) := fun _ _ same =>
  List.append_cancel_left (congrArg Member.place same)

/-- What stands at the place of a member says whether it is a directory. -/
theorem isDirectory_eq (wf : d.WellFormed) {m : Member} (found : d.find? m.place = some node)
    (plain : ∀ target, node ≠ .link target) : m.isDirectory d = node.isDirectory := by
  have top : d.LeadsInto ['/'] [] := ⟨rfl, rfl⟩
  have named := fun name inside => (wf.isEntryName_of_find? found name inside).toIsName
  rw [Member.isDirectory, placeText, Place.text_eq named, Disk.isDirectory]
  by_cases ne : m.place = []
  · rw [ne] at found ⊢
    cases found
    rfl
  · rw [top.look_append wf ne found plain]
    cases node <;> rfl

theorem exists_file (wf : d.WellFormed) (holds : d.Holds place names)
    (file : (below root place names).isDirectory d = false) :
    ∃ content, d.find? (place ++ names) = some (.file content) := by
  obtain ⟨_, node, found, plain⟩ := holds
  rw [isDirectory_eq (m := below root place names) wf found plain] at file
  cases node with
  | link target => exact absurd rfl (plain target)
  | directory => cases file
  | file content => exact ⟨content, found⟩

theorem find?_of_isDirectory (wf : d.WellFormed) (holds : d.Holds place names)
    (directory : (below root place names).isDirectory d = true) :
    d.find? (place ++ names) = some .directory := by
  obtain ⟨_, node, found, plain⟩ := holds
  rw [isDirectory_eq (m := below root place names) wf found plain, Node.isDirectory_iff]
    at directory
  rw [found, directory]

theorem locate_below (wf : d.WellFormed) (into : d.LeadsInto root place) (ne : names ≠ [])
    (found : d.find? (place ++ names) = some node) (plain : ∀ target, node ≠ .link target) :
    locate d root (joinSegments names) = .ok (below root place names) := by
  have named := fun name inside =>
    (wf.isEntryName_of_find? found name (List.mem_append_right place inside)).toIsName
  rw [locate, strip_joinSegments named, into.look_append wf ne found plain]
  rfl

end Member

/-! ## Patterns of a query -/

namespace PatternSet

/-- What a list of patterns keeps. A list that is refused keeps nothing. -/
def selects (patterns : List Text) (settings : Settings) (s : Selected) : Bool :=
  match ofPatterns patterns settings with
  | .ok set => set.keeps s
  | .error _ => false

variable {patterns : List Text} {settings : Settings} {s : Selected}

theorem selects_eq (accepted : refusal? patterns settings = none) :
    selects patterns settings = (ofTexts patterns settings).keeps := by
  funext s
  rw [selects, ofPatterns_of_accepted accepted]

theorem selects_eq_true_iff : selects patterns settings s = true ↔
    refusal? patterns settings = none ∧ (ofTexts patterns settings).keeps s = true := by
  rw [selects]
  cases refused : refusal? patterns settings with
  | none =>
      rw [ofPatterns_of_accepted refused]
      exact (and_iff_right rfl).symm
  | some failure =>
      rw [ofPatterns_eq_error_iff.mpr refused]
      exact ⟨nofun, nofun⟩

end PatternSet

/-- Unless the root is a file, a query fails for its patterns alone. -/
theorem Query.ofPatterns_eq {d : Disk} {root : Text} (notFile : d.rootKind root ≠ .file)
    (patterns : List Text) (settings : Settings) :
    Query.ofPatterns d root patterns settings =
      (PatternSet.ofPatterns patterns settings).map fun set => ⟨root, d.rootKind root, set⟩ := by
  rw [Query.ofPatterns, if_neg fun both => notFile both.1, PatternSet.ofPatterns_nonblank]

theorem Disk.rootKind_of_look {d : Disk} {root : Text} {place : Place}
    (led : d.look .follow root = .ok (place, .directory)) : d.rootKind root = .directory := by
  rw [Disk.rootKind, led]

/-! ## Gathering -/

/-- A member that has been located stands where its path leads to. -/
theorem Member.exists_look_of_locate {d : Disk} {anchor relative : Text} {m : Member}
    (located : Member.locate d anchor relative = .ok m) :
    m.anchor = anchor ∧ m.relative = Text.strip isSlash relative ∧
      ∃ node, d.look .follow m.path = .ok (m.place, node) := by
  rw [Member.locate] at located
  split at located
  case h_1 place node led =>
    cases located
    exact ⟨rfl, rfl, node, led⟩
  case h_2 => cases located

namespace Selection

/-- Gathering ends with a refusal or goes on with a scan. -/
theorem glob_eq_addFound {d : Disk} {root : Text} (notFile : d.rootKind root ≠ .file)
    (patterns : List Text) (settings : Settings) :
    (empty settings).glob d root patterns =
      match PatternSet.refusal? patterns settings with
      | some failure => (empty settings, some failure)
      | none => (empty settings).addFound d
          (Query.run ⟨root, d.rootKind root, .ofTexts patterns settings⟩ d
            settings.followLinks) := by
  rw [glob, empty, Query.ofPatterns_eq notFile, PatternSet.ofPatterns]
  cases PatternSet.refusal? patterns settings <;> rfl

theorem glob_directory {d : Disk} {root : Text} {place : Place}
    (led : d.look .follow root = .ok (place, .directory)) (patterns : List Text)
    (settings : Settings) :
    (empty settings).glob d root patterns =
      match PatternSet.refusal? patterns settings with
      | some failure => (empty settings, some failure)
      | none => (empty settings).addFound d
          ((((d.listing settings.followLinks root).entries []).filter
            (PatternSet.ofTexts patterns settings).keeps).map (Found.below root)) := by
  have kind := Disk.rootKind_of_look led
  rw [glob_eq_addFound (by simp [kind]), kind, Query.run, Query.found_eq_map_filter]

/-- At a root that does not exist nothing is gathered. -/
theorem glob_eq_empty {d : Disk} {root : Text} {fault : Fault}
    (missing : d.look .follow root = .error fault) (patterns : List Text) (settings : Settings) :
    (empty settings).glob d root patterns =
      (empty settings, PatternSet.refusal? patterns settings) := by
  have kind : d.rootKind root = .missing := by rw [Disk.rootKind, missing]
  rw [glob_eq_addFound (by simp [kind]), kind]
  cases PatternSet.refusal? patterns settings <;> rfl

/-- Links or not, a member that is gathered below a root is an entry of the listing there. -/
theorem exists_entry_of_mem_glob {d : Disk} {root : Text} {source : Place}
    (led : d.look .follow root = .ok (source, .directory)) {patterns : List Text}
    {settings : Settings} {m : Member}
    (gathered : m ∈ ((empty settings).glob d root patterns).1.members) :
    ∃ s ∈ (d.listing settings.followLinks root).entries [],
      Member.locate d root (joinSegments s.path) = .ok m := by
  rw [glob_directory led] at gathered
  split at gathered
  · cases gathered
  · obtain ⟨ms, eq, each⟩ := (empty settings).exists_addFound_eq_extend d
      ((((d.listing settings.followLinks root).entries []).filter
        (PatternSet.ofTexts patterns settings).keeps).map (Found.below root))
    rw [eq] at gathered
    obtain ⟨f, found, located⟩ := each m (mem_of_mem_extend_empty gathered)
    obtain ⟨s, kept, rfl⟩ := List.mem_map.mp found
    exact ⟨s, (List.mem_filter.mp kept).1, located⟩

/-- Its path leads over names. -/
theorem exists_names_of_mem_glob {d : Disk} {root : Text} {source : Place} (wf : d.WellFormed)
    (led : d.look .follow root = .ok (source, .directory)) {patterns : List Text}
    {settings : Settings} {m : Member}
    (gathered : m ∈ ((empty settings).glob d root patterns).1.members) :
    ∃ names node, names ≠ [] ∧ (∀ name ∈ names, IsName name) ∧ m.anchor = root ∧
      m.relative = joinSegments names ∧ d.look .follow m.path = .ok (m.place, node) := by
  obtain ⟨s, entry, located⟩ := exists_entry_of_mem_glob led gathered
  have isName := Listing.isName_of_mem_entries
    (Disk.wellFormed_listing wf settings.followLinks root) (List.forall_mem_nil IsName) entry
  obtain ⟨name, below, _, path⟩ := Listing.exists_path_of_mem_entries entry
  obtain ⟨anchor, relative, node, looked⟩ := Member.exists_look_of_locate located
  refine ⟨s.path, node, ?_, isName, anchor, relative.trans (strip_joinSegments isName), looked⟩
  rw [path]
  exact List.cons_ne_nil name below

/-- What a query gathers is located on the disk. -/
theorem exists_look_of_mem_addQuery {d : Disk} {settings : Settings}
    {q : Except Failure Query} {m : Member}
    (gathered : m ∈ ((empty settings).addQuery d q).1.members) :
    ∃ node, d.look .follow m.path = .ok (m.place, node) := by
  cases q with
  | error failure => cases gathered
  | ok q =>
      obtain ⟨ms, eq, each⟩ :=
        (empty settings).exists_addFound_eq_extend d (q.run d settings.followLinks)
      obtain ⟨f, _, located⟩ := each m (mem_of_mem_extend_empty (eq ▸ gathered))
      exact (Member.exists_look_of_locate located).2.2

variable {d : Disk} {root : Text} {place : Place} (wf : d.WellFormed)
variable (led : d.look .follow root = .ok (place, .directory)) (plain : d.IsPlainBelow place)

include wf led plain

/-- Every entry of the listing can be located. -/
theorem locate_of_mem_entries {followLinks : Bool} {s : Selected}
    (entry : s ∈ (d.listing followLinks root).entries []) :
    Member.locate d root (joinSegments s.path) = .ok (Member.below root place s.path) := by
  obtain ⟨ne, node, found, _⟩ := (Disk.mem_entries_listing wf led plain followLinks).mp entry
  exact Member.locate_below wf (Disk.leadsInto_of_look led) ne found
    fun target link => plain s.path target (link ▸ found)

omit led plain in
/-- Different entries of the listing stand at different places. -/
theorem nodup_places_below (followLinks : Bool) {entries : List Selected}
    (listed : entries.Sublist ((d.listing followLinks root).entries [])) :
    ((entries.map fun s => Member.below root place s.path).map Member.place).Nodup := by
  have wellFormed := Disk.wellFormed_listing wf followLinks root
  have paths : (entries.map Selected.path).Nodup :=
    (Listing.nodup_paths wellFormed []).sublist (listed.map Selected.path)
  have places := paths.map (List.append_right_injective place)
  rw [List.map_map] at places ⊢
  exact places

/-- The entries that a set keeps become members, each once. -/
theorem addFound_filter (set : PatternSet) (settings : Settings) :
    (empty settings).addFound d ((((d.listing settings.followLinks root).entries []).filter
        set.keeps).map (Found.below root)) =
      (⟨(((d.listing settings.followLinks root).entries []).filter set.keeps).map
          fun s => Member.below root place s.path, settings⟩, none) := by
  let listing := d.listing settings.followLinks root
  have wellFormed : listing.WellFormed := Disk.wellFormed_listing wf _ root
  have read : ∀ s ∈ (listing.entries []).filter set.keeps,
      Member.below root place (segments (Found.below root s).relative) =
        Member.below root place s.path := fun s kept =>
    congrArg (Member.below root place)
      (Query.segments_relative_below wellFormed root (List.mem_filter.mp kept).1)
  have located : ∀ f ∈ ((listing.entries []).filter set.keeps).map (Found.below root),
      Member.locate d f.directory f.relative =
        .ok (Member.below root place (segments f.relative)) := by
    intro f inside
    obtain ⟨s, kept, rfl⟩ := List.mem_map.mp inside
    rw [read s kept]
    exact locate_of_mem_entries wf led plain (List.mem_filter.mp kept).1
  have members : (((listing.entries []).filter set.keeps).map (Found.below root)).map
      (fun f => Member.below root place (segments f.relative)) =
      ((listing.entries []).filter set.keeps).map fun s => Member.below root place s.path := by
    rw [List.map_map]
    exact List.map_congr_left read
  have distinct : ((((listing.entries []).filter set.keeps).map fun s =>
      Member.below root place s.path).map Member.place).Nodup :=
    nodup_places_below wf settings.followLinks List.filter_sublist
  rw [(empty settings).addFound_eq_extend located, members,
    (empty settings).extend_of_distinct distinct fun _ _ => List.not_mem_nil]
  rfl

/-- The members are the entries of the listing that the patterns select. A refusal of the
patterns is the only failure. -/
theorem glob_eq (patterns : List Text) (settings : Settings) :
    (empty settings).glob d root patterns =
      (⟨(((d.listing settings.followLinks root).entries []).filter
          (PatternSet.selects patterns settings)).map
            fun s => Member.below root place s.path, settings⟩,
        PatternSet.refusal? patterns settings) := by
  rw [glob_directory led]
  cases refused : PatternSet.refusal? patterns settings with
  | none =>
      rw [PatternSet.selects_eq refused]
      exact addFound_filter wf led plain _ settings
  | some failure =>
      have nothing (s : Selected) : ¬PatternSet.selects patterns settings s = true :=
        fun selected => nomatch refused.symm.trans (PatternSet.selects_eq_true_iff.mp selected).1
      rw [List.filter_eq_nil_iff.mpr fun s _ => nothing s]
      rfl

/-- The members are what stands below the root and is selected by the patterns. -/
theorem mem_glob_iff (patterns : List Text) (settings : Settings) {m : Member} :
    m ∈ ((empty settings).glob d root patterns).1.members ↔ ∃ names node, names ≠ [] ∧
      d.find? (place ++ names) = some node ∧
      PatternSet.selects patterns settings ⟨names, node.isDirectory⟩ = true ∧
      m = Member.below root place names := by
  rw [glob_eq wf led plain, List.mem_map]
  constructor
  · rintro ⟨s, kept, rfl⟩
    obtain ⟨entry, kept⟩ := List.mem_filter.mp kept
    obtain ⟨ne, node, found, kind⟩ := (Disk.mem_entries_listing wf led plain _).mp entry
    exact ⟨s.path, node, ne, found, kind ▸ kept, rfl⟩
  · rintro ⟨names, node, ne, found, kept, rfl⟩
    refine ⟨⟨names, node.isDirectory⟩, List.mem_filter.mpr ⟨?_, kept⟩, rfl⟩
    exact (Disk.mem_entries_listing wf led plain _).mpr ⟨ne, node, found, rfl⟩

/-- Members that have been gathered, in any order, are given by different entries. -/
theorem exists_entries_of_perm_glob {patterns : List Text} {settings : Settings} {s : Selection}
    (gathered : s.members.Perm ((empty settings).glob d root patterns).1.members) :
    ∃ entries : List (List Name), s.members = entries.map (Member.below root place) ∧
      entries.Nodup ∧ ∀ names, names ∈ entries ↔ names ≠ [] ∧ ∃ node,
        d.find? (place ++ names) = some node ∧
        PatternSet.selects patterns settings ⟨names, node.isDirectory⟩ = true := by
  have each := fun m => (gathered.mem_iff (a := m)).trans
    (mem_glob_iff wf led plain patterns settings)
  have members : s.members =
      (s.members.map fun m => segments m.relative).map (Member.below root place) := by
    rw [List.map_map]
    conv_lhs => rw [← List.map_id s.members]
    refine List.map_congr_left fun m inside => ?_
    obtain ⟨names, node, _, found, _, rfl⟩ := (each m).mp inside
    have isName := fun name nameIn =>
      (wf.isEntryName_of_find? found name (List.mem_append_right place nameIn)).toIsName
    exact congrArg (Member.below root place) (segments_joinSegments isName).symm
  have distinct : s.members.Nodup := gathered.nodup_iff.mpr
    ((Reachable.glob d root patterns (.new settings)).isProper.distinct.of_map Member.place)
  refine ⟨_, members, (members ▸ distinct).of_map (Member.below root place), fun names => ?_⟩
  rw [← List.mem_map_of_injective (Member.below_injective root place), ← members, each]
  constructor
  · rintro ⟨others, node, ne, found, kept, same⟩
    rw [Member.below_injective root place same]
    exact ⟨ne, node, found, kept⟩
  · rintro ⟨ne, node, found, kept⟩
    exact ⟨names, node, ne, found, kept, rfl⟩

end Selection

end FileSelect
