import FileSelect.Proofs.Glob.Directory
import FileSelect.Proofs.Scan.Listing
import FileSelect.Scan.Query

/-!
# Scanning is filtering

A scan passes over directories that are excluded with everything below them, and it does
not enter directories below which no include can match. Neither loses an entry that is
accepted by its path, so the scan selects what judging every entry on its own selects.
-/

namespace FileSelect

namespace PatternSet

variable (set : PatternSet)

/-- Judges an entry by its path, without regard to how a scan would come to it. -/
def keeps (s : Selected) : Bool :=
  set.acceptsPath s.path && !(s.isDirectory && set.excludesDirectory s.path)

/-! ## Paths below a directory -/

theorem excludesOnTheWay_append (above path below : List Name) :
    set.excludesOnTheWay above (path ++ below) =
      (set.excludesOnTheWay above path || set.excludesOnTheWay (above ++ path) below) := by
  induction path generalizing above with
  | nil => rw [List.nil_append, excludesOnTheWay, Bool.false_or, List.append_nil]
  | cons name path ih =>
      rw [List.cons_append, excludesOnTheWay, excludesOnTheWay, ih, Bool.or_assoc,
        List.append_assoc, List.singleton_append]

theorem excludesOnTheWay_concat (path : List Name) (name : Name) :
    set.excludesOnTheWay [] (path ++ [name]) =
      (set.excludesOnTheWay [] path || set.excludesDirectory (path ++ [name])) := by
  rw [excludesOnTheWay_append, List.nil_append, excludesOnTheWay, excludesOnTheWay, Bool.or_false]

theorem acceptsPath_concat (above : List Name) (name : Name) :
    set.acceptsPath (above ++ [name]) =
      (!set.excludesOnTheWay [] above && set.acceptsEntry above name) := by
  rw [acceptsPath, List.getLast?_concat, List.dropLast_concat]

/-- Where nothing on the way is excluded, only the entry itself is judged. -/
theorem acceptsPath_concat_of_free {above : List Name}
    (free : set.excludesOnTheWay [] above = false) (name : Name) :
    set.acceptsPath (above ++ [name]) = set.acceptsEntry above name := by
  rw [acceptsPath_concat, free]
  rfl

theorem acceptsPath_eq_false_of_excluded {path : List Name}
    (excluded : set.excludesOnTheWay [] path = true) (name : Name) (below : List Name) :
    set.acceptsPath (path ++ name :: below) = false := by
  obtain ⟨front, last, eq⟩ :=
    (List.eq_nil_or_concat' (name :: below)).resolve_left (List.cons_ne_nil name below)
  rw [eq, ← List.append_assoc, acceptsPath_concat, excludesOnTheWay_append, excluded]
  rfl

/-- The way to an accepted entry is open: its include reaches through every directory. -/
theorem entersDirectory_of_acceptsEntry {path more : List Name} {name : Name}
    (accepted : set.acceptsEntry (path ++ more) name = true) : set.entersDirectory path = true := by
  rw [acceptsEntry, Bool.and_eq_true, List.any_eq_true] at accepted
  obtain ⟨⟨p, included, accepted⟩, _⟩ := accepted
  rw [Pattern.acceptsEntry, Bool.and_eq_true] at accepted
  rw [entersDirectory, List.any_eq_true]
  refine ⟨p, included, ?_⟩
  rw [DirectoryMatcher.acceptsBelow_of_acceptsInside accepted.1, Bool.true_or]

theorem acceptsPath_eq_false_of_closed {path : List Name}
    (closed : set.entersDirectory path = false) (name : Name) (below : List Name) :
    set.acceptsPath (path ++ name :: below) = false := by
  obtain ⟨front, last, eq⟩ :=
    (List.eq_nil_or_concat' (name :: below)).resolve_left (List.cons_ne_nil name below)
  rw [eq, ← List.append_assoc, acceptsPath_concat, Bool.and_eq_false_iff]
  right
  rw [← Bool.not_eq_true]
  intro accepted
  rw [set.entersDirectory_of_acceptsEntry accepted] at closed
  cases closed

/-- A directory may be left out when no path below it is accepted. -/
theorem filter_entries_eq_nil {path : List Name}
    (refused : ∀ name below, set.acceptsPath (path ++ name :: below) = false) (inside : Listing) :
    (inside.entries path).filter set.keeps = [] := by
  rw [List.filter_eq_nil_iff]
  intro s h
  obtain ⟨name, below, _, eq⟩ := Listing.exists_path_of_mem_entries h
  rw [keeps, eq, refused]
  exact Bool.false_ne_true

/-! ## Scanning a listing -/

theorem keeps_file_of_free {above : List Name} (free : set.excludesOnTheWay [] above = false)
    (name : Name) : set.keeps ⟨above ++ [name], false⟩ = set.acceptsEntry above name := by
  rw [keeps, set.acceptsPath_concat_of_free free, Bool.false_and, Bool.not_false, Bool.and_true]

theorem keeps_directory_of_free {above : List Name}
    (free : set.excludesOnTheWay [] above = false) (name : Name) :
    set.keeps ⟨above ++ [name], true⟩ =
      (set.acceptsEntry above name && !set.excludesDirectory (above ++ [name])) := by
  rw [keeps, set.acceptsPath_concat_of_free free, Bool.true_and]

/-- From a directory that is not excluded a scan selects what the filter keeps. -/
theorem select_eq_filter {above : List Name} (free : set.excludesOnTheWay [] above = false)
    (listing : Listing) : set.select above listing = (listing.entries above).filter set.keeps := by
  -- A scan only goes into directories that keep `free` true, so each entry is judged alone.
  induction listing generalizing above with
  | done => rfl
  | leaf name isFile next ih =>
      rw [select, Listing.entries, List.filter_cons, set.keeps_file_of_free free, ih free]
      split <;> rfl
  | branch name inside next inner ih =>
      have onTheWay := set.excludesOnTheWay_concat above name
      rw [free, Bool.false_or] at onTheWay
      rw [select, Listing.entries, List.filter_cons, List.filter_append,
        set.keeps_directory_of_free free, ih free]
      cases excluded : set.excludesDirectory (above ++ [name]) with
      | true =>
          have refused := set.acceptsPath_eq_false_of_excluded (onTheWay.trans excluded)
          rw [set.filter_entries_eq_nil refused inside]
          simp
      | false =>
          cases entered : set.entersDirectory (above ++ [name]) with
          | true =>
              rw [inner (onTheWay.trans excluded)]
              cases set.acceptsEntry above name <;> rfl
          | false =>
              have refused := set.acceptsPath_eq_false_of_closed entered
              rw [set.filter_entries_eq_nil refused inside]
              cases set.acceptsEntry above name <;> rfl

end PatternSet

namespace Query

/-! ## Scanning the root of a query -/

/-- Every entry of a listing of the root, whether it is selected or not. -/
def everything (q : Query) (listing : Listing) : List Found :=
  (listing.entries []).map (Found.below q.root)

theorem found_eq_map_filter (q : Query) (listing : Listing) :
    q.found listing = ((listing.entries []).filter q.patterns.keeps).map (Found.below q.root) := by
  rw [found, q.patterns.select_eq_filter rfl]

theorem found_sublist_everything (q : Query) (listing : Listing) :
    (q.found listing).Sublist (q.everything listing) := by
  rw [found_eq_map_filter]
  exact List.filter_sublist.map (Found.below q.root)

theorem nodup_relative_everything (q : Query) {listing : Listing}
    (wellFormed : listing.WellFormed) : ((q.everything listing).map Found.relative).Nodup := by
  rw [everything, List.map_map]
  exact Listing.nodup_written_paths wellFormed

/-- The path of an entry is read back from its text. -/
theorem segments_relative_below {listing : Listing} (wellFormed : listing.WellFormed)
    (root : Text) {s : Selected} (h : s ∈ listing.entries []) :
    segments (Found.below root s).relative = s.path :=
  segments_joinSegments (Listing.isName_of_mem_entries wellFormed (List.forall_mem_nil IsName) h)

theorem keeps_iff {set : PatternSet} {s : Selected} :
    set.keeps s = true ↔ set.acceptsPath s.path = true ∧
      (s.isDirectory = true → set.excludesDirectory s.path = false) := by
  rw [PatternSet.keeps, Bool.and_eq_true]
  cases s.isDirectory <;> simp

theorem mem_found_iff (q : Query) {listing : Listing} (wellFormed : listing.WellFormed)
    (f : Found) :
    f ∈ q.found listing ↔ f ∈ q.everything listing ∧
      q.patterns.acceptsPath (segments f.relative) = true ∧
      (f.isDirectory = true → q.patterns.excludesDirectory (segments f.relative) = false) := by
  rw [found_eq_map_filter]
  constructor
  · intro selected
    obtain ⟨s, kept, rfl⟩ := List.mem_map.mp selected
    obtain ⟨inside, kept⟩ := List.mem_filter.mp kept
    rw [segments_relative_below wellFormed q.root inside]
    exact ⟨List.mem_map_of_mem inside, keeps_iff.mp kept⟩
  · rintro ⟨present, kept⟩
    obtain ⟨s, inside, rfl⟩ := List.mem_map.mp present
    rw [segments_relative_below wellFormed q.root inside] at kept
    exact List.mem_map_of_mem (List.mem_filter.mpr ⟨inside, keeps_iff.mpr kept⟩)

/--
A scan finds every entry of its root that is accepted by its path, each once, in the
order of the listing and with the right kind. A directory must not be excluded itself.
-/
theorem found_iff_accepted (q : Query) {listing : Listing} (wellFormed : listing.WellFormed) :
    ((q.found listing).map Found.relative).Nodup ∧
    (q.found listing).Sublist (q.everything listing) ∧
    (∀ f, f ∈ q.found listing ↔ f ∈ q.everything listing ∧
      q.patterns.acceptsPath (segments f.relative) = true ∧
      (f.isDirectory = true → q.patterns.excludesDirectory (segments f.relative) = false)) ∧
    ∀ (d : Disk) (followLinks : Bool), q.kind = .directory →
      d.listing followLinks q.root = listing → q.run d followLinks = q.found listing := by
  have order := q.found_sublist_everything listing
  refine ⟨(q.nodup_relative_everything wellFormed).sublist (order.map Found.relative), order,
    q.mem_found_iff wellFormed, ?_⟩
  intro d followLinks directory listed
  rw [run, directory, ← listed]

/-- A directory with a source and, inside it, what was built from the source. -/
def sources : Listing :=
  .branch "src" (.leaf "a.rs" true (.branch "target" (.leaf "b.rs" true .done) .done)) .done

def sourcesQuery : Query :=
  ⟨"work", .directory, .ofTexts ["src/**", "!**/target/**"] .standard⟩

/-- The source is found, and what was built is not. -/
theorem found_iff_accepted_sources :
    sources.WellFormed ∧ ⟨"work", "src/a.rs", false⟩ ∈ sourcesQuery.found sources ∧
      ⟨"work", "src/target/b.rs", false⟩ ∉ sourcesQuery.found sources ∧
      ⟨"work", "src/target", true⟩ ∉ sourcesQuery.found sources := by
  have wellFormed : sources.WellFormed :=
    .branch (by decide) (by decide)
      (.leaf (by decide) (by decide) (.branch (by decide) (by decide)
        (.leaf (by decide) (by decide) .done) .done)) .done
  have scanned := (sourcesQuery.found_iff_accepted wellFormed).2.2.1
  have accepted : sourcesQuery.patterns.acceptsPath (segments "src/a.rs") = true := by
    decide +kernel
  have refused : sourcesQuery.patterns.acceptsPath (segments "src/target/b.rs") = false := by
    decide +kernel
  have excluded : sourcesQuery.patterns.excludesDirectory (segments "src/target") = true := by
    decide +kernel
  refine ⟨wellFormed, (scanned _).mpr ⟨by decide, accepted, ?_⟩, ?_, ?_⟩
  · intro directory
    cases directory
  · intro found
    exact Bool.false_ne_true (refused.symm.trans ((scanned _).mp found).2.1)
  · intro found
    exact Bool.false_ne_true ((((scanned _).mp found).2.2 rfl).symm.trans excluded)

end Query

end FileSelect
