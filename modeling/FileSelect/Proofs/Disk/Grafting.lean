import FileSelect.Proofs.Disk.Listing
import FileSelect.Proofs.Disk.Making
import FileSelect.Proofs.Disk.Writing

/-!
# Copying below another directory

While entries of one directory are copied below another, the target holds the copied
entries and the directories that lead to them. Beside it only the directories of its own
path are made. This does not depend on the order in which the entries are copied.
-/

namespace FileSelect.Disk

/-! ## Directories below a directory -/

/-- The place and those above it are directories; everything else is as it was. -/
structure Grown (d : Disk) (place : Place) (e : Disk) : Prop where
  wellFormed : e.WellFormed
  keeps : d.Keeps e
  find?_eq : ∀ query, e.find? query = if query <+: place then some .directory else d.find? query

namespace Grown

variable {d e : Disk} {place above : Place} {name : Name}

theorem stands (grown : d.Grown place e) : e.find? place = some .directory := by
  rw [grown.find?_eq, if_pos (List.prefix_refl place)]

/-- Nothing changes where the directory is there already. -/
theorem refl (wf : d.WellFormed) (stands : d.find? place = some .directory) :
    d.Grown place d := by
  refine ⟨wf, .refl d, fun query => ?_⟩
  split
  case isTrue onTheWay =>
    obtain ⟨more, rfl⟩ := onTheWay
    by_cases last : more = []
    · rwa [last, List.append_nil] at stands
    · exact wf.find?_of_append last stands
  case isFalse => rfl

theorem follow (grown : d.Grown above e) (stands : e.find? (above ++ [name]) = some .directory) :
    d.Grown (above ++ [name]) e := by
  refine ⟨grown.wellFormed, grown.keeps, fun query => ?_⟩
  by_cases onTheWay : query <+: above ++ [name]
  · rw [if_pos onTheWay]
    rcases List.prefix_concat_iff.mp onTheWay with rfl | before
    · exact stands
    · rw [grown.find?_eq, if_pos before]
  · rw [if_neg onTheWay, grown.find?_eq, if_neg]
    exact fun before => onTheWay (before.trans (List.prefix_append above [name]))

theorem put (grown : d.Grown above e) (named : IsEntryName name)
    (free : e.find? (above ++ [name]) = none) :
    d.Grown (above ++ [name]) (e.put (above ++ [name]) .directory) := by
  refine ⟨grown.wellFormed.put_free above name named grown.stands free .directory,
    grown.keeps.trans (keeps_put_directory free), fun query => ?_⟩
  rw [find?_put e (List.concat_ne_nil name above), grown.find?_eq]
  by_cases same : query = above ++ [name]
  · rw [if_pos same, if_pos (same ▸ List.prefix_refl query)]
  · rw [if_neg same]
    refine if_congr ?_ rfl rfl
    rw [List.prefix_concat_iff, or_iff_right same]

end Grown

/-- Names behind the parts are made from the last disk on, if there are only directories on
the way. -/
theorem Makes.exists_append {d e : Disk} {start place : Place} {parts : List Text}
    (wf : e.WellFormed) (makes : Makes d start parts e place) {names : List Name}
    (named : ∀ name ∈ names, IsEntryName name)
    (passable : ∀ query node, query <+: names → e.find? (place ++ query) = some node →
      node = .directory) :
    ∃ f, Makes d start (parts ++ names) f (place ++ names) ∧ e.Grown (place ++ names) f := by
  induction names using List.reverseRecOn with
  | nil =>
      rw [List.append_nil, List.append_nil]
      exact ⟨e, makes, .refl wf makes.stands⟩
  | append_singleton front name ih =>
      obtain ⟨f, inner, grown⟩ :=
        ih (fun other inside => named other (List.mem_append_left _ inside))
          fun query node before =>
            passable query node (before.trans (List.prefix_append front [name]))
      rw [← List.append_assoc, ← List.append_assoc]
      have entry := named name (List.mem_append_right front List.mem_cons_self)
      cases found : f.find? (place ++ front ++ [name]) with
      | none => exact ⟨_, .make inner entry found, grown.put entry found⟩
      | some node =>
          have old : e.find? (place ++ front ++ [name]) = some node := by
            rw [← found, grown.find?_eq, if_neg]
            exact fun inside => absurd inside.length_le (by simp)
          rw [List.append_assoc] at old
          rw [passable (front ++ [name]) node (List.prefix_refl _) old] at found
          exact ⟨f, .follow inner (walk_enter inner.walk_eq inner.stands entry found) found,
            grown.follow found⟩

/-! ## One more entry -/

/-- The node is put at the place, in the directories that lead there. -/
structure Planted (d : Disk) (place : Place) (node : Node) (e : Disk) : Prop where
  wellFormed : e.WellFormed
  working : e.workingPlace = d.workingPlace
  find?_eq : ∀ query, e.find? query = if query = place then some node
    else if query <+: place then some .directory else d.find? query

section Planted

variable {d e : Disk} {place above : Place} {name : Name}

theorem Grown.planted (grown : d.Grown place e) : d.Planted place .directory e := by
  refine ⟨grown.wellFormed, grown.keeps.working, fun query => ?_⟩
  rw [grown.find?_eq]
  by_cases same : query = place
  · rw [if_pos same, if_pos (same ▸ List.prefix_refl query)]
  · rw [if_neg same]

theorem Grown.planted_put (grown : d.Grown above e) (named : IsEntryName name)
    (writable : ∀ node, e.find? (above ++ [name]) = some node → ∃ old, node = .file old)
    (content : Content) :
    d.Planted (above ++ [name]) (.file content) (e.put (above ++ [name]) (.file content)) := by
  refine ⟨grown.wellFormed.put named grown.stands (fun directory => ?_) _, grown.keeps.working,
    fun query => ?_⟩
  · obtain ⟨old, same⟩ := writable _ directory
    cases same
  · rw [find?_put e (List.concat_ne_nil name above), grown.find?_eq]
    by_cases same : query = above ++ [name]
    · rw [if_pos same, if_pos same]
    · rw [if_neg same, if_neg same]
      refine if_congr ?_ rfl rfl
      rw [List.prefix_concat_iff, or_iff_right same]

end Planted

namespace Makes

variable {d e : Disk} {destination : Text} {target : Place}
variable (makes : Makes d (d.startOf destination) (segments destination) e target)
variable (wf : e.WellFormed)

include makes wf

/-- A directory is made below the destination, with those above it. -/
theorem exists_makeDirectories {names : List Name} (ne : names ≠ [])
    (named : ∀ name ∈ names, IsEntryName name)
    (passable : ∀ query node, query <+: names → e.find? (target ++ query) = some node →
      node = .directory) : ∃ f,
    makeDirectories (Path.append destination (joinSegments names)) d = .ok () f ∧
      e.Planted (target ++ names) .directory f := by
  have isName := fun name inside => (named name inside).toIsName
  obtain ⟨f, made, grown⟩ := makes.exists_append wf named passable
  rw [← startOf_append d destination isName,
    ← segments_append_joinSegments destination isName] at made
  refine ⟨f, makeDirectories_of_makes made (.inl ?_), grown.planted⟩
  obtain ⟨front, name, rfl⟩ := (List.eq_nil_or_concat' names).resolve_left ne
  rw [segments_append_joinSegments destination isName, ← List.append_assoc, List.getLast?_concat]
  exact fun dot => (named name (List.mem_append_right front List.mem_cons_self)).here_ne
    (Option.some.inj dot)

/-- The directory that the last name below the destination is in is made. -/
theorem exists_makeParent {front : List Name} {name : Name}
    (named : ∀ other ∈ front ++ [name], IsEntryName other)
    (passable : ∀ query node, query <+: front → e.find? (target ++ query) = some node →
      node = .directory) : ∃ up f,
    Path.parent? (Path.append destination (joinSegments (front ++ [name]))) = some up ∧
      makeDirectories up d = .ok () f ∧ e.Grown (target ++ front) f := by
  have isName := fun other inside => (named other inside).toIsName
  obtain ⟨before, last⟩ := List.forall_mem_append.mp named
  obtain ⟨f, made, grown⟩ := makes.exists_append wf before passable
  rw [← startOf_append d destination isName] at made
  have read : segments (Path.append destination (joinSegments (front ++ [name]))) =
      (segments destination ++ front) ++ [name] := by
    rw [segments_append_joinSegments destination isName, List.append_assoc]
  obtain ⟨up, parent, run⟩ :=
    makeDirectories_parent_of_makes read (last name List.mem_cons_self).here_ne made
  exact ⟨up, f, parent, run, grown⟩

end Makes

/-! ## Copying -/

/-- A beginning of the path leads to the place. -/
def OnTheWay (d : Disk) (path : Text) (place : Place) : Prop :=
  ∃ front, front <+: segments path ∧ d.walk (d.startOf path) front = .ok place

/-- A directory without links, and the destination of a copy. This is an empty directory
apart from the first, or becomes one when what is missing on its path is made; the disk
with all this made is the base of the copy. -/
structure CopySite (d : Disk) (root : Text) (source : Place) (destination : Text)
    (target : Place) (base : Disk) : Prop where
  wellFormed : d.WellFormed
  led : d.look .follow root = .ok (source, .directory)
  plain : d.IsPlainBelow source
  written : destination ≠ []
  makes : Makes d (d.startOf destination) (segments destination) base target
  vacant : base.namesInside target = []
  source_outside : ¬source <+: target
  target_outside : ¬target <+: source

/-- The same, whether there are links below the directory or not. -/
structure TransferSite (d : Disk) (root : Text) (source : Place) (destination : Text)
    (target : Place) (base : Disk) : Prop where
  wellFormed : d.WellFormed
  led : d.look .follow root = .ok (source, .directory)
  written : destination ≠ []
  makes : Makes d (d.startOf destination) (segments destination) base target
  vacant : base.namesInside target = []
  source_outside : ¬source <+: target
  target_outside : ¬target <+: source

namespace CopySite

variable {d base : Disk} {root destination : Text} {source target : Place}
variable (site : d.CopySite root source destination target base)

include site

theorem transferSite : d.TransferSite root source destination target base :=
  ⟨site.wellFormed, site.led, site.written, site.makes, site.vacant, site.source_outside,
    site.target_outside⟩

/-- Directories are all that has been made. -/
theorem not_link {names : List Name} {node : Node}
    (found : base.find? (source ++ names) = some node) (link : Text) : node ≠ .link link := by
  rintro rfl
  rcases site.makes.find?_eq (source ++ names) with eq | ⟨_, made, _⟩
  · exact site.plain names link (eq ▸ found)
  · rw [found] at made
    cases made

end CopySite

namespace TransferSite

variable {d base : Disk} {root destination : Text} {source target : Place}
variable (site : d.TransferSite root source destination target base)

include site

theorem wellFormed_base : base.WellFormed := site.makes.wellFormed site.wellFormed

/-- What is below the source is neither above nor below the target. -/
theorem outside (names : List Name) :
    ¬source ++ names <+: target ∧ ¬target <+: source ++ names := by
  constructor
  · exact fun inside => site.source_outside ((List.prefix_append source names).trans inside)
  · intro inside
    exact (List.prefix_or_prefix_of_prefix inside (List.prefix_append source names)).elim
      site.target_outside site.source_outside

/-- What is below the source is not on the way to what is below the target. -/
theorem not_isPrefix_target (names below : List Name) :
    ¬source ++ names <+: target ++ below := fun inside =>
  (List.prefix_or_prefix_of_prefix inside (List.prefix_append target below)).elim
    (site.outside names).1 (site.outside names).2

theorem find?_target_append {names : List Name} (ne : names ≠ []) :
    base.find? (target ++ names) = none := by
  cases names with
  | nil => exact absurd rfl ne
  | cons name rest =>
      rw [List.append_cons]
      exact site.wellFormed_base.find?_append_eq_none
        (namesInside_eq_nil_iff.mp site.vacant name) rest

theorem isEntryName {names : List Name} {node : Node}
    (found : base.find? (source ++ names) = some node) : ∀ name ∈ names, IsEntryName name :=
  fun name inside =>
    site.wellFormed_base.isEntryName_of_find? found name (List.mem_append_right source inside)

theorem isName {names : List Name} {node : Node}
    (found : base.find? (source ++ names) = some node) : ∀ name ∈ names, IsName name :=
  fun name inside => (site.isEntryName found name inside).toIsName

/-- An entry below the source is in a directory. -/
theorem find?_above {front : List Name} {name : Name} {node : Node}
    (found : base.find? (source ++ (front ++ [name])) = some node) :
    IsEntryName name ∧ base.find? (source ++ front) = some .directory :=
  site.wellFormed_base.find?_above (by rwa [List.append_assoc])

/-- Nothing but directories on the way to the destination is made. -/
theorem find?_base (query : Place) : base.find? query = d.find? query ∨
    d.find? query = none ∧ base.find? query = some .directory ∧
      base.OnTheWay destination query := by
  refine (site.makes.find?_eq query).imp_right fun ⟨free, made, front, before, led⟩ =>
    ⟨free, made, front, before, ?_⟩
  rw [startOf, site.makes.keeps.working]
  exact led

/-- No file is made on the way to the destination, and none is lost. -/
theorem find?_base_eq_file_iff {place : Place} {content : Content} :
    base.find? place = some (.file content) ↔ d.find? place = some (.file content) := by
  refine ⟨fun found => ?_, site.makes.find?_of_find?⟩
  rcases site.makes.find?_eq place with same | ⟨_, made, _⟩
  · rwa [← same]
  · cases made.symm.trans found

theorem holds_base {entries : List (List Name)}
    (present : ∀ names ∈ entries, d.Holds source names) :
    ∀ names ∈ entries, base.Holds source names := by
  intro names inside
  obtain ⟨ne, node, there, plain⟩ := present names inside
  exact ⟨ne, node, site.makes.find?_of_find? there, plain⟩

theorem leadsInto_source : base.LeadsInto root source :=
  (leadsInto_of_look site.led).keeps site.makes.keeps

theorem leadsInto_target : base.LeadsInto destination target := by
  refine ⟨?_, site.makes.stands⟩
  rw [startOf, site.makes.keeps.working]
  exact site.makes.walk_eq

end TransferSite

/-- The disk after some entries below the source have been copied below the target. -/
structure Grafted (base : Disk) (source target : Place) (done : List (List Name)) (e : Disk) :
    Prop where
  wellFormed : e.WellFormed
  working : e.workingPlace = base.workingPlace
  stands : e.find? target = some .directory
  inside : ∀ names, names ≠ [] → e.find? (target ++ names) =
    if ∃ copied ∈ done, names <+: copied then base.find? (source ++ names) else none
  outside : ∀ query, ¬target <+: query → e.find? query = base.find? query

namespace Grafted

variable {d base e : Disk} {root destination : Text} {source target : Place}
variable {done : List (List Name)}

/-- A copied entry stands at the target as it stands at the source. -/
theorem find?_copied (grafted : base.Grafted source target done e) {names : List Name}
    (ne : names ≠ []) (copied : names ∈ done) :
    e.find? (target ++ names) = base.find? (source ++ names) := by
  rw [grafted.inside names ne, if_pos ⟨names, copied, List.prefix_refl names⟩]

/-- What stands at the target is the directory itself, or stands at the source as well, on
the way to a copied entry. -/
theorem cases_of_find?_target (grafted : base.Grafted source target done e) {names : List Name}
    {node : Node} (found : e.find? (target ++ names) = some node) :
    names = [] ∧ node = .directory ∨ names ≠ [] ∧ (∃ copied ∈ done, names <+: copied) ∧
      base.find? (source ++ names) = some node := by
  by_cases top : names = []
  · rw [top, List.append_nil, grafted.stands] at found
    exact .inl ⟨top, (Option.some.inj found).symm⟩
  · rw [grafted.inside names top] at found
    split at found
    case isTrue towards => exact .inr ⟨top, towards, found⟩
    case isFalse => cases found

variable (site : d.TransferSite root source destination target base)

include site

theorem start : base.Grafted source target [] base := by
  refine ⟨site.wellFormed_base, rfl, site.makes.stands, fun names ne => ?_, fun query _ => rfl⟩
  rw [site.find?_target_append ne, if_neg]
  rintro ⟨copied, none, _⟩
  cases none

variable (grafted : base.Grafted source target done e)

include grafted

theorem find?_source (names : List Name) :
    e.find? (source ++ names) = base.find? (source ++ names) :=
  grafted.outside _ (site.outside names).2

theorem keeps : base.Keeps e := by
  refine ⟨grafted.working, fun {query node} found => ?_⟩
  by_cases below : target <+: query
  · obtain ⟨names, rfl⟩ := below
    by_cases top : names = []
    · rw [top, List.append_nil, site.makes.stands] at found
      rw [top, List.append_nil, grafted.stands]
      exact ⟨.directory, rfl, Option.some.inj found ▸ .directory⟩
    · rw [site.find?_target_append top] at found
      cases found
  · exact ⟨node, (grafted.outside query below).trans found, .refl node⟩

/-- Towards an entry that is a directory there are only directories at the target. -/
theorem directory_of_isPrefix {names query : List Name} {node : Node}
    (found : base.find? (source ++ names) = some .directory) (before : query <+: names)
    (there : e.find? (target ++ query) = some node) : node = .directory := by
  rcases grafted.cases_of_find?_target there with ⟨_, directory⟩ | ⟨_, _, there⟩
  · exact directory
  obtain ⟨more, rfl⟩ := before
  by_cases last : more = []
  · rw [last, List.append_nil, there] at found
    exact Option.some.inj found
  · rw [← List.append_assoc] at found
    rw [site.wellFormed_base.find?_of_append last found] at there
    exact (Option.some.inj there).symm

theorem leadsInto_source : e.LeadsInto root source :=
  site.leadsInto_source.keeps (grafted.keeps site)

theorem leadsInto_target : e.LeadsInto destination target :=
  site.leadsInto_target.keeps (grafted.keeps site)

/-- Once the destination is there, nothing is missing on its path. -/
theorem makes : Makes e (e.startOf destination) (segments destination) e target :=
  .arrived (grafted.leadsInto_target site).trace_eq grafted.stands

omit site in
theorem isPlainBelow_target (site : d.CopySite root source destination target base) :
    e.IsPlainBelow target := by
  intro names link found
  rcases grafted.cases_of_find?_target found with ⟨_, ⟨⟩⟩ | ⟨_, _, there⟩
  exact site.not_link there link rfl

/-- The path of a copy leads to what the path of the original led to. -/
theorem look_target {names : List Name} (ne : names ≠ []) (copied : names ∈ done) {node : Node}
    (found : base.find? (source ++ names) = some node) (plain : ∀ link, node ≠ .link link) :
    e.look .follow (Path.append destination (joinSegments names)) = .ok (target ++ names, node) :=
  (grafted.leadsInto_target site).look_append grafted.wellFormed ne
    ((grafted.find?_copied ne copied).trans found) plain

/-- Beside the target nothing changes, except that directories on its path are made. -/
theorem find?_beside {query : Place} (beside : ¬target <+: query) :
    e.find? query = d.find? query ∨ d.find? query = none ∧ e.find? query = some .directory ∧
      e.OnTheWay destination query := by
  rw [grafted.outside query beside]
  refine (site.find?_base query).imp_right fun ⟨free, made, front, before, led⟩ =>
    ⟨free, made, front, before, ?_⟩
  rw [startOf, grafted.working]
  exact (grafted.keeps site).walk led

/-- One more entry, with the directories on the way to it. -/
theorem concat {f : Disk} {names : List Name} {node : Node} (ne : names ≠ [])
    (found : base.find? (source ++ names) = some node)
    (planted : e.Planted (target ++ names) node f) :
    base.Grafted source target (done ++ [names]) f := by
  have eq := planted.find?_eq
  refine ⟨planted.wellFormed, planted.working.trans grafted.working, ?_,
    fun others othersNe => ?_, fun query beside => ?_⟩
  · have other : target ≠ target ++ names := fun same => ne (List.self_eq_append_right.mp same)
    rw [eq, if_neg other, if_pos (List.prefix_append target names)]
  · have copied : (∃ copied ∈ done ++ [names], others <+: copied) ↔
        others <+: names ∨ ∃ copied ∈ done, others <+: copied := by
      simp only [List.mem_append, List.mem_singleton, or_and_right, exists_or, exists_eq_left]
      exact or_comm
    simp only [eq, List.append_right_inj, List.prefix_append_right_inj,
      grafted.inside others othersNe]
    by_cases same : others = names
    · subst same
      rw [if_pos rfl, if_pos (copied.mpr (.inl (List.prefix_refl others))), found]
    · rw [if_neg same]
      by_cases before : others <+: names
      · rw [if_pos before, if_pos (copied.mpr (.inl before))]
        obtain ⟨more, rfl⟩ := before
        have rest : more ≠ [] := fun none => same (by rw [none, List.append_nil])
        rw [← List.append_assoc] at found
        exact (site.wellFormed_base.find?_of_append rest found).symm
      · rw [if_neg before]
        refine if_congr ?_ rfl rfl
        rw [copied, or_iff_right before]
  · have other : query ≠ target ++ names := by
      rintro rfl
      exact beside (List.prefix_append target names)
    rw [eq, if_neg other]
    split
    case isFalse => exact grafted.outside query beside
    case isTrue inside =>
      -- what is above the target, and not below it, is a directory already
      have above : query <+: target :=
        (List.prefix_or_prefix_of_prefix inside (List.prefix_append target names)).resolve_right
          beside
      obtain ⟨more, rfl⟩ := above
      have rest : more ≠ [] := by
        rintro rfl
        exact beside (by simp)
      exact (site.wellFormed_base.find?_of_append rest site.makes.stands).symm

/-- The files are those that were there, and the copies of those among the entries. -/
theorem find?_eq_file_iff (present : ∀ names ∈ done, base.Holds source names) {place : Place}
    {content : Content} : e.find? place = some (.file content) ↔
      (∃ names ∈ done, place = target ++ names ∧
        d.find? (source ++ names) = some (.file content)) ∨
      d.find? place = some (.file content) := by
  simp only [← site.find?_base_eq_file_iff]
  constructor
  · intro found
    by_cases beside : ¬target <+: place
    · exact .inr ((grafted.outside place beside).symm.trans found)
    · obtain ⟨names, rfl⟩ := not_not.mp beside
      rcases grafted.cases_of_find?_target found with ⟨_, ⟨⟩⟩ | ⟨_, towards, found⟩
      obtain ⟨copied, inside, more, rfl⟩ := towards
      obtain ⟨_, node, whole, _⟩ := present _ inside
      by_cases last : more = []
      · subst last
        rw [List.append_nil] at inside
        exact .inl ⟨names, inside, rfl, found⟩
      · rw [← List.append_assoc] at whole
        cases found.symm.trans (site.wellFormed_base.find?_of_append last whole)
  · rintro (⟨names, inside, rfl, found⟩ | found)
    · rw [grafted.find?_copied (present names inside).1 inside, found]
    · refine (grafted.outside place fun below => ?_).trans found
      obtain ⟨names, rfl⟩ := below
      by_cases top : names = []
      · rw [top, List.append_nil, site.makes.stands] at found
        cases found
      · rw [site.find?_target_append top] at found
        cases found

/-! ## Copying one entry -/

omit site in
/-- At the target of a file there is nothing, or the file has been copied before. -/
theorem file_of_find? {front : List Name} {name : Name} {content : Content}
    (found : base.find? (source ++ (front ++ [name])) = some (.file content)) {g : Disk}
    (grown : e.Grown (target ++ front) g) {node : Node}
    (there : g.find? (target ++ (front ++ [name])) = some node) : ∃ old, node = .file old := by
  have behind : ¬target ++ (front ++ [name]) <+: target ++ front := fun inside =>
    absurd inside.length_le (by simp)
  rw [grown.find?_eq, if_neg behind, grafted.inside _ (List.concat_ne_nil name front)] at there
  split at there
  · rw [found] at there
    exact ⟨content, (Option.some.inj there).symm⟩
  · cases there

section Step

variable {now : Disk}
variable (makes : Makes now (now.startOf destination) (segments destination) e target)

include makes

/-- A directory is made at the target, with those above it. -/
theorem exists_makeDirectories {names : List Name} (ne : names ≠ [])
    (found : base.find? (source ++ names) = some .directory) : ∃ f,
    makeDirectories (Path.append destination (joinSegments names)) now = .ok () f ∧
      e.Planted (target ++ names) .directory f :=
  makes.exists_makeDirectories grafted.wellFormed ne (site.isEntryName found)
    fun _ _ before there => grafted.directory_of_isPrefix site found before there

/-- A file is written at the target, in the directory that is made for it. -/
theorem exists_copyFile {front : List Name} {name : Name} {content : Content}
    (found : base.find? (source ++ (front ++ [name])) = some (.file content)) : ∃ up g f,
    Path.parent? (Path.append destination (joinSegments (front ++ [name]))) = some up ∧
    makeDirectories up now = .ok () g ∧
    g.copyFile (Path.append root (joinSegments (front ++ [name])))
      (Path.append destination (joinSegments (front ++ [name]))) = .ok f ∧
    e.Planted (target ++ (front ++ [name])) (.file content) f := by
  obtain ⟨named, stands⟩ := site.find?_above found
  obtain ⟨up, g, parent, made, grown⟩ :=
    makes.exists_makeParent grafted.wellFormed (site.isEntryName found)
      fun _ _ before there => grafted.directory_of_isPrefix site stands before there
  have source_there : g.find? (source ++ (front ++ [name])) = some (.file content) := by
    rw [grown.find?_eq, if_neg (site.not_isPrefix_target _ front), grafted.find?_source site,
      found]
  have looked := ((grafted.leadsInto_source site).keeps grown.keeps).look_append grown.wellFormed
    (List.concat_ne_nil name front) source_there (Node.file_ne_link content)
  have writable : ∀ node, g.find? (target ++ (front ++ [name])) = some node →
      ∃ old, node = .file old := fun _ there => grafted.file_of_find? found grown there
  have into := (grafted.leadsInto_target site).keeps grown.keeps
  have writes := into.writePlace_append grown.wellFormed grown.stands named writable
  have apart : target ++ (front ++ [name]) ≠ source ++ (front ++ [name]) := fun same =>
    site.target_outside (List.append_cancel_right same ▸ List.prefix_refl target)
  refine ⟨up, g, _, parent, made,
    copyFile_eq_ok_iff.mpr ⟨_, content, _, looked, writes, by rw [if_neg apart]⟩, ?_⟩
  rw [← List.append_assoc] at writable ⊢
  exact grown.planted_put named writable content

end Step

end Grafted

end FileSelect.Disk
