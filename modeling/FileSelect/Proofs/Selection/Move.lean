import FileSelect.Proofs.Disk.Shifting
import FileSelect.Proofs.Selection.Clearing
import FileSelect.Proofs.Selection.Copy

/-!
# Moves

A move is a copy whose sources are taken away: the files one by one, as they are renamed,
and in the end the directories of which everything has been selected. So the disk that it
leaves is that of the copy with the members deleted from it.
-/

namespace FileSelect

/-! ## Directories among entries -/

namespace Disk

/-- The directories among entries below a place. -/
def directoriesAmong (d : Disk) (place : Place) (entries : List (List Name)) :
    List (List Name) :=
  entries.filter fun names => d.isDirectory (Place.text (place ++ names))

section Directories

variable {d : Disk} {place : Place} {names : List Name} (wf : d.WellFormed)

include wf

theorem mem_directoriesAmong_iff {entries : List (List Name)}
    (present : ∀ names ∈ entries, d.Holds place names) :
    names ∈ d.directoriesAmong place entries ↔
      names ∈ entries ∧ d.find? (place ++ names) = some .directory := by
  refine List.mem_filter.trans (and_congr_right fun inside => ?_)
  obtain ⟨_, node, found, plain⟩ := present names inside
  have kind : (Member.below [] place names).isDirectory d = node.isDirectory :=
    Member.isDirectory_eq wf found plain
  refine (Bool.eq_iff_iff.mp kind).trans ?_
  rw [Node.isDirectory_iff, found, Option.some.injEq]

/-- The directories are collected in the order of the entries. -/
theorem append_map_directoriesAmong {node : Node} (found : d.find? (place ++ names) = some node)
    (plain : ∀ target, node ≠ .link target) (root : Text) (left : List Member)
    (rest : List (List Name)) :
    left ++ (d.directoriesAmong place (names :: rest)).map (Member.below root place) =
      (if node.isDirectory then left ++ [.below root place names] else left) ++
        (d.directoriesAmong place rest).map (Member.below root place) := by
  have kind : d.isDirectory (Place.text (place ++ names)) = node.isDirectory :=
    Member.isDirectory_eq (m := .below root place names) wf found plain
  rw [directoriesAmong, List.filter_cons, kind]
  split
  · rw [List.map_cons, List.append_assoc, List.singleton_append]
    rfl
  · rfl

end Directories

end Disk

namespace Selection

/-! ## One member -/

theorem moveMember_of_directory {destination : Text} {m n : Member} {d e : Disk}
    (directory : m.isDirectory d = true)
    (made : Disk.makeDirectories (Path.append destination m.relative) d = .ok () e)
    (located : Member.locate e destination m.relative = .ok n) :
    moveMember destination m d = .ok (n, true) e := by
  refine Operation.bind_eq_ok_iff.mpr ⟨d, d, rfl, ?_⟩
  rw [if_pos directory, directory]
  refine Operation.bind_eq_ok_iff.mpr ⟨(), e, Operation.makeDirectories_eq_ok_iff.mpr made, ?_⟩
  exact Operation.bind_eq_ok_iff.mpr ⟨n, e, Operation.read_eq_ok_iff.mpr ⟨located, rfl⟩, rfl⟩

theorem moveMember_of_file {destination up : Text} {m n : Member} {d e f : Disk}
    (file : m.isDirectory d = false)
    (parent : Path.parent? (Path.append destination m.relative) = some up)
    (made : Disk.makeDirectories up d = .ok () e)
    (moved : Disk.moveFile m.path (Path.append destination m.relative) e = .ok () f)
    (located : Member.locate f destination m.relative = .ok n) :
    moveMember destination m d = .ok (n, false) f := by
  refine Operation.bind_eq_ok_iff.mpr ⟨d, d, rfl, ?_⟩
  rw [if_neg (Bool.eq_false_iff.mp file), file]
  refine Operation.bind_eq_ok_iff.mpr ⟨(), e, Operation.makeParent_eq_ok parent made, ?_⟩
  refine Operation.bind_eq_ok_iff.mpr ⟨(), f, Operation.perform_eq_ok_iff.mpr moved, ?_⟩
  exact Operation.bind_eq_ok_iff.mpr ⟨n, f, Operation.read_eq_ok_iff.mpr ⟨located, rfl⟩, rfl⟩

/-! ## All members -/

section Transfer

variable {d base : Disk} {root destination : Text} {source target : Place}
variable (site : d.TransferSite root source destination target base)

include site

/-- One step moves one entry, and makes the destination if it is missing. -/
theorem exists_moveMember {now e : Disk} (wf : now.WellFormed)
    (makes : Disk.Makes now (now.startOf destination) (segments destination) e target)
    {done : List (List Name)} (shifted : base.Shifted source target done e)
    {names : List Name} {node : Node} (fresh : names ∉ done) (ne : names ≠ [])
    (found : base.find? (source ++ names) = some node) (plain : ∀ link, node ≠ .link link)
    (there : now.find? (source ++ names) = some node) : ∃ f,
    moveMember destination (.below root source names) now =
      .ok (.below destination target names, node.isDirectory) f ∧
      base.Shifted source target (done ++ [names]) f := by
  have kind : (Member.below root source names).isDirectory now = node.isDirectory :=
    Member.isDirectory_eq wf there plain
  have located : ∀ {f : Disk}, base.Shifted source target (done ++ [names]) f →
      Member.locate f destination (joinSegments names) = .ok (.below destination target names) := by
    intro f shifted
    have moved : f.find? (target ++ names) = some node := by
      rw [shifted.find?_moved site ne (List.mem_append_right done List.mem_cons_self), found]
    exact Member.locate_below shifted.wellFormed (shifted.leadsInto_target site) ne moved plain
  cases node with
  | link target => exact absurd rfl (plain target)
  | directory =>
      obtain ⟨f, made, shifted⟩ := shifted.exists_makeDirectories site makes ne found
      exact ⟨f, moveMember_of_directory kind made (located shifted), shifted⟩
  | file content =>
      obtain ⟨front, name, rfl⟩ := (List.eq_nil_or_concat' names).resolve_left ne
      obtain ⟨up, g, f, parent, made, moved, shifted⟩ :=
        shifted.exists_moveFile site makes fresh found
      exact ⟨f, moveMember_of_file kind parent made moved (located shifted), shifted⟩

/-- By the members that are left: the disk keeps the form that a step gives it. -/
theorem exists_moveMembers {done : List (List Name)} {e : Disk}
    (shifted : base.Shifted source target done e) {rest : List (List Name)}
    (distinct : (done ++ rest).Nodup) (present : ∀ names ∈ rest, base.Holds source names)
    (moved : Selection) (left : List Member) : ∃ f,
    moveMembers destination moved left (rest.map (Member.below root source)) e =
      .ok (moved.extend (rest.map (Member.below destination target)),
        left ++ (base.directoriesAmong source rest).map (Member.below root source)) f ∧
      base.Shifted source target (done ++ rest) f := by
  induction rest generalizing done e moved left with
  | nil => exact ⟨e, congrArg (EStateM.Result.ok · e) (Prod.ext rfl (List.append_nil left).symm),
      by rwa [List.append_nil]⟩
  | cons names rest ih =>
      obtain ⟨⟨ne, node, found, plain⟩, present⟩ := List.forall_mem_cons.mp present
      have fresh : names ∉ done := fun inside =>
        (List.nodup_append.mp distinct).2.2 names inside names List.mem_cons_self rfl
      obtain ⟨f, one, shifted⟩ := exists_moveMember site shifted.wellFormed (shifted.makes site)
        shifted fresh ne found plain ((shifted.find?_source site fresh).trans found)
      rw [List.append_cons] at distinct
      obtain ⟨g, others, shifted⟩ := ih shifted distinct present
        (moved.insert (.below destination target names))
        (if node.isDirectory then left ++ [.below root source names] else left)
      rw [List.append_cons, List.map_cons,
        Disk.append_map_directoriesAmong site.wellFormed_base found plain root left rest]
      exact ⟨g, Operation.bind_eq_ok_iff.mpr ⟨_, f, one, others⟩, shifted⟩

/-- The destination is made with the first member, so without members nothing is changed. -/
theorem exists_moveMembers_all {entries : List (List Name)} (distinct : entries.Nodup)
    (present : ∀ names ∈ entries, d.Holds source names) (moved : Selection) : ∃ e,
    moveMembers destination moved [] (entries.map (Member.below root source)) d =
      .ok (moved.extend (entries.map (Member.below destination target)),
        (base.directoriesAmong source entries).map (Member.below root source)) e ∧
      (entries = [] ∧ e = d ∨ base.Shifted source target entries e) := by
  cases entries with
  | nil => exact ⟨d, rfl, .inl ⟨rfl, rfl⟩⟩
  | cons names rest =>
      have later := site.holds_base present
      obtain ⟨⟨ne, node, there, plain⟩, present⟩ := List.forall_mem_cons.mp present
      have found := site.makes.find?_of_find? there
      obtain ⟨e, one, shifted⟩ := exists_moveMember site site.wellFormed site.makes (.start site)
        List.not_mem_nil ne found plain there
      obtain ⟨f, others, shifted⟩ := exists_moveMembers site shifted distinct
        (List.forall_mem_cons.mp later).2 (moved.insert (.below destination target names))
        (if node.isDirectory then [] ++ [.below root source names] else [])
      have left := Disk.append_map_directoriesAmong site.wellFormed_base found plain root [] rest
      rw [List.nil_append] at left
      rw [List.map_cons, left]
      exact ⟨f, Operation.bind_eq_ok_iff.mpr ⟨_, e, one, others⟩, .inr shifted⟩

/-! ## The directories in the end -/

section Shifted

variable {entries : List (List Name)} {e : Disk} (shifted : base.Shifted source target entries e)

include shifted

/-- The directories among the entries are still named by their paths at the source. -/
theorem look_directory_of_shifted {m : Member}
    (left : m ∈ (base.directoriesAmong source entries).map (Member.below root source)) :
    (∃ names ∈ entries, m.place = source ++ names) ∧
      e.look .keep m.path = .ok (m.place, .directory) := by
  obtain ⟨names, chosen, rfl⟩ := List.mem_map.mp left
  obtain ⟨inside, found⟩ :=
    (Disk.mem_directoriesAmong_iff site.wellFormed_base shifted.present).mp chosen
  have there := (shifted.keepsWays site).directory found
  have named := (shifted.leadsInto_source site).names_append shifted.wellFormed
    (shifted.present names inside).1 there Node.directory_ne_link
  exact ⟨⟨names, inside, rfl⟩, Disk.look_eq_ok_iff.mpr ⟨named.resolve_eq, there⟩⟩

/-- The files and then the directories of which everything is among them: together these are
the entries of which everything is among the entries. -/
theorem lacks_allBelow {g f : Disk} (grafted : base.Grafted source target entries g)
    (missing : g.Lacks (base.MovedFrom source entries) e)
    (cleared : e.Lacks (e.AllBelow ((base.directoriesAmong source entries).map (source ++ ·))) f) :
    g.Lacks (g.AllBelow (entries.map (source ++ ·))) f := by
  have chosen : ∀ {names}, names ∈ base.directoriesAmong source entries ↔ names ∈ entries ∧
      base.find? (source ++ names) = some .directory :=
    Disk.mem_directoriesAmong_iff site.wellFormed_base shifted.present
  refine (missing.trans cleared).congr fun {place _} _ => ⟨?_, fun all => .inr ?_⟩
  · rintro (⟨names, inside, rfl, content, file⟩ | all)
    · exact Disk.allBelow_of_entry grafted.wellFormed (List.mem_map_of_mem inside)
        ((grafted.find?_source site names).trans file) (fun same => nomatch same)
    · intro below node there
      by_cases moved : base.MovedFrom source entries (place ++ below)
      · obtain ⟨names, inside, same, _⟩ := moved
        exact List.mem_map.mpr ⟨names, inside, same.symm⟩
      · obtain ⟨names, inside, same⟩ :=
          List.mem_map.mp (all below node ((missing.rest moved).trans there))
        exact List.mem_map.mpr ⟨names, (chosen.mp inside).1, same⟩
  · -- what is left of the entries below the place has not been moved, so it is a directory
    intro below node there
    obtain ⟨left, stood⟩ := missing.find?_eq_some_iff.mp there
    obtain ⟨names, inside, same⟩ := List.mem_map.mp (all below node stood)
    obtain ⟨_, other, found, plain⟩ := shifted.present names inside
    refine List.mem_map.mpr ⟨names, chosen.mpr ⟨inside, ?_⟩, same⟩
    cases other with
    | link link => exact absurd rfl (plain link)
    | directory => exact found
    | file content => exact absurd ⟨names, inside, same.symm, content, same ▸ found⟩ left

/-- When the path of the root runs through no entry, it leads to the directories up to the
end. -/
theorem lacks_delete_directories
    (free : ∀ names ∈ entries, ¬d.RunsThrough .follow root (source ++ names))
    (settings : Settings) :
    e.Lacks (e.AllBelow ((base.directoriesAmong source entries).map (source ++ ·)))
      (delete ⟨(base.directoriesAmong source entries).map (.below root source), settings⟩ e).2 := by
  have chosen : ∀ {names}, names ∈ base.directoriesAmong source entries ↔ names ∈ entries ∧
      base.find? (source ++ names) = some .directory :=
    Disk.mem_directoriesAmong_iff site.wellFormed_base shifted.present
  have ways := shifted.keepsWays site
  have led := (shifted.leadsInto_source site).look site.root_ne
  refine (delete_below shifted.wellFormed led (fun names inside => ?_) (fun names inside => ?_)
    settings).2 <;> obtain ⟨inside, found⟩ := chosen.mp inside
  · exact ⟨(shifted.present names inside).1, .directory, ways.directory found,
      Node.directory_ne_link⟩
  · exact site.not_runsThrough_source (site.makes.keeps.keepsWays.trans ways)
      (shifted.present names inside).1 (free names inside)

/-- The disk in the end is that of a copy without the files, and without the directories of
which everything was selected when the path of the root runs through no entry. -/
theorem exists_moved {f : Disk} (cleared : f = removeEmpty (sortBy Member.deepestFirst
      ((base.directoriesAmong source entries).map (Member.below root source))) e) :
    ∃ g gone, base.Moved source target entries g gone f ∧
      ((∀ names ∈ entries, ¬d.RunsThrough .follow root (source ++ names)) →
        g.Lacks (g.AllBelow (entries.map (source ++ ·))) f) := by
  obtain ⟨g, grafted, missing⟩ := shifted.copy
  have led := fun {m : Member} => look_directory_of_shifted site shifted (m := m)
  obtain ⟨wf, gone, lacks, inside⟩ := exists_lacks_removeEmpty
    (P := fun place => ∃ names ∈ entries, place = source ++ names)
    (fun m left => (led (mem_sortBy.mp left)).imp_right fun led => ⟨.directory, led⟩)
    shifted.wellFormed (.refl e) fun _ was => was.elim
  rw [← cleared] at wf lacks
  refine ⟨g, _, ⟨wf, grafted, missing.trans lacks, ?_, ?_⟩, fun free => ?_⟩
  · rintro place (⟨names, chosen, same, _⟩ | was)
    · exact ⟨names, chosen, same⟩
    · exact inside place was
  · exact fun chosen found => .inl (Disk.movedFrom_append_iff.mpr ⟨chosen, _, found⟩)
  · have deleted := lacks_delete_directories site shifted free .standard
    rw [← removeEmpty_eq_delete fun m left => ⟨_, (led left).2⟩, ← cleared] at deleted
    exact lacks_allBelow site shifted grafted missing deleted

end Shifted

/-- A selection of different entries below the root is moved, in whatever order. -/
theorem exists_moveTo {entries : List (List Name)} (distinct : entries.Nodup)
    (present : ∀ names ∈ entries, d.Holds source names) (settings : Settings) : ∃ e,
    moveTo ⟨entries.map (Member.below root source), settings⟩ destination d =
      .ok ⟨entries.map (Member.below destination target), settings⟩ e ∧
    (entries = [] ∧ e = d ∨ ∃ g gone, base.Moved source target entries g gone e ∧
      ((∀ names ∈ entries, ¬d.RunsThrough .follow root (source ++ names)) →
        g.Lacks (g.AllBelow (entries.map (source ++ ·))) e)) := by
  obtain ⟨e, run, after⟩ := exists_moveMembers_all site distinct present (empty settings)
  rw [(empty settings).extend_of_distinct (nodup_places_below_entries distinct)
    fun _ _ => List.not_mem_nil] at run
  refine ⟨removeEmpty _ e, Operation.bind_eq_ok_iff.mpr
    ⟨(), d, refuseCollision_below site distinct present settings d,
      Operation.bind_eq_ok_iff.mpr ⟨_, e, run,
        Operation.bind_eq_ok_iff.mpr ⟨(), removeEmpty _ e, rfl, rfl⟩⟩⟩, ?_⟩
  rcases after with ⟨rfl, rfl⟩ | shifted
  · refine .inl ⟨rfl, ?_⟩
    rw [Disk.directoriesAmong, List.filter_nil, List.map_nil]
    rfl
  · exact .inr (exists_moved site shifted rfl)

end Transfer

end Selection

/-! ## What is left at the source -/

namespace Disk.Moved

variable {d base copied e : Disk} {root destination : Text} {source target : Place}
variable {entries : List (List Name)} {gone : Place → Prop} {place : Place}
variable (site : d.TransferSite root source destination target base)
variable (moved : base.Moved source target entries copied gone e)

include site moved

/-- Beside the target what is no entry stays, except that directories are made. -/
theorem find?_beside (beside : ¬target <+: place)
    (other : place ∉ entries.map (source ++ ·)) :
    e.find? place = d.find? place ∨ d.find? place = none ∧
      e.find? place = some .directory ∧ base.OnTheWay destination place := by
  have left : ¬gone place := fun was => by
    obtain ⟨names, inside, rfl⟩ := moved.named was
    exact other (List.mem_map_of_mem inside)
  rw [moved.lacks.rest left, moved.copy.outside place beside]
  exact site.find?_base place

/-- A directory stays, unless it is an entry as everything below it is. -/
theorem find?_directory (found : d.find? place = some .directory) :
    e.find? place = some .directory ∨ e.find? place = none ∧
      place ∈ entries.map (source ++ ·) ∧ d.AllBelow (entries.map (source ++ ·)) place := by
  by_cases was : gone place
  · obtain ⟨names, inside, rfl⟩ := moved.named was
    refine .inr ⟨moved.lacks.free was, List.mem_map_of_mem inside, fun below node there => ?_⟩
    by_contra other
    have left : ¬gone (source ++ names ++ below) := fun was => by
      obtain ⟨others, inside, same⟩ := moved.named was
      exact other (List.mem_map.mpr ⟨others, inside, same.symm⟩)
    have kept : e.find? (source ++ names ++ below) = some node := by
      rw [moved.lacks.rest left, List.append_assoc, moved.copy.find?_source site,
        ← List.append_assoc, site.makes.find?_of_find? there]
    -- nothing is left below what is gone
    obtain ⟨_, stands⟩ := moved.wellFormed.exists_find?_of_append kept
    exact nomatch (moved.lacks.free was).symm.trans stands
  · rw [moved.lacks.rest was]
    exact .inl ((moved.copy.keeps site).directory (site.makes.find?_of_find? found))

end Disk.Moved

namespace Selection

/-! ## Moved members -/

section Moved

variable {d base copied e : Disk} {root destination : Text} {source target : Place}
variable {entries : List (List Name)} {gone : Place → Prop} {names : List Name}
variable (site : d.TransferSite root source destination target base)
variable (moved : base.Moved source target entries copied gone e)
variable (present : ∀ names ∈ entries, d.Holds source names) (inside : names ∈ entries)

include site present inside

theorem segments_relative_of_present :
    segments (Member.below root source names).relative = names := by
  obtain ⟨_, node, there, _⟩ := site.holds_base present names inside
  exact segments_joinSegments (site.isName there)

include moved

/-- A file is read at the source before, and stands at the target only afterwards. -/
theorem exists_content_of_moved (file : (Member.below root source names).isDirectory d = false) :
    ∃ content, d.readContent (Member.below root source names).path = .ok content ∧
      e.find? (target ++ segments (Member.below root source names).relative) =
        some (.file content) ∧
      e.find? (source ++ names) = none ∧
      e.look .keep (Member.below root source names).path = .error .notFound := by
  obtain ⟨content, found⟩ := Member.exists_file site.wellFormed (present names inside) file
  have ne := (present names inside).1
  have there := site.makes.find?_of_find? found
  have led := (Disk.leadsInto_of_look site.led).look_append site.wellFormed ne found
    (Node.file_ne_link content)
  refine ⟨content, Disk.readContent_eq_ok_iff.mpr ⟨_, led⟩, ?_,
    moved.lacks.free (moved.file inside there), moved.look_source site ne inside there⟩
  rw [segments_relative_of_present site present inside, moved.find?_moved site ne inside, there]

theorem find?_directory_of_moved
    (directory : (Member.below root source names).isDirectory d = true) :
    e.find? (target ++ segments (Member.below root source names).relative) =
      some .directory := by
  have found := Member.find?_of_isDirectory site.wellFormed (present names inside) directory
  rw [segments_relative_of_present site present inside,
    moved.find?_moved site (present names inside).1 inside, site.makes.find?_of_find? found]

/-- The path of a destination that runs through no member leads to the moved members. -/
theorem resolve_moved
    (apart : ∀ names ∈ entries, ¬base.RunsThrough .follow destination (source ++ names)) :
    e.resolve .follow (Path.append destination (Member.below root source names).relative) =
      .ok (target ++ segments (Member.below root source names).relative) := by
  obtain ⟨ne, node, there, plain⟩ := site.holds_base present names inside
  have led := moved.look_target site apart ne inside there plain
  rw [segments_relative_of_present site present inside]
  exact (Disk.look_eq_ok_iff.mp led).1

end Moved

/-- Two directories beside each other, one of them with a file. -/
def siblings : Disk :=
  ((((⟨[], []⟩ : Disk).put ["s"] .directory).put ["s", "aa"] .directory).put
    ["s", "b"] .directory).put ["s", "b", "x"] (.file (.ofText "x"))

theorem wellFormed_siblings : siblings.WellFormed := by
  have wf := Disk.WellFormed.nothing []
  have wf := wf.put_free [] "s" (by decide) rfl rfl .directory
  have wf := wf.put_free ["s"] "aa" (by decide) rfl rfl .directory
  have wf := wf.put_free ["s"] "b" (by decide) rfl rfl .directory
  exact wf.put_free ["s", "b"] "x" (by decide) rfl rfl (.file (.ofText "x"))

theorem isPlainBelow_siblings (place : Place) : siblings.IsPlainBelow place := by
  refine .put (.put (.put (.put (.nothing [] place) (by decide) ?_) (by decide) ?_) (by decide) ?_)
    (by decide) ?_ <;> exact fun _ link => nomatch link

/-- The two and the file, below a directory. -/
def siblingMembers (anchor : Text) (place : Place) : Selection :=
  ⟨[.below anchor place ["aa"], .below anchor place ["b"], .below anchor place ["b", "x"]],
    .standard⟩

theorem glob_siblings_eq :
    ((empty .standard).glob siblings "/s" ["**"]).1 = siblingMembers "/s" ["s"] := by decide +kernel

/-- Below their places there is nothing else. -/
theorem allBelow_siblings {place : Place} (inside : place ∈ (siblingMembers "/s" ["s"]).places) :
    siblings.AllBelow (siblingMembers "/s" ["s"]).places place := by
  have each : ∀ query ∈ siblings.nodes.map Prod.fst,
      query = [Text.ofString "s"] ∨ query ∈ (siblingMembers "/s" ["s"]).places := by decide
  have apart : ∀ query ∈ (siblingMembers "/s" ["s"]).places, ¬query <+: [Text.ofString "s"] := by
    decide
  have ne : place ≠ [] := by
    rintro rfl
    exact apart [] inside List.nil_prefix
  rw [Disk.allBelow_iff wellFormed_siblings ne]
  intro entry present below
  refine (each entry.1 (List.mem_map_of_mem present)).resolve_left fun top => ?_
  exact apart place inside (top ▸ below)

/-- Another directory is made beside the one that they are in. -/
theorem copySite_siblings :
    siblings.CopySite "/s" ["s"] "/out" ["out"] (siblings.put ["out"] .directory) where
  wellFormed := wellFormed_siblings
  led := rfl
  plain := isPlainBelow_siblings ["s"]
  written := by decide
  makes := by
    have top : siblings.Makes [] [] siblings [] := .arrived rfl rfl
    exact top.make (by decide : IsEntryName "out") rfl
  vacant := by decide +kernel
  source_outside := by decide
  target_outside := by decide

/-- The disk after a move, and what has been left below the source. -/
def siblingsMoved (left : List (Place × Node)) : Disk :=
  let moved : List (Place × Node) := [(["out", "b"], .directory), (["out", "aa"], .directory),
    (["out"], .directory), (["out", "b", "x"], .file (.ofText "x"))]
  ⟨moved ++ left, []⟩

end Selection

end FileSelect
