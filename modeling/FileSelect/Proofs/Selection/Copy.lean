import FileSelect.Proofs.Disk.Grafting
import FileSelect.Proofs.Selection.Collision
import FileSelect.Proofs.Selection.Glob
import FileSelect.Proofs.Selection.Runs

/-!
# Copies

What has been gathered below one directory is copied below another, in any order, and
gathering there by the same patterns gives the same relative paths. The directories that
lead to a copy are rejected there for the reason they were rejected before: they are
judged by their paths, and these are the same.
-/

namespace FileSelect

namespace Selection

/-! ## All members -/

section Transfer

variable {d base : Disk} {root destination : Text} {source target : Place}
variable (site : d.TransferSite root source destination target base)

include site

omit site in
theorem relativePaths_below (anchor : Text) (place : Place) (entries : List (List Name))
    (settings : Settings) :
    relativePaths ⟨entries.map (Member.below anchor place), settings⟩ =
      entries.map joinSegments :=
  List.map_map

/-- One step of the transfer copies one entry, and makes the destination if it is missing. -/
theorem exists_copyMember {now e : Disk} (wf : now.WellFormed)
    (makes : Disk.Makes now (now.startOf destination) (segments destination) e target)
    {done : List (List Name)} (grafted : base.Grafted source target done e)
    {names : List Name} {node : Node} (ne : names ≠ [])
    (found : base.find? (source ++ names) = some node) (plain : ∀ link, node ≠ .link link)
    (there : now.find? (source ++ names) = some node) : ∃ f,
    copyMember destination (.below root source names) now =
      .ok (.below destination target names) f ∧
      base.Grafted source target (done ++ [names]) f := by
  have kind : (Member.below root source names).isDirectory now = node.isDirectory :=
    Member.isDirectory_eq wf there plain
  have located : ∀ {f : Disk}, base.Grafted source target (done ++ [names]) f →
      Member.locate f destination (joinSegments names) = .ok (.below destination target names) := by
    intro f grafted
    have copy : f.find? (target ++ names) = some node := by
      rw [grafted.find?_copied ne (List.mem_append_right done List.mem_cons_self), found]
    exact Member.locate_below grafted.wellFormed (grafted.leadsInto_target site) ne copy plain
  cases node with
  | link target => exact absurd rfl (plain target)
  | directory =>
      obtain ⟨f, made, planted⟩ := grafted.exists_makeDirectories site makes ne found
      have grafted := grafted.concat site ne found planted
      exact ⟨f, (copyMember_directory_iff kind).mpr ⟨made, located grafted⟩, grafted⟩
  | file content =>
      obtain ⟨front, name, rfl⟩ := (List.eq_nil_or_concat' names).resolve_left ne
      obtain ⟨up, g, f, parent, made, copied, planted⟩ :=
        grafted.exists_copyFile site makes found
      have grafted := grafted.concat site ne found planted
      have above := Operation.makeParent_eq_ok parent made
      exact ⟨f, (copyMember_file_iff kind).mpr ⟨g, above, copied, located grafted⟩, grafted⟩

/-- By the members that are left: the disk keeps the form that a step gives it. -/
theorem exists_transfer {done : List (List Name)} {e : Disk}
    (grafted : base.Grafted source target done e) {rest : List (List Name)}
    (present : ∀ names ∈ rest, base.Holds source names)
    (copies : Selection) : ∃ f,
    transfer (copyMember destination) copies (rest.map (Member.below root source)) e =
      .ok (copies.extend (rest.map (Member.below destination target))) f ∧
      base.Grafted source target (done ++ rest) f := by
  induction rest generalizing done e copies with
  | nil => exact ⟨e, rfl, by rwa [List.append_nil]⟩
  | cons names rest ih =>
      obtain ⟨⟨ne, node, found, plain⟩, present⟩ := List.forall_mem_cons.mp present
      obtain ⟨f, one, grafted⟩ := exists_copyMember site grafted.wellFormed (grafted.makes site)
        grafted ne found plain ((grafted.find?_source site names).trans found)
      obtain ⟨g, others, grafted⟩ :=
        ih grafted present (copies.insert (.below destination target names))
      rw [List.append_cons]
      exact ⟨g, Operation.bind_eq_ok_iff.mpr ⟨_, f, one, others⟩, grafted⟩

/-- The destination is made with the first member, so without members nothing is changed. -/
theorem exists_transfer_all {entries : List (List Name)}
    (present : ∀ names ∈ entries, d.Holds source names)
    (copies : Selection) : ∃ e,
    transfer (copyMember destination) copies (entries.map (Member.below root source)) d =
      .ok (copies.extend (entries.map (Member.below destination target))) e ∧
      (entries = [] ∧ e = d ∨ base.Grafted source target entries e) := by
  cases entries with
  | nil => exact ⟨d, rfl, .inl ⟨rfl, rfl⟩⟩
  | cons names rest =>
      have later := site.holds_base present
      obtain ⟨⟨ne, node, there, plain⟩, present⟩ := List.forall_mem_cons.mp present
      obtain ⟨e, one, grafted⟩ := exists_copyMember site site.wellFormed site.makes (.start site)
        ne (site.makes.find?_of_find? there) plain there
      obtain ⟨f, others, grafted⟩ := exists_transfer site grafted
        (List.forall_mem_cons.mp later).2 (copies.insert (.below destination target names))
      exact ⟨f, Operation.bind_eq_ok_iff.mpr ⟨_, e, one, others⟩, .inr grafted⟩

/-- Different entries below the root have relative paths of their own. -/
theorem refuseCollision_below {entries : List (List Name)} (distinct : entries.Nodup)
    (present : ∀ names ∈ entries, d.Holds source names) (settings : Settings) (e : Disk) :
    refuseCollision ⟨entries.map (Member.below root source), settings⟩ e = .ok () e := by
  have isName : ∀ names ∈ entries, ∀ name ∈ names, IsName name := fun names inside =>
    (site.holds_base present names inside).2.elim fun _ there => site.isName there.1
  have relatives : (entries.map joinSegments).Nodup :=
    distinct.map_on fun left leftIn right rightIn same =>
      joinSegments_injective (isName left leftIn) (isName right rightIn) same
  refine refuseCollision_eq_ok ?_ e
  rw [relativePaths_below]
  exact relatives

omit site in
theorem nodup_places_below_entries {entries : List (List Name)} (distinct : entries.Nodup) :
    ((entries.map (Member.below destination target)).map Member.place).Nodup := by
  rw [List.map_map]
  exact distinct.map (List.append_right_injective target)

/-- A selection of different entries below the root is copied, in whatever order. -/
theorem exists_copyTo {entries : List (List Name)} (distinct : entries.Nodup)
    (present : ∀ names ∈ entries, d.Holds source names) (settings : Settings) : ∃ e,
    copyTo ⟨entries.map (Member.below root source), settings⟩ destination d =
      .ok ⟨entries.map (Member.below destination target), settings⟩ e ∧
      (entries = [] ∧ e = d ∨ base.Grafted source target entries e) := by
  obtain ⟨e, run, after⟩ := exists_transfer_all site present (empty settings)
  rw [(empty settings).extend_of_distinct (nodup_places_below_entries distinct)
    fun _ _ => List.not_mem_nil] at run
  exact ⟨e, Operation.bind_eq_ok_iff.mpr
    ⟨(), d, refuseCollision_below site distinct present settings d, run⟩, after⟩

/-- Beside the destination nothing changes, except that directories on its path are made. -/
theorem find?_beside {entries : List (List Name)} {e : Disk}
    (after : entries = [] ∧ e = d ∨ base.Grafted source target entries e)
    {place : Place} (beside : ¬target <+: place) :
    e.find? place = d.find? place ∨ d.find? place = none ∧
      e.find? place = some .directory ∧ e.OnTheWay destination place := by
  rcases after with ⟨_, rfl⟩ | grafted
  · exact .inl rfl
  · exact grafted.find?_beside site beside

section Copied

variable {entries : List (List Name)} {e : Disk} {names : List Name} {node : Node}
variable (grafted : base.Grafted source target entries e) (ne : names ≠ [])
variable (copied : names ∈ entries)

include grafted ne copied

/-- A member and its copy are of one kind. -/
theorem isDirectory_copied (there : d.find? (source ++ names) = some node)
    (plain : ∀ link, node ≠ .link link) :
    (Member.below root source names).isDirectory d = node.isDirectory ∧
      (Member.below destination target names).isDirectory e = node.isDirectory := by
  have found := site.makes.find?_of_find? there
  exact ⟨Member.isDirectory_eq site.wellFormed there plain,
    Member.isDirectory_eq grafted.wellFormed ((grafted.find?_copied ne copied).trans found) plain⟩

theorem readContent_copied {content : Content}
    (there : d.find? (source ++ names) = some (.file content)) :
    d.readContent (Path.append root (joinSegments names)) = .ok content ∧
      e.readContent (Path.append destination (joinSegments names)) = .ok content := by
  have plain : ∀ link, Node.file content ≠ .link link := Node.file_ne_link content
  have read := (Disk.leadsInto_of_look site.led).look_append site.wellFormed ne there plain
  have copy := grafted.look_target site ne copied (site.makes.find?_of_find? there) plain
  exact ⟨Disk.readContent_eq_ok_iff.mpr ⟨_, read⟩, Disk.readContent_eq_ok_iff.mpr ⟨_, copy⟩⟩

end Copied

end Transfer

section Site

variable {d base : Disk} {root destination : Text} {source target : Place}
variable (site : d.CopySite root source destination target base)

include site

/-- What has been gathered below the root, in whatever order, are the entries there that the
patterns select. -/
theorem exists_entries_of_gathered {patterns : List Text} {settings : Settings} {s : Selection}
    (gathered : s.members.Perm ((empty settings).glob d root patterns).1.members) :
    ∃ entries : List (List Name), s.members = entries.map (Member.below root source) ∧
      entries.Nodup ∧ (∀ names ∈ entries, d.Holds source names) ∧
      ∀ names, names ∈ entries ↔ names ≠ [] ∧ ∃ node,
        d.find? (source ++ names) = some node ∧
        PatternSet.selects patterns settings ⟨names, node.isDirectory⟩ = true := by
  obtain ⟨entries, members, distinct, each⟩ :=
    exists_entries_of_perm_glob site.wellFormed site.led site.plain gathered
  refine ⟨entries, members, distinct, fun names inside => ?_, each⟩
  obtain ⟨ne, node, found, _⟩ := (each names).mp inside
  exact ⟨ne, node, found, site.not_link (site.makes.find?_of_find? found)⟩

/-! ## Gathering again -/

/-- Before the copy nothing is gathered at the destination. -/
theorem glob_destination (patterns : List Text) (settings : Settings) :
    ((empty settings).glob d destination patterns).2 = PatternSet.refusal? patterns settings ∧
      ∀ m, m ∉ ((empty settings).glob d destination patterns).1.members := by
  have transfer := site.transferSite
  rcases site.makes.look_eq site.written with same | missing
  · subst same
    have led := transfer.leadsInto_target.look site.written
    have plain := (Disk.Grafted.start transfer).isPlainBelow_target site
    refine ⟨congrArg Prod.snd (glob_eq site.wellFormed led plain patterns settings),
      fun m inside => ?_⟩
    obtain ⟨names, node, ne, found, _⟩ := (mem_glob_iff site.wellFormed led plain _ _).mp inside
    rw [transfer.find?_target_append ne] at found
    cases found
  · rw [glob_eq_empty missing]
    exact ⟨rfl, fun m => List.not_mem_nil⟩

/-- What has been copied is gathered by the patterns that the entries were gathered by. -/
theorem mem_glob_copied_iff {entries : List (List Name)} {e : Disk} {patterns : List Text}
    {settings : Settings}
    (after : entries = [] ∧ e = d ∨ base.Grafted source target entries e)
    (gathered : ∀ names, names ∈ entries ↔ names ≠ [] ∧ ∃ node,
      d.find? (source ++ names) = some node ∧
      PatternSet.selects patterns settings ⟨names, node.isDirectory⟩ = true) :
    ((empty settings).glob e destination patterns).2 = PatternSet.refusal? patterns settings ∧
      ∀ m, m ∈ ((empty settings).glob e destination patterns).1.members ↔
        m ∈ entries.map (Member.below destination target) := by
  rcases after with ⟨rfl, rfl⟩ | grafted
  · obtain ⟨fine, nothing⟩ := glob_destination site patterns settings
    exact ⟨fine, fun m => iff_of_false (nothing m) List.not_mem_nil⟩
  have led := (grafted.leadsInto_target site.transferSite).look site.written
  have plain := grafted.isPlainBelow_target site
  refine ⟨congrArg Prod.snd (glob_eq grafted.wellFormed led plain patterns settings), fun m => ?_⟩
  rw [mem_glob_iff grafted.wellFormed led plain, List.mem_map]
  constructor
  · rintro ⟨names, node, ne, found, kept, rfl⟩
    obtain ⟨_, ⟨copied, inside, more, rfl⟩, found⟩ :=
      (grafted.cases_of_find?_target found).resolve_left fun top => ne top.1
    -- on the way to an entry there is nothing that has only been made for the copy
    obtain ⟨_, whole, there, _⟩ := (gathered _).mp inside
    rw [← List.append_assoc] at there
    obtain ⟨other, there⟩ := site.wellFormed.exists_find?_of_append there
    rw [site.makes.find?_of_find? there] at found
    obtain rfl := Option.some.inj found
    exact ⟨names, (gathered names).mpr ⟨ne, other, there, kept⟩, rfl⟩
  · rintro ⟨names, inside, rfl⟩
    obtain ⟨ne, node, there, kept⟩ := (gathered names).mp inside
    exact ⟨names, node, ne,
      (grafted.find?_copied ne inside).trans (site.makes.find?_of_find? there), kept, rfl⟩

end Site

/--
What has been gathered below a directory without links is copied to a destination apart
from it that is an empty directory once it is there, in whatever order the members come.
The copies have the same relative paths and contents, beside the destination only
directories on its path are made, and gathering there by the same patterns gives the same
relative paths and kinds. That fails only for patterns that are refused, by which nothing has
been gathered in the first place.
-/
theorem copyTo_gathered {d base : Disk} {root destination : Text} {source target : Place}
    (site : d.CopySite root source destination target base) (patterns : List Text)
    (settings : Settings) {s : Selection}
    (gathered : s.members.Perm ((empty settings).glob d root patterns).1.members)
    (configured : s.settings = settings) : ∃ copies e,
    s.copyTo destination d = .ok copies e ∧
    copies.relativePaths = s.relativePaths ∧
    (∀ m ∈ s.members, m.isDirectory d = false → ∃ content, d.readContent m.path = .ok content ∧
      e.readContent (Path.append destination m.relative) = .ok content) ∧
    (∀ m ∈ s.members, m.isDirectory d = true →
      e.isDirectory (Path.append destination m.relative) = true) ∧
    (∀ place, ¬target <+: place → e.find? place = d.find? place ∨
      d.find? place = none ∧ e.find? place = some .directory ∧ e.OnTheWay destination place) ∧
    ((empty settings).glob e destination patterns).2 = PatternSet.refusal? patterns settings ∧
    ((empty settings).glob e destination patterns).1.relativePaths.Perm s.relativePaths ∧
    ∀ n ∈ ((empty settings).glob e destination patterns).1.members, ∀ m ∈ s.members,
      n.relative = m.relative → n.isDirectory e = m.isDirectory d := by
  obtain ⟨members, given⟩ := s
  obtain rfl : given = settings := configured
  obtain ⟨entries, rfl, distinct, present, each⟩ := exists_entries_of_gathered site gathered
  have transfer := site.transferSite
  obtain ⟨e, copied, after⟩ := exists_copyTo transfer distinct present given
  obtain ⟨fine, again⟩ := mem_glob_copied_iff site after each
  have graft : ∀ names ∈ entries, base.Grafted source target entries e := fun names inside =>
    after.resolve_left fun nothing => List.ne_nil_of_mem inside nothing.1
  refine ⟨_, e, copied, ?_, ?_, ?_, fun place => find?_beside transfer after, fine, ?_, ?_⟩
  · rw [relativePaths_below, relativePaths_below]
  · refine List.forall_mem_map.mpr fun names inside file => ?_
    obtain ⟨content, found⟩ := Member.exists_file site.wellFormed (present names inside) file
    exact ⟨content,
      readContent_copied transfer (graft names inside) (present names inside).1 inside found⟩
  · refine List.forall_mem_map.mpr fun names inside directory => ?_
    have found := Member.find?_of_isDirectory site.wellFormed (present names inside) directory
    rw [Disk.isDirectory, Member.below,
      (graft names inside).look_target transfer (present names inside).1 inside
        (site.makes.find?_of_find? found) Node.directory_ne_link]
  · have members : ((empty given).glob e destination patterns).1.members.Perm
        (entries.map (Member.below destination target)) := by
      refine (List.perm_ext_iff_of_nodup ?_ ?_).mpr again
      · exact (Reachable.glob e destination patterns (.new given)).isProper.distinct.of_map
          Member.place
      · exact distinct.map (Member.below_injective destination target)
    rw [relativePaths_below root source, ← relativePaths_below destination target entries given]
    exact members.map Member.relative
  · intro n nIn m mIn same
    obtain ⟨copy, copyIn, rfl⟩ := List.mem_map.mp ((again n).mp nIn)
    obtain ⟨names, inside, rfl⟩ := List.mem_map.mp mIn
    obtain ⟨ne, node, found, plain⟩ := present names inside
    obtain ⟨_, _, copyFound, _⟩ := present copy copyIn
    have isName := fun {names : List Name} {node : Node}
      (there : d.find? (source ++ names) = some node) =>
        transfer.isName (site.makes.find?_of_find? there)
    obtain rfl := joinSegments_injective (isName copyFound) (isName found) same
    obtain ⟨original, copied⟩ :=
      isDirectory_copied transfer (graft copy inside) ne inside found plain
    exact copied.trans original.symm

/-- A missing directory apart from what was built, on a path through another one. -/
theorem copySite_built : Disk.built.CopySite "/build" ["build"] "/new/../out" ["out"]
    ((Disk.built.put ["new"] .directory).put ["out"] .directory) where
  wellFormed := Disk.wellFormed_built
  led := rfl
  plain := Disk.isPlainBelow_built ["build"]
  written := by decide
  makes := by
    have top : Disk.built.Makes [] [] Disk.built [] := .arrived rfl rfl
    have new : IsEntryName "new" := by decide
    have out : IsEntryName "out" := by decide
    have back : Disk.built.Makes [] ["new", ".."] (Disk.built.put ["new"] .directory) [] :=
      (top.make new rfl).follow rfl rfl
    exact back.make out rfl
  vacant := by decide +kernel
  source_outside := by decide
  target_outside := by decide

/-- The file that was built is copied, and is the one file there. -/
theorem copyTo_gathered_built :
    (∃ base, Disk.built.CopySite "/build" ["build"] "/new/../out" ["out"] base) ∧ ∃ copies e,
      ((empty .standard).glob Disk.built "/build" ["*.txt"]).1.copyTo "/new/../out" Disk.built =
        .ok copies e ∧
      Text.ofString "x.txt" ∈ copies.relativePaths ∧
      e.readContent "/new/../out/x.txt" = .ok (.ofText "x") ∧
      Text.ofString "x.txt" ∈
        ((empty .standard).glob e "/new/../out" ["*.txt"]).1.relativePaths := by
  have configured :
      ((empty .standard).glob Disk.built "/build" ["*.txt"]).1.settings = .standard := by
    rw [glob_eq copySite_built.wellFormed copySite_built.led copySite_built.plain]
  obtain ⟨copies, e, copied, relatives, files, _, _, _, again, _⟩ :=
    copyTo_gathered copySite_built ["*.txt"] .standard (.refl _) configured
  have inside : Member.below "/build" ["build"] ["x.txt"] ∈
      ((empty .standard).glob Disk.built "/build" ["*.txt"]).1.members :=
    (mem_glob_iff copySite_built.wellFormed copySite_built.led copySite_built.plain _ _).mpr
      ⟨["x.txt"], .file (.ofText "x"), by decide, rfl, by decide +kernel, rfl⟩
  have relative : Text.ofString "x.txt" ∈
      ((empty .standard).glob Disk.built "/build" ["*.txt"]).1.relativePaths :=
    List.mem_map_of_mem inside
  obtain ⟨content, read, copy⟩ := files _ inside (by decide +kernel)
  refine ⟨⟨_, copySite_built⟩, copies, e, copied, relatives ▸ relative, ?_,
    again.mem_iff.mpr relative⟩
  cases read
  exact copy

/-- Below the directory that was built there is one file. -/
theorem glob_build_eq : ((empty .standard).glob Disk.built "/build" ["**"]).1 =
    ⟨[.below "/build" ["build"] ["x.txt"]], .standard⟩ := by
  have members : ((empty .standard).glob Disk.built "/build" ["**"]).1.members =
      [.below "/build" ["build"] ["x.txt"]] := by
    refine List.perm_singleton.mp ((List.perm_ext_iff_of_nodup ?_ (List.nodup_singleton _)).mpr
      fun m => ?_)
    · exact (Reachable.glob Disk.built "/build" ["**"] (.new .standard)).isProper.distinct.of_map
        Member.place
    · rw [mem_glob_iff copySite_built.wellFormed copySite_built.led copySite_built.plain,
        List.mem_singleton]
      constructor
      · rintro ⟨names, node, ne, found, _, rfl⟩
        have present : (Text.ofString "build" :: names, node) ∈ Disk.built.nodes :=
          Disk.wellFormed_built.mem_nodes_iff.mpr ⟨List.cons_ne_nil _ _, found⟩
        have only : ∀ entry ∈ Disk.built.nodes, entry.1.head? = some (Text.ofString "build") →
            entry.1.tail = [] ∨ entry.1.tail = ["x.txt"] := by decide +kernel
        obtain rfl := (only _ present rfl).resolve_left ne
        rfl
      · rintro rfl
        exact ⟨["x.txt"], .file (.ofText "x"), by decide, rfl, by decide +kernel, rfl⟩
  rw [glob_eq copySite_built.wellFormed copySite_built.led copySite_built.plain] at members ⊢
  exact congrArg (Selection.mk · .standard) members

/-- A directory is made on the way to the destination, where the copy would be written. -/
theorem copyTo_fails_built :
    Disk.built.WellFormed ∧ Disk.built.look .follow "/build" = .ok (["build"], .directory) ∧
      Disk.built.IsPlainBelow ["build"] ∧
      Disk.built.look .follow "/out/x.txt/.." = .error .notFound ∧
      (∃ base, Disk.makeDirectories "/out/x.txt/.." Disk.built = .ok () base ∧
        base.look .follow "/out/x.txt/.." = .ok (["out"], .directory)) ∧
      EStateM.run' (((empty .standard).glob Disk.built "/build" ["**"]).1.copyTo "/out/x.txt/..")
        Disk.built = none := by
  have top : Disk.built.Makes [] [] Disk.built [] := .arrived rfl rfl
  have out : IsEntryName "out" := by decide
  have inner : IsEntryName "x.txt" := by decide
  have makes : Disk.built.Makes [] ["out", "x.txt", ".."]
      ((Disk.built.put ["out"] .directory).put ["out", "x.txt"] .directory) ["out"] :=
    ((top.make out rfl).make inner rfl).follow rfl rfl
  have into : Disk.LeadsInto _ "/out/x.txt/.." ["out"] := ⟨makes.walk_eq, makes.stands⟩
  refine ⟨Disk.wellFormed_built, rfl, Disk.isPlainBelow_built ["build"], rfl,
    ⟨_, Disk.makeDirectories_of_makes makes (.inl (by decide)), into.look (by decide)⟩, ?_⟩
  rw [glob_build_eq]
  decide +kernel

end Selection

end FileSelect
