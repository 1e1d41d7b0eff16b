import FileSelect.Proofs.Selection.Collision
import FileSelect.Proofs.Selection.Sources
import FileSelect.Proofs.Text.ByteOrder

/-!
# What an archive holds

An archive that has been written holds one row for each file of the selection: its
relative path, the method of the settings and the content that the file had before. The
rows stand in the byte order of the names, so they do not depend on the order in which
the selection has its members.
-/

namespace FileSelect

open Disk (final Spares)
open Std (LawfulEqCmp OrientedCmp TransCmp)

variable {d base e : Disk} {path : Text} {place : Place}

/-- A member of an archive: its name, its method and its content. -/
abbrev ArchiveRow := Name × Compression × Content

/-- An operation that gives a result has left the disk it ended with. -/
theorem Operation.eq_ok_of_run' {α : Type} {x : Operation α} {a : α}
    (ran : EStateM.run' x d = some a) : x d = .ok a (final (x d)) := by
  delta EStateM.run' EStateM.run at ran
  cases result : x d with
  | error failure e =>
      rw [result] at ran
      cases ran
  | ok b e =>
      rw [result] at ran
      cases ran
      rfl

namespace Archive

/-! ## Storing entries -/

/-- The row that belongs to an entry on the disk `d`. -/
structure IsRowOf (d : Disk) (compression : Compression) (entry : ArchiveEntry)
    (row : ArchiveRow) : Prop where
  name : row.1 = entry.name
  compression : row.2.1 = compression
  content : d.readContent entry.source = .ok row.2.2

namespace IsRowOf

variable {compression : Compression} {entry : ArchiveEntry} {row other : ArchiveRow}
  {entries : List ArchiveEntry} {rows : List ArchiveRow}

theorem unique (is : IsRowOf d compression entry row) (also : IsRowOf d compression entry other) :
    row = other := by
  have content := is.content.symm.trans also.content
  exact Prod.ext (is.name.trans also.name.symm)
    (Prod.ext (is.compression.trans also.compression.symm) (Except.ok.inj content))

theorem mem_iff (each : List.Forall₂ (IsRowOf d compression) entries rows) :
    row ∈ rows ↔ ∃ entry ∈ entries, IsRowOf d compression entry row := by
  induction each with
  | nil => simp
  | cons is _ ih =>
      simp only [List.mem_cons, ih, exists_eq_or_imp]
      exact or_congr_left ⟨fun same => same ▸ is, fun also => also.unique is⟩

theorem map_name (each : List.Forall₂ (IsRowOf d compression) entries rows) :
    rows.map Prod.fst = entries.map ArchiveEntry.name := by
  induction each with
  | nil => rfl
  | cons is _ ih => rw [List.map_cons, List.map_cons, is.name, ih]

end IsRowOf

/-- What is stored is what the source held before, unless the archive is stored in itself. -/
theorem readContent_of_contentOf {compression : Compression} {stored : List ArchiveRow}
    {entry : ArchiveEntry} {content : Content} (wf : base.WellFormed)
    (spares : base.Spares (fun target => target = path) d)
    (led : d.resolve .follow path = .ok place) (there : base.pathExists entry.source = true)
    (apart : d.resolve .follow entry.source ≠ .ok place)
    (read : contentOf place compression stored entry d = .ok content) :
    base.readContent entry.source = .ok content := by
  cases look : base.look .follow entry.source with
  | error fault =>
      rw [Disk.pathExists, look] at there
      cases there
  | ok found =>
      obtain ⟨origin, node⟩ := found
      obtain ⟨resolved, stands⟩ := Disk.look_eq_ok_iff.mp look
      have later := spares.keeps.resolve (by decide) resolved
      have other : origin ≠ place := fun same => apart (same ▸ later)
      rw [contentOf, later] at read
      replace read : d.readContent entry.source = .ok content := by
        simpa only [bind, Except.bind, if_neg other] using read
      obtain ⟨origin', led'⟩ := Disk.readContent_eq_ok_iff.mp read
      obtain ⟨same, holds⟩ := Disk.look_eq_ok_iff.mp led'
      obtain rfl : origin = origin' := Except.ok.inj (later.symm.trans same)
      cases node with
      | directory =>
          rw [spares.keeps.directory stands] at holds
          cases holds
      | link target => exact absurd stands (Disk.not_link_of_resolve wf (by decide) resolved target)
      | file old =>
          have kept := spares.content stands fun target hit same => by
            rw [hit, led] at same
            exact other (Except.ok.inj same).symm
          rw [kept] at holds
          cases holds
          exact Disk.readContent_eq_ok_iff.mpr ⟨origin, look⟩

/-- By the entries that are left: behind the rows that are stored come theirs, read from
the disk as it was when the archive was begun. -/
theorem exists_rows_of_storeEntries {compression : Compression}
    (wf : base.WellFormed) (spares : base.Spares (fun target => target = path) d)
    (led : d.resolve .follow path = .ok place) {stored : List ArchiveRow}
    (holds : d.find? place = some (.file (.archive stored))) {entries : List ArchiveEntry}
    (there : ∀ entry ∈ entries, base.pathExists entry.source = true)
    (apart : ∀ entry ∈ entries, e.resolve .follow entry.source ≠ .ok place)
    (run : storeEntries place compression stored entries d = .ok () e) :
    ∃ rows, List.Forall₂ (IsRowOf base compression) entries rows ∧
      e.resolve .follow path = .ok place ∧
      e.find? place = some (.file (.archive (stored ++ rows))) := by
  induction entries generalizing d stored with
  | nil =>
      cases run
      exact ⟨[], .nil, led, by rwa [List.append_nil]⟩
  | cons entry rest ih =>
      have ended := spares_storeEntries spares.wellFormed holds led compression stored
        (entry :: rest)
      rw [run] at ended
      rw [storeEntries] at run
      split at run
      · cases run
      split at run
      case h_1 => cases run
      case h_2 content read =>
        have content_eq : base.readContent entry.source = .ok content := by
          refine readContent_of_contentOf wf spares led (there entry List.mem_cons_self) ?_ read
          exact fun hit => apart entry List.mem_cons_self (ended.keeps.resolve (by decide) hit)
        let now := stored ++ [(entry.name, compression, content)]
        have written := Disk.spares_overwrite spares.wellFormed holds led (.archive now)
        have ne : place ≠ [] := by
          rintro rfl
          cases holds
        have filled := Disk.find?_put d ne (.file (.archive now)) place
        rw [if_pos rfl] at filled
        obtain ⟨rows, each, led, found⟩ := ih (spares.trans written)
          (written.keeps.resolve (by decide) led) filled
          (fun other inside => there other (List.mem_cons_of_mem entry inside))
          (fun other inside => apart other (List.mem_cons_of_mem entry inside)) run
        refine ⟨(entry.name, compression, content) :: rows, .cons ⟨rfl, rfl, content_eq⟩ each, led, ?_⟩
        rwa [List.append_assoc] at found

/-- An archive of some entries is opened, once its directory is there, and filled. -/
theorem exists_of_write {entries : List ArchiveEntry} {compression : Compression} {n : Nat}
    (wf : d.WellFormed) (ne : entries ≠ [])
    (written : write path entries compression d = .ok n e) :
    n = entries.length ∧ ∃ base place, d.Spares (fun target => target = path) base ∧
      base.writePlace path = .ok place ∧
      storeEntries place compression [] entries (base.put place (.file (.archive []))) =
        .ok () e := by
  have fill {f : Disk} (spares : d.Spares (fun target => target = path) f)
      (filled : fill path entries compression f = .ok n e) :
      n = entries.length ∧ ∃ base place, d.Spares (fun target => target = path) base ∧
        base.writePlace path = .ok place ∧
        storeEntries place compression [] entries (base.put place (.file (.archive []))) =
          .ok () e := by
    obtain ⟨place, base, result, opening⟩ := Operation.bind_eq_ok_iff.mp filled
    obtain ⟨writes, rfl⟩ := read_writePlace_eq_ok_iff.mp result
    obtain ⟨_, _, opened, storing⟩ := Operation.bind_eq_ok_iff.mp opening
    cases opened
    obtain ⟨_, _, stored, counted⟩ := Operation.bind_eq_ok_iff.mp storing
    cases counted
    exact ⟨rfl, base, place, spares, writes, stored⟩
  rw [write, if_neg (by simpa using ne)] at written
  cases parent : Path.parent? path with
  | none =>
      rw [parent] at written
      exact fill (.refl wf) written
  | some above =>
      rw [parent] at written
      dsimp only at written
      split at written
      · exact fill (.refl wf) written
      · obtain ⟨_, f, made, written⟩ := Operation.bind_eq_ok_iff.mp written
        have spares : d.Spares (fun target => target = path)
            (Disk.final (Operation.makeDirectories above d)) :=
          Operation.spares_makeDirectories wf above
        rw [made] at spares
        exact fill spares written

/-- An archive that has been written holds the rows of its entries, read from the disk as
it was before, and has spared all else. -/
theorem exists_rows_of_write {entries : List ArchiveEntry} {compression : Compression} {n : Nat}
    (wf : d.WellFormed) (ne : entries ≠ [])
    (there : ∀ entry ∈ entries, d.pathExists entry.source = true)
    (apart : ∀ entry ∈ entries, e.resolve .follow entry.source ≠ e.resolve .follow path)
    (written : write path entries compression d = .ok n e) :
    ∃ place rows, List.Forall₂ (IsRowOf d compression) entries rows ∧
      e.look .follow path = .ok (place, .file (.archive rows)) := by
  obtain ⟨rfl, base, place, spares, writes, run⟩ := exists_of_write wf ne written
  obtain ⟨opened, holds, led⟩ := Disk.spares_write spares.wellFormed writes (.archive [])
  have ended := spares_storeEntries opened.wellFormed holds led compression [] entries
  rw [run] at ended
  have final_led : e.resolve .follow path = .ok place := ended.keeps.resolve (by decide) led
  obtain ⟨rows, each, _, found⟩ := exists_rows_of_storeEntries wf (spares.trans opened) led holds
    there (fun entry inside => final_led ▸ apart entry inside) run
  exact ⟨place, rows, each, Disk.look_eq_ok_iff.mpr ⟨final_led, found⟩⟩

end Archive

namespace Selection

variable {s t : Selection} {n : Nat}

/-! ## The entries of a selection -/

theorem archiveEntries_perm (s : Selection) (d : Disk) : (s.archiveEntries d).Perm
    ((s.files d).members.map fun m => ArchiveEntry.mk m.relative m.path) :=
  perm_sortBy _ _

instance : TransCmp fun a b : ArchiveEntry => Text.order a.name b.name where
  eq_swap := OrientedCmp.eq_swap
  isLE_trans := TransCmp.isLE_trans

/-- Where no name occurs twice, each one is smaller than the next. -/
theorem pairwise_archiveEntries (distinct : ((s.files d).members.map Member.relative).Nodup) :
    (s.archiveEntries d).Pairwise fun a b => Text.order a.name b.name = .lt := by
  have names : ((s.archiveEntries d).map ArchiveEntry.name).Nodup := by
    have same := (s.archiveEntries_perm d).map ArchiveEntry.name
    rw [List.map_map] at same
    exact same.nodup_iff.mpr distinct
  have ordered := pairwise_sortBy (fun a b : ArchiveEntry => Text.order a.name b.name)
    ((s.files d).members.map fun m => ArchiveEntry.mk m.relative m.path)
  refine (ordered.and (List.pairwise_map.mp names)).imp fun {a b} both => ?_
  obtain ⟨notLarger, ne⟩ := both
  rcases Ordering.isLE_iff_eq_lt_or_eq_eq.mp notLarger with lt | eq
  · exact lt
  · exact absurd (LawfulEqCmp.eq_of_compare eq) ne

/-- The entries do not depend on the order of the members. -/
theorem archiveEntries_of_perm (distinct : ((s.files d).members.map Member.relative).Nodup)
    (reordered : s.members.Perm t.members) : s.archiveEntries d = t.archiveEntries d := by
  have files : (s.files d).members.Perm (t.files d).members := reordered.filter _
  have other : ((t.files d).members.map Member.relative).Nodup :=
    (files.map Member.relative).nodup_iff.mp distinct
  have same : (s.archiveEntries d).Perm (t.archiveEntries d) :=
    ((s.archiveEntries_perm d).trans (files.map _)).trans (t.archiveEntries_perm d).symm
  refine same.eq_of_pairwise (fun a b _ _ smaller larger => ?_)
    (pairwise_archiveEntries distinct) (pairwise_archiveEntries other)
  have swapped : Text.order b.name a.name = .gt := OrientedCmp.gt_of_lt smaller
  rw [swapped] at larger
  cases larger

theorem zip_eq_ok_iff : s.zip path d = .ok n e ↔
    ((s.files d).members.map Member.relative).Nodup ∧
      Archive.write path (s.archiveEntries d) s.settings.compression d = .ok n e := by
  rw [← collision?_eq_none_iff]
  constructor
  · intro zipped
    obtain ⟨_, _, refused, rest⟩ := Operation.bind_eq_ok_iff.mp zipped
    obtain ⟨free, rfl⟩ := refuseCollision_eq_ok_iff.mp refused
    exact ⟨free, rest⟩
  · rintro ⟨free, written⟩
    exact Operation.bind_eq_ok_iff.mpr
      ⟨(), d, refuseCollision_eq_ok_iff.mpr ⟨free, rfl⟩, written⟩

/-! ## The archive of a selection -/

/-- The rows are exactly those of the files of the selection on the disk `d`, in the byte
order of the names. -/
structure IsArchivedAs (s : Selection) (d : Disk) (rows : List ArchiveRow) : Prop where
  length : rows.length = (s.files d).members.length
  mem_iff : ∀ name compression content, (name, compression, content) ∈ rows ↔
    compression = s.settings.compression ∧
      ∃ m ∈ (s.files d).members, m.relative = name ∧ d.readContent m.path = .ok content
  ordered : rows.Pairwise fun a b => Text.bytes a.1 < Text.bytes b.1

theorem isArchivedAs_of_rows (distinct : ((s.files d).members.map Member.relative).Nodup)
    {rows : List ArchiveRow}
    (each : List.Forall₂ (Archive.IsRowOf d s.settings.compression) (s.archiveEntries d) rows) :
    s.IsArchivedAs d rows := by
  have entries := s.archiveEntries_perm d
  refine ⟨?_, fun name compression content => ?_, ?_⟩
  · rw [← each.length_eq, entries.length_eq, List.length_map]
  · rw [Archive.IsRowOf.mem_iff each]
    constructor
    · rintro ⟨entry, inside, is⟩
      obtain ⟨m, among, rfl⟩ := List.mem_map.mp (entries.mem_iff.mp inside)
      exact ⟨is.compression, m, among, is.name.symm, is.content⟩
    · rintro ⟨rfl, m, among, rfl, content⟩
      exact ⟨⟨m.relative, m.path⟩, entries.mem_iff.mpr (List.mem_map_of_mem among), rfl, rfl, content⟩
  · have names : ((s.archiveEntries d).map ArchiveEntry.name).Pairwise
        fun a b => Text.order a b = .lt := List.pairwise_map.mpr (pairwise_archiveEntries distinct)
    rw [← Archive.IsRowOf.map_name each, List.pairwise_map] at names
    exact names.imp Text.order_eq_lt_iff_bytes.mp

/--
When an archive is written of files that are there and are not the archive itself, it
counts the files. For none it leaves the disk as it was. Else its path leads to an archive
of exactly these files, and nothing but the file at this place has changed. The members
may be in any order.
-/
theorem zip_contents (wf : d.WellFormed)
    (there : ∀ m ∈ (s.files d).members, d.pathExists m.path = true)
    (zipped : s.zip path d = .ok n e)
    (apart : ∀ m ∈ (s.files d).members, e.resolve .follow m.path ≠ e.resolve .follow path) :
    n = (s.files d).members.length ∧ (n = 0 → e = d) ∧
    (n ≠ 0 → ∃ place rows, e.look .follow path = .ok (place, .file (.archive rows)) ∧
      s.IsArchivedAs d rows ∧ d.Keeps e ∧ ∀ other content, other ≠ place →
        d.find? other = some (.file content) → e.find? other = some (.file content)) ∧
    ∀ t : Selection, t.settings = s.settings → s.members.Perm t.members →
      t.zip path d = .ok n e := by
  obtain ⟨distinct, written⟩ := zip_eq_ok_iff.mp zipped
  have entries := s.archiveEntries_perm d
  have member {entry : ArchiveEntry} (inside : entry ∈ s.archiveEntries d) :
      ∃ m ∈ (s.files d).members, ArchiveEntry.mk m.relative m.path = entry :=
    List.mem_map.mp (entries.mem_iff.mp inside)
  have count : (s.archiveEntries d).length = (s.files d).members.length := by
    rw [entries.length_eq, List.length_map]
  have reordered : ∀ t : Selection, t.settings = s.settings → s.members.Perm t.members →
      t.zip path d = .ok n e := by
    intro t settings same
    have files : (s.files d).members.Perm (t.files d).members := same.filter _
    refine zip_eq_ok_iff.mpr ⟨(files.map Member.relative).nodup_iff.mp distinct, ?_⟩
    rwa [settings, ← archiveEntries_of_perm distinct same]
  by_cases noEntries : s.archiveEntries d = []
  · rw [noEntries] at written count
    cases written
    exact ⟨count, fun _ => rfl, fun someEntry => absurd rfl someEntry, reordered⟩
  · obtain ⟨place, rows, each, led⟩ := Archive.exists_rows_of_write wf noEntries
      (fun entry inside => by obtain ⟨m, among, rfl⟩ := member inside; exact there m among)
      (fun entry inside => by obtain ⟨m, among, rfl⟩ := member inside; exact apart m among) written
    obtain ⟨counted, _⟩ := Archive.exists_of_write wf noEntries written
    have spares := spares_zip wf s path
    rw [zipped] at spares
    refine ⟨counted.trans count, fun empty => ?_, fun _ => ⟨place, rows, led,
      isArchivedAs_of_rows distinct each, spares.keeps, fun other content ne found => ?_⟩, reordered⟩
    · exact absurd (List.eq_nil_of_length_eq_zero (counted.symm.trans empty)) noEntries
    · refine spares.content found fun target hit same => ne ?_
      rw [hit] at same
      exact Except.ok.inj (same.symm.trans (Disk.look_eq_ok_iff.mp led).1)

/-- Two files and a directory, against the order of their names. -/
def builtBackwards : Selection :=
  ⟨[⟨"/", "keep.txt", ["keep.txt"]⟩, ⟨"/", "build", ["build"]⟩,
    ⟨"/", "build/x.txt", ["build", "x.txt"]⟩], .standard⟩

/-- Their files, in the order of their names. -/
def builtEntries : List ArchiveEntry :=
  [⟨"build/x.txt", "/build/x.txt"⟩, ⟨"keep.txt", "/keep.txt"⟩]

/-- The archive is written into a directory that is made for it, with the files in order. -/
theorem zip_contents_built : Disk.built.WellFormed ∧
    (∀ m ∈ (builtBackwards.files Disk.built).members, Disk.built.pathExists m.path = true) ∧
    ∃ e place rows, builtBackwards.zip "/out/a.zip" Disk.built = .ok 2 e ∧
      (∀ m ∈ (builtBackwards.files Disk.built).members,
        e.resolve .follow m.path ≠ e.resolve .follow "/out/a.zip") ∧
      e.look .follow "/out/a.zip" = .ok (place, .file (.archive rows)) ∧
      builtBackwards.IsArchivedAs Disk.built rows := by
  have entries : builtBackwards.archiveEntries Disk.built = builtEntries := by decide +kernel
  have there : ∀ m ∈ (builtBackwards.files Disk.built).members,
      Disk.built.pathExists m.path = true := by decide +kernel
  have counted : EStateM.run' (Archive.write "/out/a.zip" builtEntries .deflated) Disk.built =
      some 2 := by decide +kernel
  obtain ⟨e, written, apart⟩ : ∃ e,
      Archive.write "/out/a.zip" builtEntries .deflated Disk.built = .ok 2 e ∧
      ∀ m ∈ (builtBackwards.files Disk.built).members,
        e.resolve .follow m.path ≠ e.resolve .follow "/out/a.zip" :=
    ⟨_, Operation.eq_ok_of_run' counted, by decide +kernel⟩
  have zipped : builtBackwards.zip "/out/a.zip" Disk.built = .ok 2 e := by
    refine zip_eq_ok_iff.mpr ⟨by decide +kernel, ?_⟩
    rw [entries]
    exact written
  obtain ⟨_, _, archive, _⟩ := zip_contents Disk.wellFormed_built there zipped apart
  obtain ⟨place, rows, led, archived, _⟩ := archive (by decide)
  exact ⟨Disk.wellFormed_built, there, e, place, rows, zipped, apart, led, archived⟩

end Selection

end FileSelect
