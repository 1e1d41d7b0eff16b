import FileSelect.Proofs.Disk.Confining
import FileSelect.Proofs.Selection.Clearing
import FileSelect.Proofs.Selection.Inward
import FileSelect.Proofs.Selection.Settled

/-!
# Transfers stay at their destination

Copying and moving add to the disk only at the destination, and on the way there, when no
relative path leads above its start and the destination has no links. A move also asks
that every file is named by its path, since it renames what the path names.
-/

namespace FileSelect

open Disk (final Fills)

variable {α β : Type} {d e : Disk} {destination : Text}

namespace Operation

theorem fills_bind {x : Operation α} {f : α → Operation β}
    (first : d.Fills destination (final (x d)))
    (next : ∀ a e, x d = .ok a e → d.Fills destination e → e.Fills destination (final (f a e))) :
    d.Fills destination (final ((x >>= f) d)) :=
  final_bind (R := fun d e => d.Fills destination e) Fills.trans first next

theorem fills_read (wf : d.WellFormed) (f : Disk → Except Failure α) :
    d.Fills destination (final (read f d)) := by
  rw [read]
  split <;> exact .refl wf

theorem fills_change (wf : d.WellFormed) (blame : Fault → Failure) {f : Disk → Except Fault Disk}
    (fills : ∀ e, f d = .ok e → d.Fills destination e) :
    d.Fills destination (final (change blame f d)) := by
  rw [change]
  split
  case h_1 e result => exact fills e result
  case h_2 => exact .refl wf

end Operation

namespace Selection

variable {m : Member}

/-! ## One member -/

section Member

variable (wf : d.WellFormed) (plain : d.IsPlainSite destination) (trimmed : m.IsTrimmed)
variable {names : List Name} (settled : m.settled? = some names)

include wf plain trimmed settled

/-- The directories of a target, or those above it, are made at the destination. -/
theorem fills_makeTarget {path : Text}
    (upper : path = Path.append destination m.relative ∨
      Path.parent? (Path.append destination m.relative) = some path) :
    d.Fills destination (final (Operation.makeDirectories path d)) := by
  have behind := Path.isAbsolute_of_head_ne trimmed.head_ne
  have whole : segments (Path.append destination m.relative) = _ := segments_append behind
  have start : d.startOf (Path.append destination m.relative) = d.startOf destination := by
    rw [Disk.startOf, Disk.startFrom, Path.isAbsolute_append_of_relative behind, Disk.startOf,
      Disk.startFrom]
  rw [Operation.final_makeDirectories]
  rcases upper with rfl | parent
  · exact Disk.fills_makeDirectories wf plain start (whole ▸ List.prefix_refl _) settled
  · obtain ⟨way, absolute⟩ := Path.segments_isPrefix_of_parent? parent
    refine Disk.fills_makeDirectories wf plain ?_ (whole ▸ way) settled
    rw [← start, Disk.startOf, Disk.startFrom, absolute, Disk.startOf, Disk.startFrom]

theorem fills_makeParent :
    d.Fills destination (final (Operation.makeParent (Path.append destination m.relative) d)) := by
  rw [Operation.makeParent]
  cases parent : Path.parent? (Path.append destination m.relative) with
  | none => exact .refl wf
  | some above => exact fills_makeTarget wf plain trimmed settled (.inr parent)

theorem fills_copyMember : d.Fills destination (final (copyMember destination m d)) := by
  refine Operation.fills_bind (x := get) (.refl wf) fun now e got _ => ?_
  cases got
  split
  case isTrue =>
    refine Operation.fills_bind (fills_makeTarget wf plain trimmed settled (.inl rfl))
      fun _ f _ fills => ?_
    exact Operation.fills_read fills.wellFormed _
  case isFalse =>
    refine Operation.fills_bind (fills_makeParent wf plain trimmed settled) fun _ f _ fills => ?_
    refine Operation.fills_bind (Operation.fills_change fills.wellFormed _ fun g copied => ?_)
      fun _ g _ fills => Operation.fills_read fills.wellFormed _
    exact Disk.fills_copyFile trimmed.head_ne trimmed.last_ne settled fills.wellFormed
      (plain.spreads fills.spreads) copied

end Member

/-! ## Copies -/

/-- By the members that are left: a transfer fills the destination as each member does. -/
theorem fills_transfer {one : Member → Operation Member} {ms : List Member} (wf : d.WellFormed)
    (each : ∀ m ∈ ms, ∀ e, d.Fills destination e → e.Fills destination (final (one m e)))
    (done : Selection) : d.Fills destination (final (transfer one done ms d)) := by
  induction ms generalizing d done with
  | nil => exact .refl wf
  | cons m rest ih =>
      refine Operation.fills_bind (each m List.mem_cons_self d (.refl wf))
        fun moved e _ fills => ?_
      exact ih fills.wellFormed (fun n inside f more =>
        each n (List.mem_cons_of_mem m inside) f (fills.trans more)) _

theorem fills_refuseCollision (wf : d.WellFormed) (s : Selection) :
    d.Fills destination (final (s.refuseCollision d)) := by
  rw [refuseCollision]
  split <;> exact .refl wf

theorem fills_copyTo {s : Selection} (wf : d.WellFormed) (plain : d.IsPlainSite destination)
    (trimmed : ∀ m ∈ s.members, m.IsTrimmed)
    (settled : ∀ m ∈ s.members, ∃ names, m.settled? = some names) :
    d.Fills destination (final (s.copyTo destination d)) := by
  refine Operation.fills_bind (fills_refuseCollision wf s) fun _ e _ fills => ?_
  refine fills_transfer fills.wellFormed (fun m inside f more => ?_) _
  obtain ⟨names, settles⟩ := settled m inside
  have later := fills.trans more
  exact fills_copyMember more.wellFormed (plain.spreads later.spreads) (trimmed m inside) settles

/-! ## Moves -/

/-- The path of the member names a file, and it is the file at the member's place. -/
structure Stands (d : Disk) (m : Member) : Prop where
  names : d.Names m.path m.place
  file : ∃ content, d.find? m.place = some (.file content)

/-- What a move finds at the path of a member: the member is a directory, or a file that its
path names, or it is gone, and the path leads nowhere however the destination is filled. -/
inductive IsMovable (d : Disk) (destination : Text) (m : Member) : Prop
  | directory (directory : m.isDirectory d = true)
  | file (stands : Stands d m)
  | gone (nowhere : ∀ e, d.Fills destination e → ∀ place node,
      e.look .keep m.path ≠ .ok (place, node))

/-- The destination is filled, and only what stood at one place may be gone. -/
structure Passes (destination : Text) (gone : Place) (d e : Disk) : Prop where
  fills : d.Fills destination e
  file : ∀ {place content}, place ≠ gone → d.find? place = some (.file content) →
    ∃ content, e.find? place = some (.file content)

namespace Passes

variable {gone : Place} {f : Disk}

theorem trans (first : Passes destination gone d e) (second : Passes destination gone e f) :
    Passes destination gone d f := by
  refine ⟨first.fills.trans second.fills, fun other found => ?_⟩
  obtain ⟨content, found⟩ := first.file other found
  exact second.file other found

theorem refl (wf : d.WellFormed) : Passes destination gone d d :=
  ⟨.refl wf, fun _ found => ⟨_, found⟩⟩

/-- What takes nothing away keeps the files. -/
theorem of_keeps (fills : d.Fills destination e) (keeps : d.Keeps e) :
    Passes destination gone d e := by
  refine ⟨fills, fun {place content} _ found => ?_⟩
  obtain ⟨other, there, kind⟩ := keeps.entry found
  cases kind with
  | file _ new => exact ⟨new, there⟩

/-- A file elsewhere is still named by its path. -/
theorem stands (passes : Passes destination gone d e) (stands : Stands d m)
    (other : m.place ≠ gone) : Stands e m := by
  obtain ⟨content, found⟩ := stands.file
  obtain ⟨later, there⟩ := passes.file other found
  exact ⟨stands.names.file_later found passes.fills.spreads.toKeepsWays there, later, there⟩

theorem movable (passes : Passes destination gone d e) (movable : IsMovable d destination m)
    (other : m.place ≠ gone) : IsMovable e destination m := by
  cases movable with
  | directory there => exact .directory (passes.fills.spreads.toKeepsWays.isDirectory there)
  | file stands => exact .file (passes.stands stands other)
  | gone nowhere => exact .gone fun f fills => nowhere f (passes.fills.trans fills)

end Passes

theorem Stands.keeps (stands : Stands d m) (keeps : d.Keeps e) : Stands e m := by
  obtain ⟨content, found⟩ := stands.file
  obtain ⟨other, there, kind⟩ := keeps.entry found
  cases kind with
  | file _ new => exact ⟨stands.names.file_later found keeps.keepsWays there, new, there⟩

/-- A path that names a file is not that of the anchor itself. -/
theorem Stands.relative_ne (stands : Stands d m) : m.relative ≠ [] := by
  intro empty
  obtain ⟨content, found⟩ := stands.file
  have led : d.look .keep m.path = .ok (m.place, .file content) :=
    Disk.look_eq_ok_iff.mpr ⟨stands.names.resolve_eq, found⟩
  have path : m.path = [] ∨ Text.endsWith ['/'] m.path = true := by
    rw [Member.path, empty, Path.append, if_neg (by decide)]
    split
    case isTrue endsOpen =>
      rw [List.append_nil]
      exact (Bool.or_eq_true_iff.mp endsOpen).imp_left List.isEmpty_iff.mp
    case isFalse => exact .inr (endsWith_slash_iff.mpr ⟨m.anchor, rfl⟩)
  rcases path with empty | slash
  · rw [empty] at led
    cases led
  · cases Disk.directory_of_endsWith_slash led slash

/-- A member that is a directory is made anew, a file is relayed, and what is gone is not
moved. -/
theorem passes_moveMember (wf : d.WellFormed) (plain : d.IsPlainSite destination)
    (trimmed : m.IsTrimmed) {names : List Name} (settled : m.settled? = some names)
    (movable : IsMovable d destination m) :
    Passes destination m.place d (final (moveMember destination m d)) := by
  have located {α β : Type} {e : Disk} (wf : e.WellFormed) (f : Disk → Except Failure α) (b : α → β) :
      Passes destination m.place e (final ((do
        let moved ← Operation.read f
        pure (b moved) : Operation β) e)) := by
    have spares : e.Spares (fun _ => False) (final (Operation.read f e)) :=
      Operation.spares_read wf f
    exact Operation.final_bind (R := Passes destination m.place) Passes.trans
      (.of_keeps (Operation.fills_read wf f) spares.keeps)
      fun _ e _ passes => .refl passes.fills.wellFormed
  refine Operation.final_bind (R := Passes destination m.place) (x := get) Passes.trans (.refl wf)
    fun now e got _ => ?_
  cases got
  dsimp only
  split
  case isTrue =>
    refine Operation.final_bind (R := Passes destination m.place) Passes.trans ?_
      fun _ f _ passes => located passes.fills.wellFormed _ _
    have spares : d.Spares (fun _ => False)
        (final (Operation.makeDirectories (Path.append destination m.relative) d)) :=
      Operation.spares_makeDirectories wf _
    exact .of_keeps (fills_makeTarget wf plain trimmed settled (.inl rfl)) spares.keeps
  case isFalse other =>
    have spares : d.Spares (fun _ => False)
        (final (Operation.makeParent (Path.append destination m.relative) d)) :=
      Operation.spares_makeParent wf _
    refine Operation.final_bind (R := Passes destination m.place) Passes.trans
      (.of_keeps (fills_makeParent wf plain trimmed settled) spares.keeps)
      fun _ f made parent => ?_
    refine Operation.final_bind (R := Passes destination m.place) Passes.trans ?_
      fun _ g _ passes => located passes.fills.wellFormed _ _
    rw [made] at spares
    have wf := parent.fills.wellFormed
    have plain := plain.spreads parent.fills.spreads
    rw [Operation.final_perform]
    cases moved : Disk.moveFile m.path (Path.append destination m.relative) f with
    | error fault g =>
      rcases Disk.eq_or_copy_of_moveFile_eq_error moved with rfl | copied
      · exact .refl wf
      · exact .of_keeps
          (Disk.fills_copyFile trimmed.head_ne trimmed.last_ne settled wf plain copied)
          (Disk.Extends.copyFile wf copied).keeps
    | ok _ g =>
      cases movable with
      | directory there => exact absurd there other
      | file stands =>
          obtain ⟨names, content, found⟩ := stands.keeps spares.keeps
          obtain ⟨new, inside, relays⟩ := Disk.exists_relays_of_moveFile trimmed.head_ne settled wf
            plain trimmed.last_ne stands.relative_ne names found moved
          exact ⟨relays.fills inside, relays.exists_file⟩
      | gone nowhere =>
          obtain ⟨h, fills, place, node, led⟩ := Disk.exists_look_of_moveFile trimmed.head_ne
            settled wf plain trimmed.last_ne moved
          exact absurd led (nowhere h (parent.fills.trans fills) place node)

/-- By the members that are left: they can be moved until their turn comes, since no other
member has their place. -/
theorem fills_moveMembers {ms : List Member} (wf : d.WellFormed)
    (plain : d.IsPlainSite destination) (trimmed : ∀ m ∈ ms, m.IsTrimmed)
    (settled : ∀ m ∈ ms, ∃ names, m.settled? = some names)
    (distinct : (ms.map Member.place).Nodup)
    (movable : ∀ m ∈ ms, IsMovable d destination m) (done : Selection) (left : List Member) :
    d.Fills destination (final (moveMembers destination done left ms d)) := by
  induction ms generalizing d done left with
  | nil => exact .refl wf
  | cons m rest ih =>
      obtain ⟨names, settles⟩ := settled m List.mem_cons_self
      have passes := passes_moveMember wf plain (trimmed m List.mem_cons_self) settles
        (movable m List.mem_cons_self)
      refine Operation.fills_bind passes.fills fun moved e run fills => ?_
      rw [run] at passes
      obtain ⟨fresh, distinct⟩ := List.nodup_cons.mp distinct
      refine ih fills.wellFormed (plain.spreads fills.spreads)
        (fun n inside => trimmed n (List.mem_cons_of_mem m inside))
        (fun n inside => settled n (List.mem_cons_of_mem m inside)) distinct
        (fun n inside => ?_) _ _
      have other : n.place ≠ m.place := fun same => fresh (same ▸ List.mem_map_of_mem inside)
      exact passes.movable (movable n (List.mem_cons_of_mem m inside)) other

/-- What is there after directories have been removed was there before. -/
theorem find?_of_removeEmpty {directories : List Member} {place : Place} {node : Node}
    (found : (removeEmpty directories d).find? place = some node) : d.find? place = some node := by
  induction directories generalizing d with
  | nil => exact found
  | cons m rest ih =>
      rw [removeEmpty_cons] at found
      have later := ih found
      cases removed : d.removeDirectory m.path with
      | error fault =>
          rw [removed] at later
          exact later
      | ok e =>
          rw [removed] at later
          obtain ⟨gone, names, _, _, rfl⟩ := Disk.exists_of_removeDirectory removed
          have later : (d.erase gone).find? place = some node := later
          rw [Disk.find?_erase d names.ne_nil] at later
          split at later
          · cases later
          · exact later

theorem confined_moveTo {s : Selection} (wf : d.WellFormed) (plain : d.IsPlainSite destination)
    (proper : s.IsProper) (settled : ∀ m ∈ s.members, ∃ names, m.settled? = some names)
    (movable : ∀ m ∈ s.members, IsMovable d destination m) :
    d.Confined destination (final (s.moveTo destination d)) := by
  cases found : s.collision? d with
  | some failure =>
      rw [moveTo, refuseCollision_bind_of_some found]
      exact (Fills.refl wf).confined
  | none =>
      rw [moveTo, refuseCollision_bind_of_none found, Operation.bind_eq]
      have fills := fills_moveMembers wf plain proper.trimmed settled proper.distinct movable
        (empty s.settings) []
      cases run : moveMembers destination (empty s.settings) [] s.members d with
      | error failure e =>
          rw [run] at fills
          exact fills.confined
      | ok pair e =>
          rw [run] at fills
          exact fun place node there => fills.confined place node (find?_of_removeEmpty there)

end Selection

/-! ## Archives -/

namespace Archive

variable {named : Name → Prop}

/-- Every archive that is new on the disk has only names with the property. -/
def Stores (named : Name → Prop) (d e : Disk) : Prop :=
  ∀ place rows, e.find? place = some (.file (.archive rows)) →
    d.find? place = some (.file (.archive rows)) ∨ ∀ row ∈ rows, named row.1

theorem Stores.refl (d : Disk) : Stores named d d := fun _ _ => .inl

theorem Stores.trans {f : Disk} (first : Stores named d e) (second : Stores named e f) :
    Stores named d f := by
  intro place rows found
  rcases second place rows found with before | each
  · exact first place rows before
  · exact .inr each

theorem stores_put {place : Place} (ne : place ≠ []) {rows : List (Name × Compression × Content)}
    (each : ∀ row ∈ rows, named row.1) :
    Stores named d (d.put place (.file (.archive rows))) := by
  intro query others found
  rw [Disk.find?_put d ne] at found
  split at found
  case isTrue =>
    cases found
    exact .inr each
  case isFalse => exact .inl found

/-- By the entries that are left: whatever has been stored has a name of an entry. -/
theorem stores_storeEntries {place : Place} (ne : place ≠ []) (compression : Compression)
    {stored : List (Name × Compression × Content)} {entries : List ArchiveEntry}
    (storedNamed : ∀ row ∈ stored, named row.1) (each : ∀ entry ∈ entries, named entry.name) :
    Stores named d (final (storeEntries place compression stored entries d)) := by
  induction entries generalizing d stored with
  | nil => exact .refl d
  | cons entry rest ih =>
      obtain ⟨first, each⟩ := List.forall_mem_cons.mp each
      have more (content : Content) :
          ∀ row ∈ stored ++ [(entry.name, compression, content)], named row.1 :=
        List.forall_mem_append.mpr ⟨storedNamed, List.forall_mem_singleton.mpr first⟩
      rw [storeEntries]
      split
      · exact .refl d
      split
      · exact stores_put ne (more .empty)
      · exact (stores_put ne (more _)).trans (ih (more _) each)

theorem stores_makeDirectories (wf : d.WellFormed) (path : Text) :
    Stores named d (final (Operation.makeDirectories path d)) := by
  have made : d.MadeFor path (final (Disk.makeDirectories path d)) :=
    Disk.madeFor_makeUpwards wf _ path
  rw [Operation.final_makeDirectories]
  intro place rows found
  rcases made place with same | ⟨directory, _⟩
  · exact .inl (same ▸ found)
  · cases directory.symm.trans found

theorem stores_fill (path : Text) {entries : List ArchiveEntry} (compression : Compression)
    (each : ∀ entry ∈ entries, named entry.name) :
    Stores named d (final (fill path entries compression d)) := by
  refine Operation.final_bind (R := Stores named) Stores.trans ?_ fun place e placed _ => ?_
  · rw [Operation.read]
    split <;> exact .refl d
  obtain ⟨writes, rfl⟩ := read_writePlace_eq_ok_iff.mp placed
  have ne : place ≠ [] := by
    rintro rfl
    obtain ⟨_, _, _, other⟩ := Disk.writePlace_eq_ok_iff.mp writes
    exact other rfl
  refine Operation.final_bind (R := Stores named) Stores.trans ?_ fun _ f opened _ => ?_
  · exact stores_put ne (List.forall_mem_nil _)
  · refine Operation.final_bind (R := Stores named) Stores.trans ?_ fun _ g _ _ => .refl g
    exact stores_storeEntries ne compression (List.forall_mem_nil _) each

theorem stores_write (wf : d.WellFormed) (path : Text) {entries : List ArchiveEntry}
    (compression : Compression) (each : ∀ entry ∈ entries, named entry.name) :
    Stores named d (final (write path entries compression d)) := by
  rw [write]
  split
  · exact .refl d
  cases Path.parent? path with
  | none => exact stores_fill path compression each
  | some above =>
      dsimp only
      split
      · exact stores_fill path compression each
      · exact Operation.final_bind (R := Stores named) Stores.trans
          (stores_makeDirectories wf above) fun _ e _ _ => stores_fill path compression each

end Archive

namespace Selection

variable {s : Selection}

theorem stores_zip {named : Name → Prop} (wf : d.WellFormed) (path : Text)
    (each : ∀ m ∈ s.members, named m.relative) :
    Archive.Stores named d (final (s.zip path d)) := by
  refine Operation.final_bind (R := Archive.Stores named) Archive.Stores.trans ?_
    fun _ e refused _ => ?_
  · rw [refuseCollision]
    split <;> exact .refl d
  obtain ⟨_, rfl⟩ := refuseCollision_eq_ok_iff.mp refused
  refine Operation.final_bind (R := Archive.Stores named) (x := get) Archive.Stores.trans
    (.refl e) fun now f got _ => ?_
  cases got
  refine Archive.stores_write wf path _ fun entry inside => ?_
  obtain ⟨m, file, rfl⟩ := List.mem_map.mp (mem_sortBy.mp inside)
  exact each m (mem_files_iff.mp file).1

/-! ## All of them -/

/--
Members whose relative paths do not lead above their start are copied to places at or
below the destination, and moved there when each of them is a directory, is a file that
its path names, or is gone; all else that is new are directories on the way to the
destination. Archives of members without steps upwards have no other names. And the
members of all runs that are given no step upwards are such.
-/
theorem confined_of_copyTo_of_moveTo_of_zip {s : Selection} (wf : d.WellFormed)
    (reachable : s.Reachable) (destination : Text) :
    ((∀ m ∈ s.members, ∃ names, m.settled? = some names) → d.IsPlainSite destination →
      d.Confined destination (final (s.copyTo destination d)) ∧
      ((∀ m ∈ s.members, IsMovable d destination m) →
        d.Confined destination (final (s.moveTo destination d)))) ∧
    ((∀ m ∈ s.members, m.IsInward) → ∀ path,
      Archive.Stores (fun name => Path.isAbsolute name = false ∧ ['.', '.'] ∉ segments name) d
        (final (s.zip path d))) ∧
    (s.Inward → ∀ m ∈ s.members, m.IsInward ∧ ∃ names, m.settled? = some names) := by
  have proper := reachable.isProper
  refine ⟨fun settled plain => ⟨?_, fun movable => ?_⟩, fun inward path => ?_,
    fun run m inside => ?_⟩
  · exact (fills_copyTo wf plain proper.trimmed settled).confined
  · exact confined_moveTo wf plain proper settled movable
  · refine stores_zip wf path fun m inside => ⟨?_, inward m inside⟩
    exact Path.isAbsolute_of_head_ne (proper.trimmed m inside).head_ne
  · exact ⟨run.isInward m inside, (run.isInward m inside).exists_settle⟩

/-- Where there are no links, no destination has any. -/
theorem isPlainSite_of_plain (plain : d.IsPlainBelow []) (destination : Text) :
    d.IsPlainSite destination := fun target _ names => plain (target ++ names)

/-- Nothing is below a place that is free. -/
theorem isPlainSite_of_free (wf : d.WellFormed) {target : Place}
    (led : d.MayLead destination (segments destination) target) (free : d.find? target = none) :
    d.IsPlainSite destination := by
  intro other also names link found
  rw [← led.unique also, wf.find?_append_eq_none free] at found
  cases found

theorem isPlainBelow_twins : twins.IsPlainBelow [] := by
  refine .put (.put (.put (.put (.nothing [] []) ?_ ?_) ?_ ?_) ?_ ?_) ?_ ?_
  all_goals first | decide | exact fun _ link => nomatch link

/-- One of the two files, as patterns find it. -/
def foundTwin : Selection := ((empty .standard).glob twins "/a" ["**"]).1

/-- The file is copied and moved into a new directory, and stored by its name. -/
theorem confined_of_copyTo_of_moveTo_of_zip_twins :
    twins.WellFormed ∧ foundTwin.Inward ∧ foundTwin.Reachable ∧ twins.IsPlainSite "/sub/out" ∧
      (∀ m ∈ foundTwin.members, m.IsInward ∧ (∃ names, m.settled? = some names) ∧
        IsMovable twins "/sub/out" m) ∧
      twins.Confined "/sub/out" (final (foundTwin.copyTo "/sub/out" twins)) ∧
      twins.Confined "/sub/out" (final (foundTwin.moveTo "/sub/out" twins)) ∧
      Archive.Stores (fun name => Path.isAbsolute name = false ∧ ['.', '.'] ∉ segments name) twins
        (final (foundTwin.zip "/a.zip" twins)) := by
  have run : foundTwin.Inward := .glob "/a" ["**"] (.new .standard) wellFormed_twins
  have plain := isPlainSite_of_plain isPlainBelow_twins "/sub/out"
  have movable : ∀ m ∈ foundTwin.members, IsMovable twins "/sub/out" m := by
    have members : foundTwin.members = [⟨"/a", "f", ["a", "f"]⟩] := by decide +kernel
    rw [members]
    refine List.forall_mem_singleton.mpr (.file ⟨?_, _, rfl⟩)
    have slot : twins.slot .invalid "/a/f" = .ok (["a"], "f") := rfl
    have found : twins.find? ["a", "f"] = some (.file (.ofText "a")) := rfl
    exact Disk.names_of_slot slot found fun slash => absurd slash (by decide)
  obtain ⟨transfers, archives, inward⟩ :=
    confined_of_copyTo_of_moveTo_of_zip wellFormed_twins run.reachable "/sub/out"
  have inward := inward run
  obtain ⟨copied, moved⟩ := transfers (fun m inside => (inward m inside).2) plain
  exact ⟨wellFormed_twins, run, run.reachable, plain,
    fun m inside => ⟨(inward m inside).1, (inward m inside).2, movable m inside⟩, copied,
    moved movable, archives (fun m inside => (inward m inside).1) "/a.zip"⟩

/-- A new file that is not below where the destination leads to is not confined. -/
theorem not_confined {target place : Place} {content : Content}
    (led : d.MayLead destination (segments destination) target) (new : d.find? place = none)
    (found : e.find? place = some (.file content)) (outside : ¬target <+: place) :
    ¬d.Confined destination e := by
  intro confined
  rcases confined place _ found with before | ⟨other, also, below⟩ | ⟨directory, _⟩
  · cases new.symm.trans before
  · exact outside (led.unique also ▸ below)
  · cases directory

/-- A link to a file beside its directory, which leads to a directory elsewhere when it is
moved, and a file below a name that the link has. -/
def turningLink : Disk :=
  ((((((((⟨[], []⟩ : Disk).put ["f"] .directory).put ["x"] .directory).put ["x", "f"]
    (.file (.ofText "x"))).put ["x", "y"] .directory).put ["x", "y", "l"] (.link "../f")).put
    ["z"] .directory).put ["z", "l"] .directory).put ["z", "l", "g"] (.file (.ofText "g"))

theorem wellFormed_turningLink : turningLink.WellFormed := by
  have wf := Disk.WellFormed.nothing []
  have wf := wf.put_free [] "f" (by decide) rfl rfl .directory
  have wf := wf.put_free [] "x" (by decide) rfl rfl .directory
  have wf := wf.put_free ["x"] "f" (by decide) rfl rfl (.file (.ofText "x"))
  have wf := wf.put_free ["x"] "y" (by decide) rfl rfl .directory
  have wf := wf.put_free ["x", "y"] "l" (by decide) rfl rfl (.link "../f")
  have wf := wf.put_free [] "z" (by decide) rfl rfl .directory
  have wf := wf.put_free ["z"] "l" (by decide) rfl rfl .directory
  exact wf.put_free ["z", "l"] "g" (by decide) rfl rfl (.file (.ofText "g"))

/-- A file over a path that leads out of its directory into another. -/
def strayFile : Selection := ((empty .standard).addPath twins "/b" "../a/f").1

/-- The link and the file, as patterns find them. -/
def turningFiles : Selection :=
  (((empty .standard).glob turningLink "/x/y" ["l"]).1.glob turningLink "/z" ["l/g"]).1

/-- A path with a step upwards is copied beside the destination and stored as it is, and a
link that is moved leads another file out of the destination. -/
theorem not_confined_strayFile :
    twins.WellFormed ∧ strayFile.Reachable ∧ twins.IsPlainSite "/sub/out" ∧
    ¬twins.Confined "/sub/out" (final (strayFile.copyTo "/sub/out" twins)) ∧
    ¬twins.Confined "/sub/out" (final (strayFile.moveTo "/sub/out" twins)) ∧
    (final (strayFile.zip "/a.zip" twins)).find? ["a.zip"] =
      some (.file (.archive [("../a/f", .deflated, .ofText "a")])) ∧
    turningLink.WellFormed ∧ turningFiles.Inward ∧ turningLink.IsPlainSite "/out" ∧
    ¬turningLink.Confined "/out" (final (turningFiles.moveTo "/out" turningLink)) := by
  have sub : twins.MayLead "/sub/out" (segments "/sub/out") ["sub", "out"] := by
    have top : twins.Makes [] [] twins [] := .arrived rfl rfl
    have upper := top.make (by decide : IsEntryName "sub") rfl
    exact (upper.make (by decide : IsEntryName "out") rfl).mayLead
  have out : turningLink.MayLead "/out" (segments "/out") ["out"] := by
    have top : turningLink.Makes [] [] turningLink [] := .arrived rfl rfl
    exact (top.make (by decide : IsEntryName "out") rfl).mayLead
  have copied : (final (strayFile.copyTo "/sub/out" twins)).find? ["sub", "a", "f"] =
      some (.file (.ofText "a")) := by decide +kernel
  have moved : (final (strayFile.moveTo "/sub/out" twins)).find? ["sub", "a", "f"] =
      some (.file (.ofText "a")) := by decide +kernel
  have led : (final (turningFiles.moveTo "/out" turningLink)).find? ["f", "g"] =
      some (.file (.ofText "g")) := by decide +kernel
  have run : turningFiles.Inward :=
    .glob "/z" ["l/g"] (.glob "/x/y" ["l"] (.new .standard) wellFormed_turningLink)
      wellFormed_turningLink
  exact ⟨wellFormed_twins, .addPath twins "/b" "../a/f" (.new .standard),
    isPlainSite_of_plain isPlainBelow_twins "/sub/out",
    not_confined sub rfl copied (by decide), not_confined sub rfl moved (by decide), by decide +kernel,
    wellFormed_turningLink, run, isPlainSite_of_free wellFormed_turningLink out rfl,
    not_confined out rfl led (by decide)⟩

end Selection

end FileSelect
