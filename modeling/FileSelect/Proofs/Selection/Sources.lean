import FileSelect.Proofs.Disk.Listing
import FileSelect.Proofs.Disk.Sparing
import FileSelect.Proofs.Selection.Operation

/-!
# What copies and archives are made from

Neither copying nor archiving looks whether a target is one of the sources. A source is
lost when a target leads to it, and every other file is as it was, even when the
operation stops midway.
-/

namespace FileSelect

open Disk (final Spares)

variable {α β : Type} {d : Disk} {targets : Text → Prop}

/-! ## Operations -/

namespace Operation

/-- What holds of the disk in front of each step and the disk behind it holds of the whole,
when it can be chained. -/
theorem final_bind {R : Disk → Disk → Prop} (trans : ∀ {d e f}, R d e → R e f → R d f)
    {x : Operation α} {f : α → Operation β} (first : R d (final (x d)))
    (next : ∀ a e, x d = .ok a e → R d e → R e (final (f a e))) :
    R d (final ((x >>= f) d)) := by
  rw [bind_eq]
  cases result : x d with
  | ok a e =>
      rw [result] at first
      exact trans first (next a e result first)
  | error failure e =>
      rw [result] at first
      exact first

/-- The blame for a failure does not change what is left. -/
theorem final_perform (blame : Fault → Failure) (f : Disk.Change Unit) (d : Disk) :
    final (perform blame f d) = final (f d) := by
  rw [perform]
  cases f d <;> rfl

theorem final_makeDirectories (path : Text) (d : Disk) :
    final (makeDirectories path d) = final (Disk.makeDirectories path d) :=
  final_perform _ _ d

/-- What the second step spares is asked for where the first succeeds. -/
theorem spares_bind {x : Operation α} {f : α → Operation β} (first : d.Spares targets (final (x d)))
    (next : ∀ a e, x d = .ok a e → d.Spares targets e → e.Spares targets (final (f a e))) :
    d.Spares targets (final ((x >>= f) d)) :=
  final_bind (R := fun d e => d.Spares targets e) Spares.trans first next

theorem spares_read (wf : d.WellFormed) (f : Disk → Except Failure α) :
    d.Spares targets (final (read f d)) := by
  rw [read]
  split <;> exact .refl wf

theorem spares_makeDirectories (wf : d.WellFormed) (path : Text) :
    d.Spares targets (final (makeDirectories path d)) := by
  rw [final_makeDirectories]
  exact Spares.makeUpwards wf (Path.ancestors path)

theorem spares_makeParent (wf : d.WellFormed) (path : Text) :
    d.Spares targets (final (makeParent path d)) := by
  rw [makeParent]
  cases Path.parent? path with
  | none => exact .refl wf
  | some above => exact spares_makeDirectories wf above

theorem spares_change (wf : d.WellFormed) (blame : Fault → Failure) {f : Disk → Except Fault Disk}
    (spares : ∀ e, f d = .ok e → d.Spares targets e) :
    d.Spares targets (final (change blame f d)) := by
  rw [change]
  split
  case h_1 e result => exact spares e result
  case h_2 => exact .refl wf

end Operation

/-! ## Archives -/

namespace Archive

/-- By the entries that are left: the path of the archive still leads to it. -/
theorem spares_storeEntries {path : Text} {place : Place} {old : Content} (wf : d.WellFormed)
    (found : d.find? place = some (.file old)) (led : d.resolve .follow path = .ok place)
    (compression : Compression) (stored : List (Name × Compression × Content))
    (entries : List ArchiveEntry) :
    d.Spares (fun target => target = path)
      (final (storeEntries place compression stored entries d)) := by
  induction entries generalizing d stored old with
  | nil => exact .refl wf
  | cons entry rest ih =>
      rw [storeEntries]
      split
      · exact .refl wf
      split
      case h_1 => exact Disk.spares_overwrite wf found led _
      case h_2 content _ =>
        let stored := stored ++ [(entry.name, compression, content)]
        have spares := Disk.spares_overwrite wf found led (.archive stored)
        have ne : place ≠ [] := by
          rintro rfl
          cases found
        have later := Disk.find?_put d ne (.file (.archive stored)) place
        rw [if_pos rfl] at later
        exact spares.trans
          (ih spares.wellFormed later (spares.keeps.resolve (by decide) led) stored)

/-- What is left to do when the directory of the archive is there. -/
def fill (path : Text) (entries : List ArchiveEntry) (compression : Compression) :
    Operation Nat := do
  let place ← Operation.read fun d => (d.writePlace path).mapError (.ioAt path)
  modify fun d => d.put place (.file (.archive []))
  storeEntries place compression [] entries
  pure entries.length

theorem read_writePlace_eq_ok_iff {path : Text} {place : Place} {e : Disk} :
    Operation.read (fun d => (d.writePlace path).mapError (.ioAt path)) d = .ok place e ↔
      d.writePlace path = .ok place ∧ e = d := by
  rw [Operation.read_eq_ok_iff]
  refine and_congr_left fun _ => ?_
  cases d.writePlace path with
  | ok there => exact ⟨fun same => congrArg _ (Except.ok.inj same), fun same => by cases same; rfl⟩
  | error fault => exact ⟨fun same => (nomatch same), fun same => (nomatch same)⟩

/-- The archive is opened at the place that its path leads to, and filled there. -/
theorem spares_fill (wf : d.WellFormed) (path : Text) (entries : List ArchiveEntry)
    (compression : Compression) :
    d.Spares (fun target => target = path) (final (fill path entries compression d)) := by
  refine Operation.spares_bind (Operation.spares_read wf _) fun place e placed _ => ?_
  obtain ⟨writes, rfl⟩ := read_writePlace_eq_ok_iff.mp placed
  obtain ⟨spares, found, led⟩ := Disk.spares_write wf writes (.archive [])
  refine Operation.spares_bind spares fun _ f opened _ => ?_
  cases opened
  refine Operation.spares_bind (spares_storeEntries spares.wellFormed found led compression []
    entries) fun _ g _ spares => ?_
  exact .refl spares.wellFormed

theorem spares_write (wf : d.WellFormed) (path : Text) (entries : List ArchiveEntry)
    (compression : Compression) :
    d.Spares (fun target => target = path) (final (write path entries compression d)) := by
  rw [write]
  split
  · exact .refl wf
  cases Path.parent? path with
  | none => exact spares_fill wf path entries compression
  | some above =>
      dsimp only
      split
      · exact spares_fill wf path entries compression
      · exact Operation.spares_bind (Operation.spares_makeDirectories wf above)
          fun _ e _ spares => spares_fill spares.wellFormed path entries compression

end Archive

namespace Selection

/-! ## Copies -/

theorem spares_refuseCollision (wf : d.WellFormed) (s : Selection) :
    d.Spares targets (final (s.refuseCollision d)) := by
  rw [refuseCollision]
  split <;> exact .refl wf

/-- A member is written only to its target, and only if it is no directory. -/
theorem spares_copyMember (wf : d.WellFormed) (destination : Text) (m : Member) :
    d.Spares (fun path => m.isDirectory d = false ∧ path = Path.append destination m.relative)
      (final (copyMember destination m d)) := by
  refine Operation.spares_bind (x := get) (.refl wf) fun now e got _ => ?_
  cases got
  split
  case isTrue =>
    refine Operation.spares_bind (Operation.spares_makeDirectories wf _) fun _ f _ spares => ?_
    exact Operation.spares_read spares.wellFormed _
  case isFalse file =>
    refine Operation.spares_bind (Operation.spares_makeParent wf _) fun _ f _ spares => ?_
    refine Operation.spares_bind (Operation.spares_change spares.wellFormed _ fun g copied => ?_)
      fun _ g _ spares => Operation.spares_read spares.wellFormed _
    exact (Disk.spares_copyFile spares.wellFormed copied).mono
      fun path same => ⟨Bool.eq_false_iff.mpr file, same⟩

/-- By the members that are left: each spares what the whole transfer is to spare. -/
theorem spares_transfer {one : Member → Operation Member} {ms : List Member}
    (wf : d.WellFormed)
    (each : ∀ m ∈ ms, ∀ e, d.Keeps e → e.WellFormed → e.Spares targets (final (one m e)))
    (done : Selection) : d.Spares targets (final (transfer one done ms d)) := by
  induction ms generalizing d done with
  | nil => exact .refl wf
  | cons m rest ih =>
      refine Operation.spares_bind (each m List.mem_cons_self d (.refl d) wf)
        fun moved e _ spares => ?_
      exact ih spares.wellFormed (fun n inside f keeps =>
        each n (List.mem_cons_of_mem m inside) f (spares.keeps.trans keeps)) _

/-- What a copy may write: the targets of the members that are files. -/
def IsTarget (s : Selection) (d : Disk) (destination path : Text) : Prop :=
  ∃ m ∈ s.members, m.isDirectory d = false ∧ path = Path.append destination m.relative

theorem spares_copyTo (wf : d.WellFormed) (s : Selection) (destination : Text) :
    d.Spares (s.IsTarget d destination) (final (s.copyTo destination d)) := by
  refine Operation.spares_bind (spares_refuseCollision wf s) fun _ e _ spares => ?_
  refine spares_transfer spares.wellFormed (fun m inside f keeps wf => ?_) _
  refine (spares_copyMember wf destination m).mono fun path target => ?_
  refine ⟨m, inside, ?_, target.2⟩
  rw [Bool.eq_false_iff]
  intro directory
  have later := (spares.keeps.trans keeps).isDirectory directory
  exact Bool.false_ne_true (target.1.symm.trans later)

theorem spares_zip (wf : d.WellFormed) (s : Selection) (path : Text) :
    d.Spares (fun target => target = path) (final (s.zip path d)) := by
  refine Operation.spares_bind (spares_refuseCollision wf s) fun _ e _ spares => ?_
  refine Operation.spares_bind (x := get) (.refl spares.wellFormed) fun now f got _ => ?_
  cases got
  exact Archive.spares_write spares.wellFormed path _ _

/-- The file that was built, by itself. -/
def builtFile : Selection := ((empty .standard).addPath Disk.built "/build" "x.txt").1

end Selection

end FileSelect
