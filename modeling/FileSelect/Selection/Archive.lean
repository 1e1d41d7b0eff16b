import FileSelect.Disk.Zip
import FileSelect.Selection.Transfer

/-!
# Archives

An archive is written entry by entry into a file. When an entry cannot be read, the
archive is closed with that entry left empty; a name that is there already is refused,
and the archive holds the entries before it. An archive that is asked to hold itself
holds what has been written of it so far.
-/

namespace FileSelect

/-- One file to store: its name in the archive and where its content is read. -/
structure ArchiveEntry where
  name : Text
  source : Text
deriving DecidableEq, Repr

namespace Archive

/-- What an entry is to hold when the archive at `place` holds `stored`. -/
def contentOf (place : Place) (compression : Compression)
    (stored : List (Name × Compression × Content)) (e : ArchiveEntry) (d : Disk) :
    Except Fault Content := do
  if (← d.resolve .follow e.source) = place then
    pure (.bytes (Zip.unfinished (Content.toFiles stored) ⟨e.name, compression, .empty⟩))
  else d.readContent e.source

/-- Stores entries behind `stored` in the archive at `place`. -/
def storeEntries (place : Place) (compression : Compression) :
    (stored : List (Name × Compression × Content)) → List ArchiveEntry → Operation Unit
  | _, [], d => .ok () d
  | stored, e :: rest, d =>
      if stored.any fun member => member.1 == e.name then .error (.duplicateName e.name) d
      else
        match contentOf place compression stored e d with
        | .error fault =>
            .error (.ioAt e.source fault)
              (d.put place (.file (.archive (stored ++ [(e.name, compression, .empty)]))))
        | .ok content =>
            let stored := stored ++ [(e.name, compression, content)]
            storeEntries place compression stored rest (d.put place (.file (.archive stored)))

/-- Writes a new archive and counts its entries. Nothing is written for no entries. -/
def write (path : Text) (entries : List ArchiveEntry) (compression : Compression) : Operation Nat := do
  if entries.isEmpty then return 0
  match Path.parent? path with
  | some above => if above.isEmpty then pure () else Operation.makeDirectories above
  | none => pure ()
  let place ← Operation.read fun d => (d.writePlace path).mapError (.ioAt path)
  modify fun d => d.put place (.file (.archive []))
  storeEntries place compression [] entries
  pure entries.length

end Archive

namespace Selection

/-- The entries of an archive of the files, in the byte order of their names. -/
def archiveEntries (s : Selection) (d : Disk) : List ArchiveEntry :=
  let entries := (s.files d).members.map fun m => ArchiveEntry.mk m.relative m.path
  sortBy (fun a b => Text.order a.name b.name) entries

def zip (s : Selection) (path : Text) : Operation Nat := do
  s.refuseCollision
  let entries := s.archiveEntries (← get)
  Archive.write path entries s.settings.compression

end Selection

end FileSelect
