import FileSelect.Disk.Resolve

/-!
# Changing a disk

The single changes that the bulk operations are made of. Each of them either fails and
leaves the disk as it was, or changes one entry; only `makeDirectories` may have created
some directories before it fails, and `moveFile` may have made a copy.
-/

namespace FileSelect.Disk

def readContent (d : Disk) (path : Text) : Except Fault Content := do
  match ← d.look .follow path with
  | (_, .file content) => pure content
  | _ => throw .isDirectory

def readText (d : Disk) (path : Text) : Except Fault Text := do
  let content ← d.readContent path
  match content.text? with
  | some t => pure t
  | none => throw .notUtf8

/-- The place of the file that is written when `path` is opened for writing. -/
def writePlace (d : Disk) (path : Text) : Except Fault Place := do
  let _ ← d.slot .isDirectory path
  if Text.endsWith ['/'] path then throw .isDirectory
  let place ← d.resolve .create path
  match d.find? place with
  | some .directory => throw .isDirectory
  | _ => pure place

/-- Replaces the content of the file at `path`, or creates it. -/
def writeContent (d : Disk) (path : Text) (content : Content) : Except Fault Disk := do
  let place ← d.writePlace path
  pure (d.put place (.file content))

/-- Copies the content of a file. The target is emptied before the source is read, so a
file that is copied onto itself is lost. -/
def copyFile (d : Disk) (source target : Text) : Except Fault Disk := do
  match ← d.look .follow source with
  | (sourcePlace, .file content) =>
      let place ← d.writePlace target
      pure (d.put place (.file (if place = sourcePlace then .empty else content)))
  | _ => throw .notRegularFile

def makeDirectory (d : Disk) (path : Text) : Except Fault Disk := do
  let (directory, name) ← d.slot .alreadyExists path
  match d.find? (directory ++ [name]) with
  | some _ => throw .alreadyExists
  | none => pure (d.put (directory ++ [name]) .directory)

def makeLink (d : Disk) (path target : Text) : Except Fault Disk := do
  let (directory, name) ← d.slot .alreadyExists path
  match d.find? (directory ++ [name]) with
  | some _ => throw .alreadyExists
  | none => pure (d.put (directory ++ [name]) (.link target))

def removeDirectory (d : Disk) (path : Text) : Except Fault Disk := do
  let (directory, name) ← d.slot .invalid path
  let place := directory ++ [name]
  match d.find? place with
  | some .directory => if d.namesInside place = [] then pure (d.erase place) else throw .notEmpty
  | some _ => throw .notDirectory
  | none => throw .notFound

def removeFile (d : Disk) (path : Text) : Except Fault Disk := do
  let (directory, name) ← d.slot .isDirectory path
  let place := directory ++ [name]
  match d.find? place with
  | some .directory => throw .isDirectory
  | some _ => if Text.endsWith ['/'] path then throw .notDirectory else pure (d.erase place)
  | none => throw .notFound

/-- Removes a file, a link or an empty directory; what is already gone is removed. -/
def remove (d : Disk) (path : Text) : Except Fault Disk :=
  match d.look .keep path with
  | .ok (_, .directory) => d.removeDirectory path
  | .ok _ => d.removeFile path
  | .error fault => if fault = .notFound then .ok d else .error fault

/-- Gives what stands at `source` the name `target`. A link is renamed itself, and what
stood at `target` is replaced unless it is a directory with entries. -/
def rename (d : Disk) (source target : Text) : Except Fault Disk := do
  let (sourceDirectory, sourceName) ← d.slot .invalid source
  let (targetDirectory, targetName) ← d.slot .invalid target
  let old := sourceDirectory ++ [sourceName]
  let new := targetDirectory ++ [targetName]
  match d.find? old with
  | none => throw .notFound
  | some node =>
      if !node.isDirectory && (Text.endsWith ['/'] source || Text.endsWith ['/'] target) then
        throw .notDirectory
      else if old = new then pure d
      else if old.isPrefixOf new then throw .invalid
      else if new.isPrefixOf old then throw .notEmpty
      else
        match d.find? new with
        | none => pure (d.relocate old new)
        | some replaced =>
            if node.isDirectory && !replaced.isDirectory then throw .notDirectory
            else if !node.isDirectory && replaced.isDirectory then throw .isDirectory
            else if replaced.isDirectory && d.namesInside new != [] then throw .notEmpty
            else pure ((d.erase new).relocate old new)

/-- A change that may stop with a fault after a part of it is done. -/
abbrev Change := EStateM Fault Disk

deriving instance DecidableEq for EStateM.Result

/-- Renames a file, or copies and removes it where that is not possible. The copy stays when
the file cannot be removed. -/
def moveFile (source target : Text) : Change Unit := fun d =>
  match d.rename source target with
  | .ok d => .ok () d
  | .error _ =>
      match d.copyFile source target with
      | .error fault => .error fault d
      | .ok d =>
          match d.removeFile source with
          | .ok d => .ok () d
          | .error fault => .error fault d

/-- Creates the first of the paths, where each one is the parent of the one before it. -/
def makeUpwards : List Text → Change Unit
  | [], d => .error (.other "failed to create whole tree") d
  | path :: above, d =>
      if path = [] then .ok () d
      else
        match d.makeDirectory path with
        | .ok d => .ok () d
        | .error fault =>
            if fault = .notFound then
              match makeUpwards above d with
              | .error fault d => .error fault d
              | .ok _ d =>
                  match d.makeDirectory path with
                  | .ok d => .ok () d
                  | .error fault => if d.isDirectory path then .ok () d else .error fault d
            else if d.isDirectory path then .ok () d
            else .error fault d

/-- Creates a directory and those above it, as far as they are missing. -/
def makeDirectories (path : Text) : Change Unit := makeUpwards (Path.ancestors path)

end FileSelect.Disk
