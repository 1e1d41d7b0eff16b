import FileSelect.Cli.Run
import FileSelect.Disk.Zip

/-!
# The program

What a command line is about is read from the machine into a disk, the command runs on
that disk, and what it has changed there is written back.
-/

namespace FileSelect.Machine

/-- What has been read so far. Places in `listed` have been read with all their entries. -/
structure Copy where
  nodes : List (Place × Node)
  listed : List Place

abbrev Reading := StateT Copy IO

def pathOf (place : Place) : String := String.ofList place.text

/-- What stands at a place. The target of a link is where the link leads in the end, and
nothing for a link that leads nowhere. -/
def nodeAt? (contents : Bool) (place : Place) : IO (Option Node) :=
  try
    let directory ← IO.FS.realPath (pathOf place.dropLast)
    let path := directory / String.ofList (place.getLast?.getD [])
    match (← path.symlinkMetadata).type with
    | .dir => pure (some .directory)
    | .symlink =>
        let target ← try pure (← IO.FS.realPath path).toString catch _ => pure ""
        pure (some (.link target.toList))
    | _ =>
        let data ← if contents then IO.FS.readBinFile path else pure .empty
        pure (some (.file (.bytes data)))
  catch _ => pure none

/-- Reads a place that has not been read before. -/
def note (contents : Bool) (place : Place) : Reading (Option Node) := do
  match (← get).nodes.lookup place with
  | some node => pure (some node)
  | none =>
      let node ← nodeAt? contents place
      if let some node := node then
        modify fun copy => { copy with nodes := (place, node) :: copy.nodes }
      pure node

/-- Reads what stands on a way, and gives the place it leads to. -/
partial def readWay (contents : Bool) : Place → List Step → Reading (Option Place)
  | here, [] => pure (some here)
  | here, .stay :: rest => readWay contents here rest
  | here, .up :: rest => readWay contents here.dropLast rest
  | here, .enter name :: rest => do
      match ← note contents (here ++ [name]) with
      | none => pure none
      | some (.link []) => pure none
      | some (.link target) => readWay contents [] (Step.ofPath target ++ rest)
      | some _ => readWay contents (here ++ [name]) rest

mutual

/-- Reads everything below a place and wherever links below it lead. -/
partial def readBelow (contents : Bool) (place : Place) : Reading Unit := do
  if (← get).listed.contains place then return
  modify fun copy => { copy with listed := place :: copy.listed }
  let directory ← IO.FS.realPath (pathOf place)
  for entry in ← directory.readDir do
    readFrom contents place [.enter entry.fileName.toList]

/-- Reads what a way leads to with everything below it. -/
partial def readFrom (contents : Bool) (here : Place) (way : List Step) : Reading Unit := do
  if let some place ← readWay contents here way then
    match ← note contents place with
    | some .directory => readBelow contents place
    | _ => if place = [] then readBelow contents place

end

/-- Reads what an invocation of the program is about. -/
def readDisk (env : Environment) (request : Cli.Request) : IO Disk := do
  let workingPlace := segments (← IO.currentDir).toString.toList
  let read (contents : Bool) (path : Text) : Reading Unit :=
    readFrom contents (if Path.isAbsolute path then [] else workingPlace) (Step.ofPath path)
  let readAll : Reading Unit := do
    let _ ← readWay false [] (workingPlace.map .enter)
    if let .run invocation := request then
      read true (invocation.settingsFile env)
      for path in invocation.command.paths env do
        read invocation.command.readsContents path
  let (_, copy) ← readAll.run ⟨[], []⟩
  pure ⟨copy.nodes, workingPlace⟩

/-- Removes what is gone, inner places first. -/
def removeLost (before after : Disk) : IO Unit := do
  for (place, node) in sortBy (fun a b => compare b.1.length a.1.length) before.nodes do
    if (after.find? place).isNone then
      if node.isDirectory then IO.FS.removeDir (pathOf place) else IO.FS.removeFile (pathOf place)

/-- Writes what is new or different, outer places first. -/
def writeFound (before after : Disk) : IO Unit := do
  for (place, node) in sortBy (fun a b => compare a.1.length b.1.length) after.nodes do
    match node, before.find? place with
    | .directory, none => IO.FS.createDir (pathOf place)
    | .file content, some (.file old) =>
        if content.toBytes.data != old.toBytes.data then
          IO.FS.writeBinFile (pathOf place) content.toBytes
    | .file content, _ => IO.FS.writeBinFile (pathOf place) content.toBytes
    | _, _ => pure ()

end FileSelect.Machine

open FileSelect in
def main (words : List String) : IO UInt32 := do
  let env : Environment :=
    { home := (← IO.getEnv "HOME").map Text.ofString
      accountHome := none
      stateDirectory := (← IO.getEnv "FILESET_DIR").map Text.ofString }
  let words := words.map Text.ofString
  let before ← Machine.readDisk env (Cli.Request.ofWords words)
  let (outcome, after) := Cli.run env words before
  Machine.removeLost before after
  Machine.writeFound before after
  IO.print (String.ofList outcome.output)
  IO.eprint (String.ofList outcome.errors)
  pure outcome.code.toUInt32
