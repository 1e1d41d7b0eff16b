import FileSelect.Disk.Resolve

/-!
# What is below a directory

A listing holds the entries of a directory in the byte order of their names, each
directory together with what is inside it. When links are followed, a link counts as
what it leads to; a broken link is left out, and so is a link back to a directory that
is being listed, which keeps the listing finite.
-/

namespace FileSelect

/-- The entries of a directory from the first to the last. -/
inductive Listing
  | done
  /-- An entry that is no directory: a regular file, or a link that is not followed. -/
  | leaf (name : Name) (isFile : Bool) (next : Listing)
  | branch (name : Name) (inside next : Listing)
deriving DecidableEq, Repr

namespace Listing

/-- The files below a directory, each as the names that lead to it. -/
def files (above : List Name) : Listing → List (List Name)
  | .done => []
  | .leaf name isFile next =>
      (if isFile then [above ++ [name]] else []) ++ files above next
  | .branch name inside next => files (above ++ [name]) inside ++ files above next

end Listing

/-- What an entry of a directory counts as. -/
inductive Sight
  | absent
  | file
  | link
  | directory (place : Place)
deriving DecidableEq, Repr

namespace Disk

/-- Judges the entry `name` of the directory at `here`, which was reached as `path`
through the directories `above`. -/
def sight (d : Disk) (followLinks : Bool) (above : List Place) (path : Text) (here : Place)
    (name : Name) : Sight :=
  match d.find? (here ++ [name]) with
  | none => .absent
  | some (.file _) => .file
  | some .directory => .directory (here ++ [name])
  | some (.link _) =>
      if !followLinks then .link
      else
        match d.look .follow (Path.append path name) with
        | .error _ => .absent
        | .ok (place, .directory) => if place ∈ above then .absent else .directory place
        | .ok _ => .file

/-- Lists the directory at `here` down to `depth` levels. -/
def listingTo (d : Disk) (followLinks : Bool) :
    (depth : Nat) → (above : List Place) → (path : Text) → (here : Place) → Listing
  | 0, _, _, _ => .done
  | depth + 1, above, path, here =>
      (d.namesInside here).foldr (fun name next =>
        match d.sight followLinks above path here name with
        | .absent => next
        | .file => .leaf name true next
        | .link => .leaf name false next
        | .directory place =>
            .branch name
              (listingTo d followLinks depth (place :: above) (Path.append path name) place) next)
        .done

/-- More levels than a listing can have: between two followed links a path only gets
longer, and every followed link enters a directory that is not being listed yet. -/
def depthLimit (d : Disk) : Nat := (d.nodes.length + 1) * (d.nodes.length + 1)

/-- Everything below the directory that `root` leads to; a link at the root is followed. -/
def listing (d : Disk) (followLinks : Bool) (root : Text) : Listing :=
  match d.look .follow root with
  | .ok (place, .directory) => d.listingTo followLinks d.depthLimit [place] root place
  | _ => .done

end Disk

end FileSelect
