import FileSelect.Disk.Change
import FileSelect.Selection.Basic

/-!
# Deleting

Members are deleted deepest place first, so what is inside a directory goes before it.
A directory is removed only when it is empty. A failed removal does not stop the others.
-/

namespace FileSelect.Selection

/-- Removes members in the given order and says whether all of them could be removed. -/
def deleteIn : List Member → Disk → Bool × Disk
  | [], d => (true, d)
  | m :: rest, d =>
      match d.remove m.path with
      | .ok d => deleteIn rest d
      | .error _ => (false, (deleteIn rest d).2)

def delete (s : Selection) (d : Disk) : Bool × Disk :=
  deleteIn (sortBy Member.deepestFirst s.members) d

end FileSelect.Selection
