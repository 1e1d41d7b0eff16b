import FileSelect.Disk.Resolve
import FileSelect.Failure

/-!
# Members of a selection

A member is a path below an anchor directory together with the place it led to when it
was added. The place alone is its identity, so one file reached through two anchors
counts once.
-/

namespace FileSelect

structure Member where
  anchor : Text
  relative : Text
  place : Place
deriving DecidableEq, Repr

namespace Member

/-- The member `relative` below `anchor`, if the path leads anywhere. -/
def locate (d : Disk) (anchor relative : Text) : Except Failure Member :=
  let relative := Text.strip isSlash relative
  let path := Path.append anchor relative
  match d.look .follow path with
  | .ok (place, _) => .ok ⟨anchor, relative, place⟩
  | .error fault => .error (.ioAt path fault)

/-- The path as it was reached. -/
def path (m : Member) : Text := Path.append m.anchor m.relative

/-- The absolute path without links. -/
def placeText (m : Member) : Text := m.place.text

/-- The last segment of the relative path. -/
def name (m : Member) : Text :=
  match Text.splitLast? '/' m.relative with
  | some (_, name) => name
  | none => m.relative

/-- Is there a directory at the member's place now? -/
def isDirectory (d : Disk) (m : Member) : Bool := d.isDirectory m.placeText

/-- The same member below its own parent directory. -/
def flattened (m : Member) : Member :=
  match Text.splitLast? '/' m.relative with
  | some (above, name) => { m with anchor := Path.append m.anchor above, relative := name }
  | none => m

def SameAs (a b : Member) : Prop := a.place = b.place

instance (a b : Member) : Decidable (SameAs a b) := inferInstanceAs (Decidable (_ = _))

/-- Longer places first, and places of one length in byte order. -/
def deepestFirst (a b : Member) : Ordering :=
  (compare (Text.byteLength b.placeText) (Text.byteLength a.placeText)).then
    (Text.order a.placeText b.placeText)

end Member

end FileSelect
