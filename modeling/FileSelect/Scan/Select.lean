import FileSelect.Disk.Listing
import FileSelect.Glob.PatternSet

/-!
# Selecting from a listing

A scan goes through a listing from the top. A directory that is excluded with
everything below it is passed over, and a directory below which no include can match is
not entered.
-/

namespace FileSelect

/-- A selected entry, as the names that lead to it. -/
structure Selected where
  path : List Name
  isDirectory : Bool
deriving DecidableEq, Repr

namespace PatternSet

/-- The selected entries of a listing, in its order. -/
def select (set : PatternSet) (above : List Name) : Listing → List Selected
  | .done => []
  | .leaf name _ next =>
      (if set.acceptsEntry above name then [⟨above ++ [name], false⟩] else []) ++
        select set above next
  | .branch name inside next =>
      let path := above ++ [name]
      (if set.excludesDirectory path then []
        else
          (if set.acceptsEntry above name then [⟨path, true⟩] else []) ++
            (if set.entersDirectory path then select set path inside else [])) ++
        select set above next

end PatternSet

end FileSelect
