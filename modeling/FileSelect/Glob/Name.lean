import FileSelect.Glob.Wildcard

/-!
# Name matchers

The last segment of a pattern judges the bare name of an entry.
-/

namespace FileSelect

inductive NameMatcher
  | literal (name : Text)
  | wildcard (w : Wildcard)
deriving DecidableEq, Repr

namespace NameMatcher

def ofText (name : Text) : NameMatcher :=
  if hasWildcard name then .wildcard ⟨name⟩ else .literal name

def accepts : NameMatcher → Text → Bool
  | .literal expected, name => expected == name
  | .wildcard w, name => w.accepts name

/-- Stars alone, which every name satisfies. -/
def acceptsAll : NameMatcher → Bool
  | .literal _ => false
  | .wildcard w => w.acceptsAll

def refusal? : NameMatcher → Option Failure
  | .wildcard w => w.refusal?
  | .literal _ => none

end NameMatcher

end FileSelect
