import FileSelect.Glob.Token

/-!
# Directory matchers

The directory part of a pattern is compiled to the simplest matcher that decides it.
Two questions are asked of a directory below the starting one: may entries directly
inside it match, and can anything at or below it still match.
-/

namespace FileSelect

inductive DirectoryMatcher
  /-- The pattern has no directory part. -/
  | rootOnly
  /-- The directory part is `**`. -/
  | anyDepth
  /-- One path without wildcards. -/
  | exactPath (names : List Text)
  /-- One segment with a wildcard. -/
  | singleWildcard (w : Wildcard)
  | tokens (ts : List Token)
deriving DecidableEq, Repr

namespace DirectoryMatcher

def ofSegments : List Text → DirectoryMatcher
  | [] => .rootOnly
  | [only] =>
      if only = Token.recursiveText then .anyDepth
      else if hasWildcard only then .singleWildcard ⟨only⟩
      else .exactPath [only]
  | parts =>
      if parts.all fun part => !hasWildcard part then .exactPath parts
      else .tokens (parts.map Token.ofSegment)

def ofText? : Option Text → DirectoryMatcher
  | none => .rootOnly
  | some directory => ofSegments (segments directory)

/-- Can entries directly inside this directory match? -/
def acceptsInside : DirectoryMatcher → List Text → Bool
  | .rootOnly, path => path.isEmpty
  | .anyDepth, _ => true
  | .exactPath names, path => names == path
  | .singleWildcard w, [only] => w.accepts only
  | .singleWildcard _, _ => false
  | .tokens ts, path => Tokens.accept ts path

/-- Can anything at or below this directory match? -/
def acceptsBelow : DirectoryMatcher → List Text → Bool
  | .rootOnly, path => path.isEmpty
  | .anyDepth, _ => true
  | .exactPath names, path => path.isPrefixOf names
  | .singleWildcard _, [] => true
  | .singleWildcard w, [only] => w.accepts only
  | .singleWildcard _, _ => false
  | .tokens ts, path => Tokens.acceptStart ts path

/-- The first segment that is refused says why the directory part is. -/
def refusal? : DirectoryMatcher → Option Failure
  | .singleWildcard w => w.refusal?
  | .tokens ts => ts.findSome? Token.refusal?
  | _ => none

end DirectoryMatcher

end FileSelect
