import FileSelect.Glob.Wildcard
import FileSelect.Text.Segments

/-!
# Tokens of a directory pattern

Each segment of a pattern is a literal name, a wildcard, or `**`, which stands for any
number of whole segments. `Tokens.Matches` lays tokens out along the segments of a
path without gaps; `Tokens.accept` searches for such a layout.
-/

namespace FileSelect

inductive Token
  | literal (name : Text)
  | wildcard (w : Wildcard)
  | recursive
deriving DecidableEq, Repr

namespace Token

def recursiveText : Text := ['*', '*']

def ofSegment (segment : Text) : Token :=
  if segment = recursiveText then .recursive
  else if hasWildcard segment then .wildcard ⟨segment⟩
  else .literal segment

/-- Judges one segment; `**` takes any. -/
def accepts : Token → Text → Bool
  | .literal name, segment => name == segment
  | .wildcard w, segment => w.accepts segment
  | .recursive, _ => true

def isRecursive : Token → Bool
  | .recursive => true
  | _ => false

def refusal? : Token → Option Failure
  | .wildcard w => w.refusal?
  | _ => none

end Token

namespace Tokens

/-- Single tokens take one segment each and `**` takes any number. -/
inductive Matches : List Token → List Text → Prop
  | done : Matches [] []
  | single {token : Token} {tokens : List Token} {segment : Text} {segments : List Text} :
      token.isRecursive = false → token.accepts segment = true →
      Matches tokens segments → Matches (token :: tokens) (segment :: segments)
  | recursiveEnd {tokens : List Token} {segments : List Text} :
      Matches tokens segments → Matches (.recursive :: tokens) segments
  | recursiveStep {tokens : List Token} {segment : Text} {segments : List Text} :
      Matches (.recursive :: tokens) segments →
      Matches (.recursive :: tokens) (segment :: segments)

/-- Does `rest` accept the list or one of its proper suffixes? -/
def acceptSuffix (rest : List Text → Bool) : List Text → Bool
  | [] => rest []
  | segment :: segments => rest (segment :: segments) || acceptSuffix rest segments

/-- Tries for every `**` to take no segment, then one more at a time. -/
def accept : List Token → List Text → Bool
  | [], segments => segments.isEmpty
  | .recursive :: tokens, segments => acceptSuffix (accept tokens) segments
  | _ :: _, [] => false
  | token :: tokens, segment :: segments => token.accepts segment && accept tokens segments

/-- Can the segments be continued to a match, judged by the tokens up to the first `**`? -/
def acceptStart : List Token → List Text → Bool
  | _, [] => true
  | [], _ :: _ => false
  | .recursive :: _, _ :: _ => true
  | token :: tokens, segment :: segments =>
      token.accepts segment && acceptStart tokens segments

end Tokens

end FileSelect
