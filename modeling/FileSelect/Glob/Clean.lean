import FileSelect.Glob.Token

/-!
# Normal form of a pattern

A raw pattern is brought to a normal form before it is compiled. Blanks around
slashes, empty segments and `.` segments between slashes are dropped, every run of two
or more stars becomes a segment `**` of its own, a pattern that ends in `**` or in a
slash is completed by `*`, and neighbouring `**` are merged. While this is done the
text is anchored by `./`, so that every segment has a slash in front of it.
-/

namespace FileSelect

namespace Clean

/-- Trims the part between every two slashes. -/
def trimParts (t : Text) : Text :=
  joinSegments ((Text.split '/' t).map Text.trim)

/-- The empty pattern means the entries of the starting directory. -/
def anchor (t : Text) : Text :=
  match t with
  | [] => ['.', '/', '*']
  | '/' :: _ => '.' :: t
  | _ => '.' :: '/' :: t

/-- Drops every `.` that stands alone between two slashes. -/
def dropDots : Text → Text
  | '/' :: '.' :: '/' :: rest => dropDots ('/' :: rest)
  | c :: rest => c :: dropDots rest
  | [] => []
termination_by t => t.length

/-- Keeps one slash of every run. -/
def squeezeSlashes : Text → Text
  | '/' :: '/' :: rest => squeezeSlashes ('/' :: rest)
  | c :: rest => c :: squeezeSlashes rest
  | [] => []
termination_by t => t.length

theorem length_dropWhile_le (p : Char → Bool) (t : Text) :
    (t.dropWhile p).length ≤ t.length := (List.dropWhile_sublist p).length_le

/-- What is put between a run of stars and the text behind it. -/
def behindRun : Text → Text
  | [] => []
  | '/' :: _ => []
  | _ => ['/', '*']

/-- Gives runs of two or more stars a segment of their own. The text around a run keeps
its meaning as a wildcard next to it, so `a**b` becomes `a*/**/*b`. `atStart` says that
no part of a segment has been written since the last slash. -/
def isolate (atStart : Bool) : Text → Text
  | '*' :: '*' :: rest =>
      let after := rest.dropWhile (· == '*')
      (if atStart then [] else ['*', '/']) ++ ['*', '*'] ++
        behindRun after ++ isolate false after
  | c :: rest => c :: isolate (c == '/') rest
  | [] => []
termination_by t => t.length
decreasing_by
  · have := length_dropWhile_le (· == '*') rest
    simp only [List.length_cons]
    omega
  · simp

/-- A pattern that names a directory means the entries inside it. -/
def complete (t : Text) : Text :=
  let t := if Text.endsWith ['*', '*'] t then t ++ ['/'] else t
  if Text.endsWith ['/'] t then t ++ ['*'] else t

/-- Keeps one `**` of several neighbouring ones. -/
def mergeRecursive : Text → Text
  | '/' :: '*' :: '*' :: '/' :: '*' :: '*' :: '/' :: rest =>
      mergeRecursive ('/' :: '*' :: '*' :: '/' :: rest)
  | c :: rest => c :: mergeRecursive rest
  | [] => []
termination_by t => t.length

def dropAnchor : Text → Text
  | '.' :: '/' :: c :: rest => c :: rest
  | t => t

end Clean

/-- The normal form of a raw pattern. -/
def clean (pattern : Text) : Text :=
  Clean.dropAnchor (Clean.mergeRecursive (Clean.complete (Clean.isolate true
    (Clean.squeezeSlashes (Clean.dropDots (Clean.anchor (Clean.trimParts pattern)))))))

end FileSelect
