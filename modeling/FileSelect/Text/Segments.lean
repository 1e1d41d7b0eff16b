import FileSelect.Text.Basic

/-!
# Segments of a slash-separated text

Doubled, leading and trailing slashes separate nothing, so a text and its list of
nonempty parts say the same path. The empty text is the starting directory itself.
-/

namespace FileSelect

def isSlash (c : Char) : Bool := c == '/'

def segments (path : Text) : List Text :=
  (Text.split '/' path).filter fun part => !part.isEmpty

/-- Writes segments with one slash between neighbours. -/
def joinSegments (parts : List Text) : Text := Text.join ['/'] parts

end FileSelect
