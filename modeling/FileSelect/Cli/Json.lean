import FileSelect.Text.Basic

/-!
# Entries as JSON text

Strings are written with the shortest escapes and everything beyond ASCII as it stands;
each pair and each entry has a line of its own.
-/

namespace FileSelect.Cli.Json

def hexDigit (n : Nat) : Char := if n < 10 then Char.ofNat (48 + n) else Char.ofNat (87 + n)

def escapeChar (c : Char) : Text :=
  if c = '"' then ['\\', '"']
  else if c = '\\' then ['\\', '\\']
  else if c = '\n' then ['\\', 'n']
  else if c = '\r' then ['\\', 'r']
  else if c = '\t' then ['\\', 't']
  else if c = '\x08' then ['\\', 'b']
  else if c = '\x0c' then ['\\', 'f']
  else if c.toNat < 0x20 then
    ['\\', 'u', '0', '0', hexDigit (c.toNat / 16), hexDigit (c.toNat % 16)]
  else [c]

def string (t : Text) : Text := ['"'] ++ t.flatMap escapeChar ++ ['"']

def boolean (b : Bool) : Text := if b then "true" else "false"

/-- An object inside a list; the values are JSON text. -/
def object (pairs : List (Text × Text)) : Text :=
  let lines := pairs.map fun (key, value) =>
    Text.ofString "    " ++ string key ++ Text.ofString ": " ++ value
  Text.ofString "  \x7b\n" ++ Text.join ",\n" lines ++ Text.ofString "\n  \x7d"

def list (objects : List Text) : Text :=
  if objects.isEmpty then "[]"
  else Text.ofString "[\n" ++ Text.join ",\n" objects ++ Text.ofString "\n]"

end FileSelect.Cli.Json
