import FileSelect.Text.Basic

/-!
# Values of a TOML document

A table remembers how it came about, because that decides what may still be added to
it: a table in braces is closed, a table with its own header takes no dotted keys from
outside, and a table that was only implied by a longer header may get its own later.
-/

namespace FileSelect.Toml

inductive Form
  /-- Written in braces. -/
  | inline
  /-- Named by a header of its own, or the top table. -/
  | section
  /-- Passed through by the header of a table inside it. -/
  | implied
  /-- Made by a dotted key. -/
  | dotted
deriving DecidableEq, Repr

inductive Value
  | string (text : Text)
  | integer (number : Int)
  | float (source : Text)
  | boolean (flag : Bool)
  | dateTime (source : Text)
  | array (values : List Value)
  | table (form : Form) (entries : List (Text × Value))
  /-- Tables that share a header in double brackets. -/
  | tables (all : List (List (Text × Value)))

/-- The entries of a table, each key once. -/
abbrev Entries := List (Text × Value)

namespace Entries

/-- Replaces the value of a key, or adds the key at the end. -/
def set (key : Text) (value : Value) : Entries → Entries
  | [] => [(key, value)]
  | (k, v) :: rest => if k = key then (k, value) :: rest else (k, v) :: set key value rest

def get? (entries : Entries) (key : Text) : Option Value := entries.lookup key

/-- Changes the table that `path` leads to. Tables on the way are created, and a header in
double brackets stands for its last table. A dotted key does not enter a table that has
its own header. -/
def changeAt (isDotted : Bool) (change : Form → Entries → Option Entries) :
    List Text → Form → Entries → Option Entries
  | [], form, entries => change form entries
  | key :: path, _, entries =>
      match get? entries key with
      | none => do
          let form := if isDotted then Form.dotted else .implied
          let inside ← changeAt isDotted change path form []
          pure (set key (.table form inside) entries)
      | some (.table form inside) =>
          if form = .inline ∨ (isDotted ∧ form = .section) then none
          else do
            let inside ← changeAt isDotted change path form inside
            pure (set key (.table form inside) entries)
      | some (.tables all) => do
          let last ← all.getLast?
          let inside ← changeAt isDotted change path .section last
          pure (set key (.tables (all.dropLast ++ [inside])) entries)
      | some _ => none

/-- Adds a value under a dotted key, which must be new. -/
def addValue (keys : List Text) (value : Value) (form : Form) (entries : Entries) :
    Option Entries := do
  let key ← keys.getLast?
  let above := keys.dropLast
  changeAt true
    (fun form entries =>
      if above ≠ [] ∧ form ≠ .dotted then none
      else
        match get? entries key with
        | some _ => none
        | none => some (set key value entries))
    above form entries

/-- Opens the table of a header. -/
def openTable (keys : List Text) (entries : Entries) : Option Entries := do
  let key ← keys.getLast?
  changeAt false
    (fun _ entries =>
      match get? entries key with
      | none => some (set key (.table .section []) entries)
      | some (.table .implied inside) => some (set key (.table .section inside) entries)
      | some _ => none)
    keys.dropLast .section entries

/-- Adds one more table under a header in double brackets. -/
def openElement (keys : List Text) (entries : Entries) : Option Entries := do
  let key ← keys.getLast?
  changeAt false
    (fun _ entries =>
      match get? entries key with
      | none => some (set key (.tables [[]]) entries)
      | some (.tables all) => some (set key (.tables (all ++ [[]])) entries)
      | some _ => none)
    keys.dropLast .section entries

end Entries

end FileSelect.Toml
