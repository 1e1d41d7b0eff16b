import FileSelect.Failure
import FileSelect.Regex.Reader

/-!
# Wildcards in one segment

In a wildcard `*` stands for any run of characters, `?` for exactly one, and every
other character for itself; neither `*` nor `?` takes a slash. `Wildcard.Matches` says
this, and `Wildcard.accepts` decides it with one row of answers per wildcard
character, so that many stars stay cheap. A wildcard is written as a regular expression
between two anchors, and it is refused when this expression is too large.
-/

namespace FileSelect

structure Wildcard where
  source : Text
deriving DecidableEq, Repr

namespace Wildcard

/-- How a list of wildcard characters can be laid out along a name. -/
inductive Matches : Text → Text → Prop
  | done : Matches [] []
  | starEnd {source name : Text} : Matches source name → Matches ('*' :: source) name
  | starStep {source name : Text} {c : Char} :
      c ≠ '/' → Matches ('*' :: source) name → Matches ('*' :: source) (c :: name)
  | any {source name : Text} {c : Char} :
      c ≠ '/' → Matches source name → Matches ('?' :: source) (c :: name)
  | same {source name : Text} {c : Char} :
      c ≠ '*' → c ≠ '?' → Matches source name → Matches (c :: source) (c :: name)

/-- Answers of the empty wildcard at every suffix of a name, the whole name first. -/
def lastRow : Text → List Bool
  | [] => [true]
  | _ :: name => false :: lastRow name

/-- Puts the wildcard character `w` in front: `row` answers for what follows it. -/
def extendRow (w : Char) : Text → List Bool → List Bool
  | [], row => [w == '*' && row.headD false]
  | c :: name, row =>
      let below := extendRow w name row.tail
      let here :=
        if w = '*' then row.headD false || (c != '/' && below.headD false)
        else if w = '?' then c != '/' && row.tail.headD false
        else c == w && row.tail.headD false
      here :: below

def rowOf (source name : Text) : List Bool :=
  source.foldr (fun w row => extendRow w name row) (lastRow name)

def accepts (w : Wildcard) (name : Text) : Bool := (rowOf w.source name).headD false

/-- A wildcard of stars alone accepts every name. -/
def acceptsAll (w : Wildcard) : Bool := !w.source.isEmpty && w.source.all (· == '*')

/-- The characters that have a meaning in expressions. -/
def metaChars : Text :=
  ['\\', '.', '+', '*', '?', '(', ')', '|', '[', ']', '\x7b', '\x7d', '^', '$', '#', '&', '-', '~']

def escape (c : Char) : Text := if c ∈ metaChars then ['\\', c] else [c]

def charText (w : Char) : Text :=
  if w = '*' then "[^/]*" else if w = '?' then "[^/]" else escape w

/-- The text of the expression for a wildcard. -/
def expressionText (source : Text) : Text := '^' :: (source.flatMap charText ++ ['$'])

/-- Why the wildcard is refused, if it is. -/
def refusal? (w : Wildcard) : Option Failure :=
  match Regex.ofText? (expressionText w.source) with
  | some _ => none
  | none => some (.invalidWildcard w.source Regex.tooLarge)

end Wildcard

/-- A segment with `*` or `?` is a wildcard. -/
def hasWildcard (segment : Text) : Bool := segment.any fun c => c == '*' || c == '?'

end FileSelect
