import FileSelect.Unicode.Category
import FileSelect.Unicode.Folding
import FileSelect.Unicode.Script

/-!
# Named properties of characters

Properties are found by their names, in which case, blanks, hyphens and underscores do
not count.
-/

namespace FileSelect.Unicode

/-- Alphabetic characters that are no letters and no letter numbers. -/
def otherAlphabetic : List String :=
  [
    "345+1 5B0+14 5BF+1 5C1+2 5C4+2 5C7+1 610+11 64B+13 659+7 670+1 6D6+7 6E1+4 6E7+2 6ED+1",
    "711+1 730+16 7A6+11 816+2 81B+9 825+3 829+4 8D4+12 8E3+7 8F0+20 93A+2 93E+15 94E+2 955+3",
    "962+2 981+3 9BE+7 9C7+2 9CB+2 9D7+1 9E2+2 A01+3 A3E+5 A47+2 A4B+2 A51+1 A70+2 A75+1",
    "A81+3 ABE+8 AC7+3 ACB+2 AE2+2 AFA+3 B01+3 B3E+7 B47+2 B4B+2 B56+2 B62+2 B82+1 BBE+5",
    "BC6+3 BCA+3 BD7+1 C00+5 C3E+7 C46+3 C4A+3 C55+2 C62+2 C81+3 CBE+7 CC6+3 CCA+3 CD5+2",
    "CE2+2 CF3+1 D00+4 D3E+7 D46+3 D4A+3 D57+1 D62+2 D81+3 DCF+6 DD6+1 DD8+8 DF2+2 E31+1",
    "E34+7 E4D+1 EB1+1 EB4+6 EBB+2 ECD+1 F71+19 F8D+11 F99+36 102B+12 1038+1 103B+4 1056+4",
    "105E+3 1062+3 1067+7 1071+4 1082+12 108F+1 109A+4 1712+2 1732+2 1752+2 1772+2 17B6+19",
    "1885+2 18A9+1 1920+12 1930+9 1A17+5 1A55+10 1A61+20 1ABF+2 1ACC+3 1B00+5 1B35+15 1B80+3",
    "1BA1+9 1BAC+2 1BE7+11 1C24+19 1DE7+14 24B6+52 2DE0+32 A674+8 A69E+2 A802+1 A80B+1 A823+5",
    "A880+2 A8B4+16 A8C5+1 A8FF+1 A926+5 A947+12 A980+4 A9B4+12 A9E5+1 AA29+14 AA43+1 AA4C+2",
    "AA7B+3 AAB0+1 AAB2+3 AAB7+2 AABE+1 AAEB+5 AAF5+1 ABE3+8 FB1E+1 10376+5 10A01+3 10A05+2",
    "10A0C+4 10D24+4 10EAB+2 11000+3 11038+14 11073+2 11080+3 110B0+9 110C2+1 11100+3",
    "11127+12 11145+2 11180+3 111B3+13 111CE+2 1122C+9 11237+1 1123E+1 11241+1 112DF+10",
    "11300+4 1133E+7 11347+2 1134B+2 11357+1 11362+2 11435+13 11443+3 114B0+18 115AF+7",
    "115B8+7 115DC+2 11630+15 11640+1 116AB+11 1171D+14 1182C+13 11930+6 11937+2 1193B+2",
    "11940+1 11942+1 119D1+7 119DA+6 119E4+1 11A01+10 11A35+5 11A3B+4 11A51+11 11A8A+14",
    "11C2F+8 11C38+7 11C92+22 11CA9+14 11D31+6 11D3A+1 11D3C+2 11D3F+3 11D43+1 11D47+1",
    "11D8A+5 11D90+2 11D93+4 11EF3+4 11F00+2 11F03+1 11F34+7 11F3E+3 16F4F+1 16F51+55 16F8F+4",
    "16FF0+2 1BC9E+1 1E000+7 1E008+17 1E01B+7 1E023+2 1E026+5 1E08F+1 1E947+1 1F130+26",
    "1F150+26 1F170+26"
  ]

/-- Lowercase characters that are no lowercase letters. -/
def otherLowercase : List String :=
  [
    "AA+1 BA+1 2B0+9 2C0+2 2E0+5 345+1 37A+1 10FC+1 1D2C+63 1D78+1 1D9B+37 2071+1 207F+1",
    "2090+13 2170+16 24D0+26 2C7C+2 A69C+2 A770+1 A7F2+3 A7F8+2 AB5C+4 AB69+1 10780+1 10783+3",
    "10787+42 107B2+9 1E030+62"
  ]

/-- Uppercase characters that are no uppercase letters. -/
def otherUppercase : List String :=
  [
    "2160+16 24B6+26 1F130+26 1F150+26 1F170+26"
  ]

def otherAlphabeticRuns : List (Nat × Nat) := plainRuns otherAlphabetic
def otherLowercaseRuns : List (Nat × Nat) := plainRuns otherLowercase
def otherUppercaseRuns : List (Nat × Nat) := plainRuns otherUppercase

inductive Property
  | any
  | ascii
  | assigned
  | alphabetic
  | lowercase
  | uppercase
  | whiteSpace
  /-- What identifiers are made of. -/
  | word
  /-- One of these general categories. -/
  | category (codes : List Text)
  | script (code : Text)
deriving DecidableEq, Repr

def letterCodes : List Text := ["Lu", "Ll", "Lt", "Lm", "Lo"]
def markCodes : List Text := ["Mn", "Mc", "Me"]

def isAlphabetic (c : Char) : Bool :=
  let category := categoryOf c
  letterCodes.contains category || category == Text.ofString "Nl" ||
    inRuns otherAlphabeticRuns c.toNat

def isWord (c : Char) : Bool :=
  if c.toNat < 128 then c.isAlphanum || c == '_'
  else
    let category := categoryOf c
    isAlphabetic c || markCodes.contains category || category == Text.ofString "Nd" ||
      category == Text.ofString "Pc" || c.toNat == 0x200C || c.toNat == 0x200D

def isNumeric (c : Char) : Bool :=
  let category := categoryOf c
  category == Text.ofString "Nd" || category == Text.ofString "Nl" ||
    category == Text.ofString "No"

def Property.holds : Property → Char → Bool
  | .any, _ => true
  | .ascii, c => c.toNat < 128
  | .assigned, c => categoryOf c != Text.ofString "Cn"
  | .alphabetic, c => isAlphabetic c
  | .lowercase, c =>
      categoryOf c == Text.ofString "Ll" || inRuns otherLowercaseRuns c.toNat
  | .uppercase, c =>
      categoryOf c == Text.ofString "Lu" || inRuns otherUppercaseRuns c.toNat
  | .whiteSpace, c => Text.isBlank c
  | .word, c => isWord c
  | .category codes, c => codes.contains (categoryOf c)
  | .script code, c => scriptOf c == code

/-- Categories and groups of them, each with its codes and names. -/
def categoryNames : List (List String × List String) :=
  [
    (["Cc"], ["Cc", "Control", "cntrl"]),
    (["Cf"], ["Cf", "Format"]),
    (["Cn"], ["Cn", "Unassigned"]),
    (["Co"], ["Co", "Private_Use"]),
    (["Cc", "Cf", "Cn", "Co"], ["C", "Other"]),
    (["Ll"], ["Ll", "Lowercase_Letter"]),
    (["Lm"], ["Lm", "Modifier_Letter"]),
    (["Lo"], ["Lo", "Other_Letter"]),
    (["Lt"], ["Lt", "Titlecase_Letter"]),
    (["Lu"], ["Lu", "Uppercase_Letter"]),
    (["Ll", "Lt", "Lu"], ["LC", "Cased_Letter"]),
    (["Lu", "Ll", "Lt", "Lm", "Lo"], ["L", "Letter"]),
    (["Mc"], ["Mc", "Spacing_Mark"]),
    (["Me"], ["Me", "Enclosing_Mark"]),
    (["Mn"], ["Mn", "Nonspacing_Mark"]),
    (["Mc", "Me", "Mn"], ["M", "Mark", "Combining_Mark"]),
    (["Nd"], ["Nd", "Decimal_Number", "digit"]),
    (["Nl"], ["Nl", "Letter_Number"]),
    (["No"], ["No", "Other_Number"]),
    (["Nd", "Nl", "No"], ["N", "Number"]),
    (["Pc"], ["Pc", "Connector_Punctuation"]),
    (["Pd"], ["Pd", "Dash_Punctuation"]),
    (["Pe"], ["Pe", "Close_Punctuation"]),
    (["Pf"], ["Pf", "Final_Punctuation"]),
    (["Pi"], ["Pi", "Initial_Punctuation"]),
    (["Po"], ["Po", "Other_Punctuation"]),
    (["Ps"], ["Ps", "Open_Punctuation"]),
    (["Pc", "Pd", "Pe", "Pf", "Pi", "Po", "Ps"], ["P", "Punctuation", "punct"]),
    (["Sc"], ["Sc", "Currency_Symbol"]),
    (["Sk"], ["Sk", "Modifier_Symbol"]),
    (["Sm"], ["Sm", "Math_Symbol"]),
    (["So"], ["So", "Other_Symbol"]),
    (["Sc", "Sk", "Sm", "So"], ["S", "Symbol"]),
    (["Zl"], ["Zl", "Line_Separator"]),
    (["Zp"], ["Zp", "Paragraph_Separator"]),
    (["Zs"], ["Zs", "Space_Separator"]),
    (["Zl", "Zp", "Zs"], ["Z", "Separator"])
  ]

/-- Properties other than categories and scripts. -/
def binaryNames : List (Property × List String) :=
  [
    (.alphabetic, ["Alphabetic", "Alpha"]),
    (.lowercase, ["Lowercase", "Lower"]),
    (.uppercase, ["Uppercase", "Upper"]),
    (.whiteSpace, ["White_Space", "WSpace", "Space"])
  ]

/-- Groups that are spelled where a category may stand. -/
def generalNames : List (Property × List String) :=
  [(.any, ["Any"]), (.ascii, ["ASCII"]), (.assigned, ["Assigned"])]

/-- What counts of a name. A leading `is` does not. -/
def looseName (name : Text) : Text :=
  let name := match name with
    | a :: b :: rest => if a.toLower = 'i' ∧ b.toLower = 's' then rest else name
    | _ => name
  (name.filter fun c => c.toNat < 128 && c != ' ' && c != '_' && c != '-').map Char.toLower

def names (spellings : List String) : List Text := spellings.map fun s => looseName s.toList

def categoryNamed? (name : Text) : Option Property :=
  let name := looseName name
  match generalNames.find? fun entry => (names entry.2).contains name with
  | some (property, _) => some property
  | none =>
      (categoryNames.find? fun entry => (names entry.2).contains name).map fun entry =>
        .category (entry.1.map Text.ofString)

def scriptNamed? (name : Text) : Option Property :=
  let name := looseName name
  (scriptTable.find? fun entry => (entry.2.map looseName).contains name).map fun entry =>
    .script entry.1

/-- A property by a name alone. -/
def propertyNamed? (name : Text) : Option Property :=
  let binary :=
    (binaryNames.find? fun entry => (names entry.2).contains (looseName name)).map Prod.fst
  (binary.or (categoryNamed? name)).or (scriptNamed? name)

/-- A property by the name of its kind and its value. -/
def propertyValued? (kind value : Text) : Option Property :=
  let kind := looseName kind
  if (names ["General_Category", "gc"]).contains kind then categoryNamed? value
  else if (names ["Script", "sc", "Script_Extensions", "scx"]).contains kind then
    scriptNamed? value
  else none

end FileSelect.Unicode
