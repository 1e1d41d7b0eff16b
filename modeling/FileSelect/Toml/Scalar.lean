import FileSelect.Toml.Value

/-!
# Numbers and dates in a TOML document

Each reader takes the longest beginning of the text that has its form and gives the
value and the rest.
-/

namespace FileSelect.Toml

def isDigit (c : Char) : Bool := '0'.toNat ≤ c.toNat && c.toNat ≤ '9'.toNat

def isHexDigit (c : Char) : Bool :=
  isDigit c || ('a'.toNat ≤ c.toNat && c.toNat ≤ 'f'.toNat) ||
    ('A'.toNat ≤ c.toNat && c.toNat ≤ 'F'.toNat)

def digitValue (c : Char) : Nat :=
  if isDigit c then c.toNat - 48 else if c.toNat < 97 then c.toNat - 55 else c.toNat - 87

def valueOf (base : Nat) (digits : Text) : Nat :=
  digits.foldl (fun n c => base * n + digitValue c) 0

/-- Digits behind a first one, where a single underscore may stand between two. -/
def moreDigits (accepts : Char → Bool) : Text → Text × Text
  | '_' :: c :: rest =>
      if accepts c then
        let (digits, rest) := moreDigits accepts rest
        (c :: digits, rest)
      else ([], '_' :: c :: rest)
  | c :: rest =>
      if accepts c then
        let (digits, rest) := moreDigits accepts rest
        (c :: digits, rest)
      else ([], c :: rest)
  | [] => ([], [])

/-- At least one digit; underscores between digits are left out. -/
def readDigits? (accepts : Char → Bool) : Text → Option (Text × Text)
  | c :: rest =>
      if accepts c then
        let (digits, rest) := moreDigits accepts rest
        some (c :: digits, rest)
      else none
  | [] => none

def readSign : Text → Text × Text
  | '+' :: rest => (['+'], rest)
  | '-' :: rest => (['-'], rest)
  | t => ([], t)

/-- A decimal number has no zero in front. -/
def readDecimal? (t : Text) : Option (Text × Text × Text) := do
  let (sign, t) := readSign t
  match t with
  | '0' :: rest => some (sign, ['0'], rest)
  | t => do
      let (digits, rest) ← readDigits? isDigit t
      some (sign, digits, rest)

/-- Integers have 64 bits with the sign. -/
def largestInteger : Nat := (1 <<< 63) - 1

def readInteger? : Text → Option (Value × Text)
  | '0' :: 'x' :: t => based 16 isHexDigit t
  | '0' :: 'o' :: t => based 8 (fun c => '0'.toNat ≤ c.toNat && c.toNat ≤ '7'.toNat) t
  | '0' :: 'b' :: t => based 2 (fun c => c == '0' || c == '1') t
  | t => do
      let (sign, digits, rest) ← readDecimal? t
      let n := valueOf 10 digits
      if sign = ['-'] then
        if n ≤ largestInteger + 1 then some (.integer (-n), rest) else none
      else if n ≤ largestInteger then some (.integer n, rest)
      else none
where
  based (base : Nat) (accepts : Char → Bool) (t : Text) : Option (Value × Text) := do
    let (digits, rest) ← readDigits? accepts t
    let n := valueOf base digits
    if n ≤ largestInteger then some (.integer n, rest) else none

/-- Is a number with these digits and this power of ten too large for a double? -/
def exceedsDouble (digits : Text) (exponent : Int) : Bool :=
  let digits := digits.dropWhile (· == '0')
  let width : Int := digits.length + exponent
  if digits.isEmpty || width < 309 then false
  else if width > 309 then true
  else
    let limit := (1 <<< 1024) - (1 <<< 970)
    if exponent ≥ 0 then limit ≤ valueOf 10 digits * Nat.pow 10 exponent.toNat
    else limit * Nat.pow 10 (-exponent).toNat ≤ valueOf 10 digits

/-- The exponent behind `e`, as its sign and digits. -/
def readExponent? : Text → Option (Text × Text × Text)
  | c :: t =>
      if c = 'e' ∨ c = 'E' then do
        let (sign, t) := readSign t
        let (digits, rest) ← readDigits? isDigit t
        some (sign, digits, rest)
      else none
  | [] => none

/-- A decimal number with a fraction, an exponent or both. One above the largest double is
no number. -/
def readFloat? (t : Text) : Option (Value × Text) := do
  let (sign, whole, t) ← readDecimal? t
  let (fraction, t) ← match t with
    | '.' :: t => (readDigits? isDigit t).map fun (digits, t) => (digits, t)
    | t => some ([], t)
  let (exponentSign, exponent, rest) ← match readExponent? t with
    | some parts => some parts
    | none => if fraction = [] then none else some ([], [], t)
  let power : Int := valueOf 10 exponent
  let power := (if exponentSign = ['-'] then -power else power) - fraction.length
  if sign ≠ ['-'] ∧ exceedsDouble (whole ++ fraction) power then none
  else
    let source := sign ++ whole ++ '.' :: fraction ++ 'e' :: exponentSign ++ exponent
    some (.float source, rest)

def readSpecialFloat? (t : Text) : Option (Value × Text) :=
  let (sign, t) := readSign t
  match t with
  | 'i' :: 'n' :: 'f' :: rest => some (.float (sign ++ ['i', 'n', 'f']), rest)
  | 'n' :: 'a' :: 'n' :: rest => some (.float (sign ++ ['n', 'a', 'n']), rest)
  | _ => none

/-! ## Dates and times -/

/-- Exactly `count` digits, with a value from `least` to `most`. -/
def readField? (count least most : Nat) (t : Text) : Option (Nat × Text) :=
  let digits := t.take count
  let n := valueOf 10 digits
  if digits.length = count ∧ digits.all isDigit ∧ least ≤ n ∧ n ≤ most then
    some (n, t.drop count)
  else none

def expect? (c : Char) : Text → Option Text
  | a :: rest => if a = c then some rest else none
  | [] => none

def daysIn (year month : Nat) : Nat :=
  if month = 2 then
    if year % 4 = 0 ∧ (year % 100 ≠ 0 ∨ year % 400 = 0) then 29 else 28
  else if month = 4 ∨ month = 6 ∨ month = 9 ∨ month = 11 then 30
  else 31

def readDate? (t : Text) : Option Text := do
  let (year, t) ← readField? 4 0 9999 t
  let t ← expect? '-' t
  let (month, t) ← readField? 2 1 12 t
  let t ← expect? '-' t
  let (_, t) ← readField? 2 1 (daysIn year month) t
  some t

def readTime? (t : Text) : Option Text := do
  let (_, t) ← readField? 2 0 23 t
  let t ← expect? ':' t
  let (_, t) ← readField? 2 0 59 t
  let t ← expect? ':' t
  let (_, t) ← readField? 2 0 60 t
  match t with
  | '.' :: rest =>
      let after := rest.dropWhile isDigit
      if after.length < rest.length then some after else some t
  | t => some t

/-- The offset of a time, if there is one. A sign has to be followed by hours and minutes. -/
def readOffset? : Text → Option Text
  | 'Z' :: rest => some rest
  | 'z' :: rest => some rest
  | c :: rest =>
      if c = '+' ∨ c = '-' then do
        let (_, t) ← readField? 2 0 23 rest
        let t ← expect? ':' t
        let (_, t) ← readField? 2 0 59 t
        some t
      else some (c :: rest)
  | [] => some []

def readDateTime? (t : Text) : Option (Value × Text) := do
  let rest ← match readDate? t with
    | none => readTime? t
    | some afterDate =>
        match afterDate with
        | c :: afterMark =>
            if c = 'T' ∨ c = 't' ∨ c = ' ' then
              match readTime? afterMark with
              | some afterTime => readOffset? afterTime
              | none => some afterDate
            else some afterDate
        | [] => some []
  some (.dateTime (t.take (t.length - rest.length)), rest)

/-- A date, a number or a truth value. -/
def readScalar? (t : Text) : Option (Value × Text) :=
  match t with
  | 't' :: 'r' :: 'u' :: 'e' :: rest => some (.boolean true, rest)
  | 'f' :: 'a' :: 'l' :: 's' :: 'e' :: rest => some (.boolean false, rest)
  | t =>
      (readDateTime? t).or ((readFloat? t).or ((readSpecialFloat? t).or (readInteger? t)))

end FileSelect.Toml
