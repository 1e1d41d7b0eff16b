import FileSelect.Proofs.Toml.Quoted
import FileSelect.SettingsFile

/-!
# Lines of a document

A line with a bare key and a value adds the value under the key, and an array of strings
is read back whether it stands on its line or has a line for each string.
-/

namespace FileSelect.Toml

/-! ## Space -/

/-- A character that blanks, comments and line breaks do not begin with. -/
structure IsSolid (c : Char) : Prop where
  blank_ne : c ≠ ' '
  tab_ne : c ≠ '\t'
  comment_ne : c ≠ '#'
  feed_ne : c ≠ '\n'
  return_ne : c ≠ '\r'

namespace IsSolid

variable {c : Char} (solid : IsSolid c) (t : Text)

include solid

theorem skipBlanks_eq : skipBlanks (c :: t) = c :: t := by
  rw [skipBlanks, List.dropWhile_cons_of_neg]
  simp [solid.blank_ne, solid.tab_ne]

theorem lineBreak?_eq : lineBreak? (c :: t) = none := by
  rw [lineBreak?] <;> simp [solid.feed_ne, solid.return_ne]

theorem skipSpace?_go_eq {t u : Text} (behind : skipBlanks t = c :: u) (fuel : Nat) :
    skipSpace?.go (fuel + 1) t = some (c :: u) := by
  rw [skipSpace?.go, behind]
  simp [solid.comment_ne, solid.lineBreak?_eq]

theorem skipSpace?_eq : skipSpace? (c :: t) = some (c :: t) :=
  solid.skipSpace?_go_eq (solid.skipBlanks_eq t) t.length

/-- Space in front of a value on a line of its own is passed over. -/
theorem skipSpace?_indented : skipSpace? (Text.ofString "\n    " ++ c :: t) = some (c :: t) :=
  solid.skipSpace?_go_eq (t := ' ' :: ' ' :: ' ' :: ' ' :: c :: t) (solid.skipBlanks_eq t) _

theorem skipSpace?_lineBreak : skipSpace? ('\n' :: c :: t) = some (c :: t) :=
  solid.skipSpace?_go_eq (solid.skipBlanks_eq t) _

end IsSolid

theorem isSolid_bracket : IsSolid ']' := by constructor <;> decide

theorem isSolid_comma : IsSolid ',' := by constructor <;> decide

/-! ## Strings as values -/

theorem writeString_cons (t : Text) : ∃ quote rest, (quote = '"' ∨ quote = '\'') ∧
    writeString t = quote :: rest := by
  rw [writeString]
  split_ifs
  · exact ⟨'\'', _, .inr rfl, rfl⟩
  · exact ⟨'\'', _, .inr rfl, rfl⟩
  · exact ⟨'\'', _, .inr rfl, rfl⟩
  · exact ⟨'"', _, .inl rfl, rfl⟩
  · exact ⟨'"', _, .inl rfl, rfl⟩

theorem isSolid_quote {quote : Char} (either : quote = '"' ∨ quote = '\'') : IsSolid quote := by
  rcases either with rfl | rfl <;> constructor <;> decide

/-- A string is read as a value at every depth. -/
theorem readValue?_writeString (depth : Nat) (t : Text) {rest : Text} (ends : EndsQuotes rest) :
    readValue? depth (writeString t ++ rest) = some (.string t, rest) := by
  have read := readString?_writeString t ends
  obtain ⟨quote, written, either, eq⟩ := writeString_cons t
  rw [eq, List.cons_append] at read ⊢
  rcases either with rfl | rfl <;> rw [readValue?, readValue?.stringValue, read] <;> rfl

/-! ## Arrays of strings -/

variable {depth : Nat} {rest : Text}

theorem readItems?_closed (one : Text → Option (Value × Text)) (fuel : Nat) {t : Text}
    (behind : skipSpace? t = some (']' :: rest)) :
    readItems? one (fuel + 1) t = some ([], rest) := by
  rw [readItems?, behind]
  rfl

theorem readItems?_last (value : Text) (fuel : Nat) :
    readItems? (readValue? depth) (fuel + 1) (writeString value ++ ']' :: rest) =
      some ([.string value], rest) := by
  have ends : EndsQuotes (']' :: rest) := by constructor <;> simp
  have read := readValue?_writeString depth value ends
  obtain ⟨quote, written, either, eq⟩ := writeString_cons value
  have space := (isSolid_quote either).skipSpace?_eq (written ++ ']' :: rest)
  have next := isSolid_bracket.skipSpace?_eq rest
  rw [eq, List.cons_append] at read ⊢
  rw [readItems?, space]
  rcases either with rfl | rfl <;> simp [read, next]

/-- A string with a line of its own. -/
def itemLine (value : Text) : Text := Text.ofString "\n    " ++ writeString value ++ [',']

theorem readItems?_itemLine (value : Text) (fuel : Nat) (t : Text) :
    readItems? (readValue? depth) (fuel + 1) (itemLine value ++ t) =
      (readItems? (readValue? depth) fuel t).map fun (values, rest) =>
        (.string value :: values, rest) := by
  have ends : EndsQuotes (',' :: t) := by constructor <;> simp
  have read := readValue?_writeString depth value ends
  obtain ⟨quote, written, either, eq⟩ := writeString_cons value
  have space := (isSolid_quote either).skipSpace?_indented (written ++ ',' :: t)
  have next := isSolid_comma.skipSpace?_eq t
  rw [itemLine, eq, List.append_assoc, List.append_assoc]
  rw [eq, List.cons_append] at read
  rw [readItems?]
  simp only [List.cons_append, List.nil_append] at space ⊢
  rw [space]
  rcases either with rfl | rfl <;> simp [read, next] <;>
    cases readItems? (readValue? depth) fuel t <;> rfl

/-- By the lines: each of them takes one round, and the last one finds the bracket. -/
theorem readItems?_itemLines (values : List Text) {fuel : Nat} (enough : values.length < fuel) :
    readItems? (readValue? depth) fuel (values.flatMap itemLine ++ '\n' :: ']' :: rest) =
      some (values.map .string, rest) := by
  induction values generalizing fuel with
  | nil =>
      obtain ⟨fuel, rfl⟩ := Nat.exists_eq_succ_of_ne_zero (Nat.ne_of_gt enough)
      exact readItems?_closed _ fuel (isSolid_bracket.skipSpace?_lineBreak rest)
  | cons value values ih =>
      obtain ⟨fuel, rfl⟩ := Nat.exists_eq_succ_of_ne_zero (Nat.ne_of_gt (Nat.zero_lt_of_lt enough))
      rw [List.flatMap_cons, List.append_assoc, readItems?_itemLine,
        ih (Nat.lt_of_succ_lt_succ enough)]
      rfl

theorem length_le_length_flatMap_itemLine (values : List Text) :
    values.length ≤ (values.flatMap itemLine).length := by
  induction values with
  | nil => exact Nat.le_refl 0
  | cons value values ih =>
      rw [List.flatMap_cons, List.length_append, List.length_cons]
      have line : 1 ≤ (itemLine value).length := by
        simp only [itemLine, List.length_append, List.length_singleton]
        omega
      omega

/-- A list of strings is read back from the form in which it is written. -/
theorem readValue?_writeStrings (depth : Nat) (values : List Text) (rest : Text) :
    readValue? (depth + 1) (Settings.writeStrings values ++ rest) =
      some (.array (values.map .string), rest) := by
  match values with
  | [] =>
      have items := readItems?_closed (readValue? depth) (rest.length + 1)
        (isSolid_bracket.skipSpace?_eq rest)
      have text : Settings.writeStrings [] ++ rest = '[' :: ']' :: rest := rfl
      rw [text, readValue?, List.length_cons, items]
      rfl
  | [value] =>
      have items (fuel : Nat) : readItems? (readValue? depth) (fuel + 1)
          (writeString value ++ ']' :: rest) = some ([.string value], rest) :=
        readItems?_last value fuel
      have text : Settings.writeStrings [value] ++ rest =
          '[' :: (writeString value ++ ']' :: rest) := by
        simp [Settings.writeStrings]
      rw [text, readValue?, items]
      rfl
  | first :: second :: more =>
      have text : Settings.writeStrings (first :: second :: more) ++ rest =
          '[' :: ((first :: second :: more).flatMap itemLine ++ '\n' :: ']' :: rest) := by
        have line : itemLine = fun value =>
            Text.ofString "\n    " ++ writeString value ++ [','] := rfl
        simp [Settings.writeStrings, line]
      have shorter := length_le_length_flatMap_itemLine (first :: second :: more)
      rw [text, readValue?, readItems?_itemLines]
      · rfl
      · rw [List.length_append]
        omega

/-! ## Lines -/

/-- A key that is written without quotes. -/
structure IsBare (key : Text) : Prop where
  ne_nil : key ≠ []
  all : ∀ c ∈ key, isBareKey c = true

/-- A character of a bare key opens nothing else than a bare key. -/
theorem ne_of_isBareKey {c mark : Char} (bare : isBareKey c = true)
    (other : isBareKey mark = false) : c ≠ mark := by
  rintro rfl
  rw [bare] at other
  cases other

theorem isSolid_of_isBareKey {c : Char} (bare : isBareKey c = true) : IsSolid c where
  blank_ne := ne_of_isBareKey bare rfl
  tab_ne := ne_of_isBareKey bare rfl
  comment_ne := ne_of_isBareKey bare rfl
  feed_ne := ne_of_isBareKey bare rfl
  return_ne := ne_of_isBareKey bare rfl

namespace IsBare

variable {key : Text} (bare : IsBare key)

include bare

theorem exists_cons : ∃ first more, key = first :: more ∧ isBareKey first = true := by
  obtain ⟨first, more, rfl⟩ := List.exists_cons_of_ne_nil bare.ne_nil
  exact ⟨first, more, rfl, bare.all first List.mem_cons_self⟩

theorem skipBlanks_eq (rest : Text) : skipBlanks (key ++ rest) = key ++ rest := by
  obtain ⟨first, more, rfl, begins⟩ := bare.exists_cons
  exact (isSolid_of_isBareKey begins).skipBlanks_eq (more ++ rest)

theorem readSimpleKey?_eq (rest : Text) :
    readSimpleKey? (key ++ ' ' :: rest) = some (key, ' ' :: rest) := by
  have taken : (key ++ ' ' :: rest).takeWhile isBareKey = key := by
    rw [List.takeWhile_append_of_pos bare.all, List.takeWhile_cons_of_neg (by decide),
      List.append_nil]
  have left : (key ++ ' ' :: rest).dropWhile isBareKey = ' ' :: rest := by
    rw [List.dropWhile_append_of_pos bare.all, List.dropWhile_cons_of_neg (by decide)]
  obtain ⟨first, more, rfl, begins⟩ := bare.exists_cons
  have double : first ≠ '"' := ne_of_isBareKey begins rfl
  have single : first ≠ '\'' := ne_of_isBareKey begins rfl
  simp only [List.cons_append] at taken left ⊢
  rw [readSimpleKey?, taken, left]
  · rfl
  · exact fun _ same => double (List.cons.inj same).1
  · exact fun _ same => single (List.cons.inj same).1

theorem readKey?_eq (rest : Text) :
    readKey? (key ++ Text.ofString " = " ++ rest) = some ([key], '=' :: ' ' :: rest) := by
  have simple := bare.readSimpleKey?_eq ('=' :: ' ' :: rest)
  have begins := bare.skipBlanks_eq (' ' :: '=' :: ' ' :: rest)
  have text : key ++ Text.ofString " = " ++ rest = key ++ ' ' :: '=' :: ' ' :: rest := by
    rw [List.append_assoc]
    rfl
  obtain ⟨fuel, enough⟩ : ∃ fuel, (key ++ ' ' :: '=' :: ' ' :: rest).length = fuel + 1 := by
    obtain ⟨first, more, rfl, _⟩ := bare.exists_cons
    exact ⟨_, rfl⟩
  rw [text, readKey?, enough, readKey?.go, begins, simple]
  rfl

/-- A key and its value on a line of their own. -/
theorem readPair?_eq {one : Text → Option (Value × Text)} {value rest : Text} {v : Value}
    (begins : skipBlanks (value ++ rest) = value ++ rest)
    (read : one (value ++ rest) = some (v, rest)) :
    readPair? one (key ++ Text.ofString " = " ++ (value ++ rest)) = some ([key], v, rest) := by
  have blank : skipBlanks (' ' :: (value ++ rest)) = value ++ rest := begins
  rw [readPair?, bare.readKey?_eq]
  simp [blank, read]

end IsBare

theorem addPair_eq {top : Entries} {key : Text} (new : top.get? key = none) (v : Value) :
    State.addPair ⟨top, []⟩ [key] v = some ⟨top.set key v, []⟩ := by
  simp [State.addPair, Entries.changeAt, Entries.addValue, new]

/-- A line with a new key adds the value to the open table. -/
theorem readLines?_pair {key value rest : Text} {top : Entries} {v : Value} (bare : IsBare key)
    (new : top.get? key = none)
    (begins : skipBlanks (value ++ '\n' :: rest) = value ++ '\n' :: rest)
    (read : readValue? nestingLimit (value ++ '\n' :: rest) = some (v, '\n' :: rest))
    (fuel : Nat) :
    readLines? (fuel + 1) ⟨top, []⟩ (Settings.writePair key value ++ rest) =
      readLines? fuel ⟨top.set key v, []⟩ rest := by
  have pair := bare.readPair?_eq begins read
  have start := bare.skipBlanks_eq (Text.ofString " = " ++ (value ++ '\n' :: rest))
  have text : Settings.writePair key value ++ rest =
      key ++ Text.ofString " = " ++ (value ++ '\n' :: rest) := by
    simp [Settings.writePair]
  have ends : endLine? ('\n' :: rest) = some rest := rfl
  obtain ⟨first, more, rfl, opens⟩ := bare.exists_cons
  have header : first ≠ '[' := ne_of_isBareKey opens rfl
  obtain ⟨_, _, comment, feed, notReturn⟩ := isSolid_of_isBareKey opens
  rw [text, readLines?]
  simp only [List.append_assoc, List.cons_append] at pair start ⊢
  rw [start]
  simp [header, comment, feed, notReturn, pair, addPair_eq new, ends]

end FileSelect.Toml
