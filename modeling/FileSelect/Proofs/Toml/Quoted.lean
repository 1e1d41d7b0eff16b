import FileSelect.Toml.Quoted
import Mathlib.Logic.Basic
import Mathlib.Tactic.SplitIfs

/-!
# Strings come back as they were written

Every form in which a string is written is read back: between double quotes each
character has its escape, and what is written as it stands holds no quotes that would
close it early. Behind the closing quotes there may be anything but a further quote.
-/

namespace FileSelect.Toml

/-! ## Single characters -/

theorem hexValue?_hexDigit {n : Nat} (small : n < 16) : hexValue? (hexDigit n) = some n := by
  have all : ∀ n < 16, hexValue? (hexDigit n) = some n := by decide
  exact all n small

theorem toNat_lt_of_isControl {c : Char} (control : isControl c = true) : c.toNat < 128 := by
  rw [isControl, Bool.or_eq_true, decide_eq_true_eq, beq_iff_eq] at control
  omega

/-- The four digits that a control character is written with give its code. -/
theorem charOfHex?_of_isControl {c : Char} (control : isControl c = true) :
    charOfHex? ['0', '0', hexDigit (c.toNat / 16), hexDigit (c.toNat % 16)] = some c := by
  have small := toNat_lt_of_isControl control
  have high := hexValue?_hexDigit (n := c.toNat / 16) (by omega)
  have low := hexValue?_hexDigit (n := c.toNat % 16) (by omega)
  have zero : hexValue? '0' = some 0 := rfl
  have code : 16 * (16 * (16 * (16 * 0 + 0) + 0) + c.toNat / 16) + c.toNat % 16 = c.toNat := by
    omega
  have valid : c.toNat.isValidChar := c.valid
  simp only [charOfHex?, List.mapM_cons, List.mapM_nil, zero, high, low, Option.pure_def,
    Option.bind_eq_bind, Option.bind_some, List.foldl_cons, List.foldl_nil, code, if_pos valid,
    Char.ofNat_toNat]

/-- The ways in which a character is written between double quotes. -/
inductive Escape (long : Bool) (c : Char) : Text → Prop
  | letter {letter : Char} : simpleEscape? letter = some c → Escape long c ['\\', letter]
  | lineBreak : long = true → c = '\n' → Escape long c ['\n']
  | code : isControl c = true →
      Escape long c ['\\', 'u', '0', '0', hexDigit (c.toNat / 16), hexDigit (c.toNat % 16)]
  | plain : isControl c = false → c ≠ '"' → c ≠ '\\' → Escape long c [c]

theorem escape_escapeChar (long : Bool) (c : Char) : Escape long c (escapeChar long c) := by
  rw [escapeChar]
  split_ifs with back tab feed isLong form carriage quote slash control
  · exact .letter (back ▸ rfl)
  · exact .letter (tab ▸ rfl)
  · exact .lineBreak isLong feed
  · exact .letter (feed ▸ rfl)
  · exact .letter (form ▸ rfl)
  · exact .letter (carriage ▸ rfl)
  · exact .letter (by rw [quote]; rfl)
  · exact .letter (by rw [slash]; rfl)
  · exact .code control
  · exact .plain (Bool.eq_false_iff.mpr control) quote slash

/-- No escape begins with the closing quote. -/
theorem Escape.exists_cons {long : Bool} {c : Char} {written : Text}
    (escape : Escape long c written) : ∃ first rest, written = first :: rest ∧ first ≠ '"' := by
  cases escape with
  | letter _ => exact ⟨_, _, rfl, by decide⟩
  | lineBreak _ _ => exact ⟨_, _, rfl, by decide⟩
  | code _ => exact ⟨_, _, rfl, by decide⟩
  | plain _ quote _ => exact ⟨_, _, rfl, quote⟩

theorem isPlain_of_not_isControl {c : Char} (free : isControl c = false) : isPlain c = true := by
  rw [isPlain, free]
  rfl

/-! ## Between double quotes -/

theorem readBasic_of_plain {c : Char} {t : Text} (plain : isPlain c = true) (quote : c ≠ '"')
    (slash : c ≠ '\\') : readBasic (c :: t) = consRead c (readBasic t) := by
  rw [readBasic, if_pos plain] <;> simp [quote, slash]

theorem readBasic_escape {c : Char} {written : Text} (escape : Escape false c written) (t : Text) :
    readBasic (written ++ t) = consRead c (readBasic t) := by
  cases escape with
  | @letter letter meant =>
      unfold simpleEscape? at meant
      split at meant <;> cases meant <;> rfl
  | lineBreak long _ => cases long
  | code control =>
      have read := charOfHex?_of_isControl control
      simp only [List.cons_append, List.nil_append, readBasic, read]
      rfl
  | plain free quote slash => exact readBasic_of_plain (isPlain_of_not_isControl free) quote slash

theorem readBasic_escaped (t rest : Text) :
    readBasic (t.flatMap (escapeChar false) ++ '"' :: rest) = some (t, rest) := by
  induction t with
  | nil => rfl
  | cons c t ih =>
      rw [List.flatMap_cons, List.append_assoc, readBasic_escape (escape_escapeChar false c), ih]
      rfl

theorem readLongBasic_of_plain {c : Char} {t : Text} (plain : (isPlain c || c == '\n') = true)
    (quote : c ≠ '"') (slash : c ≠ '\\') :
    readLongBasic .none (c :: t) = consRead c (readLongBasic .none t) := by
  have notReturn : c ≠ '\r' := by
    rintro rfl
    cases plain
  rw [readLongBasic, if_pos plain] <;> simp [quote, slash, notReturn]

theorem readLongBasic_escape {c : Char} {written : Text} (escape : Escape true c written)
    (t : Text) : readLongBasic .none (written ++ t) = consRead c (readLongBasic .none t) := by
  cases escape with
  | @letter letter meant =>
      unfold simpleEscape? at meant
      split at meant <;> cases meant <;> rfl
  | lineBreak _ feed =>
      subst feed
      exact readLongBasic_of_plain rfl (by decide) (by decide)
  | code control =>
      have read := charOfHex?_of_isControl control
      simp only [List.cons_append, List.nil_append, readLongBasic, read]
      rfl
  | plain free quote slash =>
      refine readLongBasic_of_plain ?_ quote slash
      rw [isPlain_of_not_isControl free, Bool.true_or]

/-- What stands behind a string does not begin with a quote. -/
def EndsQuotes (rest : Text) : Prop := rest.head? ≠ some '"' ∧ rest.head? ≠ some '\''

theorem readLongBasic_escaped (t : Text) {rest : Text} (ends : EndsQuotes rest) :
    readLongBasic .none (t.flatMap (escapeChar true) ++ '"' :: '"' :: '"' :: rest) =
      some (t, rest) := by
  induction t with
  | nil =>
      cases rest with
      | nil => rfl
      | cons c rest =>
          have other : c ≠ '"' := fun same => ends.1 (same ▸ rfl)
          simp [readLongBasic, other]
  | cons c t ih =>
      rw [List.flatMap_cons, List.append_assoc, readLongBasic_escape (escape_escapeChar true c), ih]
      rfl

/-! ## Between single quotes -/

theorem readLiteral_plain {t : Text} (plain : ∀ c ∈ t, isPlain c = true) (free : '\'' ∉ t)
    (rest : Text) : readLiteral (t ++ '\'' :: rest) = some (t, rest) := by
  induction t with
  | nil => rfl
  | cons c t ih =>
      obtain ⟨first, plain⟩ := List.forall_mem_cons.mp plain
      obtain ⟨other, free⟩ := not_or.mp (List.mem_cons.not.mp free)
      rw [List.cons_append, readLiteral, if_pos first, ih plain free]
      · rfl
      · exact fun same => other same.symm

theorem readLongLiteral_of_plain {c : Char} {t : Text} (plain : (isPlain c || c == '\n') = true)
    (closed : ∀ more, c :: t ≠ '\'' :: '\'' :: '\'' :: more) :
    readLongLiteral (c :: t) = consRead c (readLongLiteral t) := by
  have notReturn : c ≠ '\r' := by
    rintro rfl
    cases plain
  rw [readLongLiteral, if_pos plain]
  · rintro more rfl rfl
    exact closed _ rfl
  · rintro more rfl rfl
    exact closed _ rfl
  · rintro more rfl rfl
    exact closed _ rfl
  · rintro more same
    exact absurd same notReturn

/-- A text without three quotes, and with none at its end, does not run into the closing
quotes. -/
theorem readLongLiteral_plain {t : Text} (plain : ∀ c ∈ t, (isPlain c || c == '\n') = true)
    (three : hasThreeQuotes t = false) (noQuoteLast : t.getLast? ≠ some '\'') {rest : Text}
    (ends : EndsQuotes rest) :
    readLongLiteral (t ++ '\'' :: '\'' :: '\'' :: rest) = some (t, rest) := by
  induction t with
  | nil =>
      cases rest with
      | nil => rfl
      | cons c rest =>
          have other : c ≠ '\'' := fun same => ends.2 (same ▸ rfl)
          simp [readLongLiteral, other]
  | cons c t ih =>
      obtain ⟨first, plain⟩ := List.forall_mem_cons.mp plain
      have later : hasThreeQuotes t = false := by
        rw [hasThreeQuotes.eq_def] at three
        split at three
        · cases three
        · rename_i same
          cases same
          exact three
        · rename_i same
          cases same
      have last : t.getLast? ≠ some '\'' := by
        intro same
        refine noQuoteLast ?_
        rw [List.getLast?_cons, same]
        rfl
      rw [List.cons_append, readLongLiteral_of_plain first, ih plain later last]
      · rfl
      · intro more closing
        match t with
        | [] => exact noQuoteLast (by rw [(List.cons.inj closing).1]; rfl)
        | [a] => exact last (by rw [(List.cons.inj (List.cons.inj closing).2).1]; rfl)
        | a :: b :: t =>
            cases closing
            cases three

/-! ## Strings -/

/-- What a text satisfies that is written as it stands. -/
theorem prefersLiteral_iff {t : Text} : prefersLiteral t = true ↔
    (∃ c ∈ t, c = '"' ∨ c = '\\') ∧ (∀ c ∈ t, (isPlain c || c == '\n') = true) ∧
      hasThreeQuotes t = false ∧ t.getLast? ≠ some '\'' := by
  have last : Text.endsWith ['\''] t = true ↔ t.getLast? = some '\'' := by
    rw [Text.endsWith, List.isSuffixOf_iff_suffix, List.singleton_suffix_iff_getLast?_eq_some]
  rw [prefersLiteral, Bool.and_eq_true, Bool.and_eq_true, Bool.and_eq_true, and_assoc, and_assoc,
    Bool.not_eq_true', Bool.not_eq_true', ← Bool.not_eq_true (Text.endsWith _ t), last]
  simp

/-- The opening quote of a short string is not followed by two more. -/
theorem readString?_basic {written : Text} (short : ∀ more, written ≠ '"' :: '"' :: more) :
    readString? ('"' :: written) = readBasic written := by
  rw [readString?]
  exact short

theorem readString?_literal {written : Text} (short : ∀ more, written ≠ '\'' :: '\'' :: more) :
    readString? ('\'' :: written) = readLiteral written := by
  rw [readString?]
  exact short

/-- No short string is opened by three quotes. -/
theorem escaped_ne_quotes (t : Text) {rest : Text} (ends : EndsQuotes rest) (more : Text) :
    t.flatMap (escapeChar false) ++ '"' :: rest ≠ '"' :: '"' :: more := by
  intro same
  cases t with
  | nil => exact ends.1 (by rw [(List.cons.inj same).2]; rfl)
  | cons c t =>
      obtain ⟨first, more, eq, other⟩ := (escape_escapeChar false c).exists_cons
      rw [List.flatMap_cons, eq] at same
      exact other (List.cons.inj same).1

theorem quoted_ne_quotes {t : Text} (free : '\'' ∉ t) {rest : Text} (ends : EndsQuotes rest)
    (more : Text) : t ++ '\'' :: rest ≠ '\'' :: '\'' :: more := by
  intro same
  cases t with
  | nil => exact ends.2 (by rw [(List.cons.inj same).2]; rfl)
  | cons c t => exact free (by rw [(List.cons.inj same).1]; exact List.mem_cons_self)

theorem behindLineBreak_of_plain {t : Text} (plain : ∀ c ∈ t, isPlain c = true) (rest : Text) :
    behindLineBreak (t ++ '\'' :: rest) = t ++ '\'' :: rest := by
  cases t with
  | nil => rfl
  | cons c t =>
      have first := plain c List.mem_cons_self
      rw [List.cons_append, behindLineBreak]
      · intro _ same
        rw [(List.cons.inj same).1] at first
        cases first
      · intro _ same
        rw [(List.cons.inj same).1] at first
        cases first

/-- Every string is read back from the form in which it is written. -/
theorem readString?_writeString (t : Text) {rest : Text} (ends : EndsQuotes rest) :
    readString? (writeString t ++ rest) = some (t, rest) := by
  have onLine (plain : ∀ c ∈ t, (isPlain c || c == '\n') = true)
      (single : ¬t.contains '\n' = true) : ∀ c ∈ t, isPlain c = true := by
    intro c inside
    refine (Bool.or_eq_true_iff.mp (plain c inside)).resolve_right fun feed => single ?_
    rw [List.contains_iff_mem, ← beq_iff_eq.mp feed]
    exact inside
  rw [writeString]
  split_ifs with literal long single long
  · obtain ⟨_, plain, three, noQuoteLast⟩ := prefersLiteral_iff.mp literal
    have read := readLongLiteral_plain plain three noQuoteLast ends
    simpa [readString?, behindLineBreak] using read
  · obtain ⟨_, plain, three, noQuoteLast⟩ := prefersLiteral_iff.mp literal
    have read := readLongLiteral_plain plain three noQuoteLast ends
    simpa [readString?, behindLineBreak_of_plain (onLine plain long)] using read
  · obtain ⟨_, plain, _, _⟩ := prefersLiteral_iff.mp literal
    have free : '\'' ∉ t := fun inside => single (List.contains_iff_mem.mpr inside)
    have read := readLiteral_plain (onLine plain long) free rest
    simpa [readString?_literal (quoted_ne_quotes free ends)] using read
  · have read := readLongBasic_escaped t ends
    simpa [readString?, behindLineBreak] using read
  · have read := readBasic_escaped t rest
    simpa [readString?_basic (escaped_ne_quotes t ends)] using read

end FileSelect.Toml
