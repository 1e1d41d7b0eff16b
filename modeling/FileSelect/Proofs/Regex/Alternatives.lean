import FileSelect.Proofs.Regex.Reader

/-!
# Alternatives in front of a closing

Reading alternatives is steady: in front of the closing it stops where it would stop
without, with the same result. A reading that succeeds is a row of steps, one for each part
that is read; more fuel than there are characters makes no difference to it.
-/

namespace FileSelect.Regex

section Steps

variable {n : Nat} {flags : Flags} {names : List Text} {earlier : List Regex}
  {parts : List (Option Regex)} {t u : Text} {c : Char}

/-- With fuel left, the first character that is shown says what is read. -/
theorem readAlternatives?_succ : readAlternatives? (n + 1) flags names earlier parts t =
    match flags.skip t with
    | [] => some ((eitherOf (sequenceOf parts) earlier, names), [])
    | ')' :: rest => some ((eitherOf (sequenceOf parts) earlier, names), ')' :: rest)
    | '|' :: rest => readAlternatives? n flags names (sequenceOf parts :: earlier) [] rest
    | '(' :: rest => do
        let (opening, rest) ← readGroup? flags rest
        match opening with
        | .setting flags => readAlternatives? n flags names earlier (none :: parts) rest
        | .group inner name => do
            let names ← addName? names name
            let ((r, names), rest) ← readAlternatives? n inner names [] [] rest
            let ((), rest) ← closeGroup? rest
            readAlternatives? n flags names earlier (some r :: parts) rest
    | c :: rest =>
        if isRepetition c then
          match parts with
          | some r :: parts => do
              let ((least, most), rest) ← readRepetition? flags (c :: rest)
              readAlternatives? n flags names earlier (some (.repeated least most r) :: parts) rest
          | _ => none
        else (do
          let (r, rest) ← readPart? flags (c :: rest)
          readAlternatives? n flags names earlier (some r :: parts) rest) := rfl

theorem readAlternatives?_end (h : flags.skip t = []) :
    readAlternatives? (n + 1) flags names earlier parts t =
      some ((eitherOf (sequenceOf parts) earlier, names), []) := by
  simp only [readAlternatives?_succ, h]

theorem readAlternatives?_close (h : flags.skip t = ')' :: u) :
    readAlternatives? (n + 1) flags names earlier parts t =
      some ((eitherOf (sequenceOf parts) earlier, names), ')' :: u) := by
  simp only [readAlternatives?_succ, h]

theorem readAlternatives?_bar (h : flags.skip t = '|' :: u) :
    readAlternatives? (n + 1) flags names earlier parts t =
      readAlternatives? n flags names (sequenceOf parts :: earlier) [] u := by
  simp only [readAlternatives?_succ, h]

/-- What follows an opening parenthesis, when `n` more steps may be taken. -/
def readOpened? (n : Nat) (flags : Flags) (names : List Text) (earlier : List Regex)
    (parts : List (Option Regex)) : Opening × Text → Option ((Regex × List Text) × Text)
  | (.setting flags, rest) => readAlternatives? n flags names earlier (none :: parts) rest
  | (.group inner name, rest) =>
      (addName? names name).bind fun names =>
        (readAlternatives? n inner names [] [] rest).bind fun x =>
          (closeGroup? x.2).bind fun y =>
            readAlternatives? n flags x.1.2 earlier (some x.1.1 :: parts) y.2

theorem readAlternatives?_open (h : flags.skip t = '(' :: u) :
    readAlternatives? (n + 1) flags names earlier parts t =
      (readGroup? flags u).bind (readOpened? n flags names earlier parts) := by
  simp only [readAlternatives?_succ, h]
  rcases readGroup? flags u with - | ⟨inner | flags, rest⟩ <;> rfl

/-- The heads that are read in a way of their own. -/
def IsMark (c : Char) : Prop := c = ')' ∨ c = '|' ∨ c = '('

theorem isRepetition_iff : isRepetition c = true ↔ c = '*' ∨ c = '+' ∨ c = '?' ∨ c = '\x7b' := by
  simp [isRepetition, or_assoc]

theorem no_part_or_exists (parts : List (Option Regex)) :
    parts.head?.join = none ∨ ∃ r rest, parts = some r :: rest := by
  rcases parts with - | ⟨- | r, rest⟩
  · exact .inl rfl
  · exact .inl rfl
  · exact .inr ⟨r, rest, rfl⟩

/-- A repetition needs a part to repeat. -/
theorem readAlternatives?_no_part (h : flags.skip t = c :: u) (repetition : isRepetition c = true)
    (no_part : parts.head?.join = none) :
    readAlternatives? (n + 1) flags names earlier parts t = none := by
  rcases parts with - | ⟨- | r, parts⟩
  · rcases isRepetition_iff.mp repetition with rfl | rfl | rfl | rfl <;>
    · simp only [readAlternatives?_succ, h]
      rfl
  · rcases isRepetition_iff.mp repetition with rfl | rfl | rfl | rfl <;>
    · simp only [readAlternatives?_succ, h]
      rfl
  · cases no_part

theorem readAlternatives?_repetition {r : Regex} (h : flags.skip t = c :: u)
    (repetition : isRepetition c = true) :
    readAlternatives? (n + 1) flags names earlier (some r :: parts) t =
      (readRepetition? flags (c :: u)).bind fun x =>
        readAlternatives? n flags names earlier (some (.repeated x.1.1 x.1.2 r) :: parts) x.2 := by
  rcases isRepetition_iff.mp repetition with rfl | rfl | rfl | rfl <;>
  · simp only [readAlternatives?_succ, h]
    rfl

theorem readAlternatives?_part (h : flags.skip t = c :: u) (plain : ¬IsMark c)
    (part : ¬isRepetition c = true) :
    readAlternatives? (n + 1) flags names earlier parts t =
      (readPart? flags (c :: u)).bind fun x =>
        readAlternatives? n flags names earlier (some x.1 :: parts) x.2 := by
  rw [readAlternatives?_succ, h]
  split <;> simp_all [IsMark]

end Steps

section Steady

variable {flags : Flags}

theorem skip_brace (u : Text) : flags.skip ('\x7b' :: u) = '\x7b' :: u := by
  unfold Flags.skip
  split
  · rfl
  · rfl

theorem readCount?_closing : readCount? flags closing = none := by
  have digits : readDigits flags 2 [')', '$'] = ([], [')', '$']) :=
    readDigits_of_no_digit (by decide)
  have shown : closing.dropWhile Text.isBlank = [')', '$'] := by decide
  rw [readCount?, shown, length_closing, digits]
  rfl

/-- No count stands in a brace that hangs in front of the closing. -/
theorem readRepetition?_hanging {t : Text} (h : HangingBrace flags t) :
    readRepetition? flags (t ++ closing) = none := by
  obtain ⟨u, rfl, hu⟩ := h
  have no_count : readCounts? flags (u ++ closing) = none := by
    rcases flags.skip_append u with hs | ⟨-, hs⟩
    · rw [hu, List.nil_append] at hs
      rw [readCounts?, hs, readCount?_closing]
      rfl
    · rw [readCounts?, hs]
      rfl
  rw [List.cons_append, readRepetition?, no_count]
  rfl

theorem readAlternatives?_hanging {n : Nat} {names : List Text} {earlier : List Regex}
    {parts : List (Option Regex)} {r : Regex} {t : Text} (h : HangingBrace flags t) :
    readAlternatives? n flags names earlier (some r :: parts) (t ++ closing) = none := by
  cases n with
  | zero => rfl
  | succ n =>
      have none_read := readRepetition?_hanging h
      obtain ⟨u, rfl, -⟩ := h
      rw [List.cons_append] at none_read ⊢
      rw [readAlternatives?_repetition (skip_brace _) (by decide), none_read]
      rfl

theorem steady_closeGroup? : Steady closeGroup? := by
  refine .of_cons rfl fun c => ?_
  by_cases close : c = ')'
  · subst close
    exact steady_some ()
  · exact .of_none fun t => by unfold closeGroup?; split <;> simp_all

/-- What follows an opening parenthesis is steady when reading on is. -/
theorem steady_readOpened? {n : Nat}
    (later : ∀ flags names earlier parts, Steady (readAlternatives? n flags names earlier parts))
    (names : List Text) (earlier : List Regex) (parts : List (Option Regex))
    (opening : Opening) :
    Steady fun rest => readOpened? n flags names earlier parts (opening, rest) := by
  cases opening with
  | setting flags => exact later flags names earlier (none :: parts)
  | group inner name =>
      refine .option (addName? names name) fun names => ?_
      refine (later inner names [] []).bind fun x => ?_
      exact steady_closeGroup?.bind
        (k := fun y => readAlternatives? n flags x.2 earlier (some x.1 :: parts) y.2)
        fun _ => later flags x.2 earlier (some x.1 :: parts)

theorem readPart?_escape (t : Text) : readPart? flags ('\\' :: t) =
    (readEscape? flags t).bind fun x => (x.1.part? flags).bind fun r => some (r, x.2) := rfl

theorem steady_readAlternatives?_fuel (n : Nat) (flags : Flags) (names : List Text)
    (earlier : List Regex) (parts : List (Option Regex)) :
    Steady (readAlternatives? n flags names earlier parts) := by
  induction n generalizing flags names earlier parts with
  | zero => exact steady_none
  | succ n ih =>
      refine .of_skip flags (fun t => by simp only [readAlternatives?_succ, Flags.skip_skip]) ?_ ?_
      · exact .of_some (readAlternatives?_end flags.skip_nil)
          (readAlternatives?_close flags.skip_closing)
      · intro c t shown
        by_cases mark : IsMark c
        · rcases mark with rfl | rfl | rfl
          · exact .of_some (readAlternatives?_close (shown t))
              (readAlternatives?_close (shown _))
          · refine .cons ?_
            simp only [readAlternatives?_bar (shown _)]
            exact ih _ _ _ _ t
          · refine .cons ?_
            simp only [readAlternatives?_open (shown _)]
            exact (steady_readGroup?.bind (steady_readOpened? ih names earlier parts)) t
        · by_cases repetition : isRepetition c = true
          · rcases no_part_or_exists parts with no_part | ⟨r, parts, rfl⟩
            · exact .of_none (readAlternatives?_no_part (shown t) repetition no_part)
                (readAlternatives?_no_part (shown _) repetition no_part)
            · refine .cons ?_
              simp only [readAlternatives?_repetition (shown _) repetition]
              exact (steady_readRepetition?_cons c).bind (fun counts =>
                ih flags names earlier (some (.repeated counts.1 counts.2 r) :: parts)) t
          · refine .cons ?_
            simp only [readAlternatives?_part (shown _) mark repetition]
            by_cases escape : c = '\\'
            · subst escape
              -- An escape is taken together with what is read behind it, since a word
              -- boundary alone is not steady.
              have behind : Steady fun t => (readEscape? flags t).bind fun x =>
                  (x.1.part? flags).bind fun r =>
                    readAlternatives? n flags names earlier (some r :: parts) x.2 := by
                refine steady_readEscape?_bind ?_ ?_
                · exact fun e => .option (e.part? flags) fun r => ih flags names earlier _
                · exact fun t hanging => readAlternatives?_hanging hanging
              refine (behind t).congr ?_ ?_ <;>
              · rw [readPart?_escape, Option.bind_assoc]
                simp only [Option.bind_assoc, Option.bind_some]
            · exact (steady_readPart?_cons escape).bind (fun r =>
                ih flags names earlier (some r :: parts)) t

end Steady

/-! ## Readings that succeed -/

section Reads

variable {n m : Nat} {flags : Flags} {names : List Text} {earlier : List Regex}
  {parts : List (Option Regex)} {t : Text} {x : (Regex × List Text) × Text}

/-- The steps of a reading that succeeds, with the result that they lead to. -/
inductive Reads : Nat → Flags → List Text → List Regex → List (Option Regex) → Text →
    (Regex × List Text) × Text → Prop
  | done {n : Nat} {flags : Flags} {names : List Text} {earlier : List Regex}
      {parts : List (Option Regex)} {t : Text} : flags.skip t = [] →
      Reads (n + 1) flags names earlier parts t ((eitherOf (sequenceOf parts) earlier, names), [])
  | close {n : Nat} {flags : Flags} {names : List Text} {earlier : List Regex}
      {parts : List (Option Regex)} {t u : Text} : flags.skip t = ')' :: u →
      Reads (n + 1) flags names earlier parts t
        ((eitherOf (sequenceOf parts) earlier, names), ')' :: u)
  | bar {n : Nat} {flags : Flags} {names : List Text} {earlier : List Regex}
      {parts : List (Option Regex)} {t u : Text} {x : (Regex × List Text) × Text} :
      flags.skip t = '|' :: u → Reads n flags names (sequenceOf parts :: earlier) [] u x →
      Reads (n + 1) flags names earlier parts t x
  | setting {n : Nat} {flags later : Flags} {names : List Text} {earlier : List Regex}
      {parts : List (Option Regex)} {t u left : Text} {x : (Regex × List Text) × Text} :
      flags.skip t = '(' :: u → readGroup? flags u = some (.setting later, left) →
      Reads n later names earlier (none :: parts) left x →
      Reads (n + 1) flags names earlier parts t x
  | group {n : Nat} {flags inner : Flags} {names known given : List Text} {name : Option Text}
      {earlier : List Regex} {parts : List (Option Regex)} {t u left behind rest : Text}
      {r : Regex} {x : (Regex × List Text) × Text} :
      flags.skip t = '(' :: u → readGroup? flags u = some (.group inner name, left) →
      addName? names name = some known → Reads n inner known [] [] left ((r, given), behind) →
      closeGroup? behind = some ((), rest) →
      Reads n flags given earlier (some r :: parts) rest x →
      Reads (n + 1) flags names earlier parts t x
  | repetition {n least : Nat} {most : Option Nat} {flags : Flags} {names : List Text}
      {earlier : List Regex} {parts : List (Option Regex)} {t u left : Text} {c : Char}
      {r : Regex} {x : (Regex × List Text) × Text} :
      flags.skip t = c :: u → isRepetition c = true →
      readRepetition? flags (c :: u) = some ((least, most), left) →
      Reads n flags names earlier (some (.repeated least most r) :: parts) left x →
      Reads (n + 1) flags names earlier (some r :: parts) t x
  | part {n : Nat} {flags : Flags} {names : List Text} {earlier : List Regex}
      {parts : List (Option Regex)} {t u left : Text} {c : Char} {r : Regex}
      {x : (Regex × List Text) × Text} :
      flags.skip t = c :: u → ¬IsMark c → ¬isRepetition c = true →
      readPart? flags (c :: u) = some (r, left) →
      Reads n flags names earlier (some r :: parts) left x →
      Reads (n + 1) flags names earlier parts t x

/-- By the fuel and the first character that is shown. -/
theorem reads_of_readAlternatives?
    (h : readAlternatives? n flags names earlier parts t = some x) :
    Reads n flags names earlier parts t x := by
  induction n generalizing flags names earlier parts t x with
  | zero => cases h
  | succ n ih =>
      cases shown : flags.skip t with
      | nil =>
          rw [readAlternatives?_end shown] at h
          cases h
          exact .done shown
      | cons c u =>
          by_cases mark : IsMark c
          · rcases mark with rfl | rfl | rfl
            · rw [readAlternatives?_close shown] at h
              cases h
              exact .close shown
            · rw [readAlternatives?_bar shown] at h
              exact .bar shown (ih h)
            · rw [readAlternatives?_open shown] at h
              obtain ⟨⟨opening, left⟩, opened, h⟩ := Option.bind_eq_some_iff.mp h
              cases opening with
              | setting later => exact .setting shown opened (ih h)
              | group inner name =>
                  obtain ⟨known, added, h⟩ := Option.bind_eq_some_iff.mp h
                  obtain ⟨⟨⟨r, given⟩, behind⟩, read, h⟩ := Option.bind_eq_some_iff.mp h
                  obtain ⟨⟨_, rest⟩, closed, h⟩ := Option.bind_eq_some_iff.mp h
                  exact .group shown opened added (ih read) closed (ih h)
          · by_cases repetition : isRepetition c = true
            · rcases no_part_or_exists parts with no_part | ⟨r, parts, rfl⟩
              · rw [readAlternatives?_no_part shown repetition no_part] at h
                cases h
              · rw [readAlternatives?_repetition shown repetition] at h
                obtain ⟨⟨⟨least, most⟩, left⟩, counted, h⟩ := Option.bind_eq_some_iff.mp h
                exact .repetition shown repetition counted (ih h)
            · rw [readAlternatives?_part shown mark repetition] at h
              obtain ⟨⟨r, left⟩, read, h⟩ := Option.bind_eq_some_iff.mp h
              exact .part shown mark repetition read (ih h)

namespace Reads

theorem eq (reads : Reads n flags names earlier parts t x) :
    readAlternatives? n flags names earlier parts t = some x := by
  induction reads with
  | done shown => exact readAlternatives?_end shown
  | close shown => exact readAlternatives?_close shown
  | bar shown _ ih => rw [readAlternatives?_bar shown, ih]
  | setting shown opened _ ih =>
      rw [readAlternatives?_open shown, opened]
      exact ih
  | group shown opened added _ closed _ inner later =>
      rw [readAlternatives?_open shown, opened, Option.bind_some, readOpened?, added,
        Option.bind_some, inner, Option.bind_some, closed]
      exact later
  | repetition shown repetition counted _ ih =>
      rw [readAlternatives?_repetition shown repetition, counted]
      exact ih
  | part shown plain part read _ ih =>
      rw [readAlternatives?_part shown plain part, read]
      exact ih

/-- What is left is an end of what was given. -/
theorem suffix (reads : Reads n flags names earlier parts t x) : x.2 <:+ t :=
  (steady_readAlternatives?_fuel n flags names earlier parts t).suffix reads.eq

end Reads

end Reads

section Fuel

variable {n m : Nat} {flags : Flags} {names : List Text} {earlier : List Regex}
  {parts : List (Option Regex)} {t u left : Text} {c : Char} {x : (Regex × List Text) × Text}

theorem readPart?_suffix {c : Char} {u rest : Text} {r : Regex}
    (h : readPart? flags (c :: u) = some (r, rest)) : rest <:+ u := by
  by_cases escape : c = '\\'
  · subst escape
    rw [readPart?_escape] at h
    obtain ⟨⟨e, left⟩, read, found⟩ := Option.bind_eq_some_iff.mp h
    obtain ⟨r, -, same⟩ := Option.bind_eq_some_iff.mp found
    simp only [Option.some.injEq, Prod.mk.injEq] at same
    exact same.2 ▸ readEscape?_suffix read
  · exact (steady_readPart?_cons escape u).suffix h

theorem length_lt_of_skip (shown : flags.skip t = c :: u) (below : left <:+ u)
    (ample : t.length < m + 1) : left.length < m := by
  have shorter := (flags.skip_suffix t).length_le
  rw [shown, List.length_cons] at shorter
  have := below.length_le
  omega

/-- Every step takes a character, so more steps than there are characters may be allowed. -/
theorem Reads.of_fuel (reads : Reads n flags names earlier parts t x) (ample : t.length < m) :
    Reads m flags names earlier parts t x := by
  induction reads generalizing m <;> obtain ⟨m, rfl⟩ : ∃ k, m = k + 1 := ⟨m - 1, by omega⟩
  case done shown => exact .done shown
  case close shown => exact .close shown
  case bar shown _ ih => exact .bar shown (ih (length_lt_of_skip shown List.suffix_rfl ample))
  case setting shown opened _ ih =>
    have below := (steady_readGroup? _).suffix opened
    exact .setting shown opened (ih (length_lt_of_skip shown below ample))
  case group shown opened added read closed _ inner later =>
    have below := (steady_readGroup? _).suffix opened
    have behind := ((steady_closeGroup? _).suffix closed).trans (read.suffix.trans below)
    exact .group shown opened added (inner (length_lt_of_skip shown below ample)) closed
      (later (length_lt_of_skip shown behind ample))
  case repetition shown repetition counted _ ih =>
    have below := (steady_readRepetition?_cons _ _).suffix counted
    exact .repetition shown repetition counted (ih (length_lt_of_skip shown below ample))
  case part shown plain part read _ ih =>
    have below := readPart?_suffix read
    exact .part shown plain part read (ih (length_lt_of_skip shown below ample))

/-- More fuel than there are characters is enough. -/
theorem readAlternatives?_of_fuel (h : readAlternatives? n flags names earlier parts t = some x)
    (ample : t.length < m) : readAlternatives? m flags names earlier parts t = some x :=
  ((reads_of_readAlternatives? h).of_fuel ample).eq

end Fuel

end FileSelect.Regex
