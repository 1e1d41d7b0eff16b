import FileSelect.Proofs.Regex.Bracket
import FileSelect.Regex.Reader

/-!
# Expressions in front of a closing

Alternatives are read alike with and without the closing, up to the parenthesis that closes
their group. This takes every reader below them: groups with their flags and names, counts
and repetitions, and single parts.
-/

namespace FileSelect.Regex

variable {flags : Flags}

section Group

theorem steadyAt_readFlags?_cons {t : Text}
    (later : ∀ seen on flags, SteadyAt (readFlags? seen on flags) t) (seen : Text) (on : Bool)
    (flags : Flags) (c : Char) : SteadyAt (fun t => readFlags? seen on flags (c :: t)) t := by
  simp only [readFlags?]
  refine .ite ?_ (.ite (steady_none t) (.ite (later _ _ _) ?_))
  · exact .ite (steady_none t) (.ite (steady_some _ t) (steady_some _ t))
  · cases flags.set? on c with
    | none => exact steady_none t
    | some flags => exact later _ _ _

theorem steady_readFlags? (seen : Text) (on : Bool) (flags : Flags) :
    Steady (readFlags? seen on flags) := by
  intro t
  induction t generalizing seen on flags with
  | nil =>
      refine .nil_none rfl fun {opening rest} h => ?_
      simp only [closing, readFlags?, Char.reduceEq, or_true, if_true, if_false] at h
      split at h
      · cases h
      · simp only [Option.some.injEq, Prod.mk.injEq] at h
        exact h.2 ▸ List.suffix_rfl
  | cons c t ih => exact .cons (steadyAt_readFlags?_cons ih seen on flags c)

theorem steady_readGroupName? : Steady readGroupName? := by
  have mark : Steady (Text.splitFirst? ['>']) := (exact_splitFirst? (by decide)).steady
  refine mark.bind fun name => ?_
  cases name with
  | nil => exact steady_none
  | cons first others => exact .ite (steady_some _) steady_none

theorem readSpecial?_of_ne {c : Char} {t : Text} (no_name : c ≠ '<') (no_end : c ≠ ')')
    (no_python : c = 'P' → t.head? ≠ some '<') :
    readSpecial? flags (c :: t) = readFlags? [] true flags (c :: t) := by
  unfold readSpecial?
  split <;> simp_all

/-- The letter in front of a name is no flag. -/
theorem readFlags?_P (t : Text) : readFlags? [] true flags ('P' :: t) = none := by
  simp [readFlags?, Flags.set?]

theorem steady_readSpecial? : Steady (readSpecial? flags) := by
  have named : Steady fun t => (readGroupName? t).map fun x =>
      (Opening.group flags (some x.1), x.2) :=
    steady_readGroupName?.map fun name => steady_some (Opening.group flags (some name))
  refine .of_cons rfl fun c => ?_
  by_cases angle : c = '<'
  · subst angle
    exact named
  · by_cases isEnd : c = ')'
    · subst isEnd
      exact steady_none
    · by_cases python : c = 'P'
      · subst python
        intro t
        by_cases name : t.head? = some '<'
        · obtain ⟨u, rfl⟩ : ∃ u, t = '<' :: u := List.head?_eq_some_iff.mp name
          exact (named u).cons
        · have still := head?_append_closing_ne name (by decide)
          refine .of_none ?_ ?_
          · rw [readSpecial?_of_ne angle isEnd (fun _ => name), readFlags?_P]
          · rw [readSpecial?_of_ne angle isEnd (fun _ => still), readFlags?_P]
      · simp only [readSpecial?_of_ne angle isEnd (fun h => absurd h python)]
        exact fun t => steadyAt_readFlags?_cons (fun _ _ _ => steady_readFlags? _ _ _ t) _ _ _ _

theorem readGroup?_of_ne {c : Char} {t : Text} (shown : flags.skip (c :: t) = c :: t)
    (plain : c ≠ '?') : readGroup? flags (c :: t) = some (.group flags none, c :: t) := by
  rw [readGroup?, shown]
  split
  · simp_all
  · rfl

theorem steady_readGroup? : Steady (readGroup? flags) := by
  refine .of_skip flags (fun t => by simp only [readGroup?, Flags.skip_skip]) ?_ ?_
  · exact .of_some (by rw [readGroup?, Flags.skip_nil])
      (by rw [List.nil_append, closing, readGroup?_of_ne flags.skip_closing (by decide)])
  · intro c t shown
    by_cases special : c = '?'
    · subst special
      refine .cons ?_
      simp only [readGroup?, shown]
      exact steady_readSpecial? t
    · exact .of_some (readGroup?_of_ne (shown t) special)
        (by rw [List.cons_append, readGroup?_of_ne (shown _) special])

end Group

section Counts

/-- Blanks may stand around a count, whatever the flags are. -/
theorem steady_dropBlanks {α : Type} (a : α) :
    Steady fun t => some (a, t.dropWhile Text.isBlank) := by
  intro t
  induction t with
  | nil => exact .of_some rfl rfl
  | cons c t ih =>
      by_cases blank : Text.isBlank c = true
      · refine .cons (ih.congr ?_ ?_) <;> rw [List.dropWhile_cons, if_pos blank]
      · exact .of_some (by rw [List.dropWhile_cons, if_neg blank])
          (by rw [List.cons_append, List.dropWhile_cons, if_neg blank])

theorem Steady.dropBlanks {α : Type} {f : Text → Option (α × Text)} (hf : Steady f) :
    Steady fun t => f (t.dropWhile Text.isBlank) :=
  (steady_dropBlanks ()).bind (k := fun x => f x.2) fun _ => hf

theorem readDigits_of_no_digit {n : Nat} {c : Char} {t : Text} (no_digit : ¬c.isDigit = true) :
    readDigits flags n (c :: t) = ([], c :: t) := by
  cases n with
  | zero => rfl
  | succ n => rw [readDigits, if_neg no_digit]

theorem readDigits_nil (n : Nat) : readDigits flags n [] = ([], []) := by
  cases n <;> rfl

theorem steady_readDigits (flags : Flags) (n : Nat) :
    Steady fun t => some (readDigits flags n t) := by
  induction n with
  | zero => exact steady_some []
  | succ n ih =>
      intro t
      cases t with
      | nil => exact .of_some rfl (congrArg some (readDigits_of_no_digit (by decide)))
      | cons c t =>
          by_cases digit : c.isDigit = true
          · refine .cons ?_
            simp only [readDigits, if_pos digit]
            exact (ih.skip flags).andThen (k := fun x => (c :: x.1, x.2))
              (fun digits => steady_some (c :: digits)) t
          · exact .of_some (by rw [readDigits_of_no_digit digit])
              (by rw [List.cons_append, readDigits_of_no_digit digit])

theorem readDigits_of_fuel {n m : Nat} {t : Text} (hn : t.length ≤ n) (hm : t.length ≤ m) :
    readDigits flags n t = readDigits flags m t := by
  induction n generalizing m t with
  | zero =>
      have empty : t = [] := List.length_eq_zero_iff.mp (Nat.le_zero.mp hn)
      rw [empty, readDigits_nil, readDigits_nil]
  | succ n ih =>
      cases t with
      | nil => rw [readDigits_nil, readDigits_nil]
      | cons c t =>
          by_cases digit : c.isDigit = true
          · obtain ⟨m, rfl⟩ : ∃ k, m = k + 1 := ⟨m - 1, by simp at hm; omega⟩
            have shorter := (flags.skip_suffix t).length_le
            simp only [List.length_cons] at hn hm
            rw [readDigits, readDigits, ih (m := m) (by omega) (by omega)]
          · rw [readDigits_of_no_digit digit, readDigits_of_no_digit digit]

theorem steady_readCount? : Steady (readCount? flags) := by
  intro t
  have below := (List.dropWhile_suffix (l := t) Text.isBlank).length_le
  have enough : (t.dropWhile Text.isBlank).length ≤ (t ++ closing).length := by
    rw [List.length_append]
    omega
  have count : Steady fun u => (some (readDigits flags (t ++ closing).length u)).bind fun x =>
      (countOf? x.1).bind fun n => some (n, x.2.dropWhile Text.isBlank) :=
    (steady_readDigits flags _).bind fun digits =>
      .option (countOf? digits) fun n => steady_dropBlanks n
  exact (count.dropBlanks t).congr (by rw [readCount?, readDigits_of_fuel below enough]; rfl) rfl

theorem steady_endCounts? (least most : Nat) : Steady (endCounts? least most) := by
  refine .of_cons rfl fun c => ?_
  by_cases brace : c = '\x7d'
  · subst brace
    exact .ite (steady_some _) steady_none
  · exact .of_none fun t => by unfold endCounts?; split <;> simp_all

theorem readMost?_of_head_ne {least : Nat} {t : Text} (shown : flags.skip t = t)
    (no_brace : t.head? ≠ some '\x7d') : readMost? flags least t =
      (readCount? flags t).bind fun x => endCounts? least x.1 x.2 := by
  rw [readMost?, shown]
  split
  · simp at no_brace
  · rfl

theorem steady_readMost? (least : Nat) : Steady (readMost? flags least) := by
  have count : Steady fun t => (readCount? flags t).bind fun x => endCounts? least x.1 x.2 :=
    steady_readCount?.bind fun most => steady_endCounts? least most
  refine .of_skip flags (fun t => by simp only [readMost?, Flags.skip_skip]) ?_ ?_
  · exact (count []).congr (readMost?_of_head_ne flags.skip_nil (by decide))
      (readMost?_of_head_ne flags.skip_closing (by decide))
  · intro c t shown
    by_cases brace : c = '\x7d'
    · subst brace
      refine .cons ?_
      simp only [readMost?, shown]
      exact steady_some none t
    · have other (u : Text) : (c :: u).head? ≠ some '\x7d' := by simpa using brace
      exact (count (c :: t)).congr (readMost?_of_head_ne (shown t) (other t))
        (readMost?_of_head_ne (shown _) (other _))

theorem steady_readBound? (least : Nat) : Steady (readBound? flags least) := by
  refine .of_cons rfl fun c => ?_
  by_cases brace : c = '\x7d'
  · subst brace
    exact steady_some _
  · by_cases comma : c = ','
    · subst comma
      exact (steady_readMost? least).map fun most => steady_some (least, most)
    · exact .of_none fun t => by unfold readBound?; split <;> simp_all

theorem steady_readCounts? : Steady (readCounts? flags) :=
  (steady_readCount?.skip flags).bind fun least => steady_readBound? least

end Counts

section Part

theorem steady_dropPreference {α : Type} (a : α) :
    Steady fun t => some (a, dropPreference t) := by
  intro t
  have other {t : Text} (h : t.head? ≠ some '?') : dropPreference t = t := by
    unfold dropPreference
    split
    · simp at h
    · rfl
  by_cases mark : t.head? = some '?'
  · obtain ⟨u, rfl⟩ : ∃ u, t = '?' :: u := List.head?_eq_some_iff.mp mark
    exact .cons (steady_some a u)
  · have still := head?_append_closing_ne mark (by decide)
    exact .of_some (by rw [other mark]) (by rw [other still])

theorem steady_readRepetition?_cons (c : Char) :
    Steady fun t => readRepetition? flags (c :: t) := by
  by_cases star : c = '*'
  · subst star
    exact steady_dropPreference _
  · by_cases plus : c = '+'
    · subst plus
      exact steady_dropPreference _
    · by_cases mark : c = '?'
      · subst mark
        exact steady_dropPreference _
      · by_cases brace : c = '\x7b'
        · subst brace
          exact steady_readCounts?.map fun counts => (steady_dropPreference counts).skip flags
        · exact .of_none fun t => by unfold readRepetition?; split <;> simp_all

theorem readPart?_literal {c : Char} (no_bracket : c ≠ '[') (no_escape : c ≠ '\\')
    (no_dot : c ≠ '.') (no_caret : c ≠ '^') (no_dollar : c ≠ '$') (t : Text) :
    readPart? flags (c :: t) = (literal? flags c).map fun r => (r, t) := by
  unfold readPart?
  split <;> simp_all

theorem steady_readPart?_cons {c : Char} (no_escape : c ≠ '\\') :
    Steady fun t => readPart? flags (c :: t) := by
  by_cases bracket : c = '['
  · subst bracket
    exact steady_readBracket?.map fun k => steady_some (Regex.one k)
  · by_cases dot : c = '.'
    · subst dot
      exact .optionMap (dot? flags) fun r => steady_some r
    · by_cases caret : c = '^'
      · subst caret
        exact steady_some _
      · by_cases dollar : c = '$'
        · subst dollar
          exact steady_some _
        · simp only [readPart?_literal bracket no_escape dot caret dollar]
          exact .optionMap (literal? flags c) fun r => steady_some r

end Part

end FileSelect.Regex
