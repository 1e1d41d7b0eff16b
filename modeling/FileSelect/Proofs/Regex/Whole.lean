import FileSelect.Proofs.Regex.Reach

/-!
# Expressions that have to account for a whole text

Such an expression is written as a group between two anchors. The group holds what the
expression is by itself, as long as the expression keeps its extent: it closes no group that
it does not open, and a parenthesis behind it is noticed.
-/

namespace FileSelect.Regex

/-- The expression between two anchors. -/
def wholeOf (r : Regex) : Regex :=
  .sequence (.assert .textStart) (.sequence r (.sequence (.assert .textEnd) .empty))

/-- The expression is read up to its end, and not up to a parenthesis that it does not open. -/
def ClosesNoGroup (expression : Text) : Prop :=
  ∀ x rest, readAlternatives? (expression.length + 1) .standard [] [] [] expression =
    some (x, rest) → rest = []

section

variable {expression : Text} {r : Regex}

theorem ofText?_eq_some_iff {t : Text} : ofText? t = some r ↔
    ∃ names, readAlternatives? (t.length + 1) .standard [] [] [] t = some ((r, names), []) ∧
      r.weight ≤ largestWeight := by
  constructor
  · intro h
    obtain ⟨⟨⟨r', names⟩, rest⟩, read, h⟩ := Option.bind_eq_some_iff.mp h
    simp only [Option.ite_none_right_eq_some, Option.some.injEq] at h
    obtain ⟨⟨rfl, light⟩, rfl⟩ := h
    exact ⟨names, read, light⟩
  · rintro ⟨names, read, light⟩
    rw [ofText?, read]
    simp [light]

/-- Up to the inner alternatives the wrapped text is read in one way. -/
theorem readAlternatives?_wholeText {n : Nat} : 
    readAlternatives? (n + 2) .standard [] [] [] (wholeText expression) =
      (readAlternatives? n .standard [] [] [] (expression ++ closing)).bind fun x =>
        (closeGroup? x.2).bind fun y =>
          readAlternatives? n .standard x.1.2 [] [some x.1.1, some (.assert .textStart)] y.2 := by
  rfl

theorem readAlternatives?_dollar {n : Nat} {names : List Text} : 
    readAlternatives? (n + 2) .standard names [] [some r, some (.assert .textStart)] ['$'] =
      some ((wholeOf r, names), []) := by
  rfl

theorem eq_cons_of_closeGroup? {t rest : Text} {x : Unit} (h : closeGroup? t = some (x, rest)) :
    t = ')' :: rest := by
  unfold closeGroup? at h
  split at h
  · cases h
    rfl
  · cases h

/-- A parenthesis at the front of what is left over is the one of the closing, or stands
before it. -/
theorem exists_append_closing {t rest : Text} (h : ')' :: rest <:+ t ++ closing) :
    ∃ left, ')' :: rest = left ++ closing := by
  rcases List.suffix_or_suffix_of_suffix h (List.suffix_append t closing) with short | long
  · rcases List.suffix_cons_iff.mp short with same | shorter
    · exact ⟨[], same⟩
    · rcases List.suffix_cons_iff.mp shorter with same | none_left
      · simp at same
      · simp at none_left
  · obtain ⟨left, same⟩ := long
    exact ⟨left, same.symm⟩

theorem weight_wholeOf (r : Regex) : (wholeOf r).weight = 32 + (r.weight + 32) := rfl

/-- Between the anchors stands what the expression is by itself. -/
theorem ofWhole?_eq_some_iff {whole : Regex} (closes : ClosesNoGroup expression) :
    ofWhole? expression = some whole ↔
      ∃ r, ofText? expression = some r ∧ ofText? (expression ++ closing) = none ∧
        whole = wholeOf r ∧ (wholeOf r).weight ≤ largestWeight := by
  have length : (wholeText expression).length + 1 = (expression.length + 5) + 2 := by
    simp [wholeText]
  rw [ofWhole?, ofText?_eq_some_iff, length, readAlternatives?_wholeText]
  have steady := steady_readAlternatives?_fuel (expression.length + 5) .standard [] [] [] expression
  constructor
  · rintro ⟨names, read, light⟩
    obtain ⟨⟨⟨r, inner⟩, left⟩, read_inner, read⟩ := Option.bind_eq_some_iff.mp read
    obtain ⟨⟨_, rest⟩, closed, read⟩ := Option.bind_eq_some_iff.mp read
    obtain rfl := eq_cons_of_closeGroup? closed
    obtain ⟨before, same⟩ := exists_append_closing (steady.suffix_closing read_inner)
    rw [same] at read_inner
    have alone := readAlternatives?_of_fuel (steady.without_closing read_inner)
      (Nat.lt_succ_self _)
    obtain rfl : before = [] := closes _ _ alone
    obtain rfl : rest = ['$'] := by simpa [closing] using same
    have tail := readAlternatives?_dollar.symm.trans read
    obtain rfl : wholeOf r = whole := by simpa using congrArg (fun x => x.map (·.1.1)) tail
    have light_inner : r.weight ≤ largestWeight := by
      rw [weight_wholeOf] at light
      omega
    refine ⟨r, ofText?_eq_some_iff.mpr ⟨inner, alone, light_inner⟩, ?_, rfl, light⟩
    have noticed := readAlternatives?_of_fuel read_inner (Nat.lt_succ_self _)
    rw [ofText?, noticed]
    rfl
  · rintro ⟨r, valid, noticed, rfl, light⟩
    obtain ⟨names, read, light_inner⟩ := ofText?_eq_some_iff.mp valid
    have ample : expression.length < expression.length + 5 := by omega
    rcases steady.with_closing (readAlternatives?_of_fuel read ample) with inner | ⟨-, swallowed⟩
    · refine ⟨names, ?_, light⟩
      rw [inner]
      rfl
    · have read := readAlternatives?_of_fuel swallowed (Nat.lt_succ_self _)
      rw [ofText?_eq_some_iff.mpr ⟨names, read, light_inner⟩] at noticed
      cases noticed

theorem countsOrdered_of_ofText? {t : Text} (h : ofText? t = some r) : r.CountsOrdered := by
  obtain ⟨names, read, -⟩ := ofText?_eq_some_iff.mp h
  exact (reads_of_readAlternatives? read).countsOrdered nofun nofun

theorem holdsAt_textStart_iff {text : Text} {i : Nat} (within : i ≤ text.length) :
    Assertion.textStart.holdsAt text i = true ↔ i = 0 := by
  unfold Assertion.holdsAt
  split
  · simp [Assertion.holdsBetween, *]
  · have before : text[i - 1]? ≠ none := by
      rw [Ne, List.getElem?_eq_none_iff]
      omega
    simp [Assertion.holdsBetween, *]

theorem holdsAt_textEnd_iff {text : Text} {j : Nat} :
    Assertion.textEnd.holdsAt text j = true ↔ text.length ≤ j := by
  simp [Assertion.holdsAt, Assertion.holdsBetween]

/-- Between the anchors the expression has to account for the text from its start to its
end. -/
theorem spans_wholeOf_iff {text : Text} {i j : Nat} (within : i ≤ text.length) :
    Spans text (wholeOf r) i j ↔
      i = 0 ∧ j = text.length ∧ Spans text r 0 text.length := by
  constructor
  · intro span
    cases span with
    | sequence start span =>
        cases start with
        | assert start =>
            cases span with
            | sequence middle span =>
                cases span with
                | sequence finish empty =>
                    cases finish with
                    | assert finish =>
                        cases empty
                        obtain rfl := (holdsAt_textStart_iff within).mp start
                        have reached := holdsAt_textEnd_iff.mp finish
                        obtain rfl := Nat.le_antisymm (middle.le_length within) reached
                        exact ⟨rfl, rfl, middle⟩
  · rintro ⟨rfl, rfl, span⟩
    exact .sequence (.assert ((holdsAt_textStart_iff within).mpr rfl))
      (.sequence span (.sequence (.assert (holdsAt_textEnd_iff.mpr le_rfl)) .empty))

theorem isFoundIn_wholeOf_iff {text : Text} (ordered : r.CountsOrdered) :
    (wholeOf r).isFoundIn text = true ↔ Spans text r 0 text.length := by
  have whole : (wholeOf r).CountsOrdered := ⟨trivial, ordered, trivial, trivial⟩
  rw [isFoundIn_iff whole]
  constructor
  · rintro ⟨i, j, within, span⟩
    exact ((spans_wholeOf_iff within).mp span).2.2
  · intro span
    exact ⟨0, _, Nat.zero_le _, (spans_wholeOf_iff (Nat.zero_le _)).mpr ⟨rfl, rfl, span⟩⟩

end

/-! ## The language of an expression -/

section

variable {expression : Text} {r : Regex}

/-- The expression, taken by itself, accounts for the whole text. -/
def InLanguage (expression text : Text) : Prop :=
  ∃ r, ofText? expression = some r ∧ Spans text r 0 text.length

/-- In front of the closing the expression is what it is by itself: it closes no group that it
does not open, a parenthesis behind it is not taken for a part of it, and there is room for
the anchors. -/
structure KeepsExtent (expression : Text) : Prop where
  closes : ClosesNoGroup expression
  noticed : ∀ r, ofText? expression = some r → ofText? (expression ++ closing) = none
  light : ∀ r, ofText? expression = some r → (wholeOf r).weight ≤ largestWeight

theorem KeepsExtent.ofWhole?_eq (extent : KeepsExtent expression) :
    ofWhole? expression = (ofText? expression).map wholeOf := by
  ext whole
  rw [ofWhole?_eq_some_iff extent.closes, Option.map_eq_some_iff]
  constructor
  · rintro ⟨r, valid, _, rfl, _⟩
    exact ⟨r, valid, rfl⟩
  · rintro ⟨r, valid, rfl⟩
    exact ⟨r, valid, extent.noticed r valid, rfl, extent.light r valid⟩

/-- What the expression between the anchors is found in is its language. -/
theorem KeepsExtent.isFoundIn_iff (extent : KeepsExtent expression) {text : Text} :
    (∃ whole, ofWhole? expression = some whole ∧ whole.isFoundIn text = true) ↔
      InLanguage expression text := by
  rw [extent.ofWhole?_eq]
  constructor
  · rintro ⟨whole, mapped, found⟩
    obtain ⟨r, valid, rfl⟩ := Option.map_eq_some_iff.mp mapped
    exact ⟨r, valid, (isFoundIn_wholeOf_iff (countsOrdered_of_ofText? valid)).mp found⟩
  · rintro ⟨r, valid, spans⟩
    exact ⟨wholeOf r, Option.map_eq_some_iff.mpr ⟨r, valid, rfl⟩,
      (isFoundIn_wholeOf_iff (countsOrdered_of_ofText? valid)).mpr spans⟩

instance (expression text : Text) : Decidable (InLanguage expression text) :=
  decidable_of_iff (∃ r ∈ ofText? expression, (wholeOf r).isFoundIn text = true) <|
    exists_congr fun _ => and_congr_right fun valid =>
      isFoundIn_wholeOf_iff (countsOrdered_of_ofText? valid)

instance (expression : Text) : Decidable (ClosesNoGroup expression) :=
  decidable_of_iff (∀ y ∈ readAlternatives? (expression.length + 1) .standard [] [] [] expression,
      y.2 = []) ⟨fun closes x rest read => closes (x, rest) read, fun closes y => closes y.1 y.2⟩

instance (expression : Text) : Decidable (KeepsExtent expression) :=
  decidable_of_iff (ClosesNoGroup expression ∧ ∀ r ∈ ofText? expression,
      ofText? (expression ++ closing) = none ∧ (wholeOf r).weight ≤ largestWeight)
    ⟨fun keeps => ⟨keeps.1, fun r valid => (keeps.2 r valid).1, fun r valid =>
      (keeps.2 r valid).2⟩, fun extent => ⟨extent.closes, fun r valid =>
      ⟨extent.noticed r valid, extent.light r valid⟩⟩⟩

end

end FileSelect.Regex
