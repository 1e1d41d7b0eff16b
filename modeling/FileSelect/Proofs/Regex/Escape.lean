import FileSelect.Proofs.Regex.Steady

/-!
# Escapes in front of a closing

What a backslash introduces is read alike with and without the closing. Only a word
boundary looks at the text behind it without taking it: an opening brace at the very end
makes it fail, and nothing else does.
-/

namespace FileSelect.Regex

variable {flags : Flags}

section Hex

theorem readHex?_succ_of_shown {c : Char} (shown : ∀ u, flags.skip (c :: u) = c :: u)
    (count value : Nat) (u : Text) : readHex? flags (count + 1) value (c :: u) =
      (hexDigit? c).bind fun digit => readHex? flags count (16 * value + digit) u := by
  simp only [readHex?, shown]
  rfl

theorem steady_readHex? (count value : Nat) : Steady (readHex? flags count value) := by
  induction count generalizing value with
  | zero => exact steady_some value
  | succ count ih =>
      refine .of_skip_cons flags (fun t => by simp [readHex?]) (by simp [readHex?]) ?_
      intro c shown
      simp only [readHex?_succ_of_shown shown]
      exact .option _ fun digit => ih _

/-- Digits are taken from the front. -/
theorem steady_readHex?_cons {c : Char} (shown : ∀ u, flags.skip (c :: u) = c :: u)
    {count : Nat} (positive : count ≠ 0) (value : Nat) :
    Steady fun u => readHex? flags count value (c :: u) := by
  obtain ⟨count, rfl⟩ := Nat.exists_eq_succ_of_ne_zero positive
  simp only [readHex?_succ_of_shown shown]
  exact .option _ fun digit => steady_readHex? _ _

end Hex

section Braced

theorem readBraced?_succ_of_skip {n : Nat} {t u : Text} {c : Char} (h : flags.skip t = c :: u) :
    readBraced? flags (n + 1) t =
      if c = '\x7d' then some ([], u)
      else (readBraced? flags n u).map fun x => (c :: x.1, x.2) := by
  rw [readBraced?, h]
  split <;> simp_all

theorem steady_readBraced?_fuel (n : Nat) : Steady (readBraced? flags n) := by
  induction n with
  | zero => exact steady_none
  | succ n ih =>
      refine .of_skip_cons flags (fun t => by simp [readBraced?]) (by simp [readBraced?]) ?_
      intro c shown
      simp only [readBraced?_succ_of_skip (shown _)]
      exact .ite (steady_some []) (ih.map fun inside => steady_some (c :: inside))

/-- More fuel than there are characters is enough. -/
theorem readBraced?_of_fuel {n m : Nat} {t : Text} {x : Text × Text}
    (h : readBraced? flags n t = some x) (ample : t.length < m) :
    readBraced? flags m t = some x := by
  induction n generalizing m t x with
  | zero => simp [readBraced?] at h
  | succ n ih =>
      obtain ⟨m, rfl⟩ : ∃ k, m = k + 1 := ⟨m - 1, by omega⟩
      cases hs : flags.skip t with
      | nil => simp [readBraced?, hs] at h
      | cons c u =>
          have shorter := (flags.skip_suffix t).length_le
          rw [hs, List.length_cons] at shorter
          rw [readBraced?_succ_of_skip hs] at h ⊢
          split at h
          · rwa [if_pos ‹_›]
          · rw [if_neg ‹_›]
            obtain ⟨y, hy, rfl⟩ := Option.map_eq_some_iff.mp h
            rw [ih hy (by omega)]
            rfl

theorem steady_readBraced? : Steady fun t => readBraced? flags (t.length + 1) t :=
  .of_fuel steady_readBraced?_fuel readBraced?_of_fuel

end Braced

section Code

theorem readCodeNumber?_of_ne {letter c : Char} (shown : ∀ u, flags.skip (c :: u) = c :: u)
    (no_brace : c ≠ '\x7b') (u : Text) : readCodeNumber? flags letter (c :: u) =
      readHex? flags (if letter = 'x' then 2 else if letter = 'u' then 4 else 8) 0 (c :: u) := by
  rw [readCodeNumber?, shown]
  split
  · simp_all
  · rfl

theorem steady_readCodeNumber? (letter : Char) : Steady (readCodeNumber? flags letter) := by
  have positive : (if letter = 'x' then 2 else if letter = 'u' then 4 else 8) ≠ 0 := by
    split
    · decide
    · split <;> decide
  refine .of_skip_cons flags (fun t => by simp [readCodeNumber?]) ?_ ?_
  · obtain ⟨n, hn⟩ := Nat.exists_eq_succ_of_ne_zero positive
    simp only [readCodeNumber?, Flags.skip_nil, hn, readHex?]
  · intro c shown
    by_cases brace : c = '\x7b'
    · subst brace
      simp only [readCodeNumber?, shown]
      refine steady_readBraced?.bind fun inside => ?_
      dsimp only
      exact .option _ fun digits => .ite steady_none (steady_some _)
    · simp only [readCodeNumber?_of_ne shown brace]
      exact steady_readHex?_cons shown positive 0

theorem steady_readCode? (letter : Char) : Steady (readCode? flags letter) :=
  (steady_readCodeNumber? letter).bind fun _ =>
    .option _ fun _ => .ite (steady_some _) (steady_some _)

end Code

section Property

theorem steady_readPropertyName? : Steady (readPropertyName? flags) := by
  refine .of_skip_cons flags (fun t => by simp [readPropertyName?]) ?_ ?_
  · simp [readPropertyName?]
  · intro c shown
    by_cases brace : c = '\x7b'
    · subst brace
      simp only [readPropertyName?, shown]
      refine steady_readBraced?.bind fun inside => ?_
      dsimp only
      exact .option _ fun named => steady_some _
    · by_cases backslash : c = '\\'
      · subst backslash
        simp only [readPropertyName?, shown]
        exact steady_none
      · simp only [readPropertyName?, shown]
        exact .optionMap _ fun named => steady_some _

theorem steady_readProperty? (negated : Bool) : Steady (readProperty? flags negated) :=
  steady_readPropertyName?.bind fun _ => .ite (steady_some _) steady_none

end Property

section Boundary

/-- A brace at the end, with nothing but blanks and comments behind it. -/
def HangingBrace (flags : Flags) (t : Text) : Prop := ∃ u, t = '\x7b' :: u ∧ flags.skip u = []

theorem readBoundary?_of_head_ne {t : Text} (no_brace : t.head? ≠ some '\x7b') :
    readBoundary? flags t = some (.assertion (.boundary flags.unicode), t) := by
  unfold readBoundary?
  split
  · simp at no_brace
  · rfl

theorem readBoundary?_hanging {t : Text} (h : HangingBrace flags t) :
    readBoundary? flags t = none := by
  obtain ⟨u, rfl, hu⟩ := h
  simp only [readBoundary?, hu]

/-- In front of the closing such a brace opens no name, and it stays where it is. -/
theorem readBoundary?_hanging_closing {t : Text} (h : HangingBrace flags t) :
    readBoundary? flags (t ++ closing) = none ∨
      readBoundary? flags (t ++ closing) =
        some (.assertion (.boundary flags.unicode), t ++ closing) := by
  obtain ⟨u, rfl, hu⟩ := h
  rw [List.cons_append]
  rcases flags.skip_append u with hs | ⟨-, hs⟩
  · have no_name : ¬isBoundaryNameChar ')' = true := by decide
    rw [hu, List.nil_append, closing] at hs
    right
    rw [closing, readBoundary?, hs]
    exact if_neg no_name
  · left
    rw [readBoundary?, hs]

theorem steady_readBoundaryName? : Steady (readBoundaryName? flags) := by
  refine steady_readBraced?.bind fun name => .ite ?_ steady_none
  exact .optionMap _ fun a => steady_some _

theorem steadyAt_readBoundary? {t : Text} (h : ¬HangingBrace flags t) :
    SteadyAt (readBoundary? flags) t := by
  by_cases brace : t.head? = some '\x7b'
  · obtain ⟨u, rfl⟩ : ∃ u, t = '\x7b' :: u := List.head?_eq_some_iff.mp brace
    obtain ⟨c, inside, hu⟩ : ∃ c inside, flags.skip u = c :: inside :=
      List.exists_cons_of_ne_nil fun hu => h ⟨u, rfl, hu⟩
    have hu' : flags.skip (u ++ closing) = c :: inside ++ closing := by
      rcases flags.skip_append u with hs | ⟨hs, -⟩
      · rw [hs, hu]
      · simp [hs] at hu
    by_cases name : isBoundaryNameChar c = true
    · have named : Steady (readBoundaryName? flags) := steady_readBoundaryName?
      refine .cons ((named.skip flags u).congr ?_ ?_)
      · simp only [readBoundary?, hu, name, if_true]
      · simp only [readBoundary?, hu', List.cons_append, name, if_true]
    · refine .of_some (a := .assertion (.boundary flags.unicode)) ?_ ?_
      · simp only [readBoundary?, hu, if_neg name]
      · simp only [readBoundary?, List.cons_append, hu', if_neg name]
  · exact .of_some (readBoundary?_of_head_ne brace)
      (readBoundary?_of_head_ne (head?_append_closing_ne brace (by decide)))

end Boundary

theorem steady_readEscape?_cons {c : Char} (no_boundary : c ≠ 'b') :
    Steady fun t => readEscape? flags (c :: t) := by
  simp only [readEscape?, no_boundary, if_false]
  refine .ite (steady_readCode? c) <| .ite (steady_readProperty? _) <| .ite ?_ ?_
  · exact .optionMap _ fun k => steady_some _
  · -- All that is left is a single letter.
    repeat' first | exact steady_some _ | exact steady_none | refine .ite ?_ ?_

theorem readEscape?_boundary (t : Text) : readEscape? flags ('b' :: t) = readBoundary? flags t := by
  simp [readEscape?]

theorem readEscape?_suffix {t rest : Text} {e : Escaped}
    (h : readEscape? flags t = some (e, rest)) : rest <:+ t := by
  cases t with
  | nil => cases h
  | cons c t =>
      refine List.IsSuffix.trans ?_ (List.suffix_cons c t)
      by_cases boundary : c = 'b'
      · subst boundary
        rw [readEscape?_boundary] at h
        by_cases hanging : HangingBrace flags t
        · rw [readBoundary?_hanging hanging] at h
          cases h
        · exact (steadyAt_readBoundary? hanging).suffix h
      · exact (steady_readEscape?_cons boundary t).suffix h

/-- What is read behind an escape, if it does not go on with a hanging brace. -/
theorem steady_readEscape?_bind {α : Type} {k : Escaped × Text → Option (α × Text)}
    (steady : ∀ e, Steady fun left => k (e, left))
    (refuses : ∀ t, HangingBrace flags t →
      k (.assertion (.boundary flags.unicode), t ++ closing) = none) :
    Steady fun t => (readEscape? flags t).bind k := by
  have behind {c : Char} (no_boundary : c ≠ 'b') :
      Steady fun t => (readEscape? flags (c :: t)).bind k :=
    (steady_readEscape?_cons no_boundary).bind steady
  intro t
  cases t with
  | nil => exact .nil_none rfl fun h => (behind (by decide) ['$']).suffix h
  | cons c t =>
      by_cases boundary : c = 'b'
      · subst boundary
        refine .cons ?_
        simp only [readEscape?_boundary]
        by_cases hanging : HangingBrace flags t
        · refine .of_none (by rw [readBoundary?_hanging hanging]; rfl) ?_
          rcases readBoundary?_hanging_closing hanging with h | h
          · rw [h]; rfl
          · rw [h]; exact refuses t hanging
        · exact (steadyAt_readBoundary? hanging).bind steady
      · exact (behind boundary t).cons

end FileSelect.Regex
