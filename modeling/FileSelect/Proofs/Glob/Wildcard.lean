import FileSelect.Glob.Wildcard
import FileSelect.Proofs.Text.Segments

/-!
# Wildcards decide their layouts

`Wildcard.accepts` goes over the wildcard once and keeps one row of answers, one answer
for each suffix of the name. Each row holds the answers of `Wildcard.Matches`, so the
search accepts exactly the names that the wildcard can be laid out along. Every segment
of a pattern stands for some name at least.
-/

namespace FileSelect

namespace Wildcard

/-! ## Layouts by their first character -/

theorem matches_cons_nil_iff {w : Char} {source : Text} :
    Matches (w :: source) [] ↔ w = '*' ∧ Matches source [] := by
  constructor
  · intro h
    cases h with
    | starEnd rest => exact ⟨rfl, rest⟩
  · rintro ⟨rfl, rest⟩
    exact .starEnd rest

theorem matches_star_cons_iff {source name : Text} {c : Char} :
    Matches ('*' :: source) (c :: name) ↔
      Matches source (c :: name) ∨ c ≠ '/' ∧ Matches ('*' :: source) name := by
  constructor
  · intro h
    cases h with
    | starEnd rest => exact Or.inl rest
    | starStep notSlash rest => exact Or.inr ⟨notSlash, rest⟩
    | same notStar _ _ => exact absurd rfl notStar
  · rintro (rest | ⟨notSlash, rest⟩)
    · exact .starEnd rest
    · exact .starStep notSlash rest

theorem matches_any_cons_iff {source name : Text} {c : Char} :
    Matches ('?' :: source) (c :: name) ↔ c ≠ '/' ∧ Matches source name := by
  constructor
  · intro h
    cases h with
    | any notSlash rest => exact ⟨notSlash, rest⟩
    | same _ notAny _ => exact absurd rfl notAny
  · rintro ⟨notSlash, rest⟩
    exact .any notSlash rest

theorem matches_letter_cons_iff {source name : Text} {w c : Char}
    (notStar : w ≠ '*') (notAny : w ≠ '?') :
    Matches (w :: source) (c :: name) ↔ c = w ∧ Matches source name := by
  constructor
  · intro h
    cases h with
    | starEnd _ => exact absurd rfl notStar
    | starStep _ _ => exact absurd rfl notStar
    | any _ _ => exact absurd rfl notAny
    | same _ _ rest => exact ⟨rfl, rest⟩
  · rintro ⟨rfl, rest⟩
    exact .same notStar notAny rest

/-! ## Rows of answers -/

/-- A row that answers for every suffix of a name, the whole name first. -/
inductive Answers (source : Text) : Text → List Bool → Prop
  | last {answer : Bool} :
      (answer = true ↔ Matches source []) → Answers source [] [answer]
  | next {c : Char} {name : Text} {answer : Bool} {row : List Bool} :
      (answer = true ↔ Matches source (c :: name)) → Answers source name row →
      Answers source (c :: name) (answer :: row)

namespace Answers

theorem headD_iff {source name : Text} {row : List Bool} (answers : Answers source name row) :
    row.headD false = true ↔ Matches source name := by
  cases answers with
  | last whole => exact whole
  | next whole _ => exact whole

theorem lastRow (name : Text) : Answers [] name (Wildcard.lastRow name) := by
  induction name with
  | nil => exact .last (iff_of_true rfl .done)
  | cons c name ih =>
      refine .next ?_ ih
      exact iff_of_false Bool.false_ne_true (fun h => nomatch h)

/-- Putting a character in front of the wildcard keeps the answers right. -/
theorem extendRow {source name : Text} {row : List Bool} (answers : Answers source name row)
    (w : Char) : Answers (w :: source) name (Wildcard.extendRow w name row) := by
  induction answers with
  | last whole =>
      refine .last ?_
      rw [matches_cons_nil_iff, ← whole, Bool.and_eq_true, beq_iff_eq]
      rfl
  | @next c name answer row whole rest ih =>
      refine .next ?_ ih
      have further := rest.headD_iff
      have longer := ih.headD_iff
      by_cases star : w = '*'
      · subst star
        rw [if_pos rfl, matches_star_cons_iff, ← longer, ← whole, Bool.or_eq_true,
          Bool.and_eq_true, bne_iff_ne]
        rfl
      · rw [if_neg star]
        by_cases any : w = '?'
        · subst any
          rw [if_pos rfl, matches_any_cons_iff, ← further, Bool.and_eq_true, bne_iff_ne]
          rfl
        · rw [if_neg any, matches_letter_cons_iff star any, ← further, Bool.and_eq_true,
            beq_iff_eq]
          rfl

theorem rowOf (source name : Text) : Answers source name (Wildcard.rowOf source name) := by
  induction source with
  | nil => exact lastRow name
  | cons w source ih => exact ih.extendRow w

end Answers

/-- The search by rows accepts exactly the names along which the wildcard can be laid out. -/
theorem accepts_iff_matches (w : Wildcard) (name : Text) :
    w.accepts name = true ↔ Matches w.source name :=
  (Answers.rowOf w.source name).headD_iff

/-! ## Texts without wildcard characters -/

theorem hasWildcard_cons_eq_false_iff {c : Char} {segment : Text} :
    hasWildcard (c :: segment) = false ↔
      (c ≠ '*' ∧ c ≠ '?') ∧ hasWildcard segment = false := by
  simp [hasWildcard]

/-- Without `*` and `?` a text stands for itself alone. -/
theorem matches_iff_eq {segment : Text} (plain : hasWildcard segment = false) (name : Text) :
    Matches segment name ↔ name = segment := by
  induction segment generalizing name with
  | nil =>
      constructor
      · intro h
        cases h with
        | done => rfl
      · rintro rfl
        exact .done
  | cons w segment ih =>
      obtain ⟨⟨notStar, notAny⟩, plain⟩ := hasWildcard_cons_eq_false_iff.mp plain
      cases name with
      | nil => simp [matches_cons_nil_iff, notStar]
      | cons c name => rw [matches_letter_cons_iff notStar notAny, ih plain, List.cons.injEq]

/-! ## A name for every segment -/

/-- A name that the segment stands for: every `*` and `?` is played by a letter. -/
def sample (segment : Text) : Text := segment.map fun c => if c = '*' ∨ c = '?' then 'a' else c

theorem matches_sample (segment : Text) : Matches segment (sample segment) := by
  induction segment with
  | nil => exact .done
  | cons w segment ih =>
      rw [sample, List.map_cons]
      by_cases star : w = '*'
      · subst star
        exact .starStep (by decide) (.starEnd ih)
      · by_cases any : w = '?'
        · subst any
          exact .any (by decide) ih
        · rw [if_neg (not_or.mpr ⟨star, any⟩)]
          exact .same star any ih

theorem isName_sample {segment : Text} (name : IsName segment) : IsName (sample segment) := by
  refine ⟨fun empty => name.ne_nil (List.map_eq_nil_iff.mp empty), fun slash => ?_⟩
  obtain ⟨c, inside, eq⟩ := List.mem_map.mp slash
  split at eq
  · exact absurd eq (by decide)
  · exact name.no_slash (eq ▸ inside)

end Wildcard

end FileSelect
