import FileSelect.Glob.Pattern
import FileSelect.Proofs.Glob.Layout

/-!
# Accepting every name

A directory is covered by a pattern that accepts whatever can be named inside it. This is
read off the name part, which has to be written with stars alone. The reading is exact for
names that may be empty: a wildcard of stars and `?` asks for as many characters as it has
`?`, and any other character refuses the names written without it. No entry has an empty
name, so a star with a single `?` takes every entry as well, and is not read as covering.
-/

namespace FileSelect

namespace Wildcard

variable {source name : Text} {w : Wildcard}

theorem acceptsAll_iff_stars :
    w.acceptsAll = true ↔ w.source ≠ [] ∧ ∀ c ∈ w.source, c = '*' := by
  simp [acceptsAll]

/-- Any character but `*` and `?` is in every name for which the wildcard stands. -/
theorem mem_of_matches (layout : Matches source name) {c : Char} (inside : c ∈ source)
    (notStar : c ≠ '*') (notAny : c ≠ '?') : c ∈ name := by
  induction layout with
  | done => cases inside
  | starEnd _ ih => exact ih ((List.mem_cons.mp inside).resolve_left notStar)
  | starStep _ _ ih => exact List.mem_cons_of_mem _ (ih inside)
  | any _ _ ih => exact List.mem_cons_of_mem _ (ih ((List.mem_cons.mp inside).resolve_left notAny))
  | same _ _ _ ih =>
      rcases List.mem_cons.mp inside with rfl | later
      · exact List.mem_cons_self
      · exact List.mem_cons_of_mem _ (ih later)

/-- Stars and `?` ask for nothing but a length: for as many characters as there are `?`, and
for no more if there is no star. -/
theorem matches_iff_length (only : ∀ c ∈ source, c = '*' ∨ c = '?') :
    Matches source name ↔ '/' ∉ name ∧ source.count '?' ≤ name.length ∧
      ('*' ∉ source → name.length = source.count '?') := by
  induction source generalizing name with
  | nil =>
      rw [matches_nil_iff]
      constructor
      · rintro rfl
        simp
      · rintro ⟨_, _, whole⟩
        exact List.eq_nil_of_length_eq_zero (whole List.not_mem_nil)
  | cons c source ih =>
      obtain ⟨rfl | rfl, later⟩ := List.forall_mem_cons.mp only
      · have count : ('*' :: source).count '?' = source.count '?' :=
          List.count_cons_of_ne (by decide)
        rw [matches_star_iff, count]
        constructor
        · rintro ⟨piece, rest, rfl, free, layout⟩
          obtain ⟨restFree, long, _⟩ := (ih later).mp layout
          refine ⟨List.not_mem_append free restFree, ?_, fun noStar => ?_⟩
          · exact long.trans (List.length_append ▸ Nat.le_add_left _ _)
          · exact absurd List.mem_cons_self noStar
        · rintro ⟨free, long, _⟩
          -- The star takes what is left when every `?` has a character of its own.
          let taken := name.length - source.count '?'
          refine ⟨name.take taken, name.drop taken, (List.take_append_drop _ _).symm,
            fun slash => free (List.mem_of_mem_take slash), (ih later).mpr ⟨?_, ?_, ?_⟩⟩
          · exact fun slash => free (List.mem_of_mem_drop slash)
          all_goals rw [List.length_drop]; omega
      · have star : '*' ∉ '?' :: source ↔ '*' ∉ source := by simp
        rw [matches_single_iff (by decide), List.count_cons_self, star]
        constructor
        · rintro ⟨c, rest, rfl, letter, layout⟩
          obtain ⟨restFree, long, whole⟩ := (ih later).mp layout
          refine ⟨List.not_mem_cons_of_ne_of_not_mem (Ne.symm letter) restFree,
            Nat.succ_le_succ long, fun noStar => congrArg Nat.succ (whole noStar)⟩
        · rintro ⟨free, long, whole⟩
          cases name with
          | nil => exact absurd long (Nat.not_succ_le_zero _)
          | cons c rest =>
              refine ⟨c, rest, rfl, (List.ne_of_not_mem_cons free).symm, (ih later).mpr
                ⟨List.not_mem_of_not_mem_cons free, Nat.le_of_succ_le_succ long, ?_⟩⟩
              exact fun noStar => Nat.succ.inj (whole noStar)

/-- A wildcard for two names without a common letter is made of stars and `?`. -/
theorem star_or_any_of_matches (first : Matches source ['a']) (second : Matches source ['b']) :
    ∀ c ∈ source, c = '*' ∨ c = '?' := by
  intro c inside
  by_contra letter
  obtain ⟨notStar, notAny⟩ := not_or.mp letter
  have isA := List.mem_singleton.mp (mem_of_matches first inside notStar notAny)
  have isB := List.mem_singleton.mp (mem_of_matches second inside notStar notAny)
  exact absurd (isA.symm.trans isB) (by decide)

/-- Names of two lengths need a star. -/
theorem star_mem_of_matches {other : Text} (only : ∀ c ∈ source, c = '*' ∨ c = '?')
    (first : Matches source name) (second : Matches source other)
    (lengths : name.length ≠ other.length) : '*' ∈ source := by
  by_contra noStar
  have left := ((matches_iff_length only).mp first).2.2 noStar
  have right := ((matches_iff_length only).mp second).2.2 noStar
  exact lengths (left.trans right.symm)

theorem acceptsAll_of_star (star : '*' ∈ w.source) (only : ∀ c ∈ w.source, c = '*' ∨ c = '?')
    (noAny : w.source.count '?' = 0) : w.acceptsAll = true := by
  refine acceptsAll_iff_stars.mpr ⟨List.ne_nil_of_mem star, fun c inside => ?_⟩
  refine (only c inside).resolve_right ?_
  rintro rfl
  exact List.count_eq_zero.mp noAny inside

/-- The test for stars alone tells which wildcards accept every name. -/
theorem acceptsAll_iff_accepts (w : Wildcard) :
    w.acceptsAll = true ↔ ∀ name, '/' ∉ name → w.accepts name = true := by
  constructor
  · intro all name free
    obtain ⟨ne, stars⟩ := acceptsAll_iff_stars.mp all
    rw [accepts_iff_matches, matches_iff_length fun c inside => .inl (stars c inside)]
    have noAny : w.source.count '?' = 0 :=
      List.count_eq_zero.mpr fun any => absurd (stars '?' any) (by decide)
    obtain ⟨c, inside⟩ := List.exists_mem_of_ne_nil _ ne
    refine ⟨free, noAny ▸ Nat.zero_le _, fun noStar => ?_⟩
    exact absurd (stars c inside ▸ inside) noStar
  · simp only [accepts_iff_matches]
    intro every
    have empty := every [] List.not_mem_nil
    have single := every ['a'] (by decide)
    have only := star_or_any_of_matches single (every ['b'] (by decide))
    have star := star_mem_of_matches only empty single (by decide)
    exact acceptsAll_of_star star only (Nat.le_zero.mp ((matches_iff_length only).mp empty).2.1)

/-- A wildcard of stars and one `?`, for every name but the empty one. -/
structure AsksForOne (w : Wildcard) : Prop where
  star : '*' ∈ w.source
  only : ∀ c ∈ w.source, c = '*' ∨ c = '?'
  single : w.source.count '?' = 1

/-- Entries have names that are not empty, and among these one `?` keeps out none. -/
theorem accepts_entryNames_iff (w : Wildcard) :
    (∀ name, IsEntryName name → w.accepts name = true) ↔ w.acceptsAll = true ∨ w.AsksForOne := by
  constructor
  · simp only [accepts_iff_matches]
    intro every
    have single := every ['a'] (by decide)
    have only := star_or_any_of_matches single (every ['b'] (by decide))
    have star := star_mem_of_matches only single (every ['a', 'a'] (by decide)) (by decide)
    rcases Nat.le_one_iff_eq_zero_or_eq_one.mp ((matches_iff_length only).mp single).2.1 with
      noAny | one
    · exact .inl (acceptsAll_of_star star only noAny)
    · exact .inr ⟨star, only, one⟩
  · rintro (all | asks) name named
    · exact w.acceptsAll_iff_accepts.mp all name named.no_slash
    · have long := List.length_pos_iff.mpr named.ne_nil
      rw [accepts_iff_matches, matches_iff_length asks.only]
      exact ⟨named.no_slash, asks.single ▸ long, fun noStar => absurd asks.star noStar⟩

end Wildcard

namespace NameMatcher

/-- Does the matcher miss the empty name and no other? -/
def AsksForOne : NameMatcher → Prop
  | .literal _ => False
  | .wildcard w => w.AsksForOne

theorem exists_not_accepts_literal (expected : Text) :
    ∃ name, IsEntryName name ∧ (literal expected).accepts name = false := by
  by_cases isA : expected = ['a']
  · exact ⟨['b'], by decide, by rw [isA]; rfl⟩
  · exact ⟨['a'], by decide, beq_eq_false_iff_ne.mpr isA⟩

theorem acceptsAll_iff_accepts (m : NameMatcher) :
    m.acceptsAll = true ↔ ∀ name, '/' ∉ name → m.accepts name = true := by
  cases m with
  | wildcard w => exact w.acceptsAll_iff_accepts
  | literal expected =>
      obtain ⟨name, named, refused⟩ := exists_not_accepts_literal expected
      refine iff_of_false Bool.false_ne_true fun every => ?_
      exact Bool.false_ne_true (refused.symm.trans (every name named.no_slash))

theorem accepts_entryNames_iff (m : NameMatcher) :
    (∀ name, IsEntryName name → m.accepts name = true) ↔ m.acceptsAll = true ∨ m.AsksForOne := by
  cases m with
  | wildcard w => exact w.accepts_entryNames_iff
  | literal expected =>
      obtain ⟨name, named, refused⟩ := exists_not_accepts_literal expected
      refine iff_of_false (fun every => ?_) (fun either => either.elim Bool.false_ne_true id)
      exact Bool.false_ne_true (refused.symm.trans (every name named))

end NameMatcher

namespace Pattern

/--
The test for stars alone says exactly which name matchers, and which wildcards, accept every
text without a slash, the empty one included. So a pattern covers a directory exactly when it
accepts every such text as a name directly inside it. It accepts all that can really be named
there when it covers the directory, and also when its name part is stars with a single `?`.
-/
theorem coversDirectory_exact :
    (∀ text : Text, ((NameMatcher.ofText text).acceptsAll = true ↔
      ∀ name, '/' ∉ name → (NameMatcher.ofText text).accepts name = true) ∧
      ((∀ name, IsEntryName name → (NameMatcher.ofText text).accepts name = true) ↔
        (NameMatcher.ofText text).acceptsAll = true ∨ (NameMatcher.ofText text).AsksForOne)) ∧
    (∀ w : Wildcard, (w.acceptsAll = true ↔ ∀ name, '/' ∉ name → w.accepts name = true) ∧
      ((∀ name, IsEntryName name → w.accepts name = true) ↔
        w.acceptsAll = true ∨ w.AsksForOne)) ∧
    ∀ (p : Pattern) (directory : List Text),
      (p.coversDirectory directory = true ↔
        ∀ name, '/' ∉ name → p.acceptsEntry directory name = true) ∧
      ((∀ name, IsEntryName name → p.acceptsEntry directory name = true) ↔
        p.coversDirectory directory = true ∨
          p.directory.acceptsInside directory = true ∧ p.name.AsksForOne) := by
  refine ⟨fun text => ⟨(NameMatcher.ofText text).acceptsAll_iff_accepts,
    (NameMatcher.ofText text).accepts_entryNames_iff⟩,
    fun w => ⟨w.acceptsAll_iff_accepts, w.accepts_entryNames_iff⟩, fun p directory => ?_⟩
  cases inside : p.directory.acceptsInside directory with
  | false =>
      have refused (name : Text) : p.acceptsEntry directory name = false := by
        rw [acceptsEntry, inside, Bool.false_and]
      have uncovered : p.coversDirectory directory = false := by
        rw [coversDirectory, inside, Bool.and_false]
      simp only [refused, uncovered]
      refine ⟨iff_of_false Bool.false_ne_true fun every => ?_, iff_of_false (fun every => ?_) ?_⟩
      · exact Bool.false_ne_true (every [] List.not_mem_nil)
      · exact Bool.false_ne_true (every ['a'] (by decide))
      · rintro (covers | ⟨reached, _⟩)
        · exact Bool.false_ne_true covers
        · exact Bool.false_ne_true reached
  | true =>
      have accepted (name : Text) : p.acceptsEntry directory name = p.name.accepts name := by
        rw [acceptsEntry, inside, Bool.true_and]
      have covered : p.coversDirectory directory = p.name.acceptsAll := by
        rw [coversDirectory, inside, Bool.and_true]
      simp only [accepted, covered, true_and]
      exact ⟨p.name.acceptsAll_iff_accepts, p.name.accepts_entryNames_iff⟩

/-- The pattern `build/?*` takes every entry of `build`, yet does not cover the directory. -/
theorem entries_build_taken_uncovered :
    (NameMatcher.ofText "?*").acceptsAll = false ∧
    (∀ name, IsEntryName name → (NameMatcher.ofText "?*").accepts name = true) ∧
    compile "build/?*" = .ok (ofText "build/?*") ∧
    (ofText "build/?*").coversDirectory ["build"] = false ∧
    ∀ name, IsEntryName name → (ofText "build/?*").acceptsEntry ["build"] name = true := by
  have asks : Wildcard.AsksForOne ⟨['?', '*']⟩ := ⟨by simp, by simp, rfl⟩
  have every := (Wildcard.accepts_entryNames_iff _).mpr (.inr asks)
  have name : (ofText "build/?*").name = .wildcard ⟨"?*"⟩ := by decide +kernel
  have inside : (ofText "build/?*").directory.acceptsInside ["build"] = true := by decide +kernel
  refine ⟨rfl, every, by decide +kernel, by decide +kernel, fun entry named => ?_⟩
  rw [acceptsEntry, inside, name, Bool.true_and]
  exact every entry named

end Pattern

end FileSelect
