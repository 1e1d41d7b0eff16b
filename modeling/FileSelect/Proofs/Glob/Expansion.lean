import FileSelect.Glob.Clean
import FileSelect.Proofs.Text.Segments

/-!
# Runs of stars in a segment

A segment that holds runs of two or more stars is expanded to several segments: each run
becomes a segment `**`, and the pieces of text around it keep a star where they were cut
off. Isolating the runs of a text expands each of its segments on its own.
-/

namespace FileSelect.Clean

/-- Writes every segment with a slash in front. -/
def slashed (parts : List Text) : Text := parts.flatMap fun part => '/' :: part

/-- Gives runs of two or more stars in a segment a segment of their own. `atStart` says
that nothing of the segment has been written yet. -/
def expand (atStart : Bool) : Text → List Text
  | '*' :: '*' :: rest =>
      let after := rest.dropWhile (· == '*')
      (if atStart then [] else [['*']]) ++ Token.recursiveText ::
        (if after = [] then [] else (expand false after).modifyHead ('*' :: ·))
  | c :: rest => (expand false rest).modifyHead (c :: ·)
  | [] => [[]]
termination_by t => t.length
decreasing_by
  · have := length_dropWhile_le (· == '*') rest
    simp only [List.length_cons]
    omega
  · simp

/-! ## Writing segments -/

@[simp] theorem slashed_nil : slashed [] = [] := rfl

@[simp] theorem slashed_cons (part : Text) (rest : List Text) :
    slashed (part :: rest) = '/' :: (part ++ slashed rest) := rfl

@[simp] theorem slashed_append (front back : List Text) :
    slashed (front ++ back) = slashed front ++ slashed back := List.flatMap_append

theorem slashed_eq_slash_cons {parts : List Text} (ne : parts ≠ []) :
    slashed parts = '/' :: joinSegments parts := by
  induction parts with
  | nil => exact absurd rfl ne
  | cons part rest ih =>
      cases rest with
      | nil => simp [joinSegments, Text.join]
      | cons next rest =>
          rw [slashed_cons, ih (List.cons_ne_nil next rest), joinSegments_cons_cons]

/-! ## Isolating is expanding -/

theorem expand_ne_nil (atStart : Bool) (word : Text) : expand atStart word ≠ [] := by
  fun_induction expand atStart word with
  | case1 atStart rest after ih => simp
  | case2 atStart c rest other ih =>
      intro empty
      exact ih (List.modifyHead_eq_nil_iff.mp empty)
  | case3 atStart => exact List.cons_ne_nil [] []

theorem slashed_modifyHead_cons {parts : List Text} (ne : parts ≠ []) (c : Char) {t : Text}
    (written : slashed parts = '/' :: t) : slashed (parts.modifyHead (c :: ·)) = '/' :: c :: t := by
  cases parts with
  | nil => exact absurd rfl ne
  | cons part rest =>
      rw [slashed_cons] at written
      rw [List.modifyHead_cons, slashed_cons, List.cons_append, (List.cons.inj written).2]

theorem behindRun_letter {c : Char} (letter : c ≠ '/') (t : Text) :
    behindRun (c :: t) = ['/', '*'] := by
  rw [behindRun]
  · intro impossible
    cases impossible
  · intro rest eq
    exact letter (List.cons.inj eq).1

/-- Isolating the runs of a word writes its expansion. -/
theorem slashed_expand (atStart : Bool) {word : Text} (free : '/' ∉ word) :
    slashed (expand atStart word) = '/' :: isolate atStart word := by
  fun_induction expand atStart word with
  | case1 atStart rest after ih =>
      have afterFree : '/' ∉ after := fun slash =>
        free (List.mem_cons_of_mem _ (List.mem_cons_of_mem _
          ((List.dropWhile_sublist _).subset slash)))
      have behind : slashed (if after = [] then []
          else (expand false after).modifyHead ('*' :: ·)) =
          behindRun after ++ isolate false after := by
        cases afterEq : after with
        | nil => rw [if_pos rfl, behindRun, isolate]; rfl
        | cons c t =>
            rw [afterEq] at afterFree ih
            rw [if_neg (List.cons_ne_nil c t),
              slashed_modifyHead_cons (expand_ne_nil false _) '*' (ih afterFree),
              behindRun_letter fun slash => afterFree (slash ▸ List.mem_cons_self)]
            rfl
      rw [isolate, slashed_append, slashed_cons, behind]
      cases atStart <;> rfl
  | case2 atStart c rest other ih =>
      have letter : (c == '/') = false := by
        rw [beq_eq_false_iff_ne]
        exact fun slash => free (slash ▸ List.mem_cons_self)
      rw [slashed_modifyHead_cons (expand_ne_nil false rest) c
        (ih fun h => free (List.mem_cons_of_mem c h)), isolate, letter]
      exact other
  | case3 atStart => rw [isolate]; rfl

theorem isolate_slash_cons (atStart : Bool) (t : Text) :
    isolate atStart ('/' :: t) = '/' :: isolate true t := by
  rw [isolate]
  · rfl
  · intro rest impossible
    cases impossible

theorem dropWhile_star_append_slash (word t : Text) :
    (word ++ '/' :: t).dropWhile (· == '*') = word.dropWhile (· == '*') ++ '/' :: t := by
  rw [List.dropWhile_append]
  split
  case isTrue empty =>
    rw [List.isEmpty_iff.mp empty]
    rfl
  case isFalse => rfl

theorem behindRun_append_slash {word : Text} (free : '/' ∉ word) (t : Text) :
    behindRun (word ++ '/' :: t) = behindRun word := by
  cases word with
  | nil => rfl
  | cons c word =>
      have letter : c ≠ '/' := fun slash => free (slash ▸ List.mem_cons_self)
      rw [List.cons_append, behindRun_letter letter, behindRun_letter letter]

/-- The runs of a word are isolated without regard to what follows the next slash. -/
theorem isolate_append_slash (atStart : Bool) {word : Text} (free : '/' ∉ word) (t : Text) :
    isolate atStart (word ++ '/' :: t) = isolate atStart word ++ '/' :: isolate true t := by
  fun_induction isolate atStart word with
  | case1 atStart rest after ih =>
      have afterFree : '/' ∉ after := fun slash =>
        free (List.mem_cons_of_mem _ (List.mem_cons_of_mem _
          ((List.dropWhile_sublist _).subset slash)))
      rw [List.cons_append, List.cons_append, isolate, dropWhile_star_append_slash,
        behindRun_append_slash afterFree, ih afterFree]
      simp only [List.append_assoc]
  | case2 atStart c rest other ih =>
      rw [List.cons_append, isolate, ih fun h => free (List.mem_cons_of_mem c h)]
      · rfl
      · intro below star eq
        cases rest with
        | nil => cases eq
        | cons d rest =>
            injection eq with second _
            exact other rest star (by rw [second])
  | case3 atStart => exact isolate_slash_cons atStart t

theorem isolate_append_slashed (atStart : Bool) {word : Text} (free : '/' ∉ word)
    (parts : List Text) :
    isolate atStart (word ++ slashed parts) =
      isolate atStart word ++ isolate false (slashed parts) := by
  cases parts with
  | nil => rw [slashed_nil, List.append_nil, isolate.eq_3, List.append_nil]
  | cons part rest =>
      rw [slashed_cons, isolate_append_slash atStart free, isolate_slash_cons]

theorem isolate_slashed (atStart : Bool) {parts : List Text} (free : ∀ part ∈ parts, '/' ∉ part) :
    isolate atStart (slashed parts) = slashed (parts.flatMap (expand true)) := by
  induction parts generalizing atStart with
  | nil => rw [slashed_nil, isolate]; rfl
  | cons part rest ih =>
      have partFree := free part List.mem_cons_self
      rw [slashed_cons, isolate_slash_cons, isolate_append_slashed true partFree,
        ih false fun p h => free p (List.mem_cons_of_mem part h), List.flatMap_cons,
        slashed_append, slashed_expand true partFree]
      rfl

/-! ## The shape of an expansion -/

/-- No two stars stand side by side. -/
def HasNoRun (t : Text) : Prop := ¬ ['*', '*'] <:+: t

instance (t : Text) : Decidable (HasNoRun t) := inferInstanceAs (Decidable (¬ _))

/-- A star in the place of a text that was cut off, if there was any. -/
def starFor (t : Text) : Text := if t = [] then [] else ['*']

theorem starFor_of_ne_nil {t : Text} (ne : t ≠ []) : starFor t = ['*'] := if_neg ne

theorem starFor_eq_nil_iff {t : Text} : starFor t = [] ↔ t = [] := by
  rw [starFor]
  split
  case isTrue empty => exact iff_of_true rfl empty
  case isFalse ne => exact iff_of_false (List.cons_ne_nil '*' []) ne

theorem eq_star_of_mem_starFor {t : Text} {c : Char} (h : c ∈ starFor t) : c = '*' := by
  rw [starFor] at h
  split at h
  · cases h
  · exact List.mem_singleton.mp h

/-- The first piece of a word: what stands before the first run. -/
def IsFirstPiece (word piece : Text) : Prop :=
  HasNoRun piece ∧ ∃ middle behind, word = middle ++ behind ∧
    (behind = [] ∨ behind.head? = some '*') ∧ piece = middle ++ starFor behind

/-- A later piece of a word: a run, or what stands between two runs or at the end. -/
def IsLaterPiece (word piece : Text) : Prop :=
  piece = Token.recursiveText ∨ HasNoRun piece ∧ ∃ front middle behind, front ≠ [] ∧
    word = front ++ middle ++ behind ∧ piece = '*' :: middle ++ starFor behind

/-- A piece of a word: a run, or a text with a star on each side where it was cut off. -/
def IsPiece (word piece : Text) : Prop :=
  piece = Token.recursiveText ∨ HasNoRun piece ∧ ∃ front middle behind,
    word = front ++ middle ++ behind ∧ piece = starFor front ++ middle ++ starFor behind

theorem hasNoRun_cons {c : Char} {t : Text} (calm : HasNoRun t)
    (apart : c = '*' → t.head? ≠ some '*') : HasNoRun (c :: t) := by
  intro run
  rcases List.infix_cons_iff.mp run with ⟨rest, eq⟩ | inside
  · injection eq with star eq
    exact apart star.symm (by rw [← eq]; rfl)
  · exact calm inside

theorem hasNoRun_of_notMem {t : Text} (free : '*' ∉ t) : HasNoRun t := fun run =>
  free (run.subset List.mem_cons_self)

theorem hasNoRun_tail {c : Char} {t : Text} (calm : HasNoRun (c :: t)) : HasNoRun t :=
  fun run => calm (List.infix_cons run)

theorem head?_ne_star {t : Text} (calm : HasNoRun ('*' :: t)) : t.head? ≠ some '*' := by
  intro star
  obtain ⟨below, rfl⟩ := List.head?_eq_some_iff.mp star
  exact calm (List.prefix_append ['*', '*'] below).isInfix

theorem getLast?_tail_ne {c : Char} {t : Text} (ends : (c :: t).getLast? ≠ some '*') :
    t.getLast? ≠ some '*' := by
  intro star
  rw [List.getLast?_cons, star] at ends
  exact ends rfl

theorem getLast?_cons_ne {c : Char} {t : Text} (ends : t.getLast? ≠ some '*')
    (apart : c = '*' → t ≠ []) : (c :: t).getLast? ≠ some '*' := by
  cases t with
  | nil => simpa using apart
  | cons d t => rwa [List.getLast?_cons_cons]

theorem IsFirstPiece.head?_eq_star {word piece : Text} (first : IsFirstPiece word piece)
    (star : piece.head? = some '*') : word.head? = some '*' := by
  obtain ⟨_, middle, behind, rfl, cut, rfl⟩ := first
  cases middle with
  | nil =>
      rcases cut with rfl | run
      · cases star
      · exact run
  | cons c middle => exact star

theorem IsFirstPiece.cons {word piece : Text} (first : IsFirstPiece word piece) {c : Char}
    (apart : c = '*' → word.head? ≠ some '*') : IsFirstPiece (c :: word) (c :: piece) := by
  refine ⟨hasNoRun_cons first.1 fun star starred => apart star (first.head?_eq_star starred), ?_⟩
  obtain ⟨_, middle, behind, rfl, cut, rfl⟩ := first
  exact ⟨c :: middle, behind, rfl, cut, rfl⟩

/-- Behind a run the first piece of the rest of the word is a later piece. -/
theorem IsFirstPiece.later {word piece front : Text} (first : IsFirstPiece word piece)
    (ne : front ≠ []) (apart : word.head? ≠ some '*') :
    IsLaterPiece (front ++ word) ('*' :: piece) := by
  refine Or.inr ⟨hasNoRun_cons first.1 fun _ starred => apart (first.head?_eq_star starred), ?_⟩
  obtain ⟨_, middle, behind, rfl, _, rfl⟩ := first
  exact ⟨front, middle, behind, ne, (List.append_assoc front middle behind).symm, rfl⟩

theorem IsLaterPiece.append {word piece : Text} (later : IsLaterPiece word piece) (front : Text) :
    IsLaterPiece (front ++ word) piece := by
  rcases later with run | ⟨calm, above, middle, behind, ne, rfl, rfl⟩
  · exact Or.inl run
  · refine Or.inr ⟨calm, front ++ above, middle, behind, ?_, ?_, rfl⟩
    · exact List.append_ne_nil_of_right_ne_nil front ne
    · simp only [List.append_assoc]

theorem expand_shape (atStart : Bool) (word : Text) :
    ∃ first later, expand atStart word = first :: later ∧
      (atStart = true ∧ first = Token.recursiveText ∨ IsFirstPiece word first) ∧
      ∀ piece ∈ later, IsLaterPiece word piece := by
  fun_induction expand atStart word with
  | case1 atStart rest after ih =>
      let run := '*' :: '*' :: rest.takeWhile (· == '*')
      have whole : '*' :: '*' :: rest = run ++ after := by
        rw [List.cons_append, List.cons_append, List.takeWhile_append_dropWhile]
      have apart : after.head? ≠ some '*' := by
        intro star
        have stopped := List.head?_dropWhile_not (· == '*') rest
        rw [star] at stopped
        cases stopped
      have behind : ∀ piece ∈ (if after = [] then [] else
          (expand false after).modifyHead ('*' :: ·)), IsLaterPiece ('*' :: '*' :: rest) piece := by
        intro piece h
        split at h
        · cases h
        · obtain ⟨first, later, eq, opening, others⟩ := ih
          rw [eq, List.modifyHead_cons] at h
          rw [whole]
          rcases List.mem_cons.mp h with rfl | h
          · have first := opening.resolve_left fun h => Bool.false_ne_true h.1
            exact first.later (List.cons_ne_nil _ _) apart
          · exact (others piece h).append run
      cases atStart with
      | true => exact ⟨_, _, rfl, Or.inl ⟨rfl, rfl⟩, behind⟩
      | false =>
          refine ⟨['*'], _, rfl, Or.inr ⟨by decide, [], _, rfl, Or.inr rfl, rfl⟩, ?_⟩
          exact List.forall_mem_cons.mpr ⟨Or.inl rfl, behind⟩
  | case2 atStart c rest other ih =>
      obtain ⟨first, later, eq, opening, others⟩ := ih
      have firstPiece := opening.resolve_left fun h => Bool.false_ne_true h.1
      refine ⟨c :: first, later, by rw [eq]; rfl, Or.inr (firstPiece.cons ?_), ?_⟩
      · intro star starred
        obtain ⟨below, eq⟩ := List.head?_eq_some_iff.mp starred
        exact other below star eq
      · intro piece h
        exact (others piece h).append [c]
  | case3 atStart =>
      exact ⟨[], [], rfl, Or.inr ⟨by decide, [], [], rfl, Or.inl rfl, rfl⟩, List.forall_mem_nil _⟩

theorem isPiece_of_mem_expand {word piece : Text} (h : piece ∈ expand true word) :
    IsPiece word piece := by
  obtain ⟨first, later, eq, opening, others⟩ := expand_shape true word
  rw [eq] at h
  rcases List.mem_cons.mp h with rfl | h
  · rcases opening with ⟨_, run⟩ | ⟨calm, middle, behind, rfl, _, rfl⟩
    · exact Or.inl run
    · exact Or.inr ⟨calm, [], middle, behind, rfl, rfl⟩
  · rcases others piece h with run | ⟨calm, front, middle, behind, ne, rfl, rfl⟩
    · exact Or.inl run
    · exact Or.inr ⟨calm, front, middle, behind, rfl, by rw [starFor_of_ne_nil ne]; rfl⟩

theorem expand_of_hasNoRun (atStart : Bool) {word : Text} (calm : HasNoRun word) :
    expand atStart word = [word] := by
  fun_induction expand atStart word with
  | case1 atStart rest after ih => exact absurd ⟨[], rest, rfl⟩ calm
  | case2 atStart c rest other ih =>
      rw [ih (hasNoRun_tail calm)]
      rfl
  | case3 atStart => rfl

theorem expand_recursiveText : expand true Token.recursiveText = [Token.recursiveText] := by
  rw [Token.recursiveText, expand]
  rfl

/-! ## What a piece keeps of its word -/

namespace IsPiece

variable {word piece : Text}

theorem no_slash (isPiece : IsPiece word piece) (free : '/' ∉ word) : '/' ∉ piece := by
  rcases isPiece with rfl | ⟨_, front, middle, behind, rfl, rfl⟩
  · decide
  · simp only [List.mem_append, not_or] at free ⊢
    refine ⟨⟨fun h => ?_, free.1.2⟩, fun h => ?_⟩
    · exact absurd (eq_star_of_mem_starFor h) (by decide)
    · exact absurd (eq_star_of_mem_starFor h) (by decide)

theorem ne_nil (isPiece : IsPiece word piece) (ne : word ≠ []) : piece ≠ [] := by
  rcases isPiece with rfl | ⟨_, front, middle, behind, rfl, rfl⟩
  · exact List.cons_ne_nil _ _
  · simp only [ne_eq, List.append_eq_nil_iff, starFor_eq_nil_iff] at ne ⊢
    exact ne

/-- A piece begins with a star or as its word does. -/
theorem head?_eq (isPiece : IsPiece word piece) {c : Char} (first : piece.head? = some c) :
    c = '*' ∨ word.head? = some c := by
  rcases isPiece with rfl | ⟨_, front, middle, behind, rfl, rfl⟩
  · exact Or.inl (Option.some.inj first).symm
  · cases front with
    | cons d front => exact Or.inl (Option.some.inj first).symm
    | nil =>
        cases middle with
        | cons d middle => exact Or.inr first
        | nil => exact Or.inl (eq_star_of_mem_starFor (List.mem_of_head? first))

theorem getLast?_eq (isPiece : IsPiece word piece) {c : Char} (last : piece.getLast? = some c) :
    c = '*' ∨ word.getLast? = some c := by
  rcases isPiece with rfl | ⟨_, front, middle, behind, rfl, rfl⟩
  · exact Or.inl (Option.some.inj last).symm
  · by_cases ne : behind = []
    · subst ne
      rcases List.eq_nil_or_concat middle with rfl | ⟨middle, d, rfl⟩
      · simp only [List.append_nil, starFor, if_pos] at last
        exact Or.inl (eq_star_of_mem_starFor (List.mem_of_getLast? last))
      · have ended : some d = some c := by simpa [starFor] using last
        exact Or.inr (by rw [← ended]; simp)
    · rw [starFor_of_ne_nil ne, List.getLast?_concat] at last
      exact Or.inl (Option.some.inj last).symm

theorem trim_eq (isPiece : IsPiece word piece) (trimmed : Text.trim word = word) :
    Text.trim piece = piece := by
  obtain ⟨first, last⟩ := Text.strip_eq_self_iff.mp trimmed
  refine Text.strip_eq_self_iff.mpr ⟨fun c h => ?_, fun c h => ?_⟩
  · rcases isPiece.head?_eq h with rfl | h
    · rfl
    · exact first c h
  · rcases isPiece.getLast?_eq h with rfl | h
    · rfl
    · exact last c h

/-- A lone dot is cut out of nothing but a lone dot. -/
theorem eq_dot (isPiece : IsPiece word ['.']) : word = ['.'] := by
  rcases isPiece with impossible | ⟨_, front, middle, behind, rfl, eq⟩
  · cases impossible
  · have noStar : ∀ t, (∀ c ∈ starFor t, c ∈ ['.']) → t = [] := by
      intro t inside
      by_contra ne
      rw [starFor_of_ne_nil ne] at inside
      exact absurd (inside '*' List.mem_cons_self) (by decide)
    have frontEmpty := noStar front fun c h => by
      rw [eq]
      exact List.mem_append_left _ (List.mem_append_left _ h)
    have behindEmpty := noStar behind fun c h => by
      rw [eq]
      exact List.mem_append_right _ h
    subst frontEmpty
    subst behindEmpty
    simpa [starFor] using eq.symm

end IsPiece

end FileSelect.Clean
