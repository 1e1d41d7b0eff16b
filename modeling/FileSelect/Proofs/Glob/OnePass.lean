import FileSelect.Proofs.Glob.NormalForm

/-!
# Cleaning in one pass

A text is cut in exactly one way at its longest runs of two or more stars. Cleaning drops the
parts of a pattern that say nothing, replaces every other part by the segments that its cut
gives, completes the list and merges neighbouring `**`. It has to see every part only once.
-/

namespace FileSelect

namespace Clean

/-- A text cut at runs of stars. -/
inductive Cut
  | whole (t : Text)
  /-- A run of `count` stars stands between `front` and the rest. -/
  | run (front : Text) (count : Nat) (rest : Cut)
deriving DecidableEq, Repr

namespace Cut

/-- The text that is cut. -/
def text : Cut → Text
  | whole t => t
  | run front count rest => front ++ (List.replicate count '*' ++ rest.text)

/-- Every run has two stars or more and no star beside it, and no run is left uncut. -/
def IsMaximal : Cut → Prop
  | whole t => HasNoRun t
  | run front count rest =>
      HasNoRun front ∧ front.getLast? ≠ some '*' ∧ 2 ≤ count ∧
        rest.text.head? ≠ some '*' ∧ rest.IsMaximal

/-- Puts a character in front. A star may make a run or lengthen one. -/
def cons : Char → Cut → Cut
  | '*', whole ('*' :: t) => run [] 2 (whole t)
  | '*', run [] count rest => run [] (count + 1) rest
  | '*', run ('*' :: front) count rest => run [] 2 (run front count rest)
  | c, whole t => whole (c :: t)
  | c, run front count rest => run (c :: front) count rest

def ofText (t : Text) : Cut := t.foldr cons (whole [])

/-- The segments behind a run. A text keeps a star on every side where it was cut off. -/
def laterParts : Cut → List Text
  | whole t => if t = [] then [] else ['*' :: t]
  | run front _ rest =>
      (if front = [] then [] else ['*' :: (front ++ ['*'])]) ++
        Token.recursiveText :: rest.laterParts

/-- The segments that a cut text becomes. -/
def parts : Cut → List Text
  | whole t => [t]
  | run front _ rest =>
      (if front = [] then [] else [front ++ ['*']]) ++ Token.recursiveText :: rest.laterParts

end Cut

/-- Drops what says nothing from all parts but the last, for which `*` stands if it is empty. -/
def keptParts : List Text → List Text
  | [] => []
  | [last] => if last = [] then [['*']] else [last]
  | part :: next :: rest =>
      if part = [] ∨ part = ['.'] then keptParts (next :: rest)
      else part :: keptParts (next :: rest)

/-- A list that ends in `**` is followed by the entries inside. -/
def closedParts (parts : List Text) : List Text :=
  if parts.getLast? = some Token.recursiveText then parts ++ [['*']] else parts

/-- The segments of a pattern with the given parts. -/
def onePass (parts : List Text) : List Text :=
  mergeParts (closedParts ((keptParts parts).flatMap fun part => (Cut.ofText part).parts))

/-! ## Longest runs -/

namespace Cut

variable {t front : Text} {c : Char} {count : Nat} {k rest : Cut}

@[simp] theorem text_cons (c : Char) (k : Cut) : (cons c k).text = c :: k.text := by
  fun_cases cons c k <;> simp [text, List.replicate_succ]

@[simp] theorem text_ofText (t : Text) : (ofText t).text = t := by
  induction t with
  | nil => rfl
  | cons c t ih => exact (text_cons c _).trans (congrArg (c :: ·) ih)

theorem head?_text_run_of_ne_nil (ne : front ≠ []) :
    (run front count rest).text.head? = front.head? := by
  cases front with
  | nil => exact absurd rfl ne
  | cons c front => rfl

/-- A character in front leaves the runs of the rest as long as they are. -/
theorem IsMaximal.cons (maximal : k.IsMaximal) (c : Char) : (cons c k).IsMaximal := by
  fun_cases Cut.cons c k with
  | case1 t =>
      exact ⟨by decide, by decide, Nat.le_refl 2, head?_ne_star maximal, hasNoRun_tail maximal⟩
  | case2 count rest =>
      obtain ⟨calm, ends, two, apart, inner⟩ := maximal
      exact ⟨calm, ends, Nat.le_succ_of_le two, apart, inner⟩
  | case3 front count rest =>
      obtain ⟨calm, ends, two, apart, inner⟩ := maximal
      have ne : front ≠ [] := by
        rintro rfl
        exact ends rfl
      refine ⟨by decide, by decide, Nat.le_refl 2, ?_, hasNoRun_tail calm, getLast?_tail_ne ends,
        two, apart, inner⟩
      rw [head?_text_run_of_ne_nil ne]
      exact head?_ne_star calm
  | case4 c t other =>
      refine hasNoRun_cons maximal fun star starred => ?_
      obtain ⟨below, rfl⟩ := List.head?_eq_some_iff.mp starred
      exact other below star rfl
  | case5 c front count rest notEmpty notStarred =>
      obtain ⟨calm, ends, two, apart, inner⟩ := maximal
      refine ⟨hasNoRun_cons calm fun star starred => ?_, getLast?_cons_ne ends fun star empty => ?_,
        two, apart, inner⟩
      · obtain ⟨below, rfl⟩ := List.head?_eq_some_iff.mp starred
        exact notStarred below star rfl
      · exact notEmpty star empty

theorem isMaximal_ofText (t : Text) : (ofText t).IsMaximal := by
  induction t with
  | nil => exact (by decide : HasNoRun [])
  | cons c t ih => exact ih.cons c

theorem cons_whole (apart : c = '*' → t.head? ≠ some '*') : cons c (whole t) = whole (c :: t) := by
  rw [cons.eq_4]
  rintro below star rfl
  exact apart star rfl

theorem cons_run (ne : c = '*' → front ≠ []) (apart : c = '*' → front.head? ≠ some '*') :
    cons c (run front count rest) = run (c :: front) count rest := by
  rw [cons.eq_5]
  · exact ne
  · rintro below star rfl
    exact apart star rfl

theorem ofText_of_hasNoRun (calm : HasNoRun t) : ofText t = whole t := by
  induction t with
  | nil => rfl
  | cons c t ih =>
      rw [ofText, List.foldr_cons, ← ofText, ih (hasNoRun_tail calm), cons_whole]
      rintro rfl
      exact head?_ne_star calm

/-- Two stars in front of a cut that begins with no star make a run. -/
theorem cons_cons_star (maximal : k.IsMaximal) (apart : k.text.head? ≠ some '*') :
    cons '*' (cons '*' k) = run [] 2 k := by
  cases k with
  | whole t =>
      rw [text] at apart
      rw [cons_whole fun _ => apart]
      rfl
  | run front count rest =>
      obtain ⟨_, _, two, _, _⟩ := maximal
      have ne : front ≠ [] := by
        rintro rfl
        obtain ⟨n, rfl⟩ := Nat.exists_eq_add_of_le' (Nat.le_of_succ_le two)
        exact apart rfl
      rw [head?_text_run_of_ne_nil ne] at apart
      rw [cons_run (fun _ => ne) fun _ => apart]
      rfl

theorem ofText_replicate_append (maximal : k.IsMaximal) (apart : k.text.head? ≠ some '*')
    (same : ofText k.text = k) (n : Nat) :
    ofText (List.replicate (n + 2) '*' ++ k.text) = run [] (n + 2) k := by
  induction n with
  | zero =>
      have two : ofText ('*' :: '*' :: k.text) = cons '*' (cons '*' (ofText k.text)) := rfl
      rw [same, cons_cons_star maximal apart] at two
      exact two
  | succ n ih =>
      rw [List.replicate_succ, List.cons_append, ofText, List.foldr_cons, ← ofText, ih]
      rfl

theorem ofText_append_run (calm : HasNoRun front) (ends : front.getLast? ≠ some '*')
    {behind : Text} (same : ofText behind = run [] count rest) :
    ofText (front ++ behind) = run front count rest := by
  induction front with
  | nil => exact same
  | cons c front ih =>
      have step : cons c (run front count rest) = run (c :: front) count rest := by
        refine cons_run ?_ ?_
        · rintro rfl rfl
          exact ends rfl
        · rintro rfl
          exact head?_ne_star calm
      rw [List.cons_append, ofText, List.foldr_cons, ← ofText,
        ih (hasNoRun_tail calm) (getLast?_tail_ne ends), step]

theorem IsMaximal.ofText_text (maximal : k.IsMaximal) : ofText k.text = k := by
  induction k with
  | whole t => exact ofText_of_hasNoRun maximal
  | run front count rest ih =>
      obtain ⟨calm, ends, two, apart, inner⟩ := maximal
      obtain ⟨n, rfl⟩ := Nat.exists_eq_add_of_le' two
      exact ofText_append_run calm ends (ofText_replicate_append inner apart (ih inner) n)

/-- A text is cut at its longest runs in one way. -/
theorem eq_ofText_iff : k = ofText t ↔ k.text = t ∧ k.IsMaximal := by
  constructor
  · rintro rfl
    exact ⟨text_ofText t, isMaximal_ofText t⟩
  · rintro ⟨rfl, maximal⟩
    exact maximal.ofText_text.symm

end Cut

/-! ## Expanding a cut text -/

section Expanding

variable {front behind : Text}

theorem dropWhile_replicate_append (n : Nat) (apart : behind.head? ≠ some '*') :
    (List.replicate n '*' ++ behind).dropWhile (· == '*') = behind := by
  rw [List.dropWhile_append_of_pos fun c star => beq_iff_eq.mpr (List.eq_of_mem_replicate star)]
  cases behind with
  | nil => rfl
  | cons c behind =>
      exact List.dropWhile_cons_of_neg fun star => apart (congrArg some (beq_iff_eq.mp star))

/-- The first run of a text is isolated from what stands around it. -/
theorem expand_append_run (atStart : Bool) (calm : HasNoRun front)
    (ends : front.getLast? ≠ some '*') (n : Nat) (apart : behind.head? ≠ some '*') :
    expand atStart (front ++ (List.replicate (n + 2) '*' ++ behind)) =
      (if front = [] ∧ atStart = true then [] else [front ++ ['*']]) ++ Token.recursiveText ::
        (if behind = [] then [] else (expand false behind).modifyHead ('*' :: ·)) := by
  induction front generalizing atStart with
  | nil =>
      rw [List.nil_append, List.replicate_succ, List.replicate_succ, List.cons_append,
        List.cons_append, expand, dropWhile_replicate_append n apart]
      cases atStart <;> rfl
  | cons c front ih =>
      rw [List.cons_append, expand, ih false (hasNoRun_tail calm) (getLast?_tail_ne ends)]
      · simp
      · rintro below rfl same
        cases front with
        | nil => exact ends rfl
        | cons d front =>
            rw [List.cons_append] at same
            injection same with star
            exact calm ⟨[], front, by rw [star]; rfl⟩

/-- Inside a text, the segments behind a run are what the rest becomes. -/
theorem modifyHead_expand_text {k : Cut} (maximal : k.IsMaximal)
    (apart : k.text.head? ≠ some '*') :
    (if k.text = [] then [] else (expand false k.text).modifyHead ('*' :: ·)) = k.laterParts := by
  induction k with
  | whole t =>
      rw [Cut.text, Cut.laterParts, expand_of_hasNoRun false maximal]
      rfl
  | run front count rest ih =>
      obtain ⟨calm, ends, two, restApart, inner⟩ := maximal
      obtain ⟨n, rfl⟩ := Nat.exists_eq_add_of_le' two
      have ne : front ≠ [] := by
        rintro rfl
        exact apart rfl
      have written : (Cut.run front (n + 2) rest).text ≠ [] := by
        simp [Cut.text, ne]
      rw [if_neg written, Cut.text, expand_append_run false calm ends n restApart,
        ih inner restApart, Cut.laterParts, if_neg ne, if_neg fun h => ne h.1]
      rfl

/-- A segment is expanded at its longest runs. -/
theorem expand_eq_parts (word : Text) : expand true word = (Cut.ofText word).parts := by
  have maximal := Cut.isMaximal_ofText word
  have same := Cut.text_ofText word
  generalize Cut.ofText word = k at maximal same
  subst same
  cases k with
  | whole t => exact expand_of_hasNoRun true maximal
  | run front count rest =>
      obtain ⟨calm, ends, two, apart, inner⟩ := maximal
      obtain ⟨n, rfl⟩ := Nat.exists_eq_add_of_le' two
      rw [Cut.text, expand_append_run true calm ends n apart,
        modifyHead_expand_text inner apart, Cut.parts]
      simp

end Expanding

/-! ## One pass over the parts -/

theorem keptParts_cons {part : Text} {rest : List Text} (ne : rest ≠ []) :
    keptParts (part :: rest) =
      if part = [] ∨ part = ['.'] then keptParts rest else part :: keptParts rest := by
  cases rest with
  | nil => exact absurd rfl ne
  | cons next rest => rw [keptParts]

theorem keptParts_concat (front : List Text) (last : Text) :
    keptParts (front ++ [last]) =
      (front.filter (· ≠ ['.'])).filter (· ≠ []) ++ [if last = [] then ['*'] else last] := by
  induction front with
  | nil => by_cases empty : last = [] <;> simp [keptParts, empty]
  | cons part front ih =>
      rw [List.cons_append, keptParts_cons (List.append_ne_nil_of_right_ne_nil front
        (List.cons_ne_nil last [])), ih]
      by_cases empty : part = []
      · simp [empty]
      · by_cases dot : part = ['.'] <;> simp [empty, dot]

/-- Where the last segment is not empty, completing is closing. -/
theorem completeParts_eq_closedParts {parts : List Text} (ne : parts.getLast? ≠ some []) :
    completeParts parts = closedParts parts := by
  rcases List.eq_nil_or_concat' parts with rfl | ⟨front, last, rfl⟩
  · rfl
  · rw [List.getLast?_concat] at ne
    rw [completeParts_concat, completeLast, closedParts, List.getLast?_concat,
      if_neg fun empty => ne (congrArg some empty)]
    by_cases recursive : last = Token.recursiveText <;> simp [recursive]

theorem getLast?_append_expand_ne (front : List Text) {last : Text} (ne : last ≠ []) :
    (front ++ expand true last).getLast? ≠ some [] := by
  intro ends
  rw [List.getLast?_append_of_ne_nil front (expand_ne_nil true last)] at ends
  exact (isPiece_of_mem_expand (List.mem_of_getLast? ends)).ne_nil ne rfl

/-- Dropping, expanding, completing and merging is one pass. -/
theorem cleanParts_eq_onePass (parts : List Text) : cleanParts parts = onePass parts := by
  rcases List.eq_nil_or_concat' parts with rfl | ⟨front, last, rfl⟩
  · rfl
  · have expanding : expand true = fun word => (Cut.ofText word).parts := funext expand_eq_parts
    rw [cleanParts, onePass, dropInner_concat, dropInner_concat, keptParts_concat, ← expanding,
      List.flatMap_append, List.flatMap_append, List.flatMap_singleton, List.flatMap_singleton]
    generalize ((front.filter (· ≠ ['.'])).filter (· ≠ [])).flatMap (expand true) = opening
    by_cases empty : last = []
    · have nothing : expand true [] = [[]] := expand_of_hasNoRun true (by decide)
      have star : expand true ['*'] = [['*']] := expand_of_hasNoRun true (by decide)
      rw [if_pos empty, empty, nothing, star, completeParts_concat, closedParts,
        List.getLast?_concat]
      rfl
    · rw [if_neg empty, completeParts_eq_closedParts (getLast?_append_expand_ne opening empty)]

end Clean

/-- Cleaning a pattern is one pass over its trimmed parts, each of which is cut at its longest
runs of stars. -/
theorem clean_eq_onePass (pattern : Text) :
    clean pattern = joinSegments (Clean.onePass ((Text.split '/' pattern).map Text.trim)) ∧
      ∀ word k, k = Clean.Cut.ofText word ↔ k.text = word ∧ k.IsMaximal :=
  ⟨by rw [clean_eq_joinSegments, Clean.cleanParts_eq_onePass],
    fun _ _ => Clean.Cut.eq_ofText_iff⟩

example : Clean.onePass ["src", ".", "a***b", ""] = ["src", "a*", "**", "*b", "*"] := by
  decide +kernel

end FileSelect
