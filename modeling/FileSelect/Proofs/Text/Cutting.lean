import FileSelect.Text.Basic
import Mathlib.Data.List.Basic
import Mathlib.Data.List.DropRight
import Mathlib.Data.List.TakeWhile

/-!
# Cutting and joining texts

Cutting at a separator and joining again are inverse to each other, in one direction
for every text and in the other for parts that do not hold the separator. Cutting at the
last separator leaves a part behind it that holds none, and stripping removes characters
at both ends and nothing else.
-/

namespace FileSelect.Text

/-! ## All separators -/

theorem split_eq_splitOn (sep : Char) (t : Text) : split sep t = t.splitOn sep := by
  induction t with
  | nil => rfl
  | cons c rest ih =>
      rw [List.splitOn_cons_eq_if_modifyHead, split, ih]
      by_cases same : c = sep
      · rw [if_pos same, if_pos (beq_iff_eq.mpr same)]
      · rw [if_neg same, if_neg (fun h => same (beq_iff_eq.mp h))]
        cases parts : rest.splitOn sep with
        | nil => exact absurd parts (List.splitOn_ne_nil sep rest)
        | cons part parts => rfl

theorem join_eq_intercalate (sep : Text) (parts : List Text) :
    join sep parts = sep.intercalate parts := by
  induction parts with
  | nil => rfl
  | cons part rest ih =>
      cases rest with
      | nil => exact List.intercalate_singleton.symm
      | cons next rest =>
          rw [List.intercalate_cons_cons, ← ih]
          rfl

theorem split_ne_nil (sep : Char) (t : Text) : split sep t ≠ [] := by
  rw [split_eq_splitOn]
  exact List.splitOn_ne_nil sep t

/-- A separator cuts a text in two that are cut on their own. -/
theorem split_append_cons (sep : Char) (s t : Text) :
    split sep (s ++ sep :: t) = split sep s ++ split sep t := by
  simp only [split_eq_splitOn]
  exact List.splitOn_append_cons_self s t

theorem split_of_not_mem {sep : Char} {t : Text} (free : sep ∉ t) : split sep t = [t] := by
  rw [split_eq_splitOn]
  exact List.splitOn_eq_singleton free

/-- Every part lies between two separators and holds none. -/
theorem not_mem_of_mem_split {sep : Char} {t part : Text} (h : part ∈ split sep t) :
    sep ∉ part := by
  induction t generalizing part with
  | nil =>
      rw [split, List.mem_singleton] at h
      exact h ▸ List.not_mem_nil
  | cons c rest ih =>
      by_cases same : c = sep
      · rw [split, if_pos same, List.mem_cons] at h
        rcases h with rfl | h
        · exact List.not_mem_nil
        · exact ih h
      · rw [split, if_neg same] at h
        cases parts : split sep rest with
        | nil => exact absurd parts (split_ne_nil sep rest)
        | cons first others =>
            rw [parts] at h ih
            rcases List.mem_cons.mp h with rfl | h
            · have free := ih List.mem_cons_self
              simp only [List.mem_cons, not_or]
              exact ⟨fun eq => same eq.symm, free⟩
            · exact ih (List.mem_cons_of_mem first h)

theorem join_split (sep : Char) (t : Text) : join [sep] (split sep t) = t := by
  rw [split_eq_splitOn, join_eq_intercalate]
  exact List.intercalate_splitOn sep

theorem split_join {sep : Char} {parts : List Text} (ne : parts ≠ [])
    (free : ∀ part ∈ parts, sep ∉ part) : split sep (join [sep] parts) = parts := by
  rw [split_eq_splitOn, join_eq_intercalate]
  exact List.splitOn_intercalate sep free ne

/-! ## The last separator -/

theorem splitLast?_eq_none_iff {sep : Char} {t : Text} :
    splitLast? sep t = none ↔ sep ∉ t := by
  induction t with
  | nil => exact iff_of_true rfl List.not_mem_nil
  | cons c rest ih =>
      rw [splitLast?, List.mem_cons, not_or, ← ih]
      cases splitLast? sep rest with
      | some parts => simp
      | none =>
          by_cases same : c = sep
          · simp [same]
          · simp [same, Ne.symm same]

theorem splitLast?_append_cons {sep : Char} (before : Text) {after : Text}
    (free : sep ∉ after) : splitLast? sep (before ++ sep :: after) = some (before, after) := by
  induction before with
  | nil => rw [List.nil_append, splitLast?, splitLast?_eq_none_iff.mpr free, if_pos rfl]
  | cons c before ih => rw [List.cons_append, splitLast?, ih]

theorem eq_append_cons_of_splitLast? {sep : Char} {t before after : Text}
    (found : splitLast? sep t = some (before, after)) :
    t = before ++ sep :: after ∧ sep ∉ after := by
  induction t generalizing before with
  | nil => cases found
  | cons c rest ih =>
      rw [splitLast?] at found
      cases inside : splitLast? sep rest with
      | some parts =>
          obtain ⟨above, last⟩ := parts
          rw [inside] at found
          cases found
          obtain ⟨shape, free⟩ := ih inside
          exact ⟨by rw [shape]; rfl, free⟩
      | none =>
          rw [inside] at found
          by_cases same : c = sep
          · rw [if_pos same] at found
            cases found
            exact ⟨by rw [same]; rfl, splitLast?_eq_none_iff.mp inside⟩
          · rw [if_neg same] at found
            cases found

/-- The part behind the last separator is the only one that holds no separator and
reaches to the end. -/
theorem splitLast?_eq_some_iff {sep : Char} {t before after : Text} :
    splitLast? sep t = some (before, after) ↔ t = before ++ sep :: after ∧ sep ∉ after := by
  constructor
  · exact eq_append_cons_of_splitLast?
  · rintro ⟨rfl, free⟩
    exact splitLast?_append_cons before free

/-! ## Both ends -/

theorem strip_eq_rdropWhile (drop : Char → Bool) (t : Text) :
    strip drop t = (t.dropWhile drop).rdropWhile drop := rfl

theorem strip_sublist (drop : Char → Bool) (t : Text) : (strip drop t).Sublist t :=
  (List.rdropWhile_prefix drop (t.dropWhile drop)).sublist.trans (List.dropWhile_sublist drop)

/-- What is left begins with no character that was to be removed. -/
theorem head?_strip {drop : Char → Bool} {t : Text} {c : Char}
    (first : (strip drop t).head? = some c) : drop c = false := by
  rw [strip_eq_rdropWhile] at first
  obtain ⟨rest, whole⟩ := List.rdropWhile_prefix drop (t.dropWhile drop)
  have opening : (t.dropWhile drop).head? = some c := by
    rw [← whole, List.head?_append, first]
    rfl
  have kept := List.head?_dropWhile_not drop t
  rw [opening] at kept
  exact kept

/-- What is left ends in no character that was to be removed. -/
theorem getLast?_strip {drop : Char → Bool} {t : Text} {c : Char}
    (last : (strip drop t).getLast? = some c) : drop c = false := by
  rw [strip_eq_rdropWhile] at last
  have ne : (t.dropWhile drop).rdropWhile drop ≠ [] := by
    intro empty
    rw [empty] at last
    cases last
  rw [List.getLast?_eq_some_getLast ne] at last
  have kept := List.rdropWhile_last_not drop (t.dropWhile drop) ne
  rw [Option.some.inj last] at kept
  exact Bool.eq_false_iff.mpr kept

theorem strip_eq_self_iff {drop : Char → Bool} {t : Text} :
    strip drop t = t ↔
      (∀ c, t.head? = some c → drop c = false) ∧ (∀ c, t.getLast? = some c → drop c = false) := by
  constructor
  · intro same
    refine ⟨fun c first => ?_, fun c last => ?_⟩
    · exact head?_strip (same.symm ▸ first)
    · exact getLast?_strip (same.symm ▸ last)
  · rintro ⟨first, last⟩
    have opening : t.dropWhile drop = t := by
      cases t with
      | nil => rfl
      | cons c rest => rw [List.dropWhile_cons, first c rfl]; rfl
    rw [strip_eq_rdropWhile, opening, List.rdropWhile_eq_self_iff]
    intro ne
    exact Bool.eq_false_iff.mp (last _ (List.getLast?_eq_some_getLast ne))

theorem strip_strip (drop : Char → Bool) (t : Text) :
    strip drop (strip drop t) = strip drop t :=
  strip_eq_self_iff.mpr ⟨fun _ => head?_strip, fun _ => getLast?_strip⟩

/-! ## The first mark -/

theorem splitFirst?_singleton_cons (mark c : Char) (t : Text) :
    splitFirst? [mark] (c :: t) =
      if mark = c then some ([], t)
      else (splitFirst? [mark] t).map fun x => (c :: x.1, x.2) := by
  by_cases same : mark = c
  · simp [splitFirst?, dropStart?, same]
  · simp only [splitFirst?, dropStart?, same, if_false]
    cases splitFirst? [mark] t <;> rfl

/-- What stands behind the first mark is an end of the text. -/
theorem splitFirst?_suffix {mark : Char} {t before after : Text}
    (h : splitFirst? [mark] t = some (before, after)) : after <:+ t := by
  induction t generalizing before with
  | nil => simp [splitFirst?] at h
  | cons c t ih =>
      rw [splitFirst?_singleton_cons] at h
      split at h
      · simp only [Option.some.injEq, Prod.mk.injEq] at h
        exact h.2 ▸ List.suffix_cons c t
      · obtain ⟨⟨later, left⟩, hx, same⟩ := Option.map_eq_some_iff.mp h
        simp only [Prod.mk.injEq] at same
        exact (ih (same.2 ▸ hx)).trans (List.suffix_cons c t)

/-- A text that does not hold the mark may be put behind. -/
theorem splitFirst?_append {mark : Char} {w : Text} (free : mark ∉ w) (t : Text) :
    splitFirst? [mark] (t ++ w) =
      (splitFirst? [mark] t).map fun x => (x.1, x.2 ++ w) := by
  induction t with
  | nil =>
      induction w with
      | nil => rfl
      | cons c w ih =>
          have other : mark ≠ c := List.ne_of_not_mem_cons free
          have free := List.not_mem_of_not_mem_cons free
          rw [List.nil_append, splitFirst?_singleton_cons, if_neg other]
          rw [List.nil_append] at ih
          rw [ih free]
          rfl
  | cons c t ih =>
      rw [List.cons_append, splitFirst?_singleton_cons, splitFirst?_singleton_cons, ih]
      split
      · rfl
      · simp only [Option.map_map]
        rfl

end FileSelect.Text
