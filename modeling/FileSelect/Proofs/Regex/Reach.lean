import FileSelect.Proofs.Regex.Counts
import Mathlib.Logic.Function.Iterate

/-!
# What expressions reach

The positions that are computed from a set of positions are those that the expression spans
to from one of them, provided that its counts are in their order. For a repetition without
a greatest count, rounds are saved: a round that leads nowhere new can be left out, and all
others lead further into the text.
-/

namespace FileSelect.Regex

variable {text : Text} {a r : Regex} {i j k n m : Nat}

/-! ## Positions that are spanned -/

theorem Spans.le (h : Spans text r i j) : i ≤ j := by
  induction h with
  | empty => exact Nat.le_refl _
  | one => exact Nat.le_succ _
  | assert => exact Nat.le_refl _
  | sequence _ _ first second => exact first.trans second
  | left _ ih => exact ih
  | right _ ih => exact ih
  | none => exact Nat.le_refl _
  | first _ _ _ first later => exact first.trans later
  | more _ _ _ first later => exact first.trans later

theorem Spans.le_length (h : Spans text r i j) (within : i ≤ text.length) :
    j ≤ text.length := by
  induction h with
  | empty => exact within
  | one found _ => exact (List.getElem?_eq_some_iff.mp found).1
  | assert => exact within
  | sequence _ _ first second => exact second (first within)
  | left _ ih => exact ih within
  | right _ ih => exact ih within
  | none => exact within
  | first _ _ _ first later => exact later (first within)
  | more _ _ _ first later => exact later (first within)

/-- So many spans of an expression, one after the other, lead from `i` to `j`. -/
inductive Steps (text : Text) (a : Regex) : Nat → Nat → Nat → Prop
  | zero {i : Nat} : Steps text a 0 i i
  | succ {n i j k : Nat} : Spans text a i j → Steps text a n j k → Steps text a (n + 1) i k

namespace Steps

theorem le_length (h : Steps text a n i j) (within : i ≤ text.length) : j ≤ text.length := by
  induction h with
  | zero => exact within
  | succ step _ ih => exact ih (step.le_length within)

theorem add_iff : Steps text a (m + n) i k ↔ ∃ j, Steps text a m i j ∧ Steps text a n j k := by
  induction m generalizing i with
  | zero =>
      rw [Nat.zero_add]
      constructor
      · exact fun h => ⟨i, .zero, h⟩
      · rintro ⟨j, ⟨⟩, h⟩
        exact h
  | succ m ih =>
      rw [Nat.succ_add]
      constructor
      · rintro (_ | ⟨step, later⟩)
        obtain ⟨j, first, second⟩ := ih.mp later
        exact ⟨j, .succ step first, second⟩
      · rintro ⟨j, _ | ⟨step, later⟩, second⟩
        exact .succ step (ih.mpr ⟨j, later, second⟩)

/-- No more steps are needed than there are positions on the way. -/
theorem exists_le (h : Steps text a n i k) : ∃ m, m + i ≤ k ∧ Steps text a m i k := by
  induction h with
  | zero => exact ⟨0, by omega, .zero⟩
  | @succ n i j k step _ ih =>
      obtain ⟨m, few, later⟩ := ih
      rcases Nat.eq_or_lt_of_le step.le with same | further
      · subst same
        exact ⟨m, few, later⟩
      · exact ⟨m + 1, by omega, .succ step later⟩

end Steps

/-- Within its counts a repetition spans what so many steps lead through. -/
theorem Steps.spans {least : Nat} {most : Option Nat} (h : Steps text a n i j)
    (enough : least ≤ n) (allowed : ∀ m, most = some m → n ≤ m) :
    Spans text (.repeated least most a) i j := by
  induction h generalizing least most with
  | zero =>
      obtain rfl : least = 0 := Nat.le_zero.mp enough
      exact .none
  | @succ n i j k step _ ih =>
      have mayRepeat : most ≠ some 0 := by
        intro none_allowed
        exact absurd (allowed 0 none_allowed) (by omega)
      have fewer : ∀ m, most.map (· - 1) = some m → n ≤ m := by
        intro m hm
        obtain ⟨m', rfl, rfl⟩ := Option.map_eq_some_iff.mp hm
        have := allowed m' rfl
        omega
      cases least with
      | zero => exact .more mayRepeat step (ih (Nat.zero_le n) fewer)
      | succ least => exact .first mayRepeat step (ih (Nat.le_of_succ_le_succ enough) fewer)

theorem exists_steps_of_spans {whole : Regex} (h : Spans text whole i j) {least : Nat}
    {most : Option Nat} (same : whole = .repeated least most a) :
    ∃ n, least ≤ n ∧ (∀ m, most = some m → n ≤ m) ∧ Steps text a n i j := by
  have more {n : Nat} {most : Option Nat} (mayRepeat : most ≠ some 0)
      (fewer : ∀ m, most.map (· - 1) = some m → n ≤ m) (m : Nat) (hm : most = some m) :
      n + 1 ≤ m := by
    subst hm
    have := fewer (m - 1) rfl
    have positive : m ≠ 0 := fun zero => mayRepeat (by rw [zero])
    omega
  induction h generalizing least most with
  | empty => cases same
  | one => cases same
  | assert => cases same
  | sequence => cases same
  | left => cases same
  | right => cases same
  | none =>
      cases same
      exact ⟨0, Nat.le_refl 0, fun _ _ => Nat.zero_le _, .zero⟩
  | first mayRepeat step _ _ ih =>
      cases same
      obtain ⟨n, enough, fewer, later⟩ := ih rfl
      exact ⟨n + 1, Nat.succ_le_succ enough, more mayRepeat fewer, .succ step later⟩
  | more mayRepeat step _ _ ih =>
      cases same
      obtain ⟨n, -, fewer, later⟩ := ih rfl
      exact ⟨n + 1, Nat.zero_le _, more mayRepeat fewer, .succ step later⟩

theorem spans_repeated_iff {least : Nat} {most : Option Nat} :
    Spans text (.repeated least most a) i j ↔
      ∃ n, least ≤ n ∧ (∀ m, most = some m → n ≤ m) ∧ Steps text a n i j :=
  ⟨fun h => exists_steps_of_spans h rfl, fun ⟨_, enough, allowed, steps⟩ =>
    steps.spans enough allowed⟩

/-! ## Rounds -/

/-- The positions lie in the text or right behind it. -/
def Within (text : Text) (positions : List Nat) : Prop := ∀ i ∈ positions, i ≤ text.length

/-- `f` gives, for positions in the text, those that the expression spans to. -/
def Reaches (text : Text) (a : Regex) (f : List Nat → List Nat) : Prop :=
  ∀ positions, Within text positions → ∀ j, j ∈ f positions ↔ ∃ i ∈ positions, Spans text a i j

theorem mem_mergePositions {p q : List Nat} : j ∈ mergePositions p q ↔ j ∈ p ∨ j ∈ q := by
  by_cases h : j ∈ p <;> simp [mergePositions, h]

section Rounds

variable {f : List Nat → List Nat} {positions : List Nat}

theorem Reaches.within (hf : Reaches text a f) (within : Within text positions) :
    Within text (f positions) := by
  intro j hj
  obtain ⟨i, hi, span⟩ := (hf positions within j).mp hj
  exact span.le_length (within i hi)

theorem iterate_eq (f : List Nat → List Nat) (n : Nat) (positions : List Nat) :
    iterate f n positions = f^[n] positions := by
  induction n generalizing positions with
  | zero => rfl
  | succ n ih =>
      rw [iterate, Function.iterate_succ_apply]
      split
      · rename_i fixed
        rw [fixed, Function.iterate_fixed fixed]
      · exact ih _

theorem Reaches.mem_iterate (hf : Reaches text a f) (within : Within text positions) :
    j ∈ iterate f n positions ↔ ∃ i ∈ positions, Steps text a n i j := by
  rw [iterate_eq]
  induction n generalizing positions with
  | zero =>
      constructor
      · exact fun hj => ⟨j, hj, .zero⟩
      · rintro ⟨i, hi, ⟨⟩⟩
        exact hi
  | succ n ih =>
      rw [Function.iterate_succ_apply, ih (hf.within within)]
      constructor
      · rintro ⟨k, hk, later⟩
        obtain ⟨i, hi, step⟩ := (hf positions within k).mp hk
        exact ⟨i, hi, .succ step later⟩
      · rintro ⟨i, hi, _ | ⟨step, later⟩⟩
        exact ⟨_, (hf positions within _).mpr ⟨i, hi, step⟩, later⟩

/-- Positions that no round leads out of hold all that steps lead to. -/
theorem Reaches.mem_of_steps (hf : Reaches text a f) (within : Within text positions)
    (closed : ∀ j ∈ f positions, j ∈ positions) (steps : Steps text a n i j)
    (hi : i ∈ positions) : j ∈ positions := by
  induction steps with
  | zero => exact hi
  | succ step _ ih => exact ih (closed _ ((hf positions within _).mpr ⟨_, hi, step⟩))

theorem closed_of_length_eq
    (same : (mergePositions positions (f positions)).length = positions.length) :
    ∀ j ∈ f positions, j ∈ positions := by
  have none_new : (f positions).filter (fun i => !positions.contains i) = [] := by
    rw [← List.length_eq_zero_iff]
    rw [mergePositions, List.length_append] at same
    omega
  intro j hj
  by_contra new
  have : j ∈ (f positions).filter fun i => !positions.contains i := by simp [hj, new]
  rw [none_new] at this
  cases this

theorem Reaches.mem_iterateUpTo (hf : Reaches text a f) (within : Within text positions) :
    j ∈ iterateUpTo f n positions ↔ ∃ m ≤ n, ∃ i ∈ positions, Steps text a m i j := by
  induction n generalizing positions with
  | zero =>
      constructor
      · exact fun hj => ⟨0, Nat.le_refl 0, j, hj, .zero⟩
      · rintro ⟨m, atMostZero, i, hi, steps⟩
        obtain rfl : m = 0 := Nat.le_zero.mp atMostZero
        cases steps
        exact hi
  | succ n ih =>
      rw [iterateUpTo]
      split
      · rename_i same
        constructor
        · exact fun hj => ⟨0, Nat.zero_le _, j, hj, .zero⟩
        · rintro ⟨m, -, i, hi, steps⟩
          exact hf.mem_of_steps within (closed_of_length_eq same) steps hi
      · have next : Within text (mergePositions positions (f positions)) := by
          intro k hk
          exact (mem_mergePositions.mp hk).elim (within k) (hf.within within k)
        rw [ih next]
        constructor
        · rintro ⟨m, few, k, hk, steps⟩
          rcases mem_mergePositions.mp hk with hk | hk
          · exact ⟨m, Nat.le_succ_of_le few, k, hk, steps⟩
          · obtain ⟨i, hi, step⟩ := (hf positions within k).mp hk
            exact ⟨m + 1, Nat.succ_le_succ few, i, hi, .succ step steps⟩
        · rintro ⟨m, few, i, hi, steps⟩
          cases steps with
          | zero => exact ⟨0, Nat.zero_le n, j, mem_mergePositions.mpr (.inl hi), .zero⟩
          | succ step later =>
              have reached := (hf positions within _).mpr ⟨i, hi, step⟩
              exact ⟨_, Nat.le_of_succ_le_succ few, _, mem_mergePositions.mpr (.inr reached), later⟩

/-- So many rounds that have to be made, and at most so many more. -/
theorem Reaches.mem_rounds {least : Nat} (hf : Reaches text a f) (within : Within text positions) :
    j ∈ iterateUpTo f n (iterate f least positions) ↔
      ∃ m ≤ n, ∃ i ∈ positions, Steps text a (least + m) i j := by
  have started : Within text (iterate f least positions) := by
    intro k hk
    obtain ⟨i, hi, steps⟩ := (hf.mem_iterate within).mp hk
    exact steps.le_length (within i hi)
  rw [hf.mem_iterateUpTo started]
  constructor
  · rintro ⟨m, few, k, hk, later⟩
    obtain ⟨i, hi, first⟩ := (hf.mem_iterate within).mp hk
    exact ⟨m, few, i, hi, Steps.add_iff.mpr ⟨k, first, later⟩⟩
  · rintro ⟨m, few, i, hi, steps⟩
    obtain ⟨k, first, later⟩ := Steps.add_iff.mp steps
    exact ⟨m, few, k, (hf.mem_iterate within).mpr ⟨i, hi, first⟩, later⟩

end Rounds

/-! ## Expressions -/

section Expressions

variable {b : Regex} {f g : List Nat → List Nat}

theorem reaches_empty : Reaches text .empty fun positions => positions := by
  intro positions _ j
  constructor
  · exact fun hj => ⟨j, hj, .empty⟩
  · rintro ⟨i, hi, span⟩
    cases span
    exact hi

theorem reaches_one (chars : CharClass) : Reaches text (.one chars) (reach text (.one chars)) := by
  intro positions _ j
  rw [reach, List.mem_filterMap]
  refine exists_congr fun i => and_congr_right fun _ => ?_
  constructor
  · intro h
    split at h
    · rename_i c found
      split at h
      · cases h
        exact .one found ‹_›
      · cases h
    · cases h
  · intro span
    cases span with
    | one found holds => simp only [found, holds, if_true]

theorem reaches_assert (a : Assertion) :
    Reaches text (.assert a) fun positions => positions.filter fun i => a.holdsAt text i := by
  intro positions _ j
  rw [List.mem_filter]
  constructor
  · rintro ⟨hj, holds⟩
    exact ⟨j, hj, .assert holds⟩
  · rintro ⟨i, hi, span⟩
    cases span with
    | assert holds => exact ⟨hi, holds⟩

theorem Reaches.sequence (hf : Reaches text a f) (hg : Reaches text b g) :
    Reaches text (.sequence a b) fun positions => g (f positions) := by
  intro positions within j
  rw [hg _ (hf.within within)]
  constructor
  · rintro ⟨k, hk, second⟩
    obtain ⟨i, hi, first⟩ := (hf positions within k).mp hk
    exact ⟨i, hi, .sequence first second⟩
  · rintro ⟨i, hi, span⟩
    cases span with
    | sequence first second => exact ⟨_, (hf positions within _).mpr ⟨i, hi, first⟩, second⟩

theorem Reaches.either (hf : Reaches text a f) (hg : Reaches text b g) :
    Reaches text (.either a b) fun positions => mergePositions (f positions) (g positions) := by
  intro positions within j
  rw [mem_mergePositions, hf _ within, hg _ within]
  constructor
  · rintro (⟨i, hi, span⟩ | ⟨i, hi, span⟩)
    · exact ⟨i, hi, .left span⟩
    · exact ⟨i, hi, .right span⟩
  · rintro ⟨i, hi, span⟩
    cases span with
    | left span => exact .inl ⟨i, hi, span⟩
    | right span => exact .inr ⟨i, hi, span⟩

theorem Reaches.repeated_upTo {least most : Nat} (hf : Reaches text a f) (ordered : least ≤ most) :
    Reaches text (.repeated least (some most) a) fun positions =>
      iterateUpTo f (most - least) (iterate f least positions) := by
  intro positions within j
  rw [hf.mem_rounds within]
  constructor
  · rintro ⟨m, few, i, hi, steps⟩
    refine ⟨i, hi, steps.spans (Nat.le_add_right least m) fun most' same => ?_⟩
    obtain rfl := Option.some.inj same
    omega
  · rintro ⟨i, hi, span⟩
    obtain ⟨n, enough, allowed, steps⟩ := spans_repeated_iff.mp span
    obtain ⟨m, rfl⟩ := Nat.exists_eq_add_of_le enough
    have := allowed most rfl
    exact ⟨m, by omega, i, hi, steps⟩

/-- Without a greatest count, the rounds that lead nowhere are left out. -/
theorem Reaches.repeated_open {least : Nat} (hf : Reaches text a f) :
    Reaches text (.repeated least none a) fun positions =>
      iterateUpTo f (text.length + 1) (iterate f least positions) := by
  intro positions within j
  rw [hf.mem_rounds within]
  constructor
  · rintro ⟨m, -, i, hi, steps⟩
    exact ⟨i, hi, steps.spans (Nat.le_add_right least m) fun _ none_given => nomatch none_given⟩
  · rintro ⟨i, hi, span⟩
    obtain ⟨n, enough, -, steps⟩ := spans_repeated_iff.mp span
    obtain ⟨extra, rfl⟩ := Nat.exists_eq_add_of_le enough
    obtain ⟨k, first, later⟩ := Steps.add_iff.mp steps
    obtain ⟨m, few, later⟩ := later.exists_le
    have := steps.le_length (within i hi)
    exact ⟨m, by omega, i, hi, Steps.add_iff.mpr ⟨k, first, later⟩⟩

theorem reaches_reach (ordered : r.CountsOrdered) : Reaches text r (reach text r) := by
  induction r with
  | empty => exact reaches_empty
  | one chars => exact reaches_one chars
  | assert a => exact reaches_assert a
  | sequence a b iha ihb => exact (iha ordered.1).sequence (ihb ordered.2)
  | either a b iha ihb => exact (iha ordered.1).either (ihb ordered.2)
  | repeated least most a ih =>
      cases most with
      | some most => exact (ih ordered.2).repeated_upTo (ordered.1 most rfl)
      | none => exact (ih ordered.2).repeated_open

end Expressions

theorem isFoundIn_iff (ordered : r.CountsOrdered) :
    r.isFoundIn text = true ↔ ∃ i j, i ≤ text.length ∧ Spans text r i j := by
  have all : Within text (List.range (text.length + 1)) := by
    intro i hi
    exact Nat.le_of_lt_succ (List.mem_range.mp hi)
  rw [isFoundIn, Bool.not_eq_true', List.isEmpty_eq_false_iff_exists_mem]
  constructor
  · rintro ⟨j, hj⟩
    obtain ⟨i, hi, span⟩ := (reaches_reach ordered _ all j).mp hj
    exact ⟨i, j, all i hi, span⟩
  · rintro ⟨i, j, within, span⟩
    have start := List.mem_range.mpr (Nat.lt_succ_of_le within)
    exact ⟨j, (reaches_reach ordered _ all j).mpr ⟨i, start, span⟩⟩

end FileSelect.Regex
