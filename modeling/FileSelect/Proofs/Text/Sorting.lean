import FileSelect.Text.Basic
import Mathlib.Data.List.Sort

/-!
# Sorting

To sort is to rearrange so that nothing comes before what is smaller, and what is in order
already stays as it is. The byte order of texts is the lexicographic one of their characters,
and it is transitive.
-/

namespace FileSelect

open Std (TransCmp OrientedCmp LawfulEqCmp)

theorem lexicographic_eq_compareLex {α : Type} (order : α → α → Ordering) (left right : List α) :
    lexicographic order left right = List.compareLex order left right := by
  induction left generalizing right with
  | nil => cases right <;> rfl
  | cons a left ih =>
      cases right with
      | nil => rfl
      | cons b right =>
          rw [lexicographic, List.compareLex, ih]
          cases order a b <;> rfl

instance {α : Type} {order : α → α → Ordering} [TransCmp order] :
    TransCmp (lexicographic order) := by
  have same : lexicographic order = List.compareLex order :=
    funext fun left => funext (lexicographic_eq_compareLex order left)
  exact same ▸ inferInstance

instance : TransCmp Text.order :=
  inferInstanceAs (TransCmp (lexicographic (compareOn Char.toNat)))

/-- Only equal lists compare as equal, when only equal elements do. -/
instance {α : Type} {order : α → α → Ordering} [LawfulEqCmp order] :
    LawfulEqCmp (lexicographic order) := by
  have same : lexicographic order = List.compareLex order :=
    funext fun left => funext (lexicographic_eq_compareLex order left)
  exact same ▸ inferInstance

instance lawfulEqCmp_toNat : LawfulEqCmp (compareOn Char.toNat) where
  eq_of_compare same := Char.toNat_inj.mp (Nat.compare_eq_eq.mp same)

instance : LawfulEqCmp Text.order :=
  inferInstanceAs (LawfulEqCmp (lexicographic (compareOn Char.toNat)))

theorem sortBy_eq_insertionSort {α : Type} (order : α → α → Ordering) (values : List α) :
    sortBy order values = values.insertionSort fun a b => (order a b).isLE = true := by
  have same : insertBy order = List.orderedInsert fun a b => (order a b).isLE = true := by
    funext a rest
    induction rest with
    | nil => rfl
    | cons b rest ih =>
        rw [insertBy, ih]
        rfl
  rw [sortBy, same]
  rfl

theorem perm_sortBy {α : Type} (order : α → α → Ordering) (values : List α) :
    (sortBy order values).Perm values :=
  sortBy_eq_insertionSort order values ▸ List.perm_insertionSort _ values

theorem mem_sortBy {α : Type} {order : α → α → Ordering} {values : List α} {a : α} :
    a ∈ sortBy order values ↔ a ∈ values := (perm_sortBy order values).mem_iff

theorem sortBy_of_pairwise {α : Type} {order : α → α → Ordering} {values : List α}
    (sorted : values.Pairwise fun a b => (order a b).isLE = true) :
    sortBy order values = values :=
  (sortBy_eq_insertionSort order values).trans sorted.insertionSort_eq

/-- What comes earlier is not larger. -/
theorem pairwise_sortBy {α : Type} (order : α → α → Ordering) [TransCmp order]
    (values : List α) : (sortBy order values).Pairwise fun a b => (order a b).isLE = true := by
  have total : Std.Total fun a b => (order a b).isLE = true := by
    refine ⟨fun a b => ?_⟩
    have swapped : order b a = (order a b).swap := OrientedCmp.eq_swap
    rw [swapped]
    cases order a b <;> decide
  have trans : IsTrans α fun a b => (order a b).isLE = true :=
    ⟨fun _ _ _ => TransCmp.isLE_trans⟩
  rw [sortBy_eq_insertionSort]
  exact List.pairwise_insertionSort _ values

/-- In a strictly ordered list, what stands before an element is what is smaller. -/
theorem mem_front_iff {α : Type} {r : α → α → Prop} (asymm : ∀ a b, r a b → ¬r b a)
    {before after : List α} {a b : α} (sorted : (before ++ a :: after).Pairwise r) :
    b ∈ before ↔ b ∈ before ++ a :: after ∧ r b a := by
  obtain ⟨_, behind, across⟩ := List.pairwise_append.mp sorted
  constructor
  · intro inside
    exact ⟨List.mem_append_left _ inside, across b inside a List.mem_cons_self⟩
  · rintro ⟨inside, smaller⟩
    refine (List.mem_append.mp inside).resolve_right fun later => ?_
    rcases List.mem_cons.mp later with rfl | later
    · exact asymm b b smaller smaller
    · exact asymm b a smaller ((List.pairwise_cons.mp behind).1 b later)

namespace Text

theorem byteLength_append (s t : Text) : byteLength (s ++ t) = byteLength s + byteLength t := by
  induction s with
  | nil => exact (Nat.zero_add _).symm
  | cons c s ih =>
      rw [byteLength] at ih ⊢
      rw [List.cons_append, List.foldr_cons, ih, ← Nat.add_assoc]
      rfl

theorem byteLength_pos {t : Text} (ne : t ≠ []) : 0 < byteLength t := by
  cases t with
  | nil => exact absurd rfl ne
  | cons c rest => exact Nat.add_pos_left c.utf8Size_pos _

end Text

end FileSelect
