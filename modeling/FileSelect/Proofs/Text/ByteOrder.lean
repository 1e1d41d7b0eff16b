import FileSelect.Proofs.Text.Sorting

/-!
# The order of the encodings

The UTF-8 encodings of two texts compare byte by byte as the texts compare by their code
points: a smaller code point has an encoding that is smaller at the first byte where the
two differ, whatever follows.
-/

namespace FileSelect.Text

open Std (OrientedCmp LawfulEqCmp)

/-- The UTF-8 encoding. -/
def bytes (t : Text) : List UInt8 := (String.ofList t).toUTF8.data.toList

theorem bytes_eq_flatMap (t : Text) : bytes t = t.flatMap String.utf8EncodeChar := by
  rw [bytes, String.toUTF8_eq_toByteArray, String.toByteArray_ofList, List.utf8Encode]
  simp

/-- Bytes are compared as numbers. -/
theorem ofNat_cons_lt_cons_iff {a b : Nat} (first : a < 256) (second : b < 256)
    {s t : List UInt8} : UInt8.ofNat a :: s < UInt8.ofNat b :: t ↔ a < b ∨ a = b ∧ s < t := by
  rw [List.cons_lt_cons_iff, UInt8.lt_iff_toNat_lt, ← UInt8.toNat_inj, UInt8.toNat_ofNat',
    UInt8.toNat_ofNat', Nat.mod_eq_of_lt first, Nat.mod_eq_of_lt second]

/-- The encodings of two code points differ before either of them ends. -/
theorem utf8EncodeChar_append_lt {a b : Char} (lt : a.toNat < b.toNat) (s t : List UInt8) :
    String.utf8EncodeChar a ++ s < String.utf8EncodeChar b ++ t := by
  have small : b.val.toNat < 0x110000 := by
    rcases b.valid with low | high
    · exact low.trans (by decide)
    · exact high.2
  replace lt : a.val.toNat < b.val.toNat := lt
  have two (v : Nat) : v / 4096 = v / 64 / 64 := (Nat.div_div_eq_div_mul v 64 64).symm
  have three (v : Nat) : v / 262144 = v / 64 / 64 / 64 := by omega
  rw [String.utf8EncodeChar, String.utf8EncodeChar]
  split_ifs <;>
    simp (disch := omega) only [List.cons_append, List.nil_append, ofNat_cons_lt_cons_iff, two,
      three] <;>
    omega

theorem bytes_lt_of_order {s t : Text} (lt : order s t = .lt) : bytes s < bytes t := by
  rw [bytes_eq_flatMap, bytes_eq_flatMap]
  induction s generalizing t with
  | nil =>
      cases t with
      | nil => cases lt
      | cons b t =>
          have first := String.length_utf8EncodeChar b
          have pos := b.utf8Size_pos
          cases enc : String.utf8EncodeChar b with
          | nil => simp [enc] at first; omega
          | cons x xs => simp [enc, List.flatMap_cons]
  | cons a s ih =>
      cases t with
      | nil => cases lt
      | cons b t =>
          rw [order, lexicographic, Ordering.then_eq_lt] at lt
          rw [List.flatMap_cons, List.flatMap_cons]
          rcases lt with smaller | ⟨same, later⟩
          · exact utf8EncodeChar_append_lt (Nat.compare_eq_lt.mp smaller) _ _
          · rw [Char.toNat_inj.mp (Nat.compare_eq_eq.mp same)]
            exact List.append_left_lt (ih later)

/-- Texts are in order exactly when their encodings are. -/
theorem order_eq_lt_iff_bytes {s t : Text} : order s t = .lt ↔ bytes s < bytes t := by
  refine ⟨bytes_lt_of_order, fun smaller => ?_⟩
  cases compared : order s t with
  | lt => rfl
  | eq =>
      rw [LawfulEqCmp.eq_of_compare compared] at smaller
      exact absurd smaller (List.lt_irrefl _)
  | gt =>
      have larger := bytes_lt_of_order (OrientedCmp.lt_of_gt compared)
      exact absurd smaller (List.lt_asymm larger)

end FileSelect.Text
