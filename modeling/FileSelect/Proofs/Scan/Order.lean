import FileSelect.Proofs.Disk.Listing
import FileSelect.Proofs.Scan.Algebra
import FileSelect.Proofs.Text.ByteOrder
import FileSelect.Proofs.Text.Sorting
import Mathlib.Data.List.Lex

/-!
# The order of a scan

Paths are compared segment by segment, by the bytes of the first that differ, and a path
comes before its extensions. A listing goes through the entries of a directory in the
order of their names, and through what is inside a directory right behind the directory,
so its entries ascend in this order. A scan leaves some of them out and moves none.
-/

namespace FileSelect

/-- The first segment that differs has the smaller bytes, or the path goes on where this ends. -/
def Precedes : List Name → List Name → Prop :=
  List.Lex fun left right => Text.bytes left < Text.bytes right

namespace Precedes

variable {left right path more : List Name}

theorem irrefl (path : List Name) : ¬Precedes path path :=
  List.lex_irrefl (fun name => List.lt_irrefl (Text.bytes name)) path

theorem asymm (before : Precedes left right) : ¬Precedes right left :=
  List.lex_asymm (fun smaller => List.lt_asymm smaller) before

theorem append (above : List Name) (before : Precedes left right) :
    Precedes (above ++ left) (above ++ right) :=
  before.append_left _ above

/-- A directory comes before what is inside. -/
theorem extension (path : List Name) (ne : more ≠ []) : Precedes path (path ++ more) := by
  obtain ⟨name, rest, rfl⟩ := List.exists_cons_of_ne_nil ne
  have before : Precedes (path ++ []) (path ++ name :: rest) := append path .nil
  rwa [List.append_nil] at before

/-- Entries of one directory, and all that is inside of them, are ordered by their names. -/
theorem beside (above : List Name) {name other : Name}
    (smaller : Text.bytes name < Text.bytes other) (below beyond : List Name) :
    Precedes (above ++ name :: below) (above ++ other :: beyond) :=
  append above (.rel smaller)

end Precedes

namespace Listing

/-- The entries of every directory ascend by the bytes of their names. -/
inductive Ascending : Listing → Prop
  | done : Ascending .done
  | leaf {name : Name} {isFile : Bool} {next : Listing} :
      (∀ other ∈ next.names, Text.bytes name < Text.bytes other) → Ascending next →
      Ascending (.leaf name isFile next)
  | branch {name : Name} {inside next : Listing} :
      (∀ other ∈ next.names, Text.bytes name < Text.bytes other) → Ascending inside →
      Ascending next → Ascending (.branch name inside next)

/-- An entry comes before the entries behind it in its directory and all that is inside these. -/
theorem precedes_of_mem_entries {next : Listing} {name : Name}
    (smaller : ∀ other ∈ next.names, Text.bytes name < Text.bytes other) {above : List Name}
    (below : List Name) {s : Selected} (h : s ∈ next.entries above) :
    Precedes (above ++ name :: below) s.path := by
  obtain ⟨other, beyond, inside, eq⟩ := exists_path_of_mem_entries h
  rw [eq]
  exact .beside above (smaller other inside) below beyond

/-- The entries of a listing ascend, those inside a directory in their places among the others. -/
theorem pairwise_entries {listing : Listing} (ascending : listing.Ascending)
    (above : List Name) :
    (listing.entries above).Pairwise fun s t => Precedes s.path t.path := by
  induction ascending generalizing above with
  | done => exact .nil
  | leaf smaller _ ih =>
      exact .cons (fun s h => precedes_of_mem_entries smaller [] h) (ih above)
  | @branch name inside next smaller _ _ inner ih =>
      refine .cons (fun s h => ?_) (List.pairwise_append.mpr ⟨inner _, ih above, ?_⟩)
      · rcases List.mem_append.mp h with h | h
        · obtain ⟨other, below, _, eq⟩ := exists_path_of_mem_entries h
          rw [eq]
          exact .extension _ (List.cons_ne_nil other below)
        · exact precedes_of_mem_entries smaller [] h
      · intro s h t behind
        obtain ⟨other, below, _, eq⟩ := exists_path_of_mem_entries h
        rw [eq, List.append_assoc, List.singleton_append]
        exact precedes_of_mem_entries smaller (other :: below) behind

end Listing

namespace Disk

variable {d : Disk}

/-- The names in a directory ascend. -/
theorem pairwise_namesInside (wf : d.WellFormed) (directory : Place) :
    (d.namesInside directory).Pairwise fun left right => Text.bytes left < Text.bytes right := by
  have sorted : (d.namesInside directory).Pairwise fun left right =>
      (Text.order left right).isLE = true := pairwise_sortBy Text.order _
  refine sorted.imp₂ (fun left right notGreater differ => ?_) (nodup_namesInside wf directory)
  cases compared : Text.order left right with
  | lt => exact Text.order_eq_lt_iff_bytes.mp compared
  | eq => exact absurd (Std.LawfulEqCmp.eq_of_compare compared) differ
  | gt =>
      rw [compared] at notGreater
      cases notGreater

theorem ascending_listNames {followLinks : Bool} {depth : Nat} {above : List Place} {path : Text}
    {here : Place} {names : List Name}
    (sorted : names.Pairwise fun left right => Text.bytes left < Text.bytes right)
    (inside : ∀ above path place, (d.listingTo followLinks depth above path place).Ascending) :
    (d.listNames followLinks depth above path here names).Ascending := by
  induction names with
  | nil => exact .done
  | cons name rest ih =>
      obtain ⟨first, sorted⟩ := List.pairwise_cons.mp sorted
      have others := ih sorted
      have smaller : ∀ other ∈ (d.listNames followLinks depth above path here rest).names,
          Text.bytes name < Text.bytes other :=
        fun other listed => first other ((names_listNames_sublist rest).subset listed)
      rw [listNames, List.foldr_cons]
      split
      · exact others
      · exact .leaf smaller others
      · exact .leaf smaller others
      · exact .branch smaller (inside _ _ _) others

theorem ascending_listingTo (wf : d.WellFormed) (followLinks : Bool) (depth : Nat)
    (above : List Place) (path : Text) (here : Place) :
    (d.listingTo followLinks depth above path here).Ascending := by
  induction depth generalizing above path here with
  | zero => exact .done
  | succ depth ih =>
      rw [listingTo_succ]
      exact ascending_listNames (pairwise_namesInside wf here) ih

theorem ascending_listing (wf : d.WellFormed) (followLinks : Bool) (root : Text) :
    (d.listing followLinks root).Ascending := by
  rw [listing]
  split
  · exact ascending_listingTo wf followLinks _ _ _ _
  · exact .done

end Disk

namespace Query

/-- Whatever the root is, a query finds its entries in ascending order. -/
theorem pairwise_run {d : Disk} (wf : d.WellFormed) (q : Query) (followLinks : Bool) :
    (q.run d followLinks).Pairwise fun f g =>
      Precedes (segments f.relative) (segments g.relative) := by
  rw [run]
  cases q.kind with
  | missing => exact .nil
  | file =>
      dsimp only
      rw [singleFile]
      split
      · exact List.pairwise_singleton _ _
      · exact .nil
  | directory =>
      have wellFormed := Disk.wellFormed_listing wf followLinks q.root
      have ascending := Listing.pairwise_entries (Disk.ascending_listing wf followLinks q.root) []
      dsimp only
      rw [found_eq_map_filter, List.pairwise_map]
      refine (ascending.filter q.patterns.keeps).imp_of_mem fun {s t} sIn tIn before => ?_
      rw [segments_relative_below wellFormed q.root (List.mem_filter.mp sIn).1,
        segments_relative_below wellFormed q.root (List.mem_filter.mp tIn).1]
      exact before

end Query

end FileSelect
