import FileSelect.Proofs.Text.Segments
import FileSelect.Scan.Select
import Mathlib.Data.List.Nodup

/-!
# Entries of a listing

The entries of a listing are told apart by the names that lead to them, as long as the
entries of one directory have different names. Written as a path, the names stay apart.
-/

namespace FileSelect.Listing

/-- The names of the entries directly inside the directory. -/
def names : Listing → List Name
  | .done => []
  | .leaf name _ next => name :: names next
  | .branch name _ next => name :: names next

/-- Entries of one directory have different names, all of which can be written in a path. -/
inductive WellFormed : Listing → Prop
  | done : WellFormed .done
  | leaf {name : Name} {isFile : Bool} {next : Listing} :
      IsName name → name ∉ next.names → WellFormed next → WellFormed (.leaf name isFile next)
  | branch {name : Name} {inside next : Listing} :
      IsName name → name ∉ next.names → WellFormed inside → WellFormed next →
      WellFormed (.branch name inside next)

/-- Every entry of the listing, a directory in front of the entries below it. -/
def entries (above : List Name) : Listing → List Selected
  | .done => []
  | .leaf name _ next => ⟨above ++ [name], false⟩ :: entries above next
  | .branch name inside next =>
      ⟨above ++ [name], true⟩ :: (entries (above ++ [name]) inside ++ entries above next)

/-- An entry is reached through one of the entries directly inside the directory. -/
theorem exists_path_of_mem_entries {listing : Listing} {above : List Name} {s : Selected}
    (h : s ∈ listing.entries above) :
    ∃ name below, name ∈ listing.names ∧ s.path = above ++ name :: below := by
  induction listing generalizing above with
  | done => cases h
  | leaf name isFile next ih =>
      rcases List.mem_cons.mp h with rfl | h
      · exact ⟨name, [], List.mem_cons_self, rfl⟩
      · obtain ⟨other, below, inside, eq⟩ := ih h
        exact ⟨other, below, List.mem_cons_of_mem name inside, eq⟩
  | branch name inside next inner ih =>
      rcases List.mem_cons.mp h with rfl | h
      · exact ⟨name, [], List.mem_cons_self, rfl⟩
      · rcases List.mem_append.mp h with h | h
        · obtain ⟨other, below, _, eq⟩ := inner h
          refine ⟨name, other :: below, List.mem_cons_self, ?_⟩
          rw [eq, List.append_assoc, List.singleton_append]
        · obtain ⟨other, below, inside, eq⟩ := ih h
          exact ⟨other, below, List.mem_cons_of_mem name inside, eq⟩

/-- An entry whose name is not taken among others is not reached through them. -/
theorem path_ne_of_mem_entries {listing : Listing} {above below : List Name} {name : Name}
    (fresh : name ∉ listing.names) {s : Selected} (h : s ∈ listing.entries above) :
    above ++ name :: below ≠ s.path := by
  obtain ⟨other, rest, taken, eq⟩ := exists_path_of_mem_entries h
  rw [eq]
  intro same
  injection List.append_cancel_left same with same _
  exact fresh (same ▸ taken)

theorem isName_of_mem_entries {listing : Listing} (wellFormed : listing.WellFormed)
    {above : List Name} (aboveNames : ∀ name ∈ above, IsName name) {s : Selected}
    (h : s ∈ listing.entries above) : ∀ name ∈ s.path, IsName name := by
  have extended : ∀ name, IsName name → ∀ other ∈ above ++ [name], IsName other := fun name named =>
    List.forall_mem_append.mpr ⟨aboveNames, List.forall_mem_singleton.mpr named⟩
  induction wellFormed generalizing above with
  | done => cases h
  | leaf named _ _ ih =>
      rcases List.mem_cons.mp h with rfl | h
      · exact extended _ named
      · exact ih aboveNames h extended
  | @branch name inside next named _ _ _ inner ih =>
      rcases List.mem_cons.mp h with rfl | h
      · exact extended _ named
      · rcases List.mem_append.mp h with h | h
        · refine inner (extended name named) h fun other otherNamed => ?_
          exact List.forall_mem_append.mpr
            ⟨extended name named, List.forall_mem_singleton.mpr otherNamed⟩
        · exact ih aboveNames h extended

/-- The files are entries. -/
theorem exists_entry_of_mem_files {listing : Listing} {above path : List Name}
    (h : path ∈ listing.files above) : ∃ s ∈ listing.entries above, s.path = path := by
  induction listing generalizing above with
  | done => cases h
  | leaf name isFile next ih =>
      rcases List.mem_append.mp h with h | h
      · split at h
        case isTrue => exact ⟨⟨_, false⟩, List.mem_cons_self, (List.mem_singleton.mp h).symm⟩
        case isFalse => cases h
      · obtain ⟨s, inside, same⟩ := ih h
        exact ⟨s, List.mem_cons_of_mem _ inside, same⟩
  | branch name inside next inner ih =>
      rcases List.mem_append.mp h with h | h
      · obtain ⟨s, below, same⟩ := inner h
        exact ⟨s, List.mem_cons_of_mem _ (List.mem_append_left _ below), same⟩
      · obtain ⟨s, beside, same⟩ := ih h
        exact ⟨s, List.mem_cons_of_mem _ (List.mem_append_right _ beside), same⟩

/-- No two entries are reached through the same names. -/
theorem nodup_paths {listing : Listing} (wellFormed : listing.WellFormed) (above : List Name) :
    ((listing.entries above).map Selected.path).Nodup := by
  induction wellFormed generalizing above with
  | done => exact List.nodup_nil
  | leaf _ fresh _ ih =>
      refine List.nodup_cons.mpr ⟨?_, ih above⟩
      intro twice
      obtain ⟨s, h, same⟩ := List.mem_map.mp twice
      exact path_ne_of_mem_entries fresh h same.symm
  | @branch name inside next _ fresh _ _ inner ih =>
      rw [entries, List.map_cons, List.map_append]
      refine List.nodup_cons.mpr ⟨?_, List.nodup_append.mpr ⟨inner _, ih above, ?_⟩⟩
      · intro twice
        rcases List.mem_append.mp twice with twice | twice
        · obtain ⟨s, h, same⟩ := List.mem_map.mp twice
          obtain ⟨other, rest, _, eq⟩ := exists_path_of_mem_entries h
          rw [eq] at same
          exact List.cons_ne_nil other rest (List.append_right_eq_self.mp same)
        · obtain ⟨s, h, same⟩ := List.mem_map.mp twice
          exact path_ne_of_mem_entries fresh h same.symm
      · intro path below other beside same
        obtain ⟨s, h, rfl⟩ := List.mem_map.mp below
        obtain ⟨t, k, rfl⟩ := List.mem_map.mp beside
        obtain ⟨first, rest, _, eq⟩ := exists_path_of_mem_entries h
        rw [eq, List.append_assoc, List.singleton_append] at same
        exact path_ne_of_mem_entries fresh k same

/-- The written paths of the entries are different, too. -/
theorem nodup_written_paths {listing : Listing} (wellFormed : listing.WellFormed) :
    ((listing.entries []).map fun s => joinSegments s.path).Nodup := by
  have written : ((listing.entries []).map fun s => joinSegments s.path) =
      ((listing.entries []).map Selected.path).map joinSegments := by
    rw [List.map_map]
    rfl
  rw [written]
  refine List.Nodup.map_on ?_ (nodup_paths wellFormed [])
  intro left leftIn right rightIn same
  obtain ⟨s, h, rfl⟩ := List.mem_map.mp leftIn
  obtain ⟨t, k, rfl⟩ := List.mem_map.mp rightIn
  have noNames := List.forall_mem_nil IsName
  exact joinSegments_injective (isName_of_mem_entries wellFormed noNames h)
    (isName_of_mem_entries wellFormed noNames k) same

end FileSelect.Listing
