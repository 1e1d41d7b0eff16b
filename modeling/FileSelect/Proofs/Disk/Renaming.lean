import FileSelect.Proofs.Disk.Lacking
import FileSelect.Proofs.Disk.Writing

/-!
# Renaming a file

A file that gets a free name stands there with its content, and nowhere else. It is the
one entry that is changed, since nothing is below a file.
-/

namespace FileSelect.Disk

theorem lookup_cons_eq (key : Place) (node : Node) (rest : List (Place × Node)) (query : Place) :
    ((key, node) :: rest).lookup query =
      if query = key then some node else rest.lookup query := by
  rw [List.lookup_cons]
  by_cases same : query = key
  · rw [if_pos same, beq_iff_eq.mpr same]
  · rw [if_neg same, beq_eq_false_iff_ne.mpr same]

/-- One key of a table is replaced by another that is not in it. -/
theorem lookup_rekey {nodes : List (Place × Node)} {old new : Place}
    (free : ∀ entry ∈ nodes, entry.1 ≠ new) (query : Place) :
    (nodes.map fun entry => if entry.1 = old then (new, entry.2) else entry).lookup query =
      if query = new then nodes.lookup old
      else if query = old then none else nodes.lookup query := by
  induction nodes with
  | nil => simp
  | cons entry rest ih =>
      obtain ⟨key, node⟩ := entry
      obtain ⟨other, free⟩ := List.forall_mem_cons.mp free
      rw [List.map_cons, lookup_cons_eq, lookup_cons_eq]
      by_cases moved : key = old
      · subst moved
        rw [if_pos rfl, lookup_cons_eq, ih free, if_pos rfl]
        split_ifs <;> rfl
      · rw [if_neg moved, lookup_cons_eq, ih free, if_neg (Ne.symm moved)]
        by_cases here : query = key
        · subst here
          rw [if_pos rfl, if_pos rfl, if_neg other, if_neg moved]
        · rw [if_neg here, if_neg here]

theorem WellFormed.key_ne_of_free {d : Disk} (wf : d.WellFormed) {place : Place}
    (free : d.find? place = none) : ∀ entry ∈ d.nodes, entry.1 ≠ place := by
  rintro entry listed rfl
  cases (wf.mem_nodes_iff.mp listed).2.symm.trans free

section Leaf

variable {d : Disk} {old new : Place} {node : Node} (wf : d.WellFormed)
variable (found : d.find? old = some node) (leaf : node ≠ .directory)

include wf found leaf

/-- Nothing is below what is no directory. -/
theorem eq_of_isPrefix_of_leaf {place : Place} {other : Node}
    (there : d.find? place = some other) (below : old <+: place) : place = old := by
  obtain ⟨more, rfl⟩ := below
  by_cases last : more = []
  · rw [last, List.append_nil]
  · exact absurd (Option.some.inj (found.symm.trans (wf.find?_of_append last there))) leaf

theorem nodes_relocate : (d.relocate old new).nodes =
    d.nodes.map fun entry => if entry.1 = old then (new, entry.2) else entry := by
  refine List.map_congr_left fun entry inside => ?_
  by_cases below : old <+: entry.1
  · have same := eq_of_isPrefix_of_leaf wf found leaf (wf.mem_nodes_iff.mp inside).2 below
    rw [if_pos (List.isPrefixOf_iff_prefix.mpr below), if_pos same, same, List.drop_length,
      List.append_nil]
  · have other : entry.1 ≠ old := fun same => below (same ▸ List.prefix_refl _)
    rw [if_neg (fun h => below (List.isPrefixOf_iff_prefix.mp h)), if_neg other]

variable (free : d.find? new = none)

include free

/-- What is renamed stands under its new name, and no more under the old one. -/
theorem lacks_relocate :
    (d.put new node).Lacks (fun place => place = old) (d.relocate old new) := by
  have old_ne : old ≠ [] := by
    rintro rfl
    exact leaf (Option.some.inj found.symm)
  have new_ne : new ≠ [] := by
    rintro rfl
    cases free
  have other : old ≠ new := by
    rintro rfl
    cases found.symm.trans free
  have eq : ∀ query, query ≠ [] → (d.relocate old new).find? query =
      if query = new then some node else if query = old then none else d.find? query := by
    intro query ne
    rw [find?_of_ne_nil _ ne, nodes_relocate wf found leaf, lookup_rekey (wf.key_ne_of_free free),
      ← find?_of_ne_nil d old_ne, found, ← find?_of_ne_nil d ne]
  refine ⟨rfl, fun {place} same => ?_, fun {place} moved => ?_⟩
  · rw [same, eq old old_ne, if_neg other, if_pos rfl]
  · rw [find?_put d new_ne]
    by_cases ne : place = []
    · rw [ne, if_neg new_ne.symm]
      rfl
    · rw [eq place ne, if_neg moved]

theorem wellFormed_relocate {above : Place} {name : Name} (named : IsEntryName name)
    (stands : d.find? above = some .directory) (same : new = above ++ [name]) :
    (d.relocate old new).WellFormed := by
  have lacks := lacks_relocate wf found leaf free
  have new_ne : new ≠ [] := same ▸ List.concat_ne_nil name above
  have kept : ∀ {place}, d.find? place = some .directory →
      (d.relocate old new).find? place = some .directory := by
    intro place there
    rw [lacks.rest, find?_put d new_ne, if_neg]
    · exact there
    · rintro rfl
      cases there.symm.trans free
    · rintro rfl
      exact leaf (Option.some.inj (found.symm.trans there))
  constructor
  · have keys : (d.relocate old new).nodes.map Prod.fst =
        (d.nodes.map Prod.fst).map fun key => if key = old then new else key := by
      rw [nodes_relocate wf found leaf, List.map_map, List.map_map]
      refine List.map_congr_left fun entry _ => ?_
      simp only [Function.comp_apply, apply_ite Prod.fst]
    have unlisted : ∀ key ∈ d.nodes.map Prod.fst, key ≠ new :=
      List.forall_mem_map.mpr (wf.key_ne_of_free free)
    rw [keys]
    refine wf.distinct.map_on fun key keyIn other otherIn equal => ?_
    split_ifs at equal with first second second
    · exact first.trans second.symm
    · exact absurd equal.symm (unlisted other otherIn)
    · exact absurd equal (unlisted key keyIn)
    · exact equal
  · rw [nodes_relocate wf found leaf]
    intro entry inside
    obtain ⟨before, beforeIn, rfl⟩ := List.mem_map.mp inside
    split
    case isTrue => exact ⟨above, name, same, named, kept stands⟩
    case isFalse =>
      obtain ⟨directory, last, eq, entryName, there⟩ := wf.inside before beforeIn
      exact ⟨directory, last, eq, entryName, kept there⟩

end Leaf

/-! ## What a rename does -/

/-- The disk after the entry at `old` has got the place `new`: it was there already, or the
place was free, or what stood there is replaced. -/
inductive Renames (d : Disk) (old new : Place) (node : Node) : Disk → Prop
  | same : old = new → Renames d old new node d
  | free : ¬old <+: new → ¬new <+: old → d.find? new = none →
      Renames d old new node (d.relocate old new)
  /-- It is replaced by an entry of its kind, a directory only when nothing is in it. -/
  | replaced {other : Node} : ¬old <+: new → ¬new <+: old → d.find? new = some other →
      other.isDirectory = node.isDirectory → (other = .directory → d.namesInside new = []) →
      Renames d old new node ((d.erase new).relocate old new)

/-- What is renamed stands in a slot and comes into another one. A slash at the end of a path
asks for a directory. -/
theorem exists_of_rename {d e : Disk} {source target : Text}
    (renamed : d.rename source target = .ok e) : ∃ sourceAbove sourceName above name node,
      d.slot .invalid source = .ok (sourceAbove, sourceName) ∧
      d.slot .invalid target = .ok (above, name) ∧
      d.find? (sourceAbove ++ [sourceName]) = some node ∧
      (Text.endsWith ['/'] source = true ∨ Text.endsWith ['/'] target = true →
        node = .directory) ∧
      d.Renames (sourceAbove ++ [sourceName]) (above ++ [name]) node e := by
  obtain ⟨⟨sourceAbove, sourceName⟩, sourceSlot, renamed⟩ := exists_of_bind_ok renamed
  obtain ⟨⟨above, name⟩, targetSlot, renamed⟩ := exists_of_bind_ok renamed
  dsimp only at renamed
  split at renamed
  case h_1 => cases renamed
  case h_2 node found =>
    split at renamed
    case isTrue => cases renamed
    case isFalse unslashed =>
      have fits : Text.endsWith ['/'] source = true ∨ Text.endsWith ['/'] target = true →
          node = .directory := by
        intro slash
        rw [← Node.isDirectory_iff]
        by_contra file
        exact unslashed (by simp [file, slash])
      refine ⟨sourceAbove, sourceName, above, name, node, sourceSlot, targetSlot, found, fits, ?_⟩
      simp only [List.isPrefixOf_iff_prefix] at renamed
      split_ifs at renamed with same outer inner
      · cases renamed
        exact .same same
      · split at renamed
        case h_1 free =>
          cases renamed
          exact .free outer inner free
        case h_2 other taken =>
          split_ifs at renamed with less more full
          cases renamed
          have kind : other.isDirectory = node.isDirectory := by
            cases directory : node.isDirectory with
            | true => simpa [directory] using less
            | false => simpa [directory] using more
          refine .replaced outer inner taken kind ?_
          rintro rfl
          simpa [Node.isDirectory] using full

/-! ## Files -/

theorem rename_file {d : Disk} (wf : d.WellFormed) {source target : Text}
    {sourceAbove targetAbove : Place} {sourceName targetName : Name}
    (sourceSlot : d.slot .invalid source = .ok (sourceAbove, sourceName))
    (targetSlot : d.slot .invalid target = .ok (targetAbove, targetName))
    (sourceOpen : Text.endsWith ['/'] source = false)
    (targetOpen : Text.endsWith ['/'] target = false) {content : Content}
    (found : d.find? (sourceAbove ++ [sourceName]) = some (.file content))
    (free : d.find? (targetAbove ++ [targetName]) = none) :
    d.rename source target =
      .ok (d.relocate (sourceAbove ++ [sourceName]) (targetAbove ++ [targetName])) := by
  have leaf : Node.file content ≠ .directory := fun same => nomatch same
  obtain ⟨_, _, _, _, stands⟩ := exists_of_slot targetSlot
  have other : sourceAbove ++ [sourceName] ≠ targetAbove ++ [targetName] := by
    intro same
    rw [same, free] at found
    cases found
  -- the new name is in a directory, and the old one is that of a file
  have above : ¬sourceAbove ++ [sourceName] <+: targetAbove ++ [targetName] := by
    intro inside
    have before := (List.prefix_concat_iff.mp inside).resolve_left other
    have same := eq_of_isPrefix_of_leaf wf found leaf stands before
    exact leaf (Option.some.inj (found.symm.trans (same ▸ stands)))
  have below : ¬targetAbove ++ [targetName] <+: sourceAbove ++ [sourceName] := by
    rintro ⟨more, same⟩
    rw [← same] at found
    obtain ⟨node, there⟩ := wf.exists_find?_of_append found
    exact nomatch there.symm.trans free
  rw [rename, sourceSlot, targetSlot]
  simp only [bind, Except.bind, found, free, sourceOpen, targetOpen, Node.isDirectory,
    if_neg other, List.isPrefixOf_iff_prefix, if_neg above, if_neg below]
  rfl

namespace LeadsInto

variable {d : Disk} {path destination : Text} {place target : Place}
variable (source : d.LeadsInto path place) (into : d.LeadsInto destination target)
variable (wf : d.WellFormed)

include source into wf

/-- A file below one directory is moved to a free name below another. -/
theorem exists_moveFile {front others : List Name} {name other : Name} {content : Content}
    (found : d.find? (place ++ (front ++ [name])) = some (.file content))
    (named : IsEntryName other) (stands : d.find? (target ++ others) = some .directory)
    (free : d.find? (target ++ (others ++ [other])) = none) : ∃ e,
    moveFile (Path.append path (joinSegments (front ++ [name])))
      (Path.append destination (joinSegments (others ++ [other]))) d = .ok () e ∧
    e.WellFormed ∧ (d.put (target ++ (others ++ [other])) (.file content)).Lacks
      (fun query => query = place ++ (front ++ [name])) e := by
  rw [← List.append_assoc] at found free
  obtain ⟨entry, inside⟩ := wf.find?_above found
  have leaf : Node.file content ≠ .directory := fun same => nomatch same
  have renamed := rename_file wf (source.slot_append wf inside entry .invalid)
    (into.slot_append wf stands named .invalid)
    (Path.endsWith_slash_append path (List.concat_ne_nil name front)
      (isName_of_mem_concat wf inside entry))
    (Path.endsWith_slash_append destination (List.concat_ne_nil other others)
      (isName_of_mem_concat wf stands named)) found free
  refine ⟨_, by rw [moveFile, renamed], ?_⟩
  rw [← List.append_assoc, ← List.append_assoc]
  exact ⟨wellFormed_relocate wf found leaf free named stands rfl,
    lacks_relocate wf found leaf free⟩

end LeadsInto

end FileSelect.Disk
