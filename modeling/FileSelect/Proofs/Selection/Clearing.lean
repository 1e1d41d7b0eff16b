import FileSelect.Proofs.Selection.Delete
import FileSelect.Selection.Transfer

/-!
# Clearing emptied directories

The directories that a move leaves behind are removed as far as they are empty. Nothing
but them is removed, and the outcome is that of their deletion.
-/

namespace FileSelect.Selection

variable {d e : Disk} {gone : Place → Prop}

theorem removeEmpty_cons (m : Member) (rest : List Member) (d : Disk) :
    removeEmpty (m :: rest) d = removeEmpty rest ((d.removeDirectory m.path).toOption.getD d) := rfl

/-- On a disk with less on it, a path leads to no other directory. -/
theorem place_eq_of_removeDirectory (lacks : d.Lacks gone e) {path : Text} {place other : Place}
    {node : Node} (led : d.look .keep path = .ok (place, node)) (names : e.Names path other) :
    other = place := by
  obtain ⟨_, there⟩ := names.look
  rcases lacks.look_or (by decide) led with same | missing
  · cases same.symm.trans there
    rfl
  · cases missing.symm.trans there

/-- By the directories that are left: each of them is taken away or stays. -/
theorem exists_lacks_removeEmpty {P : Place → Prop} {directories : List Member}
    (named : ∀ m ∈ directories, P m.place ∧ ∃ node, d.look .keep m.path = .ok (m.place, node))
    (wf : e.WellFormed) (lacks : d.Lacks gone e) (inside : ∀ place, gone place → P place) :
    (removeEmpty directories e).WellFormed ∧
      ∃ gone, d.Lacks gone (removeEmpty directories e) ∧ ∀ place, gone place → P place := by
  induction directories generalizing e gone with
  | nil => exact ⟨wf, gone, lacks, inside⟩
  | cons m rest ih =>
      obtain ⟨⟨chosen, node, led⟩, named⟩ := List.forall_mem_cons.mp named
      rw [removeEmpty_cons]
      cases removed : e.removeDirectory m.path with
      | error fault => exact ih named wf lacks inside
      | ok f =>
          obtain ⟨place, names, _, vacant, rfl⟩ := Disk.exists_of_removeDirectory removed
          obtain rfl := place_eq_of_removeDirectory lacks led names
          have wf := wf.erase names.ne_nil (Disk.namesInside_eq_nil_iff.mp vacant)
          refine ih named wf (lacks.trans (.erase e names.ne_nil)) fun query was => ?_
          exact was.elim (inside query) fun same => same ▸ chosen

/-- Directories are removed in a row as a deletion removes them. -/
theorem removeEmpty_eq_deleteIn {directories : List Member}
    (led : ∀ m ∈ directories, ∃ place, d.look .keep m.path = .ok (place, .directory))
    (lacks : d.Lacks gone e) : removeEmpty directories e = (deleteIn directories e).2 := by
  induction directories generalizing e gone with
  | nil => rfl
  | cons m rest ih =>
      obtain ⟨⟨place, there⟩, led⟩ := List.forall_mem_cons.mp led
      rw [removeEmpty_cons, deleteIn]
      rcases lacks.look_or (by decide) there with there | missing
      · have same : e.remove m.path = e.removeDirectory m.path := by rw [Disk.remove, there]
        rw [same]
        cases removed : e.removeDirectory m.path with
        | error fault => exact ih led lacks
        | ok f =>
            obtain ⟨_, names, _, _, rfl⟩ := Disk.exists_of_removeDirectory removed
            exact ih led (lacks.trans (.erase e names.ne_nil))
      · rw [Disk.remove_of_missing missing]
        cases removed : e.removeDirectory m.path with
        | error fault => exact ih led lacks
        | ok f =>
            obtain ⟨_, names, _⟩ := Disk.exists_of_removeDirectory removed
            obtain ⟨_, there⟩ := names.look
            cases missing.symm.trans there

theorem removeEmpty_eq_delete {directories : List Member}
    (led : ∀ m ∈ directories, ∃ place, d.look .keep m.path = .ok (place, .directory))
    (settings : Settings) :
    removeEmpty (sortBy Member.deepestFirst directories) d =
      (delete ⟨directories, settings⟩ d).2 :=
  removeEmpty_eq_deleteIn (fun m inside => led m (mem_sortBy.mp inside)) (.refl d)

end FileSelect.Selection
