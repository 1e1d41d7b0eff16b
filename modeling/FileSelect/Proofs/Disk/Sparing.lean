import FileSelect.Proofs.Disk.Making
import FileSelect.Proofs.Disk.Writing

/-!
# What a change spares

The changes that copying is made of remove nothing, and they write only to where certain
paths lead. Since a path that leads somewhere leads there ever after, this can be read
off the last disk: a file that none of the paths leads to then has its old content.
-/

namespace FileSelect.Disk

/-! ## Paths on a disk that keeps another -/

namespace Keeps

variable {d e : Disk} {last : LastName} {path : Text} {place : Place}

theorem resolve (keeps : d.Keeps e) (old : last ≠ .create) (led : d.resolve last path = .ok place) :
    e.resolve last path = .ok place := by
  have ne := ne_nil_of_resolve led
  rw [resolve_eq ne] at led ⊢
  rw [startOf, keeps.working]
  exact ((leads_of_trace led).keeps keeps old).trace_eq

theorem isDirectory (keeps : d.Keeps e) (directory : d.isDirectory path = true) :
    e.isDirectory path = true := by
  rw [Disk.isDirectory] at directory
  split at directory
  case h_1 place led =>
    obtain ⟨resolved, stands⟩ := look_eq_ok_iff.mp led
    have later : e.look .follow path = .ok (place, .directory) :=
      look_eq_ok_iff.mpr ⟨keeps.resolve (by decide) resolved, keeps.directory stands⟩
    rw [Disk.isDirectory, later]
  case h_2 => cases directory

end Keeps

/-! ## Sparing -/

/-- The disk that is left in the end, also after a failure. -/
def final {ε α : Type} : EStateM.Result ε Disk α → Disk
  | .ok _ d => d
  | .error _ d => d

/-- A directory is tried on the disk as it is, and again after those above it. -/
theorem exists_final_makeUpwards_cons (d : Disk) (path : Text) (upwards : List Text) : ∃ f,
    (f = d ∨ f = final (makeUpwards upwards d)) ∧
      (final (makeUpwards (path :: upwards) d) = f ∨
        f.makeDirectory path = .ok (final (makeUpwards (path :: upwards) d))) := by
  rw [makeUpwards]
  by_cases empty : path = []
  · rw [if_pos empty]
    exact ⟨d, .inl rfl, .inl rfl⟩
  rw [if_neg empty]
  cases first : d.makeDirectory path with
  | ok e => exact ⟨d, .inl rfl, .inr first⟩
  | error fault =>
      dsimp only
      by_cases missing : fault = .notFound
      · rw [if_pos missing]
        cases makeUpwards upwards d with
        | error fault e => exact ⟨e, .inr rfl, .inl rfl⟩
        | ok _ e =>
            dsimp only
            cases again : e.makeDirectory path with
            | ok f => exact ⟨e, .inr rfl, .inr again⟩
            | error fault =>
                dsimp only
                split <;> exact ⟨e, .inr rfl, .inl rfl⟩
      · rw [if_neg missing]
        split <;> exact ⟨d, .inl rfl, .inl rfl⟩

/-- Nothing is removed, and a file keeps its content unless one of the targets leads to
it in the end. -/
structure Spares (d : Disk) (targets : Text → Prop) (e : Disk) : Prop where
  wellFormed : e.WellFormed
  keeps : d.Keeps e
  content : ∀ {place content}, d.find? place = some (.file content) →
    (∀ path, targets path → e.resolve .follow path ≠ .ok place) →
    e.find? place = some (.file content)

namespace Spares

variable {d e f : Disk} {targets others : Text → Prop}

theorem refl (wf : d.WellFormed) : d.Spares targets d := ⟨wf, .refl d, fun found _ => found⟩

theorem trans (first : d.Spares targets e) (second : e.Spares targets f) :
    d.Spares targets f := by
  refine ⟨second.wellFormed, first.keeps.trans second.keeps, fun found spared => ?_⟩
  refine second.content (first.content found fun path target led => ?_) spared
  exact spared path target (second.keeps.resolve (by decide) led)

theorem mono (spares : d.Spares targets e) (more : ∀ path, targets path → others path) :
    d.Spares others e :=
  ⟨spares.wellFormed, spares.keeps, fun found spared =>
    spares.content found fun path target => spared path (more path target)⟩

/-- A file that none of the targets leads to in the end is read as before. -/
theorem readContent (spares : d.Spares targets e) {path : Text} {content : Content}
    (read : d.readContent path = .ok content)
    (apart : ∀ target, targets target → e.resolve .follow target ≠ e.resolve .follow path) :
    e.readContent path = .ok content := by
  obtain ⟨place, led⟩ := readContent_eq_ok_iff.mp read
  obtain ⟨resolved, found⟩ := look_eq_ok_iff.mp led
  have later := spares.keeps.resolve (by decide) resolved
  have kept := spares.content found fun target hit same => apart target hit (same.trans later.symm)
  exact readContent_eq_ok_iff.mpr ⟨place, look_eq_ok_iff.mpr ⟨later, kept⟩⟩

/-! ## Directories -/

theorem makeDirectory (wf : d.WellFormed) {path : Text} (made : d.makeDirectory path = .ok e) :
    d.Spares targets e := by
  obtain ⟨_, name, above, _, named, _, stands, free, rfl⟩ := exists_of_makeDirectory made
  refine ⟨wf.put_free above name named stands free .directory, keeps_put_directory free,
    fun {place content} found _ => ?_⟩
  have other : place ≠ above ++ [name] := by
    rintro rfl
    rw [free] at found
    cases found
  rw [find?_put d (List.concat_ne_nil name above), if_neg other, found]

/-- Directories that have been made stay, also when one of them could not be made. -/
theorem makeUpwards (wf : d.WellFormed) (paths : List Text) :
    d.Spares targets (final (Disk.makeUpwards paths d)) := by
  induction paths generalizing d with
  | nil => exact .refl wf
  | cons path upwards ih =>
      obtain ⟨f, tried, step⟩ := exists_final_makeUpwards_cons d path upwards
      have upper : d.Spares targets f := by
        rcases tried with rfl | rfl
        · exact .refl wf
        · exact ih wf
      rcases step with same | made
      · rwa [same]
      · exact upper.trans (makeDirectory upper.wellFormed made)

end Spares

/-! ## Files -/

section File

variable {d : Disk} {path : Text} {place : Place}

theorem not_link_of_resolve (wf : d.WellFormed) {last : LastName} (followed : last ≠ .keep)
    (led : d.resolve last path = .ok place) (target : Text) :
    d.find? place ≠ some (.link target) := by
  have ne := ne_nil_of_resolve led
  rw [resolve_eq ne] at led
  have leads := leads_of_trace led
  refine leads.not_link wf followed (fun target link => ?_) target
  obtain ⟨step, rest, eq⟩ := List.exists_cons_of_ne_nil (Step.ofPath_ne_nil ne)
  rw [eq] at leads
  rw [leads.stands] at link
  cases link

theorem exists_slot_of_file (wf : d.WellFormed) {old : Content}
    (found : d.find? place = some (.file old)) : ∃ above name,
    place = above ++ [name] ∧ IsEntryName name ∧ d.find? above = some .directory := by
  rcases List.eq_nil_or_concat' place with rfl | ⟨above, name, rfl⟩
  · cases found
  · exact ⟨above, name, rfl, wf.find?_above found⟩

theorem keeps_put_file {above : Place} {name : Name}
    (file_or_free : ∀ node, d.find? (above ++ [name]) = some node → ∃ old, node = .file old)
    (content : Content) : d.Keeps (d.put (above ++ [name]) (.file content)) := by
  refine .put (List.concat_ne_nil name above) fun node found => ?_
  obtain ⟨old, rfl⟩ := file_or_free node found
  exact .file old content

/-- When the path leads to a file afterwards, nothing else than this file has changed. -/
theorem spares_put_file (wf : d.WellFormed) {above : Place} {name : Name}
    (named : IsEntryName name) (stands : d.find? above = some .directory)
    (file_or_free : ∀ node, d.find? (above ++ [name]) = some node → ∃ old, node = .file old)
    {content : Content}
    (later : (d.put (above ++ [name]) (.file content)).resolve .follow path =
      .ok (above ++ [name])) :
    d.Spares (fun target => target = path) (d.put (above ++ [name]) (.file content)) := by
  have ne := List.concat_ne_nil name above
  refine ⟨wf.put named stands (fun directory => ?_) _, keeps_put_file file_or_free content,
    fun {other old} found spared => ?_⟩
  · obtain ⟨old, same⟩ := file_or_free _ directory
    cases same
  · rw [find?_put d ne, if_neg]
    · exact found
    · rintro rfl
      exact spared path rfl later

/-- The file that a path leads to may be written again. -/
theorem spares_overwrite (wf : d.WellFormed) {old : Content}
    (found : d.find? place = some (.file old)) (led : d.resolve .follow path = .ok place)
    (content : Content) :
    d.Spares (fun target => target = path) (d.put place (.file content)) := by
  obtain ⟨above, name, rfl, named, stands⟩ := exists_slot_of_file wf found
  have file_or_free : ∀ node, d.find? (above ++ [name]) = some node → ∃ old, node = .file old := by
    intro node there
    rw [found] at there
    exact ⟨old, (Option.some.inj there).symm⟩
  exact spares_put_file wf named stands file_or_free
    ((keeps_put_file file_or_free content).resolve (by decide) led)

/-- The place that is written is where the path leads to afterwards. -/
theorem spares_write (wf : d.WellFormed) (writes : d.writePlace path = .ok place)
    (content : Content) :
    d.Spares (fun target => target = path) (d.put place (.file content)) ∧
      (d.put place (.file content)).find? place = some (.file content) ∧
      (d.put place (.file content)).resolve .follow path = .ok place := by
  obtain ⟨_, _, led, notDirectory⟩ := writePlace_eq_ok_iff.mp writes
  have file_or_free : ∀ node, d.find? place = some node → ∃ old, node = .file old := by
    intro node found
    cases node with
    | file old => exact ⟨old, rfl⟩
    | link target => exact absurd found (not_link_of_resolve wf (by decide) led target)
    | directory => exact absurd found notDirectory
  have slot : ∃ above name, place = above ++ [name] ∧ IsEntryName name ∧
      d.find? above = some .directory := by
    cases found : d.find? place with
    | none => exact exists_slot_of_resolve wf led found
    | some node =>
        obtain ⟨old, rfl⟩ := file_or_free node found
        exact exists_slot_of_file wf found
  obtain ⟨above, name, rfl, named, stands⟩ := slot
  have there : (d.put (above ++ [name]) (.file content)).find? (above ++ [name]) =
      some (.file content) := by
    rw [find?_put d (List.concat_ne_nil name above), if_pos rfl]
  have later : (d.put (above ++ [name]) (.file content)).resolve .follow path =
      .ok (above ++ [name]) := by
    by_cases empty : path = []
    · subst empty
      cases led
    · rw [resolve_eq empty] at led ⊢
      exact ((leads_of_trace led).created (keeps_put_file file_or_free content) there).trace_eq
  exact ⟨spares_put_file wf named stands file_or_free later, there, later⟩

theorem spares_copyFile (wf : d.WellFormed) {source target : Text} {e : Disk}
    (copied : d.copyFile source target = .ok e) : d.Spares (fun path => path = target) e := by
  obtain ⟨_, _, place, _, writes, rfl⟩ := copyFile_eq_ok_iff.mp copied
  exact (spares_write wf writes _).1

end File

end FileSelect.Disk
