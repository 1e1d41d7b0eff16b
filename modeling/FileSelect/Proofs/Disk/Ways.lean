import FileSelect.Proofs.Disk.Lacking

/-!
# Ways

The way to a directory goes through directories and over links alone. So it stays when
files come and go, and what it does not run through may be missing then as before.
-/

namespace FileSelect.Disk

/-- Directories and links stay what they are; files may come and go. -/
structure KeepsWays (d e : Disk) : Prop where
  working : e.workingPlace = d.workingPlace
  directory : ∀ {place}, d.find? place = some .directory → e.find? place = some .directory
  link : ∀ {place target}, d.find? place = some (.link target) →
    e.find? place = some (.link target)

theorem Keeps.keepsWays {d e : Disk} (keeps : d.Keeps e) : d.KeepsWays e :=
  ⟨keeps.working, keeps.directory, keeps.link⟩

theorem Lacks.keepsWays {d e : Disk} {gone : Place → Prop} (lacks : d.Lacks gone e)
    (files : ∀ place, gone place → ∃ content, d.find? place = some (.file content)) :
    d.KeepsWays e := by
  have left : ∀ {place node}, d.find? place = some node → (∀ content, node ≠ .file content) →
      e.find? place = some node := by
    intro place node found other
    refine (lacks.rest fun was => ?_).trans found
    obtain ⟨content, file⟩ := files place was
    exact other content (Option.some.inj (found.symm.trans file))
  exact ⟨lacks.working, fun found => left found (fun _ same => nomatch same),
    fun found => left found (fun _ same => nomatch same)⟩

namespace KeepsWays

variable {d e : Disk} (ways : d.KeepsWays e)

include ways

theorem trans {f : Disk} (later : e.KeepsWays f) : d.KeepsWays f :=
  ⟨later.working.trans ways.working, fun found => later.directory (ways.directory found),
    fun found => later.link (ways.link found)⟩

theorem erase {place : Place} (ne : place ≠ []) : (d.erase place).KeepsWays (e.erase place) := by
  have left : ∀ {query node}, (d.erase place).find? query = some node →
      (d.find? query = some node → e.find? query = some node) →
      (e.erase place).find? query = some node := by
    intro query node found keeps
    rw [find?_erase d ne] at found
    rw [find?_erase e ne]
    split at found
    case isTrue => cases found
    case isFalse other => rw [if_neg other, keeps found]
  exact ⟨ways.working, fun found => left found ways.directory, fun found => left found ways.link⟩

/-- Nothing but a directory is entered on the way to a directory. -/
theorem leads {last : LastName} {budget : Nat} {here place : Place} {steps : List Step}
    (old : last ≠ .create) (leads : Leads d last budget here steps place)
    (stands : d.find? place = some .directory) : Leads e last budget here steps place := by
  induction leads with
  | done => exact .done
  | stay inside _ ih => exact .stay (ways.directory inside) (ih stands)
  | up inside _ ih => exact .up (ways.directory inside) (ih stands)
  | @enter budget here place name node rest inside found plain inner ih =>
      have next : d.find? (here ++ [name]) = some .directory := by
        cases inner with
        | done => exact stands
        | _ => assumption
      exact .enter (ways.directory inside) (ways.directory next) Node.directory_ne_link
        (ih stands)
  | free _ _ create => exact absurd create old
  | keep _ found _ => exact nomatch found.symm.trans stands
  | link inside found followed ne _ ih =>
      exact .link (ways.directory inside) (ways.link found) followed ne (ih stands)

variable {path : Text} {place : Place}

theorem leadsInto (into : d.LeadsInto path place) : e.LeadsInto path place := by
  refine ⟨?_, ways.directory into.stands⟩
  rw [startOf, ways.working]
  exact (ways.leads (by decide) (leads_of_trace into.trace_eq) into.stands).trace_eq

theorem isDirectory (directory : d.isDirectory path = true) : e.isDirectory path = true := by
  have ne : path ≠ [] := by
    rintro rfl
    cases directory
  obtain ⟨_, into⟩ := exists_leadsInto_of_isDirectory directory
  exact (ways.leadsInto into).isDirectory ne

end KeepsWays

/-! ## What is run through -/

section RunsThrough

variable {d e : Disk} {path : Text} {place query : Place}
variable (into : d.LeadsInto path place) (ne : path ≠ []) (top : query ≠ []) (other : query ≠ place)
variable (beside : ¬d.RunsThrough .follow path query)

include into ne top other beside

/-- What a path to a directory does not run through may be missing. -/
theorem LeadsInto.erase : (d.erase query).LeadsInto path place := by
  refine leadsInto_of_look (look_eq_ok_iff.mpr ⟨?_, ?_⟩)
  · rw [not_not.mp beside, (look_eq_ok_iff.mp (into.look ne)).1]
  · rw [find?_erase d top, if_neg other.symm, into.stands]

theorem KeepsWays.not_runsThrough (ways : d.KeepsWays e) :
    ¬e.RunsThrough .follow path query := by
  have later := (ways.erase top).leadsInto (into.erase ne top other beside)
  have before := ways.leadsInto into
  exact fun runs => runs
    ((look_eq_ok_iff.mp (later.look ne)).1.trans (look_eq_ok_iff.mp (before.look ne)).1.symm)

end RunsThrough

/-- Where something is missing, and no link is below it, steps go neither in nor out. -/
theorem Leads.isPrefix_iff {d : Disk} {last : LastName} {budget : Nat} {here place query : Place}
    {steps : List Step} (missing : d.find? query = none)
    (plain : ∀ names target, d.find? (query ++ names) ≠ some (.link target))
    (old : last ≠ .create) (leads : Leads d last budget here steps place) :
    query <+: here ↔ query <+: place := by
  have entered : ∀ {here name node}, d.find? (here ++ [name]) = some node →
      (query <+: here ++ [name] ↔ query <+: here) := by
    intro here name node found
    rw [List.prefix_concat_iff, or_iff_right]
    rintro rfl
    cases missing.symm.trans found
  induction leads with
  | done => rfl
  | stay _ _ ih => exact ih
  | @up _ here _ _ stands _ ih =>
      refine Iff.trans ?_ ih
      rcases List.eq_nil_or_concat' here with rfl | ⟨above, name, rfl⟩
      · rfl
      · rw [List.dropLast_concat]
        exact entered stands
  | enter _ found _ _ ih => exact (entered found).symm.trans ih
  | free _ _ create => exact absurd create old
  | keep _ found _ => exact (entered found).symm
  | @link _ here _ name target _ _ found _ _ _ ih =>
      have beside : ¬query <+: here := by
        rintro ⟨more, rfl⟩
        rw [List.append_assoc] at found
        exact plain _ _ found
      refine (iff_of_false beside ?_).trans ih
      rw [startFrom]
      split
      · intro top
        obtain rfl := List.prefix_nil.mp top
        cases missing
      · exact beside

/-- A path below a directory runs, behind the path to the directory, only through what is
on the way down. -/
theorem LeadsInto.isPrefix_of_runsThrough {d : Disk} {path : Text} {place : Place}
    {names others : List Name} {node : Node} (into : d.LeadsInto path place)
    (wf : d.WellFormed) (ne : names ≠ []) (found : d.find? (place ++ names) = some node)
    (plain : ∀ target, node ≠ .link target) (top : others ≠ [])
    (free : (d.erase (place ++ others)).LeadsInto path place)
    (runs : d.RunsThrough .keep (Path.append path (joinSegments names)) (place ++ others)) :
    others <+: names := by
  by_contra beside
  have entry := fun name inside =>
    wf.isEntryName_of_find? found name (List.mem_append_right place inside)
  have isName := fun name inside => (entry name inside).toIsName
  obtain ⟨_, before⟩ := into.exists_resolve_append .keep ne isName
  obtain ⟨left, after⟩ := free.exists_resolve_append .keep ne isName
  have down : Step.up ∉ names.map Step.ofSegment := by
    intro upward
    obtain ⟨name, inside, same⟩ := List.mem_map.mp upward
    rw [(entry name inside).ofSegment_eq] at same
    cases same
  have leads : Leads d .keep 0 place (names.map Step.ofSegment) (place ++ names) :=
    leads_names wf found plain
  have later := leads.lacks (.erase d (List.append_ne_nil_of_right_ne_nil place top)) (by decide)
    down fun query onTheWay same => beside
      ((List.prefix_append_right_inj place).mp (same ▸ onTheWay))
  exact runs (by rw [after, before, (later.raise left).trace_eq, trace_names wf found plain])

end FileSelect.Disk
