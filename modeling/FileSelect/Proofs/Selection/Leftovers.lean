import FileSelect.Proofs.Selection.Delete

/-!
# What a deletion passes over

A removal counts as done when its path leads nowhere. A path that enters a directory and goes
upwards again leads nowhere once the directory is gone, though its place may be elsewhere. So a
deletion that succeeds leaves the members whose paths run through what was taken away before
their turn, and only these.
-/

namespace FileSelect

open Std (ReflCmp OrientedCmp LawfulEqCmp)

namespace Member

variable {m n : Member}

theorem place_ne_of_deepestFirst (before : m.deepestFirst n = .lt) : m.place ≠ n.place := by
  intro same
  have self : m.deepestFirst n = m.deepestFirst m := by
    rw [deepestFirst, deepestFirst, placeText, placeText, same]
  cases before.symm.trans (self.trans ReflCmp.compare_self)

/-- Members at different places are not of the same rank. -/
theorem deepestFirst_ne_eq (named : ∀ name ∈ m.place, IsName name)
    (others : ∀ name ∈ n.place, IsName name) (ne : m.place ≠ n.place) :
    m.deepestFirst n ≠ .eq := by
  intro same
  obtain ⟨-, texts⟩ := Ordering.then_eq_eq.mp same
  have equal : m.placeText = n.placeText := LawfulEqCmp.eq_of_compare texts
  rw [placeText, placeText, Place.text_eq named, Place.text_eq others] at equal
  have read := congrArg segments equal
  rw [segments_append_joinSegments ['/'] named, segments_append_joinSegments ['/'] others] at read
  exact ne (List.append_cancel_left read)

end Member

namespace Selection

/-! ## One removal that succeeds -/

/-- What is gone after the turn of a member: its place as well, unless its path runs through
something that is gone. -/
def GoneWith (d : Disk) (gone : Place → Prop) (m : Member) (place : Place) : Prop :=
  gone place ∨ place = m.place ∧ ∀ query, gone query → ¬d.RunsThrough .keep m.path query

section Run

variable {d e f : Disk} {gone : Place → Prop} {m : Member} {all before after : List Member}
variable (plain : d.IsPlainBelow [])

include plain in
/-- A removal that succeeds has found the member where it was, or nothing. -/
theorem lacks_goneWith (lacks : d.Lacks gone e) {node : Node}
    (led : d.look .follow m.path = .ok (m.place, node)) (removed : e.remove m.path = .ok f) :
    d.Lacks (GoneWith d gone m) f := by
  have kept := Disk.look_keep_of_plain plain led
  obtain ⟨resolved, _⟩ := Disk.look_eq_ok_iff.mp kept
  rcases lacks.look_or (by decide) kept with there | missing
  · obtain ⟨names, rfl⟩ := Disk.names_of_remove there removed
    have whole : ∀ query, gone query → ¬d.RunsThrough .keep m.path query := by
      intro query was runs
      exact nomatch names.resolve_eq.symm.trans (lacks.resolve_lost (by decide) resolved was runs)
    refine (lacks.trans (.erase e names.ne_nil)).congr fun {place _} _ => ?_
    exact or_congr_right (and_iff_left whole).symm
  · rw [Disk.remove_of_missing missing] at removed
    obtain rfl := Except.ok.inj removed
    refine lacks.congr fun {place _} found => (or_iff_left_of_imp ?_).symm
    rintro ⟨rfl, whole⟩
    by_contra left
    have there := lacks.resolve_eq (by decide) resolved whole
    have look := Disk.look_eq_ok_iff.mpr ⟨there, (lacks.rest left).trans found⟩
    exact nomatch look.symm.trans missing

/-! ## Removals in a row -/

/-- When some members have had their turn, everything that is gone was at a place of theirs,
and the places that are left are those of the members whose paths ran through something gone. -/
structure Taken (d : Disk) (before : List Member) (gone : Place → Prop) : Prop where
  placed : ∀ place, gone place → ∃ n ∈ before, n.place = place
  gone_iff : ∀ m ∈ before, gone m.place ↔
    ∀ n ∈ before, n.deepestFirst m = .lt → gone n.place → ¬d.RunsThrough .keep m.path n.place

/-- The turn of the next member. -/
theorem Taken.concat (taken : Taken d before gone)
    (sorted : (before ++ [m]).Pairwise fun n m => n.deepestFirst m = .lt) :
    Taken d (before ++ [m]) (GoneWith d gone m) := by
  obtain ⟨_, _, across⟩ := List.pairwise_append.mp sorted
  have ahead : ∀ n ∈ before, n.deepestFirst m = .lt := fun n inside =>
    across n inside m List.mem_cons_self
  have fresh : ¬gone m.place := by
    intro was
    obtain ⟨n, inside, same⟩ := taken.placed _ was
    exact Member.place_ne_of_deepestFirst (ahead n inside) same
  have old : ∀ n ∈ before, GoneWith d gone m n.place ↔ gone n.place := fun n inside =>
    or_iff_left fun here => Member.place_ne_of_deepestFirst (ahead n inside) here.1
  -- Only the members that had their turn before can come before one of these.
  have passed : ∀ k, m.deepestFirst k ≠ .lt →
      ((∀ n ∈ before ++ [m], n.deepestFirst k = .lt → GoneWith d gone m n.place →
        ¬d.RunsThrough .keep k.path n.place) ↔
      ∀ n ∈ before, n.deepestFirst k = .lt → gone n.place →
        ¬d.RunsThrough .keep k.path n.place) := by
    intro k behind
    rw [List.forall_mem_append, List.forall_mem_singleton, and_iff_left fun first =>
      absurd first behind]
    exact forall₂_congr fun n inside => by rw [old n inside]
  refine ⟨fun place was => ?_, List.forall_mem_append.mpr ⟨fun k inside => ?_,
    List.forall_mem_singleton.mpr ?_⟩⟩
  · rcases was with was | ⟨rfl, _⟩
    · obtain ⟨n, inside, same⟩ := taken.placed place was
      exact ⟨n, List.mem_append_left _ inside, same⟩
    · exact ⟨m, List.mem_append_right _ List.mem_cons_self, rfl⟩
  · have behind : m.deepestFirst k ≠ .lt := fun first =>
      nomatch first.symm.trans (OrientedCmp.gt_of_lt (ahead k inside))
    rw [old k inside, passed k behind, taken.gone_iff k inside]
  · have self : m.deepestFirst m ≠ .lt := fun first =>
      Member.place_ne_of_deepestFirst first rfl
    rw [passed m self, GoneWith, or_iff_right fresh, and_iff_right rfl]
    constructor
    · exact fun whole n _ _ was => whole n.place was
    · intro whole query was
      obtain ⟨n, inside, rfl⟩ := taken.placed query was
      exact whole n inside (ahead n inside) was

include plain in
/-- By the members that are left, when all of them are removed. -/
theorem Taken.deleteIn (taken : Taken d before gone) (lacks : d.Lacks gone e)
    (split : all = before ++ after) (sorted : all.Pairwise fun n m => n.deepestFirst m = .lt)
    (present : ∀ m ∈ after, ∃ node, d.look .follow m.path = .ok (m.place, node))
    (succeeded : (deleteIn after e).1 = true) :
    ∃ gone, Taken d all gone ∧ d.Lacks gone (deleteIn after e).2 := by
  induction after generalizing before gone e with
  | nil =>
      rw [List.append_nil] at split
      exact ⟨gone, split ▸ taken, lacks⟩
  | cons m after ih =>
      obtain ⟨⟨node, led⟩, others⟩ := List.forall_mem_cons.mp present
      rw [List.append_cons] at split
      rw [Selection.deleteIn] at succeeded ⊢
      cases removed : e.remove m.path with
      | error fault =>
          rw [removed] at succeeded
          cases succeeded
      | ok f =>
          rw [removed] at succeeded
          have next := taken.concat (List.pairwise_append.mp (split ▸ sorted)).1
          exact ih next (lacks_goneWith plain lacks led removed) split others succeeded

end Run

/-! ## Deletions that succeed -/

section Delete

variable {d : Disk} {s : Selection} (wf : d.WellFormed) (plain : d.IsPlainBelow [])
variable (distinct : s.places.Nodup)
variable (present : ∀ m ∈ s.members, ∃ node, d.look .follow m.path = .ok (m.place, node))

include wf distinct present

omit plain in
/-- Members at different places have a first and a last. -/
theorem pairwise_deepestFirst : (sortBy Member.deepestFirst s.members).Pairwise
    fun n m => n.deepestFirst m = .lt := by
  have named : ∀ m ∈ s.members, ∀ name ∈ m.place, IsName name := by
    intro m inside name nameIn
    obtain ⟨node, led⟩ := present m inside
    exact (wf.isEntryName_of_find? (Disk.look_eq_ok_iff.mp led).2 name nameIn).toIsName
  have apart : (sortBy Member.deepestFirst s.members).Pairwise fun n m => n.place ≠ m.place := by
    refine List.pairwise_map.mp (((perm_sortBy _ _).map _).nodup_iff.mpr distinct)
  refine ((pairwise_sortBy Member.deepestFirst s.members).and apart).imp_of_mem ?_
  rintro n m nIn mIn ⟨before, ne⟩
  have strict := Member.deepestFirst_ne_eq (named n (mem_sortBy.mp nIn))
    (named m (mem_sortBy.mp mIn)) ne
  cases order : n.deepestFirst m with
  | lt => rfl
  | eq => exact absurd order strict
  | gt =>
      rw [order] at before
      cases before

include plain

/-- A deletion that succeeds leaves the members whose paths run through the place of a member that
came before them and is gone. When no path runs through the place of a member that comes before,
nothing is left of the members. -/
theorem exists_left_iff_of_delete (succeeded : (s.delete d).1 = true) :
    (∀ m ∈ s.members, (∃ node, (s.delete d).2.find? m.place = some node) ↔
      ∃ n ∈ s.members, n.deepestFirst m = .lt ∧ d.RunsThrough .keep m.path n.place ∧
        (s.delete d).2.find? n.place = none) ∧
    ((∀ m ∈ s.members, ∀ n ∈ s.members, n.deepestFirst m = .lt →
        ¬d.RunsThrough .keep m.path n.place) →
      ∀ m ∈ s.members, (s.delete d).2.find? m.place = none) := by
  have start : Taken d [] fun _ => False := ⟨fun _ => False.elim, List.forall_mem_nil _⟩
  obtain ⟨gone, taken, lacks⟩ := start.deleteIn plain (.refl d) (List.nil_append _).symm
    (pairwise_deepestFirst wf distinct present)
    (fun m inside => present m (mem_sortBy.mp inside)) succeeded
  have missing : ∀ m ∈ s.members, (s.delete d).2.find? m.place = none ↔ gone m.place := by
    intro m inside
    obtain ⟨node, led⟩ := present m inside
    refine ⟨fun free => ?_, lacks.free⟩
    by_contra left
    have found := (Disk.look_eq_ok_iff.mp led).2
    exact nomatch free.symm.trans ((lacks.rest left).trans found)
  have each : ∀ m ∈ s.members, (∃ node, (s.delete d).2.find? m.place = some node) ↔
      ∃ n ∈ s.members, n.deepestFirst m = .lt ∧ d.RunsThrough .keep m.path n.place ∧
        (s.delete d).2.find? n.place = none := by
    intro m inside
    rw [← Option.ne_none_iff_exists', Ne, missing m inside,
      taken.gone_iff m (mem_sortBy.mpr inside)]
    push Not
    constructor
    · rintro ⟨n, nIn, before, was, runs⟩
      exact ⟨n, mem_sortBy.mp nIn, before, runs, (missing n (mem_sortBy.mp nIn)).mpr was⟩
    · rintro ⟨n, nIn, before, runs, free⟩
      exact ⟨n, mem_sortBy.mpr nIn, before, (missing n nIn).mp free, runs⟩
  refine ⟨each, fun apart m inside => ?_⟩
  rw [Option.eq_none_iff_forall_ne_some]
  intro node found
  obtain ⟨n, nIn, before, runs, _⟩ := (each m inside).mp ⟨node, found⟩
  exact apart m inside n nIn before runs

end Delete

/-- An empty directory and a file beside it. -/
def beside (name : Name) : Disk :=
  ((⟨[], []⟩ : Disk).put ["aa"] .directory).put [name] (.file .empty)

theorem wellFormed_beside {name : Name} (named : IsEntryName name) (other : name ≠ "aa") :
    (beside name).WellFormed := by
  have wf := Disk.WellFormed.nothing []
  have wf := wf.put_free [] "aa" (by decide) rfl rfl .directory
  have free : ((⟨[], []⟩ : Disk).put ["aa"] .directory).find? [name] = none := by
    rw [Disk.find?_put _ (by decide), if_neg fun same => other (List.cons.inj same).1]
    rfl
  exact wf.put_free [] name named rfl free (.file .empty)

theorem isPlainBelow_beside (name : Name) : (beside name).IsPlainBelow [] := by
  refine .put (.put (.nothing [] []) (by decide) ?_) (List.cons_ne_nil name []) ?_ <;>
    exact fun _ link => nomatch link

/-- The file by a path that goes through the directory, and the directory. -/
def fileFirst : Selection :=
  (((empty .standard).addPath (beside "file") "/aa" "../file").1.addPath (beside "file") "/" "aa").1

theorem members_fileFirst :
    fileFirst.members = [⟨"/aa", "../file", ["file"]⟩, ⟨"/", "aa", ["aa"]⟩] := by decide +kernel

/-- The file has the longer name and goes first, and nothing is left. -/
theorem exists_left_iff_of_delete_fileFirst :
    (beside "file").WellFormed ∧ (beside "file").IsPlainBelow [] ∧ fileFirst.Reachable ∧
      fileFirst.members = [⟨"/aa", "../file", ["file"]⟩, ⟨"/", "aa", ["aa"]⟩] ∧
      (fileFirst.delete (beside "file")).1 = true ∧
      ∀ m ∈ fileFirst.members, (fileFirst.delete (beside "file")).2.find? m.place = none := by
  have wf : (beside "file").WellFormed := wellFormed_beside (by decide) (by decide)
  have plain := isPlainBelow_beside "file"
  have reachable : fileFirst.Reachable :=
    .addPath (beside "file") "/" "aa" (.addPath (beside "file") "/aa" "../file" (.new .standard))
  have present : ∀ m ∈ fileFirst.members,
      ∃ node, (beside "file").look .follow m.path = .ok (m.place, node) := by
    rw [members_fileFirst]
    exact List.forall_mem_cons.mpr ⟨⟨.file .empty, rfl⟩,
      List.forall_mem_singleton.mpr ⟨.directory, rfl⟩⟩
  have succeeded : (fileFirst.delete (beside "file")).1 = true := by
    rw [delete_eq_deleteIn (by decide +kernel)]
    decide +kernel
  have apart : ∀ m ∈ fileFirst.members, ∀ n ∈ fileFirst.members, n.deepestFirst m = .lt →
      ¬(beside "file").RunsThrough .keep m.path n.place := by
    have around : ¬(beside "file").RunsThrough .keep "/aa" ["file"] := by
      have before : (beside "file").resolve .keep "/aa" = .ok ["aa"] := rfl
      have after : ((beside "file").erase ["file"]).resolve .keep "/aa" = .ok ["aa"] := rfl
      exact fun runs => runs (after.trans before.symm)
    rw [members_fileFirst]
    refine List.forall_mem_cons.mpr ⟨?_, List.forall_mem_singleton.mpr ?_⟩ <;>
      refine List.forall_mem_cons.mpr ⟨fun before => ?_, List.forall_mem_singleton.mpr
        fun before => ?_⟩
    · exact absurd before (by decide +kernel)
    · exact absurd before (by decide +kernel)
    · exact around
    · exact absurd before (by decide +kernel)
  exact ⟨wf, plain, reachable, members_fileFirst, succeeded,
    (exists_left_iff_of_delete wf plain reachable.isProper.distinct present succeeded).2 apart⟩

/-- The directory, and the file by a path that goes through it. -/
def directoryFirst : Selection :=
  (((empty .standard).addPath (beside "f") "/" "aa").1.addPath (beside "f") "/aa" "../f").1

/-- The file has the shorter name and stays, and the deletion is said to have succeeded. -/
theorem delete_succeeds_directoryFirst :
    (beside "f").WellFormed ∧ (beside "f").IsPlainBelow [] ∧ directoryFirst.Reachable ∧
      directoryFirst.members = [⟨"/", "aa", ["aa"]⟩, ⟨"/aa", "../f", ["f"]⟩] ∧
      (directoryFirst.delete (beside "f")).1 = true ∧
      ((directoryFirst.delete (beside "f")).2.find? ["f"]).isSome = true := by
  have members : directoryFirst.members =
      [⟨"/", "aa", ["aa"]⟩, ⟨"/aa", "../f", ["f"]⟩] := by decide +kernel
  refine ⟨wellFormed_beside (by decide) (by decide), isPlainBelow_beside "f",
    .addPath (beside "f") "/aa" "../f" (.addPath (beside "f") "/" "aa" (.new .standard)),
    members, ?_⟩
  rw [delete_eq_deleteIn (by decide +kernel)]
  decide +kernel

end Selection

end FileSelect
